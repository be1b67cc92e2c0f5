import LocalHttp.Json.Numeral
import LocalHttp.Proofs.Rounding
import Mathlib.Tactic.NormNum

namespace LocalHttp.Binary64

section Neighbourhoods

variable {h : Neighbourhood} {num den d : Nat}

def Neighbourhood.contains (h : Neighbourhood) (num den d : Nat) : Bool :=
  if h.closed then h.low * num ≤ d * den && d * den ≤ h.high * num
  else h.low * num < d * den && d * den < h.high * num

theorem Neighbourhood.bounds_of_contains (hd : h.contains num den d = true) :
    h.low * num ≤ d * den ∧ d * den ≤ h.high * num := by
  unfold contains at hd
  split at hd
  · simpa using hd
  · simp only [Bool.and_eq_true, decide_eq_true_eq] at hd
    exact ⟨hd.1.le, hd.2.le⟩

theorem Neighbourhood.contains_of_lt (hlow : h.low * num < d * den)
    (hhigh : d * den < h.high * num) : h.contains num den d = true := by
  unfold contains
  split
  · simp [hlow.le, hhigh.le]
  · simp [hlow, hhigh]

theorem pointOnGrid_eq (h : Neighbourhood) (num den : Nat) :
    pointOnGrid h num den =
      match h.contains num den (h.value * num / den),
        h.contains num den (h.value * num / den + 1) with
      | true, true =>
        if 2 * (h.value * num - h.value * num / den * den) < den ∨
            (2 * (h.value * num - h.value * num / den * den) = den ∧
              h.value * num / den % 2 = 0) then
          some (h.value * num / den)
        else some (h.value * num / den + 1)
      | true, false => some (h.value * num / den)
      | false, true => some (h.value * num / den + 1)
      | false, false => none := rfl

theorem pointOnGrid_bounds (hd : pointOnGrid h num den = some d) :
    h.low * num ≤ d * den ∧ d * den ≤ h.high * num := by
  rw [pointOnGrid_eq] at hd
  apply Neighbourhood.bounds_of_contains
  split at hd
  · split at hd
    all_goals
      cases hd
      assumption
  · cases hd
    assumption
  · cases hd
    assumption
  · cases hd

structure Neighbourhood.Wide (h : Neighbourhood) : Prop where
  positive : 0 < h.low
  above : h.low < h.value
  below : h.value < h.high
  width : h.low + 3 ≤ h.high

theorem wide_neighbourhood {m : Nat} (hm : 0 < m) (e : Int) : (neighbourhood m e).Wide := by
  unfold neighbourhood
  constructor
  all_goals
    dsimp only
    try split
    all_goals omega

/-- A grid that is finer than that has a point between the ends: if the one below the value is
not, the one above it is. -/
theorem exists_pointOnGrid (hh : h.Wide) (hden : 0 < den) (hfine : den < 3 * num) :
    ∃ d, pointOnGrid h num den = some d := by
  have hnum : 0 < num := by omega
  have hbelow : h.value * num / den * den ≤ h.value * num := Nat.div_mul_le_self _ _
  have habove : h.value * num < (h.value * num / den + 1) * den := by
    rw [Nat.mul_comm _ den]
    exact Nat.lt_mul_div_succ _ hden
  have hlow : h.low * num < h.value * num := Nat.mul_lt_mul_of_pos_right hh.above hnum
  have hhigh : h.value * num < h.high * num := Nat.mul_lt_mul_of_pos_right hh.below hnum
  rw [pointOnGrid_eq]
  generalize h.value * num / den = b at hbelow habove ⊢
  cases hb : h.contains num den b with
  | true =>
    cases h.contains num den (b + 1) with
    | true =>
      dsimp only
      split
      · exact ⟨b, rfl⟩
      · exact ⟨b + 1, rfl⟩
    | false => exact ⟨b, rfl⟩
  | false =>
    have hout : b * den ≤ h.low * num := by
      by_contra hin
      rw [Neighbourhood.contains_of_lt (Nat.lt_of_not_le hin) (by omega)] at hb
      cases hb
    have hnext : (b + 1) * den < h.high * num := by
      calc (b + 1) * den = b * den + den := Nat.succ_mul b den
        _ < h.low * num + 3 * num := by omega
        _ = (h.low + 3) * num := (Nat.add_mul _ _ _).symm
        _ ≤ h.high * num := Nat.mul_le_mul_right _ hh.width
    rw [Neighbourhood.contains_of_lt (by omega) hnext]
    exact ⟨b + 1, rfl⟩

end Neighbourhoods

section Search

/-- Few digits, of a positive number up to a limit, from a place that is not very low. -/
structure Digits.Within (x : Digits) (limit : ℚ) : Prop where
  positive : 0 < x.digits
  few : x.digits ≤ 2 ^ 57
  place : -350 ≤ x.exponent
  le : x.digits * 10 ^ x.exponent ≤ limit

theorem ten_zpow_pos (k : Int) : (0 : ℚ) < 10 ^ k := zpow_pos (by norm_num) k

variable {h : Neighbourhood} {e k : Int} {d : Nat}

def gridNum (e k : Int) : Nat := Nat.pow 2 (e - 2).toNat * Nat.pow 10 (-k).toNat

def gridDen (e k : Int) : Nat := Nat.pow 2 (2 - e).toNat * Nat.pow 10 k.toNat

theorem gridDen_pos (e k : Int) : 0 < gridDen e k :=
  Nat.mul_pos (Nat.two_pow_pos _) (Nat.pow_pos (by decide))

theorem grid_ratio (e k : Int) :
    (gridNum e k : ℚ) * 10 ^ k = gridDen e k * 2 ^ (e - 2) := by
  rw [zpow_eq_div two_ne_zero (e - 2), zpow_eq_div (by norm_num) k, Int.neg_sub]
  simp only [gridNum, gridDen, Nat.pow_eq]
  push_cast
  field_simp

theorem within_of_point (hh : h.Wide)
    (hd : pointOnGrid h (gridNum e k) (gridDen e k) = some d) (hplace : -350 ≤ k)
    (hfew : scale h.high (e - 2) ≤ 2 ^ 57 * 10 ^ k) :
    (Digits.mk d k).Within (scale h.high (e - 2)) := by
  have hden : (0 : ℚ) < gridDen e k := by exact_mod_cast gridDen_pos e k
  have hten := ten_zpow_pos k
  have hratio := grid_ratio e k
  obtain ⟨hlow, hhigh⟩ := pointOnGrid_bounds hd
  have hnum : 0 < gridNum e k := by
    have hprod : (0 : ℚ) < gridNum e k * 10 ^ k := by
      rw [hratio]
      exact mul_pos hden (zpow_pos two_pos _)
    exact_mod_cast pos_of_mul_pos_left hprod hten.le
  have hle : (d : ℚ) * 10 ^ k ≤ scale h.high (e - 2) := by
    have hcast : (d : ℚ) * gridDen e k ≤ h.high * gridNum e k := by exact_mod_cast hhigh
    have hscaled := mul_le_mul_of_nonneg_right hcast hten.le
    rw [mul_assoc (h.high : ℚ), hratio] at hscaled
    have hsame : (gridDen e k : ℚ) * (d * 10 ^ k) ≤ gridDen e k * (h.high * 2 ^ (e - 2)) := by
      linarith
    exact le_of_mul_le_mul_left hsame hden
  refine ⟨?_, ?_, hplace, hle⟩
  · have hpositive : 0 < d * gridDen e k :=
      Nat.lt_of_lt_of_le (Nat.mul_pos hh.positive hnum) hlow
    exact Nat.pos_of_mul_pos_right hpositive
  · have hboth := le_of_mul_le_mul_right (hle.trans hfew) hten
    exact_mod_cast hboth

theorem coarse_of_no_point (hh : h.Wide)
    (hnone : pointOnGrid h (gridNum e k) (gridDen e k) = none) :
    3 * 2 ^ (e - 2) ≤ (10 : ℚ) ^ k := by
  by_contra hfine
  have hden : (0 : ℚ) < gridDen e k := by exact_mod_cast gridDen_pos e k
  have hless : (gridDen e k : ℚ) * 10 ^ k < 3 * gridNum e k * 10 ^ k := by
    calc (gridDen e k : ℚ) * 10 ^ k < gridDen e k * (3 * 2 ^ (e - 2)) :=
        mul_lt_mul_of_pos_left (not_le.1 hfine) hden
      _ = 3 * gridNum e k * 10 ^ k := by
        rw [mul_assoc (3 : ℚ), grid_ratio]
        ring
  have hcast := lt_of_mul_lt_mul_right hless (ten_zpow_pos k).le
  obtain ⟨d, hd⟩ := exists_pointOnGrid hh (gridDen_pos e k) (by exact_mod_cast hcast)
  rw [hd] at hnone
  cases hnone

theorem searchGrids_succ (h : Neighbourhood) (e : Int) (fuel : Nat) (k : Int) :
    searchGrids h e (fuel + 1) k =
      match pointOnGrid h (gridNum e k) (gridDen e k) with
      | some d => ⟨d, k⟩
      | none => searchGrids h e fuel (k - 1) := rfl

theorem few_of_coarse (hhigh : h.high ≤ 2 ^ 55) (hcoarse : 3 * 2 ^ (e - 2) ≤ (10 : ℚ) ^ k) :
    scale h.high (e - 2) ≤ 2 ^ 57 * 10 ^ (k - 1) := by
  have hcast : (h.high : ℚ) ≤ 2 ^ 55 := by exact_mod_cast hhigh
  have hquarter : (0 : ℚ) < 2 ^ (e - 2) := zpow_pos two_pos _
  calc scale h.high (e - 2) ≤ 2 ^ 55 * 2 ^ (e - 2) :=
        mul_le_mul_of_nonneg_right hcast hquarter.le
    _ ≤ 2 ^ 57 * (3 * 2 ^ (e - 2) / 10) := by linarith
    _ ≤ 2 ^ 57 * (10 ^ k / 10) := by linarith
    _ = 2 ^ 57 * 10 ^ (k - 1) := by rw [zpow_sub_one₀ (by norm_num), div_eq_mul_inv]

/-- The search ends on a grid with few digits: only a coarse grid is without a point. -/
theorem within_searchGrids (hh : h.Wide) (hhigh : h.high ≤ 2 ^ 55) {fuel : Nat}
    (hplace : -350 ≤ k - fuel) (hfine : (10 : ℚ) ^ (k - fuel) < 3 * 2 ^ (e - 2))
    (hfew : scale h.high (e - 2) ≤ 2 ^ 57 * 10 ^ k) :
    (searchGrids h e (fuel + 1) k).Within (scale h.high (e - 2)) := by
  induction fuel generalizing k with
  | zero =>
    rw [Nat.cast_zero, sub_zero] at hplace hfine
    rw [searchGrids_succ]
    cases hd : pointOnGrid h (gridNum e k) (gridDen e k) with
    | none => exact absurd (coarse_of_no_point hh hd) (not_le.2 hfine)
    | some d => exact within_of_point hh hd hplace hfew
  | succ fuel ih =>
    have hstep : k - (fuel + 1 : Nat) = k - 1 - fuel := by omega
    rw [hstep] at hplace hfine
    rw [searchGrids_succ]
    cases hd : pointOnGrid h (gridNum e k) (gridDen e k) with
    | none => exact ih hplace hfine (few_of_coarse hhigh (coarse_of_no_point hh hd))
    | some d => exact within_of_point hh hd (by omega) hfew

theorem Digits.Within.trimZeros {x : Digits} {limit : ℚ} (hx : x.Within limit) (fuel : Nat) :
    (trimZeros fuel x).Within limit := by
  induction fuel generalizing x with
  | zero => exact hx
  | succ fuel ih =>
    rw [Binary64.trimZeros]
    split
    · rename_i hzero
      have hten : x.digits = x.digits / 10 * 10 := by omega
      apply ih
      refine ⟨?_, ?_, ?_, ?_⟩
      · have := hx.positive
        dsimp only
        omega
      · have := hx.few
        dsimp only
        omega
      · have := hx.place
        dsimp only
        omega
      · have hsame : ((x.digits / 10 : Nat) : ℚ) * 10 ^ (x.exponent + 1) =
            x.digits * 10 ^ x.exponent := by
          conv_rhs => rw [hten]
          rw [zpow_add_one₀ (by norm_num), Nat.cast_mul]
          push_cast
          ring
        exact hsame.trans_le hx.le
    · exact hx

end Search

section Places

def firstPlace (top : Int) : Int := Int.fdiv ((top + 1) * 30103) 100000 + 1

theorem shortest_eq (m : Nat) (e : Int) : shortest m e =
    trimZeros 20 (searchGrids (neighbourhood m e) e 25 (firstPlace (e + m.log2))) := rfl

/-- `b^i ≤ c^j`, decided over the natural numbers. -/
def powerLe (b c : Nat) (i j : Int) : Bool :=
  b ^ i.toNat * c ^ (-j).toNat ≤ c ^ j.toNat * b ^ (-i).toNat

theorem zpow_le_of_powerLe {b c : Nat} {i j : Int} (hb : 0 < b) (hc : 0 < c)
    (h : powerLe b c i j = true) : (b : ℚ) ^ i ≤ (c : ℚ) ^ j := by
  have hbq : (0 : ℚ) < b := by exact_mod_cast hb
  have hcq : (0 : ℚ) < c := by exact_mod_cast hc
  rw [zpow_eq_div hbq.ne', zpow_eq_div hcq.ne', div_le_div_iff₀ (by positivity) (by positivity)]
  unfold powerLe at h
  exact_mod_cast of_decide_eq_true h

def placeFits (top : Int) : Bool :=
  powerLe 2 10 (top - 55) (firstPlace top) && powerLe 10 2 (firstPlace top - 24) (top - 55) &&
    -350 ≤ firstPlace top - 24

theorem placeFits_all : ((List.range 2098).all fun n ↦ placeFits (n - 1074)) = true := by
  decide +kernel

theorem firstPlace_bounds {top : Int} (hlow : -1074 ≤ top) (hhigh : top ≤ 1023) :
    (2 : ℚ) ^ (top - 55) ≤ 10 ^ firstPlace top ∧
      (10 : ℚ) ^ (firstPlace top - 24) ≤ 2 ^ (top - 55) ∧ -350 ≤ firstPlace top - 24 := by
  have htop : (((top + 1074).toNat : Nat) : Int) - 1074 = top := by omega
  have hfits := List.all_eq_true.1 placeFits_all (top + 1074).toNat (List.mem_range.2 (by omega))
  rw [htop, placeFits, Bool.and_eq_true, Bool.and_eq_true, decide_eq_true_eq] at hfits
  exact ⟨by exact_mod_cast zpow_le_of_powerLe (by decide) (by decide) hfits.1.1,
    by exact_mod_cast zpow_le_of_powerLe (by decide) (by decide) hfits.1.2, hfits.2⟩

theorem within_shortest {m : Nat} {e : Int} (hm : 0 < m) (hr : Representable m e) :
    (shortest m e).Within (scale (4 * m + 2) (e - 2)) := by
  have hlog : m.log2 ≤ 52 := by
    have hlt := (Nat.log2_lt hm.ne').2 hr.significand
    omega
  have hlowest := hr.lowest
  have hhighest := hr.highest
  unfold lowestExponent at hlowest
  unfold highestExponent at hhighest
  obtain ⟨hnear, hfar, hplace⟩ :=
    @firstPlace_bounds (e + m.log2) (by omega) (by omega)
  rw [shortest_eq]
  apply Digits.Within.trimZeros
  apply within_searchGrids (wide_neighbourhood hm e)
  · have hs := hr.significand
    simp only [neighbourhood]
    omega
  · exact hplace
  · calc (10 : ℚ) ^ (firstPlace (e + m.log2) - 24) ≤ 2 ^ (e + m.log2 - 55) := hfar
      _ ≤ 2 ^ (e - 2) := zpow_le_zpow_right₀ one_le_two (by omega)
      _ < 3 * 2 ^ (e - 2) := by
        have hquarter : (0 : ℚ) < 2 ^ (e - 2) := zpow_pos two_pos _
        linarith
  · have hdigits : 4 * m + 2 ≤ 2 ^ (m.log2 + 4) := by
      have hlt : m < 2 ^ (m.log2 + 1) := Nat.lt_log2_self
      have hpow : 2 ^ (m.log2 + 4) = 8 * 2 ^ (m.log2 + 1) := by ring
      omega
    have hcast : ((4 * m + 2 : Nat) : ℚ) ≤ 2 ^ (m.log2 + 4) := by exact_mod_cast hdigits
    calc scale (4 * m + 2) (e - 2) ≤ 2 ^ (m.log2 + 4) * 2 ^ (e - 2) :=
          mul_le_mul_of_nonneg_right hcast (zpow_pos two_pos _).le
      _ = 2 ^ 57 * 2 ^ (e + m.log2 - 55) := by
        rw [← zpow_natCast, ← zpow_natCast, ← zpow_add₀ two_ne_zero, ← zpow_add₀ two_ne_zero]
        congr 1
        push_cast
        omega
      _ ≤ 2 ^ 57 * 10 ^ firstPlace (e + m.log2) := by linarith

theorem exponent_shortest_le {m : Nat} {e : Int} (hm : 0 < m) (hr : Representable m e) :
    (shortest m e).exponent ≤ 1024 := by
  have hwithin := within_shortest hm hr
  have hs := hr.significand
  have hhighest := hr.highest
  unfold highestExponent at hhighest
  have hone : (1 : ℚ) ≤ (shortest m e).digits := by exact_mod_cast hwithin.positive
  have hdigits : ((4 * m + 2 : Nat) : ℚ) ≤ 2 ^ (55 : Int) := by
    have hnat : 4 * m + 2 ≤ 2 ^ 55 := by omega
    exact_mod_cast hnat
  have hpow : (10 : ℚ) ^ (shortest m e).exponent ≤ 10 ^ (1024 : Int) := by
    calc (10 : ℚ) ^ (shortest m e).exponent
        ≤ (shortest m e).digits * 10 ^ (shortest m e).exponent :=
          le_mul_of_one_le_left (ten_zpow_pos _).le hone
      _ ≤ scale (4 * m + 2) (e - 2) := hwithin.le
      _ ≤ 2 ^ (55 : Int) * 2 ^ (e - 2) :=
        mul_le_mul_of_nonneg_right hdigits (zpow_pos two_pos _).le
      _ = 2 ^ (55 + (e - 2)) := (zpow_add₀ two_ne_zero _ _).symm
      _ ≤ 2 ^ (1024 : Int) := zpow_le_zpow_right₀ one_le_two (by omega)
      _ ≤ 10 ^ (1024 : Int) := zpow_le_zpow_left₀ (by norm_num) two_pos.le (by norm_num)
  exact (zpow_le_zpow_iff_right₀ (by norm_num)).1 hpow

end Places

section Products

/-- The upper end of the interval that rounds to the number below the greatest one. -/
def greatestButOne : Nat := (2 ^ 55 - 6) * 2 ^ 969

def digitBound (k : Nat) : Nat := if k < 292 then 2 ^ 57 else greatestButOne / 10 ^ k

def scaleLe (m : Nat) (e : Int) (n : Nat) (f : Int) : Bool :=
  m * 2 ^ e.toNat * 2 ^ (-f).toNat ≤ n * 2 ^ f.toNat * 2 ^ (-e).toNat

theorem scale_le_of_scaleLe {m n : Nat} {e f : Int} (h : scaleLe m e n f = true) :
    scale m e ≤ scale n f := by
  unfold scaleLe at h
  have hcast : (m : ℚ) * 2 ^ e.toNat * 2 ^ (-f).toNat ≤ n * 2 ^ f.toNat * 2 ^ (-e).toNat := by
    exact_mod_cast of_decide_eq_true h
  rw [scale, scale, zpow_eq_div two_ne_zero e, zpow_eq_div two_ne_zero f, ← mul_div_assoc,
    ← mul_div_assoc, div_le_div_iff₀ (by positivity) (by positivity)]
  exact hcast

def greatest : Nat := 2 ^ 53 - 1

theorem representable_greatest : Representable greatest highestExponent :=
  ⟨by decide, by decide, le_rfl⟩

/-- The bound of the digits is not above a number whose product with the rounded power of ten is
not above the greatest number. -/
def productFits (k : Nat) : Bool :=
  match ofNat (digitBound k), ofRatio false (Nat.pow 10 k) 1 with
  | .finite _ b f, .finite _ m e =>
    b < 2 ^ 53 && lowestExponent ≤ f && f ≤ highestExponent && scaleLe (digitBound k) 0 b f &&
      scaleLe (b * m) (f + e) greatest highestExponent
  | _, _ => false

theorem productFits_all : (List.range 309).all productFits = true := by decide +kernel

theorem isInfinite_of_le_digitBound {d k : Nat} (hd : d ≤ digitBound k) (hk : k < 309) :
    ((ofNat d).mulPow10 k).isInfinite = false := by
  have hfits := List.all_eq_true.1 productFits_all k (List.mem_range.2 hk)
  unfold productFits at hfits
  split at hfits
  · rename_i b f _ m e hbound hpower
    simp only [Bool.and_eq_true, decide_eq_true_eq] at hfits
    obtain ⟨⟨⟨⟨hb, hlow⟩, hhigh⟩, hle⟩, hproduct⟩ := hfits
    have hd' : (d : ℚ) / (1 : Nat) ≤ scale b f := by
      have hcast : (d : ℚ) ≤ digitBound k := by exact_mod_cast hd
      have hbound := scale_le_of_scaleLe hle
      rw [scale, zpow_zero, mul_one] at hbound
      rw [Nat.cast_one, div_one]
      exact hcast.trans hbound
    obtain ⟨n, g, hn, hng⟩ := ofRatio_le Nat.one_pos ⟨hb, hlow, hhigh⟩ hd' false
    rw [ofNat, hn]
    apply isInfinite_mulPow10 hpower representable_greatest
    calc scale n g * scale m e ≤ scale b f * scale m e :=
          mul_le_mul_of_nonneg_right hng (scale_nonneg m e)
      _ = scale (b * m) (f + e) := scale_mul b m f e
      _ ≤ scale greatest highestExponent := scale_le_of_scaleLe hproduct
  · cases hfits

theorem Digits.Within.le_digitBound {x : Digits} (hx : x.Within greatestButOne) {k : Nat}
    (hk : x.exponent = k) : x.digits ≤ digitBound k ∧ k < 309 := by
  have hle : x.digits * 10 ^ k ≤ greatestButOne := by
    have hlimit := hx.le
    rw [hk, zpow_natCast] at hlimit
    exact_mod_cast hlimit
  constructor
  · unfold digitBound
    split
    · exact hx.few
    · exact (Nat.le_div_iff_mul_le (Nat.pow_pos (by decide))).2 hle
  · have hlimit : greatestButOne < 10 ^ 309 := by decide +kernel
    by_contra hk
    have hpow := Nat.pow_le_pow_right (show 0 < 10 by decide) (Nat.le_of_not_lt hk)
    have hmul : 10 ^ k ≤ x.digits * 10 ^ k := Nat.le_mul_of_pos_left _ hx.positive
    omega

theorem scale_le_greatestButOne {m : Nat} {e : Int} (hr : Representable m e)
    (hless : ¬(m = greatest ∧ e = highestExponent)) :
    scale (4 * m + 2) (e - 2) ≤ greatestButOne := by
  have hs := hr.significand
  have hhighest := hr.highest
  unfold greatest highestExponent at *
  have hpow (n : Int) : (0 : ℚ) < 2 ^ n := zpow_pos two_pos n
  have hlimit : (greatestButOne : ℚ) = scale (2 ^ 55 - 6) 969 := by
    rw [greatestButOne, scale, Nat.cast_mul, Nat.cast_pow, Nat.cast_ofNat, zpow_ofNat]
  rw [hlimit]
  rcases Int.lt_or_eq_of_le hhighest with he | rfl
  · have hdigits : 4 * m + 2 ≤ 2 ^ 55 := by omega
    calc scale (4 * m + 2) (e - 2) ≤ scale (2 ^ 55) 968 := by
          apply mul_le_mul (by exact_mod_cast hdigits) _ (hpow _).le (Nat.cast_nonneg _)
          exact zpow_le_zpow_right₀ one_le_two (by omega)
      _ ≤ scale (2 ^ 55 - 6) 969 := scale_le_of_scaleLe (by decide +kernel)
  · have hdigits : 4 * m + 2 ≤ 2 ^ 55 - 6 := by omega
    exact mul_le_mul_of_nonneg_right (by exact_mod_cast hdigits) (hpow _).le

end Products

end LocalHttp.Binary64

namespace LocalHttp.Json

open Binary64 (ofNat shortest)

theorem isSome_scaled_of_neg {exponent : Int} (h : exponent < 0) (fuel : Nat) (x : Binary64) :
    (scaled fuel x exponent).isSome = true := by
  have hneg : ¬0 ≤ exponent := Int.not_le.2 h
  induction fuel generalizing exponent x with
  | zero =>
    unfold scaled
    simp only [hneg, ↓reduceIte]
    split
    · rfl
    · split <;> rfl
  | succ fuel ih =>
    unfold scaled
    simp only [hneg, ↓reduceIte]
    split
    · rfl
    · rename_i hfar
      have hnext : exponent + maxPower < 0 := by omega
      split
      · rfl
      · exact ih hnext _ (Int.not_le.2 hnext)

theorem isSome_scaled_of_nonneg {k : Nat} {x : Binary64} (hk : k ≤ maxPower)
    (hx : (x.mulPow10 k).isInfinite = false) (fuel : Nat) : (scaled fuel x k).isSome = true := by
  unfold scaled
  simp [hk, hx]

/-- The digits that are written for a number are read within the range. -/
theorem isSome_scaled_shortest {m : Nat} {e : Int} (hm : 0 < m)
    (hr : Binary64.Representable m e) :
    (scaled 3 (ofNat (shortest m e).digits) (shortest m e).exponent).isSome = true := by
  by_cases hgreatest : m = Binary64.greatest ∧ e = Binary64.highestExponent
  · obtain ⟨rfl, rfl⟩ := hgreatest
    decide +kernel
  · have hwithin := Binary64.within_shortest hm hr
    have hx : (shortest m e).Within Binary64.greatestButOne :=
      { hwithin with le := hwithin.le.trans (Binary64.scale_le_greatestButOne hr hgreatest) }
    rcases Int.lt_or_le (shortest m e).exponent 0 with hneg | hpos
    · exact isSome_scaled_of_neg hneg 3 _
    · obtain ⟨k, hk⟩ := Int.eq_ofNat_of_zero_le hpos
      obtain ⟨hdigits, hplace⟩ := hx.le_digitBound hk
      rw [hk]
      exact isSome_scaled_of_nonneg (Nat.le_of_lt_succ hplace)
        (Binary64.isInfinite_of_le_digitBound hdigits hplace) 3

end LocalHttp.Json
