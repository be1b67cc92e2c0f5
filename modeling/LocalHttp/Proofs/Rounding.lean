import LocalHttp.Binary64
import Mathlib.Algebra.Order.Field.Power
import Mathlib.Data.Rat.Cast.Order
import Mathlib.Tactic.FieldSimp
import Mathlib.Tactic.Linarith
import Mathlib.Tactic.Ring

namespace LocalHttp.Binary64

def scale (m : Nat) (e : Int) : ℚ := m * 2 ^ e

/-- The significands and exponents of finite numbers. -/
structure Representable (m : Nat) (e : Int) : Prop where
  significand : m < 2 ^ 53
  lowest : lowestExponent ≤ e
  highest : e ≤ highestExponent

def WellFormed : Binary64 → Prop
  | .finite _ m e => Representable m e
  | _ => True

theorem scale_nonneg (m : Nat) (e : Int) : 0 ≤ scale m e := by
  unfold scale
  positivity

theorem scale_zero (e : Int) : scale 0 e = 0 := by
  rw [scale, Nat.cast_zero, zero_mul]

theorem scale_mul (m n : Nat) (e f : Int) : scale m e * scale n f = scale (m * n) (e + f) := by
  simp only [scale, Nat.cast_mul, zpow_add₀ (two_ne_zero (α := ℚ))]
  ring

theorem scale_carry (n : Nat) (e : Int) : scale (2 ^ (n + 1)) e = scale (2 ^ n) (e + 1) := by
  rw [scale, scale, zpow_add_one₀ two_ne_zero, pow_succ, Nat.cast_mul, Nat.cast_ofNat]
  ring

theorem zpow_eq_div {b : ℚ} (hb : b ≠ 0) (e : Int) : b ^ e = b ^ e.toNat / b ^ (-e).toNat := by
  rw [← zpow_natCast, ← zpow_natCast, ← zpow_sub₀ hb]
  congr 1
  omega

theorem scaleDown_ratio (num den : Nat) (e : Int) :
    ((scaleDown num den e).1 : ℚ) / (scaleDown num den e).2 = num / den / 2 ^ e := by
  have htwo : (2 : ℚ) ≠ 0 := two_ne_zero
  rw [zpow_eq_div htwo]
  simp only [scaleDown, Nat.pow_eq, Nat.cast_mul, Nat.cast_pow, Nat.cast_ofNat]
  field_simp

theorem scaleDown_pos {den : Nat} (hden : 0 < den) (num : Nat) (e : Int) :
    0 < (scaleDown num den e).2 := Nat.mul_pos hden (Nat.two_pow_pos _)

theorem zpow_log2_le {n : Nat} (hn : 0 < n) : (2 : ℚ) ^ (n.log2 : Int) ≤ n := by
  rw [zpow_natCast]
  exact_mod_cast Nat.log2_self_le hn.ne'

theorem lt_zpow_log2 (n : Nat) : (n : ℚ) < 2 ^ ((n.log2 : Int) + 1) := by
  have hlt : n < 2 ^ (n.log2 + 1) := Nat.lt_log2_self
  have hcast : ((n.log2 : Int) + 1) = ((n.log2 + 1 : Nat) : Int) := by push_cast; rfl
  rw [hcast, zpow_natCast]
  exact_mod_cast hlt

theorem zpow_magnitude_le {num den : Nat} (hnum : 0 < num) (hden : 0 < den) :
    (2 : ℚ) ^ magnitude num den ≤ num / den := by
  have htwo : (0 : ℚ) < 2 := two_pos
  have hratio := scaleDown_ratio num den ((num.log2 : Int) - den.log2)
  have hd : (0 : ℚ) < (scaleDown num den ((num.log2 : Int) - den.log2)).2 := by
    exact_mod_cast scaleDown_pos hden num _
  simp only [magnitude]
  split
  · rename_i hle
    have hone : (1 : ℚ) ≤ num / den / 2 ^ ((num.log2 : Int) - den.log2) := by
      rw [← hratio, one_le_div₀ hd]
      exact_mod_cast hle
    rwa [one_le_div₀ (zpow_pos htwo _)] at hone
  · have hq : (0 : ℚ) < den := by exact_mod_cast hden
    have hsplit : (2 : ℚ) ^ ((num.log2 : Int) - den.log2 - 1) =
        2 ^ (num.log2 : Int) / 2 ^ ((den.log2 : Int) + 1) := by
      rw [← zpow_sub₀ htwo.ne']
      congr 1
      omega
    rw [hsplit]
    exact div_le_div₀ (Nat.cast_nonneg _) (zpow_log2_le hnum) hq (lt_zpow_log2 den).le

theorem roundHalfEven_le {num den k : Nat} (hden : 0 < den) (h : num ≤ k * den) :
    roundHalfEven num den ≤ k := by
  have hq : num / den ≤ k := Nat.div_le_of_le_mul (by rwa [Nat.mul_comm])
  simp only [roundHalfEven]
  split
  · rename_i hup
    rcases Nat.lt_or_eq_of_le hq with hlt | heq
    · exact hlt
    · -- at the bound itself nothing is left over to round up
      have hmod := Nat.div_add_mod num den
      rw [heq, Nat.mul_comm] at hmod
      omega
  · exact hq

/-- The place that a ratio is rounded at is not above that of a representable bound. -/
theorem place_le {num den b : Nat} {f : Int} (hnum : 0 < num) (hden : 0 < den)
    (hb : Representable b f) (h : (num : ℚ) / den ≤ scale b f) :
    max (magnitude num den - 52) lowestExponent ≤ f := by
  have hlt : (2 : ℚ) ^ magnitude num den < 2 ^ (53 + f) := by
    calc (2 : ℚ) ^ magnitude num den ≤ num / den := zpow_magnitude_le hnum hden
      _ ≤ b * 2 ^ f := h
      _ < 2 ^ (53 : Nat) * 2 ^ f := by
        have hs : (b : ℚ) < 2 ^ (53 : Nat) := by exact_mod_cast hb.significand
        exact mul_lt_mul_of_pos_right hs (zpow_pos two_pos f)
      _ = 2 ^ (53 + f) := by
        rw [← zpow_natCast, ← zpow_add₀ two_ne_zero]
        rfl
  have hplace := (zpow_lt_zpow_iff_right₀ one_lt_two).1 hlt
  have hlow := hb.lowest
  omega

theorem roundHalfEven_scaleDown_le {num den b : Nat} {e f : Int} (hden : 0 < den) (he : e ≤ f)
    (h : (num : ℚ) / den ≤ scale b f) :
    roundHalfEven (scaleDown num den e).1 (scaleDown num den e).2 ≤ b * 2 ^ (f - e).toNat := by
  have hd : (0 : ℚ) < (scaleDown num den e).2 := by exact_mod_cast scaleDown_pos hden num e
  have hpow : (0 : ℚ) < 2 ^ e := zpow_pos two_pos e
  have hshift : (2 : ℚ) ^ f = 2 ^ (f - e).toNat * 2 ^ e := by
    rw [← zpow_natCast, ← zpow_add₀ two_ne_zero]
    congr 1
    omega
  apply roundHalfEven_le (scaleDown_pos hden num e)
  have hle : ((scaleDown num den e).1 : ℚ) / (scaleDown num den e).2 ≤
      ((b * 2 ^ (f - e).toNat : Nat) : ℚ) := by
    rw [scaleDown_ratio, div_le_iff₀ hpow]
    push_cast
    rwa [mul_assoc, ← hshift]
  rw [div_le_iff₀ hd] at hle
  exact_mod_cast hle

theorem ofRatio_le {num den b : Nat} {f : Int} (hden : 0 < den) (hb : Representable b f)
    (h : (num : ℚ) / den ≤ scale b f) (negative : Bool) :
    ∃ m e, ofRatio negative num den = .finite negative m e ∧ scale m e ≤ scale b f := by
  rcases Nat.eq_zero_or_pos num with rfl | hnum
  · refine ⟨0, lowestExponent, rfl, ?_⟩
    rw [scale_zero]
    exact scale_nonneg b f
  · have hplace := place_le hnum hden hb h
    simp only [ofRatio, hnum.ne', ↓reduceIte]
    generalize max (magnitude num den - 52) lowestExponent = e at hplace ⊢
    have hround := roundHalfEven_scaleDown_le hden hplace h
    generalize roundHalfEven (scaleDown num den e).1 (scaleDown num den e).2 = m at hround ⊢
    have hle : scale m e ≤ scale b f := by
      have hshift : scale (b * 2 ^ (f - e).toNat) e = scale b f := by
        rw [scale, scale, Nat.cast_mul, mul_assoc, Nat.cast_pow, ← zpow_natCast, Nat.cast_ofNat,
          ← zpow_add₀ two_ne_zero]
        congr 2
        omega
      rw [← hshift, scale, scale]
      have hcast : (m : ℚ) ≤ ((b * 2 ^ (f - e).toNat : Nat) : ℚ) := by exact_mod_cast hround
      exact mul_le_mul_of_nonneg_right hcast (zpow_pos two_pos e).le
    split
    · rename_i hcarry
      -- a carry needs a place to go to, and there is one below that of the bound
      have hbelow : e < f := by
        by_contra hnot
        have hsame : (f - e).toNat = 0 := by omega
        have hsig := hb.significand
        rw [hsame, pow_zero, mul_one, hcarry] at hround
        exact absurd (Nat.lt_of_le_of_lt hround hsig) (lt_irrefl _)
      have hhigh : ¬highestExponent < e + 1 := by
        have := hb.highest
        omega
      rw [if_neg hhigh]
      refine ⟨_, _, rfl, ?_⟩
      rw [hcarry] at hle
      exact (scale_carry 52 e).symm.trans_le hle
    · have hhigh : ¬highestExponent < e := by
        have := hb.highest
        omega
      rw [if_neg hhigh]
      exact ⟨m, e, rfl, hle⟩

/-- A product with a rounded power of ten is finite below a representable bound. -/
theorem isInfinite_mulPow10 {power m m' b : Nat} {e e' f : Int} {s s' : Bool}
    (hp : ofRatio false (Nat.pow 10 power) 1 = .finite s' m' e') (hb : Representable b f)
    (h : scale m e * scale m' e' ≤ scale b f) :
    ((finite s m e).mulPow10 power).isInfinite = false := by
  have hratio : ((m * m' * 2 ^ (e + e').toNat : Nat) : ℚ) / (2 ^ (-(e + e')).toNat : Nat) ≤
      scale b f := by
    rw [scale_mul, scale, zpow_eq_div two_ne_zero] at h
    push_cast at h ⊢
    rwa [mul_div_assoc]
  obtain ⟨n, g, hn, -⟩ := ofRatio_le (Nat.two_pow_pos _) hb hratio s
  unfold mulPow10
  rw [hp]
  simp only [Nat.pow_eq, hn]
  rfl

end LocalHttp.Binary64
