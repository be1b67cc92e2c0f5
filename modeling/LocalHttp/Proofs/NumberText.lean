import LocalHttp.Proofs.Decimals
import LocalHttp.Proofs.Spelling

namespace LocalHttp.Json

open Bytes (asciiByte ofText)

variable {c : Cursor} {rest : Bytes}

section Parts

theorem digitCount_map {digits : List Char} (hd : ∀ d ∈ digits, d.isDigit = true)
    (hrest : NoDigit rest) : digitCount (digits.map asciiByte ++ rest) = digits.length := by
  have hbytes : ∀ b ∈ digits.map asciiByte, isDigit b = true := by
    intro b hb
    obtain ⟨d, hmem, rfl⟩ := List.mem_map.1 hb
    exact (asciiByte_isDigit (hd d hmem)).1
  have hnone : (rest.takeWhile isDigit).length = 0 := hrest.digitCount_eq
  rw [digitCount, List.takeWhile_append_of_pos hbytes, List.length_append, hnone, List.length_map,
    Nat.add_zero]

theorem noDigit_cons {b : UInt8} (hb : isDigit b = false) (rest : Bytes) : NoDigit (b :: rest) := by
  intro first hfirst
  obtain rfl : b = first := Option.some.inj hfirst
  exact hb

/-- Behind the point, at least one digit; the place goes down by their number. -/
theorem exists_readFraction_eq {fraction : List Char} {value : Nat}
    (hd : ∀ d ∈ fraction, d.isDigit = true) (hne : fraction ≠ [])
    (hle : Nat.ofDigitChars 10 fraction value ≤ maxSignificand)
    (hc : c.rest = 0x2e :: (fraction.map asciiByte ++ rest)) (hrest : NoDigit rest)
    (negative : Bool) (start : Int) :
    ∃ after, after.rest = rest ∧ readFraction negative value start c =
      endFloat negative (Nat.ofDigitChars 10 fraction value) (start - fraction.length) after := by
  have hnext : c.next.rest = fraction.map asciiByte ++ rest := Cursor.rest_next hc
  have hafter : (c.next.advance fraction.length).rest = rest := by
    rw [Cursor.rest_advance, hnext, ← List.length_map (f := asciiByte), List.drop_left]
  have hstop : startsWithDigit (c.next.advance fraction.length) = false :=
    NoDigit.startsWithDigit_eq (hafter.symm ▸ hrest)
  have hlength : fraction.length ≠ 0 := by
    rwa [ne_eq, List.length_eq_zero_iff]
  refine ⟨c.next.advance fraction.length, hafter, ?_⟩
  rw [readFraction]
  simp only [hnext, significandFrom_append hd hle hrest, Nat.zero_add, hstop, hlength]
  simp

theorem endFloat_of_ends (h : Ends c.rest) (negative : Bool) (significand : Nat) (place : Int) :
    endFloat negative significand place c = floatOf negative significand place c := by
  rw [endFloat, (Ends.stops h).1]
  rfl

theorem exists_readExponentDigits_eq {digits : List Char} {value : Nat}
    (hd : ∀ d ∈ digits, d.isDigit = true)
    (hle : Nat.ofDigitChars 10 digits value ≤ maxExponent)
    (hc : c.rest = digits.map asciiByte ++ rest) (negative down : Bool) (significand : Nat)
    (start : Int) :
    ∃ after, after.rest = rest ∧
      readExponentDigits negative significand start down value digits.length c =
        floatOf negative significand
          (if down then start - Nat.ofDigitChars 10 digits value
            else start + Nat.ofDigitChars 10 digits value) after := by
  induction digits generalizing value c with
  | nil => exact ⟨c, hc, rfl⟩
  | cons d digits ih =>
    rw [List.forall_mem_cons] at hd
    have hstep : value * 10 + digitOf (asciiByte d) = 10 * value + (d.toNat - '0'.toNat) := by
      rw [(asciiByte_isDigit hd.1).2]
      omega
    rw [Nat.ofDigitChars_cons, ← hstep] at hle ⊢
    have hfirst := Nat.le_trans (Text.le_ofDigitChars _ _) hle
    obtain ⟨after, hafter, hread⟩ := ih hd.2 hle (Cursor.rest_next hc)
    refine ⟨after, hafter, ?_⟩
    rw [List.length_cons, readExponentDigits, Cursor.peek?_of_rest hc]
    simp only [hfirst, ↓reduceIte, hread]

def signByte (down : Bool) : UInt8 := if down then 0x2d else 0x2b

theorem exists_readExponent_eq {digits : List Char} (hd : ∀ d ∈ digits, d.isDigit = true)
    (hne : digits ≠ []) (hle : Nat.ofDigitChars 10 digits 0 ≤ maxExponent) {down : Bool}
    (hc : c.rest = 0x65 :: signByte down :: (digits.map asciiByte ++ rest))
    (hrest : NoDigit rest) (negative : Bool) (significand : Nat) (start : Int) :
    ∃ after, after.rest = rest ∧ readExponent negative significand start c =
      floatOf negative significand
        (if down then start - Nat.ofDigitChars 10 digits 0
          else start + Nat.ofDigitChars 10 digits 0) after := by
  have hsign : c.next.rest = signByte down :: (digits.map asciiByte ++ rest) := Cursor.rest_next hc
  have hdigits : c.next.next.rest = digits.map asciiByte ++ rest := Cursor.rest_next hsign
  obtain ⟨after, hafter, hread⟩ :=
    exists_readExponentDigits_eq hd hle hdigits negative down significand start
  refine ⟨after, hafter, ?_⟩
  obtain ⟨d, others, rfl⟩ := List.exists_cons_of_ne_nil hne
  have hfirst : isDigit (asciiByte d) = true := (asciiByte_isDigit (hd d List.mem_cons_self)).1
  have hpeek : c.next.next.peek? = some (asciiByte d) := Cursor.peek?_of_rest hdigits
  rw [readExponent, Cursor.peek?_of_rest hsign]
  cases down with
  | false =>
    simp only [signByte, Bool.false_eq_true, ↓reduceIte, hpeek, hfirst]
    rw [hdigits, digitCount_map hd hrest, hread]
    rfl
  | true =>
    simp only [signByte, ↓reduceIte, hpeek, hfirst]
    rw [hdigits, digitCount_map hd hrest, hread]
    rfl

end Parts

section Forms

theorem exists_floatOf {significand : Nat} {place : Int}
    (h : (scaled 3 (.ofNat significand) place).isSome = true) (negative : Bool) (c : Cursor) :
    ∃ n, floatOf negative significand place c = .ok (n, c) := by
  obtain ⟨x, hx⟩ := Option.isSome_iff_exists.1 h
  refine ⟨.float (signed negative x), ?_⟩
  rw [floatOf, hx]

/-- What is read as a number behind a sign. -/
structure IsNumeral (body : List Char) : Prop where
  ascii : ∀ c ∈ body, c.toNat < 128
  reads : ∀ (negative : Bool) (c : Cursor) (rest : Bytes), c.rest = body.map asciiByte ++ rest →
    Ends rest → ∃ n after, readNumber negative c = .ok (n, after) ∧ after.rest = rest

theorem isNumeral_toDigits {n : Nat} (hn : n ≤ maxSignificand) :
    IsNumeral (Nat.toDigits 10 n) where
  ascii := fun _ hc ↦ toNat_lt_of_isDigit ((isWhole_toDigits n).all _ hc)
  reads := by
    intro negative c rest hc hrest
    have hvalue : Nat.ofDigitChars 10 (Nat.toDigits 10 n) 0 = n := Nat.ofDigitChars_ten_toDigits
    obtain ⟨after, hafter, hread⟩ := exists_readNumber_eq (isWhole_toDigits n) (by rwa [hvalue]) hc
      hrest.noDigit negative
    obtain ⟨hexponent, hpoint⟩ := Ends.stops (c := after) (hafter.symm ▸ hrest)
    rw [if_neg hpoint, hexponent, if_neg Bool.false_ne_true] at hread
    exact ⟨_, after, hread, hafter⟩

variable {fraction power : List Char}

theorem isNumeral_positional {whole : List Char} (hw : IsWhole whole)
    (hf : ∀ d ∈ fraction, d.isDigit = true) (hne : fraction ≠ [])
    (hle : Nat.ofDigitChars 10 (whole ++ fraction) 0 ≤ maxSignificand) :
    IsNumeral (whole ++ '.' :: fraction) := by
  refine ⟨?_, fun negative c rest hc hrest ↦ ?_⟩
  · intro c hc
    rcases List.mem_append.1 hc with hc | hc
    · exact toNat_lt_of_isDigit (hw.all c hc)
    · rcases List.mem_cons.1 hc with rfl | hc
      · decide
      · exact toNat_lt_of_isDigit (hf c hc)
  rw [Nat.ofDigitChars_append] at hle
  have hwhole := Nat.le_trans (Text.le_ofDigitChars fraction _) hle
  have hpoint : c.rest = whole.map asciiByte ++ 0x2e :: (fraction.map asciiByte ++ rest) := by
    rw [hc, List.map_append, List.append_assoc]
    rfl
  obtain ⟨mid, hmid, hread⟩ := exists_readNumber_eq hw hwhole hpoint (noDigit_cons rfl _) negative
  obtain ⟨after, hafter, hfraction⟩ :=
    exists_readFraction_eq hf hne hle hmid hrest.noDigit negative 0
  have hbelow : (0 : Int) - fraction.length < 0 := by
    have := List.length_pos_iff.2 hne
    omega
  obtain ⟨n, hn⟩ := exists_floatOf (isSome_scaled_of_neg hbelow 3 _) negative after
  refine ⟨n, after, ?_, hafter⟩
  rw [hread, if_pos (Cursor.peek?_of_rest hmid), hfraction,
    endFloat_of_ends (hafter.symm ▸ hrest), hn]

def mantissa (d : Char) : List Char → List Char
  | [] => [d]
  | fraction => d :: '.' :: fraction

theorem toNat_lt_of_mem_mantissa {d : Char} (hd : d.isDigit = true)
    (hf : ∀ d ∈ fraction, d.isDigit = true) : ∀ c ∈ mantissa d fraction, c.toNat < 128 := by
  have hpoint : ('.' : Char).toNat < 128 := by decide
  have hall : ∀ c ∈ fraction, c.toNat < 128 := fun c hc ↦ toNat_lt_of_isDigit (hf c hc)
  cases fraction with
  | nil => simpa [mantissa] using toNat_lt_of_isDigit hd
  | cons f fraction =>
    rw [mantissa, List.forall_mem_cons, List.forall_mem_cons]
    · exact ⟨toNat_lt_of_isDigit hd, hpoint, hall⟩
    · exact List.cons_ne_nil f fraction

theorem exists_readNumber_mantissa {d : Char} (hd : d.isDigit = true)
    (hf : ∀ d ∈ fraction, d.isDigit = true)
    (hle : Nat.ofDigitChars 10 (d :: fraction) 0 ≤ maxSignificand)
    (hc : c.rest = (mantissa d fraction).map asciiByte ++ 0x65 :: rest) (negative : Bool) :
    ∃ after, after.rest = 0x65 :: rest ∧ readNumber negative c =
      readExponent negative (Nat.ofDigitChars 10 (d :: fraction) 0) (-fraction.length) after := by
  have hw : IsWhole [d] := ⟨by simpa using hd, d, [], rfl, fun _ ↦ rfl⟩
  have hsplit : Nat.ofDigitChars 10 (d :: fraction) 0 =
      Nat.ofDigitChars 10 fraction (Nat.ofDigitChars 10 [d] 0) := by
    rw [← Nat.ofDigitChars_append]
    rfl
  have hexponent {after : Cursor} (hafter : after.rest = 0x65 :: rest) :
      startsExponent after = true := by
    rw [startsExponent, Cursor.peek?_of_rest hafter]
    rfl
  rw [hsplit] at hle ⊢
  have hwhole := Nat.le_trans (Text.le_ofDigitChars fraction _) hle
  cases fraction with
  | nil =>
    obtain ⟨after, hafter, hread⟩ := exists_readNumber_eq hw hwhole hc (noDigit_cons rfl _) negative
    refine ⟨after, hafter, ?_⟩
    rw [hread, Cursor.peek?_of_rest hafter, if_neg (by decide), if_pos (hexponent hafter)]
    rfl
  | cons f fraction =>
    have hpoint : c.rest =
        [d].map asciiByte ++ 0x2e :: ((f :: fraction).map asciiByte ++ 0x65 :: rest) := hc
    obtain ⟨mid, hmid, hread⟩ := exists_readNumber_eq hw hwhole hpoint (noDigit_cons rfl _) negative
    obtain ⟨after, hafter, hfraction⟩ := exists_readFraction_eq hf (List.cons_ne_nil _ _) hle hmid
      (noDigit_cons rfl _) negative 0
    refine ⟨after, hafter, ?_⟩
    rw [hread, if_pos (Cursor.peek?_of_rest hmid), hfraction, endFloat, if_pos (hexponent hafter),
      Int.zero_sub]

def signChar (down : Bool) : Char := if down then '-' else '+'

theorem isNumeral_scientific {d : Char} {down : Bool} (hd : d.isDigit = true)
    (hf : ∀ d ∈ fraction, d.isDigit = true)
    (hle : Nat.ofDigitChars 10 (d :: fraction) 0 ≤ maxSignificand) {power : Nat}
    (hpower : power ≤ maxExponent)
    (hscaled : (scaled 3 (.ofNat (Nat.ofDigitChars 10 (d :: fraction) 0))
      (if down then -fraction.length - power else -fraction.length + power)).isSome = true) :
    IsNumeral (mantissa d fraction ++ 'e' :: signChar down :: Nat.toDigits 10 power) := by
  have hdigits : ∀ c ∈ Nat.toDigits 10 power, c.isDigit = true := (isWhole_toDigits power).all
  refine ⟨?_, fun negative c rest hc hrest ↦ ?_⟩
  · have hsign : (signChar down).toNat < 128 := by cases down <;> decide
    rw [List.forall_mem_append, List.forall_mem_cons, List.forall_mem_cons]
    exact ⟨toNat_lt_of_mem_mantissa hd hf, by decide, hsign,
      fun c hc ↦ toNat_lt_of_isDigit (hdigits c hc)⟩
  have hvalue : Nat.ofDigitChars 10 (Nat.toDigits 10 power) 0 = power :=
    Nat.ofDigitChars_ten_toDigits
  have hsign : asciiByte (signChar down) = signByte down := by cases down <;> rfl
  have hmantissa : c.rest = (mantissa d fraction).map asciiByte ++
      0x65 :: signByte down :: ((Nat.toDigits 10 power).map asciiByte ++ rest) := by
    rw [hc, List.map_append, List.append_assoc, ← hsign]
    rfl
  obtain ⟨mid, hmid, hread⟩ := exists_readNumber_mantissa hd hf hle hmantissa negative
  obtain ⟨after, hafter, hexponent⟩ := exists_readExponent_eq hdigits Nat.toDigits_ne_nil
    (by rwa [hvalue]) hmid hrest.noDigit negative (Nat.ofDigitChars 10 (d :: fraction) 0)
    (-fraction.length)
  obtain ⟨n, hn⟩ := exists_floatOf hscaled negative after
  refine ⟨n, after, ?_, hafter⟩
  rw [hread, hexponent, hvalue, hn]

end Forms

section Layout

open Binary64 (Digits layout digitChars zeros)

theorem isDigit_of_mem_zeros {n : Nat} {c : Char} (h : c ∈ zeros n) : c.isDigit = true := by
  rw [List.eq_of_mem_replicate h]
  rfl

theorem isDigit_of_mem_digitChars {n : Nat} {c : Char} (h : c ∈ digitChars n) :
    c.isDigit = true := Nat.isDigit_of_mem_toDigits (by decide) (by decide) h

theorem ofDigitChars_digitChars (n : Nat) : Nat.ofDigitChars 10 (digitChars n) 0 = n :=
  Nat.ofDigitChars_ten_toDigits

theorem isWhole_digitChars (n : Nat) : IsWhole (digitChars n) := isWhole_toDigits n

theorem lt_pow_length_digitChars (n : Nat) : n < 10 ^ (digitChars n).length :=
  (Nat.length_toDigits_le_iff (by decide) Nat.length_toDigits_pos).1 le_rfl

theorem isWhole_append {digits : List Char} (hw : IsWhole digits) (hne : digits.head? ≠ some '0')
    {others : List Char} (ho : ∀ c ∈ others, c.isDigit = true) : IsWhole (digits ++ others) := by
  obtain ⟨d, rest, rfl, -⟩ := hw.shape
  refine ⟨?_, d, rest ++ others, rfl, fun hd ↦ absurd (congrArg some hd) hne⟩
  intro c hc
  rcases List.mem_append.1 hc with hc | hc
  · exact hw.all c hc
  · exact ho c hc

theorem isWhole_take {digits : List Char} (hw : IsWhole digits) {n : Nat} (hn : 0 < n) :
    IsWhole (digits.take n) := by
  obtain ⟨n, rfl⟩ := Nat.exists_eq_add_one_of_ne_zero hn.ne'
  obtain ⟨d, rest, rfl, honly⟩ := hw.shape
  refine ⟨fun c hc ↦ hw.all c (List.mem_of_mem_take hc), d, rest.take n, rfl, fun hd ↦ ?_⟩
  rw [honly hd, List.take_nil]

variable {x : Digits}

theorem isNumeral_below (hfew : x.digits ≤ maxSignificand) (n : Nat) :
    IsNumeral ('0' :: '.' :: zeros n ++ digitChars x.digits) := by
  have hw : IsWhole ['0'] := isWhole_toDigits 0
  have hf : ∀ c ∈ zeros n ++ digitChars x.digits, c.isDigit = true := by
    intro c hc
    rcases List.mem_append.1 hc with hc | hc
    · exact isDigit_of_mem_zeros hc
    · exact isDigit_of_mem_digitChars hc
  have hne : zeros n ++ digitChars x.digits ≠ [] :=
    List.append_ne_nil_of_right_ne_nil _ Nat.toDigits_ne_nil
  apply isNumeral_positional hw hf hne
  rw [Nat.ofDigitChars_append, Nat.ofDigitChars_append, zeros, Nat.ofDigitChars_replicate_zero]
  change Nat.ofDigitChars 10 (digitChars x.digits) (10 ^ n * 0) ≤ maxSignificand
  rwa [Nat.mul_zero, ofDigitChars_digitChars]

theorem isNumeral_above (hpos : 0 < x.digits) {n : Nat}
    (hlength : (digitChars x.digits).length + n ≤ 16) :
    IsNumeral (digitChars x.digits ++ zeros n ++ ['.', '0']) := by
  have hw : IsWhole (digitChars x.digits ++ zeros n) :=
    isWhole_append (isWhole_digitChars _) (head?_toDigits_ne_zero hpos) fun _ ↦ isDigit_of_mem_zeros
  have hzero : ∀ d ∈ ['0'], d.isDigit = true := List.forall_mem_singleton.2 rfl
  apply isNumeral_positional hw hzero (List.cons_ne_nil _ _)
  rw [Nat.ofDigitChars_append, Nat.ofDigitChars_append, ofDigitChars_digitChars, zeros,
    Nat.ofDigitChars_replicate_zero]
  have hvalue : 10 ^ n * x.digits ≤ 10 ^ 16 := by
    calc 10 ^ n * x.digits ≤ 10 ^ n * 10 ^ (digitChars x.digits).length :=
          Nat.mul_le_mul_left _ (lt_pow_length_digitChars x.digits).le
      _ = 10 ^ ((digitChars x.digits).length + n) := by rw [Nat.pow_add, Nat.mul_comm]
      _ ≤ 10 ^ 16 := Nat.pow_le_pow_right (by decide) hlength
  calc Nat.ofDigitChars 10 ['0'] (10 ^ n * x.digits) = 10 * (10 ^ n * x.digits) := rfl
    _ ≤ 10 * 10 ^ 16 := Nat.mul_le_mul_left _ hvalue
    _ ≤ maxSignificand := by decide

theorem isNumeral_between (hfew : x.digits ≤ maxSignificand) {n : Nat} (hn : 0 < n)
    (hlength : n < (digitChars x.digits).length) :
    IsNumeral ((digitChars x.digits).take n ++ '.' :: (digitChars x.digits).drop n) := by
  have hf : ∀ c ∈ (digitChars x.digits).drop n, c.isDigit = true :=
    fun c hc ↦ isDigit_of_mem_digitChars (List.mem_of_mem_drop hc)
  have hne : (digitChars x.digits).drop n ≠ [] := by
    rwa [ne_eq, List.drop_eq_nil_iff, Nat.not_le]
  apply isNumeral_positional (isWhole_take (isWhole_digitChars _) hn) hf hne
  rwa [List.take_append_drop, ofDigitChars_digitChars]

/-- One digit before the point, and an exponent. -/
theorem isNumeral_exponent (hfew : x.digits ≤ maxSignificand) {power : Int}
    (hpower : power = (digitChars x.digits).length + x.exponent - 1)
    (hle : power.natAbs ≤ maxExponent)
    (hscaled : (scaled 3 (.ofNat x.digits) x.exponent).isSome = true) {d : Char}
    {others : List Char} (hd : digitChars x.digits = d :: others) :
    IsNumeral (mantissa d others ++
      'e' :: signChar (decide (power < 0)) :: digitChars power.natAbs) := by
  have hdigits : ∀ c ∈ d :: others, c.isDigit = true :=
    fun c hc ↦ isDigit_of_mem_digitChars (hd ▸ hc)
  rw [List.forall_mem_cons] at hdigits
  have hvalue : Nat.ofDigitChars 10 (d :: others) 0 = x.digits := by
    rw [← hd, ofDigitChars_digitChars]
  apply isNumeral_scientific hdigits.1 hdigits.2 (by rwa [hvalue]) hle
  rw [hvalue]
  rw [hd, List.length_cons] at hpower
  have hplace : (if decide (power < 0) = true then -(others.length : Int) - (power.natAbs : Int)
      else -others.length + power.natAbs) = x.exponent := by
    split
    · rename_i hneg
      have := of_decide_eq_true hneg
      omega
    · rename_i hpos
      have : ¬power < 0 := fun h ↦ hpos (decide_eq_true h)
      omega
  rwa [hplace]

theorem isNumeral_layout (hpos : 0 < x.digits) (hfew : x.digits ≤ maxSignificand)
    (hlow : -350 ≤ x.exponent) (hhigh : x.exponent ≤ 1024)
    (hscaled : (scaled 3 (.ofNat x.digits) x.exponent).isSome = true) : IsNumeral (layout x) := by
  have hlength : (digitChars x.digits).length ≤ 20 := by
    apply (Nat.length_toDigits_le_iff (by decide) (by decide)).2
    exact Nat.lt_of_le_of_lt hfew (by decide)
  unfold layout
  dsimp only
  split
  · rename_i hpoint
    split
    · exact isNumeral_below hfew _
    · rename_i hone
      split
      · exact isNumeral_above hpos (by omega)
      · exact isNumeral_between hfew (by omega) (by omega)
  · obtain ⟨d, others, hd, -⟩ := (isWhole_digitChars x.digits).shape
    have hmax : 350 + 1024 + 20 ≤ maxExponent := by decide
    have hnumeral := isNumeral_exponent hfew rfl (by omega) hscaled hd
    rw [hd] at hnumeral ⊢
    cases others with
    | nil => simpa [mantissa, signChar] using hnumeral
    | cons other others => simpa [mantissa, signChar] using hnumeral

end Layout

section Numbers

theorem isNumeral_finite {m : Nat} {e : Int} (hr : Binary64.Representable m e) :
    IsNumeral (if m = 0 then "0.0".toList else Binary64.layout (Binary64.shortest m e)) := by
  split
  · exact isNumeral_below (x := ⟨0, 0⟩) (Nat.zero_le _) 0
  · rename_i hzero
    have hm : 0 < m := Nat.pos_of_ne_zero hzero
    have hwithin := Binary64.within_shortest hm hr
    have hfew : (Binary64.shortest m e).digits ≤ maxSignificand :=
      Nat.le_trans hwithin.few (by decide)
    exact isNumeral_layout hwithin.positive hfew hwithin.place
      (Binary64.exponent_shortest_le hm hr) (isSome_scaled_shortest hm hr)

/-- Numbers whose text is that of a number, small enough to be read. -/
def Number.Legible : Number → Prop
  | .integer n => n.natAbs ≤ maxSignificand
  | .float (.finite _ m e) => Binary64.Representable m e
  | .float _ => False

theorem Number.Legible.exists_text {n : Number} (hn : n.Legible) :
    ∃ (negative : Bool) (body : List Char),
      n.text = String.ofList (if negative then '-' :: body else body) ∧ IsNumeral body := by
  cases n with
  | integer n =>
    cases n with
    | ofNat n =>
      refine ⟨false, Nat.toDigits 10 n, ?_, isNumeral_toDigits hn⟩
      exact Nat.repr_eq_ofList_toDigits
    | negSucc n =>
      refine ⟨true, Nat.toDigits 10 (n + 1), ?_, isNumeral_toDigits hn⟩
      apply String.toList_inj.1
      simp [Number.text, Int.repr]
  | float x =>
    cases x with
    | finite negative m e => exact ⟨negative, _, rfl, isNumeral_finite hn⟩
    | infinite negative => exact hn.elim
    | nan => exact hn.elim

theorem Number.Legible.ofText_eq {n : Number} (hn : n.Legible) :
    ∃ (negative : Bool) (body : List Char), IsNumeral body ∧ ofText n.text =
      if negative then 0x2d :: body.map asciiByte else body.map asciiByte := by
  obtain ⟨negative, body, htext, hbody⟩ := hn.exists_text
  refine ⟨negative, body, hbody, ?_⟩
  have hascii : ∀ c ∈ (if negative then '-' :: body else body), c.toNat < 128 := by
    cases negative with
    | false => exact hbody.ascii
    | true => exact List.forall_mem_cons.2 ⟨by decide, hbody.ascii⟩
  rw [htext, Bytes.ofText_of_ascii (by rwa [String.toList_ofList]), String.toList_ofList]
  cases negative <;> rfl

theorem isDigit_of_readNumber {negative : Bool} {r : Number × Cursor}
    (h : readNumber negative c = .ok r) : ∃ b, c.peek? = some b ∧ isDigit b = true := by
  unfold readNumber at h
  cases hb : c.peek? with
  | none =>
    rw [hb] at h
    cases h
  | some b =>
    refine ⟨b, rfl, ?_⟩
    rw [hb] at h
    by_contra hdigit
    dsimp only at h
    rw [if_pos (by simpa using hdigit)] at h
    cases h

theorem IsNumeral.opens {body : List Char} (h : IsNumeral body) :
    ∃ b others, body.map asciiByte = b :: others ∧ isDigit b = true := by
  obtain ⟨n, after, hread, -⟩ :=
    h.reads false ⟨body.map asciiByte, 1, 0⟩ [] (List.append_nil _).symm nofun
  obtain ⟨b, hpeek, hb⟩ := isDigit_of_readNumber hread
  obtain ⟨others, hothers⟩ := List.head?_eq_some_iff.1 hpeek
  exact ⟨b, others, hothers, hb⟩

theorem Number.Legible.opens {n : Number} (hn : n.Legible) :
    ∃ b others, ofText n.text = b :: others ∧ (b = 0x2d ∨ isDigit b = true) := by
  obtain ⟨negative, body, hbody, htext⟩ := hn.ofText_eq
  obtain ⟨b, others, hopens, hb⟩ := hbody.opens
  rw [htext, hopens]
  cases negative with
  | false => exact ⟨b, others, rfl, .inr hb⟩
  | true => exact ⟨0x2d, b :: others, rfl, .inl rfl⟩

/-- The text of a number is read as a number, up to where it ends. -/
theorem Number.Legible.exists_readSignedNumber {n : Number} (hn : n.Legible)
    (hc : c.rest = ofText n.text ++ rest) (hrest : Ends rest) :
    ∃ n after, readSignedNumber c = .ok (n, after) ∧ after.rest = rest := by
  obtain ⟨negative, body, hbody, htext⟩ := hn.ofText_eq
  rw [htext] at hc
  cases negative with
  | false =>
    obtain ⟨b, others, hopens, hb⟩ := hbody.opens
    have hsign : c.peek? ≠ some 0x2d := by
      rw [if_neg Bool.false_ne_true, hopens] at hc
      rw [Cursor.peek?_of_rest hc, ne_eq, Option.some.injEq]
      rintro rfl
      cases hb
    obtain ⟨n, after, hread, hafter⟩ := hbody.reads false c rest hc hrest
    refine ⟨n, after, ?_, hafter⟩
    rw [readSignedNumber, if_neg hsign, hread]
  | true =>
    have hminus : c.rest = 0x2d :: (body.map asciiByte ++ rest) := hc
    obtain ⟨n, after, hread, hafter⟩ :=
      hbody.reads true c.next rest (Cursor.rest_next hminus) hrest
    refine ⟨n, after, ?_, hafter⟩
    rw [readSignedNumber, if_pos (Cursor.peek?_of_rest hminus), hread]

end Numbers

end LocalHttp.Json
