import LocalHttp.Text

namespace LocalHttp.Text

/-- The text writes `n` in decimal, and `n` fits in `bits` bits. -/
def IsUnsigned (bits : Nat) (text : List Char) (n : Nat) : Prop :=
  ∃ digits, (text = digits ∨ text = '+' :: digits) ∧ digits ≠ [] ∧
    (∀ c ∈ digits, c.isDigit = true) ∧ Nat.ofDigitChars 10 digits 0 = n ∧ n < Nat.pow 2 bits

theorem le_ofDigitChars (digits : List Char) (value : Nat) :
    value ≤ Nat.ofDigitChars 10 digits value := by
  induction digits generalizing value with
  | nil => exact Nat.le_of_eq Nat.ofDigitChars_nil.symm
  | cons c digits ih =>
    rw [Nat.ofDigitChars_cons]
    refine Nat.le_trans ?_ (ih _)
    omega

theorem readDigits_eq_ok_iff {limit : Nat} (excess : NumeralError) {digits : List Char}
    {value n : Nat} (hv : value ≤ limit) :
    readDigits limit excess value digits = .ok n ↔
      (∀ c ∈ digits, c.isDigit = true) ∧ Nat.ofDigitChars 10 digits value = n ∧ n ≤ limit := by
  induction digits generalizing value with
  | nil =>
    rw [readDigits, Nat.ofDigitChars_nil, Except.ok.injEq]
    constructor
    · rintro rfl
      exact ⟨by simp, rfl, hv⟩
    · exact fun h ↦ h.2.1
  | cons c digits ih =>
    have hn : value * 10 + digitValue c = 10 * value + (c.toNat - '0'.toNat) := by
      rw [Nat.mul_comm, digitValue]
    rw [readDigits, Nat.ofDigitChars_cons, List.forall_mem_cons, ← hn]
    cases c.isDigit with
    | false => simp
    | true =>
      simp only [↓reduceIte, true_and]
      split
      · rename_i hle
        exact ih hle
      · rename_i hlt
        constructor
        · intro h
          cases h
        · rintro ⟨_, he, hle⟩
          rw [← he] at hle
          exact absurd (Nat.le_trans (le_ofDigitChars _ _) hle) hlt

theorem readMagnitude_eq_ok_iff {limit : Nat} {excess : NumeralError} {digits : List Char}
    {n : Nat} :
    readMagnitude limit excess digits = .ok n ↔
      digits ≠ [] ∧ (∀ c ∈ digits, c.isDigit = true) ∧ Nat.ofDigitChars 10 digits 0 = n ∧
        n ≤ limit := by
  rw [readMagnitude]
  cases digits with
  | nil => simp
  | cons c digits =>
    rw [← readDigits_eq_ok_iff excess (Nat.zero_le limit)]
    simp

theorem readUnsigned_eq_ok_iff {bits : Nat} {text : List Char} {n : Nat} :
    readUnsigned bits text = .ok n ↔ IsUnsigned bits text n := by
  have hpos : 0 < Nat.pow 2 bits := Nat.two_pow_pos bits
  have hl : n ≤ Nat.pow 2 bits - 1 ↔ n < Nat.pow 2 bits := by omega
  unfold readUnsigned IsUnsigned
  split
  · constructor
    · intro h
      cases h
    · rintro ⟨digits, rfl | h, hne, _⟩
      · exact absurd rfl hne
      · cases h
  · rename_i digits
    rw [readMagnitude_eq_ok_iff, hl]
    constructor
    · exact fun h ↦ ⟨digits, .inr rfl, h⟩
    · rintro ⟨others, rfl | h, hne, hd, hv⟩
      · exact absurd (hd '+' List.mem_cons_self) (by decide)
      · cases h
        exact ⟨hne, hd, hv⟩
  · rename_i hplus
    rw [readMagnitude_eq_ok_iff, hl]
    constructor
    · exact fun h ↦ ⟨text, .inl rfl, h⟩
    · rintro ⟨digits, rfl | rfl, h⟩
      · exact h
      · exact absurd rfl (hplus digits)

theorem dropWhile_of_all_false {p : Char → Bool} {cs : List Char} (h : ∀ c ∈ cs, p c = false) :
    cs.dropWhile p = cs := by
  cases cs with
  | nil => rfl
  | cons c cs => exact List.dropWhile_cons_of_neg (by simp [h c List.mem_cons_self])

theorem trim_of_no_blank {cs : List Char} (h : ∀ c ∈ cs, isBlank c = false) : trim cs = cs := by
  rw [trim, trimStart, trimStart, dropWhile_of_all_false h, dropWhile_of_all_false,
    List.reverse_reverse]
  exact fun c hc ↦ h c (List.mem_reverse.1 hc)

theorem isDigit_of_mem_repr {n : Nat} {c : Char} (h : c ∈ (Nat.repr n).toList) :
    c.isDigit = true := by
  rw [Nat.toList_repr] at h
  exact Nat.isDigit_of_mem_toDigits (by decide) (by decide) h

theorem isBlank_of_isDigit {c : Char} (h : c.isDigit = true) : isBlank c = false := by
  simp only [Char.isDigit, Bool.and_eq_true, decide_eq_true_eq, UInt32.le_iff_toNat_le] at h
  have h1 : 48 ≤ c.toNat := h.1
  have h2 : c.toNat ≤ 57 := h.2
  simp only [isBlank, Bool.or_eq_false_iff, Bool.and_eq_false_iff, decide_eq_false_iff_not,
    beq_eq_false_iff_ne]
  omega

theorem trim_repr (n : Nat) : trim (Nat.repr n).toList = (Nat.repr n).toList :=
  trim_of_no_blank fun _ hc ↦ isBlank_of_isDigit (isDigit_of_mem_repr hc)

theorem isUnsigned_repr {bits n : Nat} (h : n < Nat.pow 2 bits) :
    IsUnsigned bits (Nat.repr n).toList n := by
  refine ⟨Nat.toDigits 10 n, .inl Nat.toList_repr, Nat.toDigits_ne_nil, ?_, ?_, h⟩
  · exact fun _ hc ↦ Nat.isDigit_of_mem_toDigits (by decide) (by decide) hc
  · exact Nat.ofDigitChars_ten_toDigits

end LocalHttp.Text
