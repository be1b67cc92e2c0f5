import LocalHttp.Bytes

namespace LocalHttp.Bytes

theorem forall_byte {p : UInt8 → Bool}
    (h : ((List.range 256).all fun n ↦ p (UInt8.ofNat n)) = true) (b : UInt8) : p b = true := by
  have hb := List.all_eq_true.1 h b.toNat (List.mem_range.2 b.toNat_lt)
  rwa [UInt8.ofNat_toNat] at hb

theorem ofText_eq (s : String) : ofText s = s.toList.flatMap String.utf8EncodeChar := by
  rw [ofText, ← String.utf8Encode_toList, List.utf8Encode, List.data_toByteArray]

theorem ofText_append (s t : String) : ofText (s ++ t) = ofText s ++ ofText t := by
  rw [ofText_eq, ofText_eq, ofText_eq, String.toList_append, List.flatMap_append]

theorem text?_eq_some_iff {bytes : Bytes} {s : String} :
    text? bytes = some s ↔ bytes = ofText s := by
  unfold text? String.fromUTF8?
  constructor
  · intro h
    split at h
    · simp only [Option.some.injEq] at h
      subst h
      rfl
    · cases h
  · rintro rfl
    exact dif_pos s.isValidUTF8

theorem text?_ofText (s : String) : text? (ofText s) = some s := text?_eq_some_iff.2 rfl

def asciiByte (c : Char) : UInt8 := UInt8.ofNat c.toNat

theorem utf8EncodeChar_of_lt {c : Char} (h : c.toNat < 128) :
    String.utf8EncodeChar c = [asciiByte c] := if_pos (Nat.le_of_lt_succ h)

theorem le_of_mem_utf8EncodeChar {c : Char} (h : 128 ≤ c.toNat) {b : UInt8}
    (hb : b ∈ String.utf8EncodeChar c) : 128 ≤ b.toNat := by
  have hc : ¬c.val.toNat ≤ 0x7f := Nat.not_le.2 h
  have hmod (n k : Nat) (hk : 128 ≤ k) (hn : n + k < 256) : 128 ≤ (UInt8.ofNat (n + k)).toNat := by
    rw [UInt8.toNat_ofNat', Nat.mod_eq_of_lt hn]
    omega
  rw [String.utf8EncodeChar, if_neg hc] at hb
  split at hb
  · simp only [List.mem_cons, List.not_mem_nil, or_false] at hb
    rcases hb with rfl | rfl <;> exact hmod _ _ (by decide) (by omega)
  · split at hb
    · simp only [List.mem_cons, List.not_mem_nil, or_false] at hb
      rcases hb with rfl | rfl | rfl <;> exact hmod _ _ (by decide) (by omega)
    · simp only [List.mem_cons, List.not_mem_nil, or_false] at hb
      rcases hb with rfl | rfl | rfl | rfl <;> exact hmod _ _ (by decide) (by omega)

theorem toNat_asciiByte {c : Char} (h : c.toNat < 128) : (asciiByte c).toNat = c.toNat := by
  rw [asciiByte, UInt8.toNat_ofNat', Nat.mod_eq_of_lt (by omega)]

theorem asciiByte_inj {c d : Char} (hc : c.toNat < 128) (hd : d.toNat < 128)
    (h : asciiByte c = asciiByte d) : c = d := by
  have hn := congrArg UInt8.toNat h
  rw [toNat_asciiByte hc, toNat_asciiByte hd] at hn
  exact Char.toNat_inj.1 hn

theorem mem_utf8EncodeChar_iff {c d : Char} (hc : c.toNat < 128) :
    asciiByte c ∈ String.utf8EncodeChar d ↔ c = d := by
  rcases Nat.lt_or_ge d.toNat 128 with hd | hd
  · rw [utf8EncodeChar_of_lt hd, List.mem_singleton]
    exact ⟨asciiByte_inj hc hd, fun h ↦ h ▸ rfl⟩
  · constructor
    · intro h
      have hb := le_of_mem_utf8EncodeChar hd h
      rw [toNat_asciiByte hc] at hb
      omega
    · rintro rfl
      omega

theorem asciiByte_mem_ofText_iff {c : Char} (hc : c.toNat < 128) {s : String} :
    asciiByte c ∈ ofText s ↔ c ∈ s.toList := by
  simp only [ofText_eq, List.mem_flatMap, mem_utf8EncodeChar_iff hc, exists_eq_right']

theorem pair_infix_append_of_not_mem {a b : UInt8} {p : Bytes} (h : a ∉ p) (q : Bytes) :
    [a, b] <:+: p ++ q ↔ [a, b] <:+: q := by
  induction p with
  | nil => rfl
  | cons x p ih =>
    simp only [List.mem_cons, not_or] at h
    rw [List.cons_append, List.infix_cons_iff, ih h.2, or_iff_right]
    intro hp
    exact h.1 (List.cons_prefix_cons.1 hp).1

theorem singleton_prefix_flatMap_iff {c : Char} (hc : c.toNat < 128) {cs : List Char} :
    [asciiByte c] <+: cs.flatMap String.utf8EncodeChar ↔ [c] <+: cs := by
  cases cs with
  | nil => simp
  | cons d cs =>
    rw [List.flatMap_cons, List.cons_prefix_cons, and_iff_left List.nil_prefix]
    constructor
    · intro h
      obtain ⟨x, rest, hx⟩ := List.exists_cons_of_ne_nil (String.utf8EncodeChar_ne_nil (c := d))
      rw [hx, List.cons_append, List.cons_prefix_cons] at h
      refine (mem_utf8EncodeChar_iff hc).1 ?_
      rw [hx, h.1]
      exact List.mem_cons_self
    · rintro rfl
      rw [utf8EncodeChar_of_lt hc]
      exact List.prefix_append _ _

theorem ofText_of_ascii {s : String} (h : ∀ c ∈ s.toList, c.toNat < 128) :
    ofText s = s.toList.map asciiByte := by
  rw [ofText_eq]
  generalize s.toList = cs at h
  induction cs with
  | nil => rfl
  | cons c cs ih =>
    rw [List.forall_mem_cons] at h
    rw [List.flatMap_cons, utf8EncodeChar_of_lt h.1, ih h.2]
    rfl

/-- Two ASCII characters follow each other where their bytes do. -/
theorem pair_infix_ofText_iff {a b : Char} (ha : a.toNat < 128) (hb : b.toNat < 128)
    {s : String} : [asciiByte a, asciiByte b] <:+: ofText s ↔ [a, b] <:+: s.toList := by
  rw [ofText_eq]
  induction s.toList with
  | nil => simp
  | cons c cs ih =>
    rw [List.flatMap_cons, List.infix_cons_iff, ← ih, List.cons_prefix_cons]
    by_cases hac : a = c
    · subst hac
      rw [utf8EncodeChar_of_lt ha, List.singleton_append, List.infix_cons_iff,
        List.cons_prefix_cons, singleton_prefix_flatMap_iff hb, eq_self, eq_self]
    · have hm : asciiByte a ∉ String.utf8EncodeChar c := by rwa [mem_utf8EncodeChar_iff ha]
      rw [pair_infix_append_of_not_mem hm, iff_or_self]
      exact fun h ↦ absurd h.1 hac

theorem toNat_ofNat (n : Nat) : (Char.ofNat n).toNat = 0 ∨ (Char.ofNat n).toNat = n := by
  by_cases h : n.isValidChar
  · rw [Char.ofNat, dif_pos h]
    exact .inr rfl
  · rw [Char.ofNat, dif_neg h]
    exact .inl rfl

def leastValue (payload : Nat) : Nat → Nat
  | 0 => payload
  | count + 1 => leastValue (payload * 64) count

theorem leastValue_mono {payload more : Nat} (h : payload ≤ more) (count : Nat) :
    leastValue payload count ≤ leastValue more count := by
  induction count generalizing payload more with
  | zero => exact h
  | succ count ih => exact ih (Nat.mul_le_mul_right 64 h)

/-- Continuation bytes only add to what the bytes before them stand for. -/
theorem le_of_continuation {payload count : Nat} {low high : UInt8} {rest after : Bytes} {c : Char}
    (h : continuation payload count low high rest = (some c, after)) :
    c.toNat = 0 ∨ leastValue payload count ≤ c.toNat := by
  induction count generalizing payload low high rest with
  | zero =>
    simp only [continuation, Prod.mk.injEq, Option.some.injEq] at h
    obtain ⟨rfl, -⟩ := h
    exact (toNat_ofNat payload).imp_right fun he ↦ Nat.le_of_eq he.symm
  | succ count ih =>
    cases rest with
    | nil => cases h
    | cons b rest =>
      rw [continuation] at h
      split at h
      · exact (ih h).imp_right (Nat.le_trans (leastValue_mono (Nat.le_add_right _ _) count))
      · cases h

theorem lead?_bounds {b : UInt8} {l : Lead} (hb : ¬b < 0x80) (h : lead? b = some l) :
    ∃ count, l.count = count + 1 ∧
      128 ≤ leastValue (l.payload * 64 + (l.low.toNat - 0x80)) count := by
  have hall := forall_byte (p := fun b ↦ b < 0x80 || (lead? b).all fun l ↦
    l.count != 0 &&
      decide (128 ≤ leastValue (l.payload * 64 + (l.low.toNat - 0x80)) (l.count - 1)))
    (by decide +kernel) b
  simp only [hb, decide_false, Bool.false_or, h, Option.all_some, Bool.and_eq_true, bne_iff_ne,
    decide_eq_true_eq] at hall
  exact ⟨l.count - 1, by omega, hall.2⟩

theorem eq_asciiByte_of_decodeChar {b : UInt8} {rest after : Bytes} {c : Char} (hpos : c.toNat ≠ 0)
    (hlt : c.toNat < 128) (h : decodeChar b rest = (some c, after)) :
    b = asciiByte c ∧ rest = after := by
  unfold decodeChar at h
  by_cases hb : b < 0x80
  · rw [lead?, if_pos hb] at h
    obtain ⟨rfl, rfl⟩ : Char.ofNat b.toNat = c ∧ rest = after := by simpa [continuation] using h
    rw [asciiByte, (toNat_ofNat _).resolve_left hpos, UInt8.ofNat_toNat]
    exact ⟨rfl, rfl⟩
  · cases hl : lead? b with
    | none => rw [hl] at h; cases h
    | some l =>
      rw [hl] at h
      dsimp only at h
      obtain ⟨count, hcount, hle⟩ := lead?_bounds hb hl
      rw [hcount] at h
      cases rest with
      | nil => cases h
      | cons next rest =>
        rw [continuation] at h
        split at h
        · rename_i hr
          have hlow : l.low.toNat ≤ next.toNat := UInt8.le_iff_toNat_le.1 hr.1
          have hmono : leastValue (l.payload * 64 + (l.low.toNat - 0x80)) count ≤
              leastValue (l.payload * 64 + (next.toNat - 0x80)) count :=
            leastValue_mono (by omega) count
          have hc := (le_of_continuation h).resolve_left hpos
          omega
        · cases h

theorem lossyChars_eq (done : List Char) (bytes : Bytes) :
    lossyChars done bytes = done.reverse ++ lossyChars [] bytes := by
  induction hn : bytes.length using Nat.strongRecOn generalizing done bytes with
  | ind n ih =>
    cases bytes with
    | nil => rw [lossyChars, lossyChars, List.reverse_nil, List.append_nil]
    | cons b rest =>
      have hlt : (decodeChar b rest).2.length < n := by
        have hle := length_decodeChar_le b rest
        rw [← hn, List.length_cons]
        omega
      rw [lossyChars, lossyChars, ih _ hlt _ _ rfl, ih _ hlt [_] _ rfl]
      simp

theorem eq_of_lossyChars {bytes : Bytes} {cs : List Char}
    (hcs : ∀ c ∈ cs, c.toNat ≠ 0 ∧ c.toNat < 128) (h : lossyChars [] bytes = cs) :
    bytes = cs.map asciiByte := by
  induction cs generalizing bytes with
  | nil =>
    cases bytes with
    | nil => rfl
    | cons b rest =>
      rw [lossyChars, lossyChars_eq] at h
      simp at h
  | cons c cs ih =>
    rw [List.forall_mem_cons] at hcs
    cases bytes with
    | nil =>
      rw [lossyChars] at h
      cases h
    | cons b rest =>
      rw [lossyChars, lossyChars_eq, List.reverse_singleton, List.singleton_append,
        List.cons.injEq] at h
      have hd : decodeChar b rest = (some c, (decodeChar b rest).2) := by
        cases hf : (decodeChar b rest).1 with
        | none =>
          rw [hf] at h
          have hc : replacement = c := h.1
          exact absurd hcs.1.2 (hc ▸ by decide)
        | some found =>
          rw [hf] at h
          exact Prod.ext (hf.trans (congrArg some h.1)) rfl
      obtain ⟨rfl, hrest⟩ := eq_asciiByte_of_decodeChar hcs.1.1 hcs.1.2 hd
      rw [← hrest] at h
      rw [List.map_cons, ih hcs.2 h.2]

/-- What is read as ASCII characters are these characters: nothing that is not UTF-8 looks like
them. -/
theorem lossyText_eq_iff {bytes : Bytes} {s : String}
    (hs : ∀ c ∈ s.toList, c.toNat ≠ 0 ∧ c.toNat < 128) :
    lossyText bytes = s ↔ bytes = ofText s := by
  unfold lossyText
  constructor
  · intro h
    cases ht : text? bytes with
    | some found =>
      rw [ht] at h
      exact text?_eq_some_iff.1 (ht.trans (congrArg some h))
    | none =>
      rw [ht] at h
      have hchars : lossyChars [] bytes = s.toList := by
        rw [← h]
        exact String.toList_ofList.symm
      rw [ofText_of_ascii fun c hc ↦ (hs c hc).2]
      exact eq_of_lossyChars hs hchars
  · rintro rfl
    rw [text?_ofText]
    rfl

end LocalHttp.Bytes
