import LocalHttp.Buffer

namespace LocalHttp.Bytes

variable {d u : Bytes}

theorem findFrom_succ (d : Bytes) (start : Nat) (u : Bytes) :
    findFrom d (start + 1) u = (findFrom d start u).map (· + 1) := by
  induction u generalizing start with
  | nil => simp only [findFrom]; split <;> rfl
  | cons b u ih =>
    simp only [findFrom]
    split
    · rfl
    · exact ih (start + 1)

theorem find?_cons (d : Bytes) (b : UInt8) (u : Bytes) :
    find? d (b :: u) = if d <+: b :: u then some 0 else (find? d u).map (· + 1) := by
  simp only [find?, findFrom, List.isPrefixOf_iff_prefix, findFrom_succ]

theorem find?_cons_pos {b : UInt8} (h : d <+: b :: u) : find? d (b :: u) = some 0 := by
  rw [find?_cons, if_pos h]

theorem find?_cons_neg {b : UInt8} (h : ¬d <+: b :: u) :
    find? d (b :: u) = (find? d u).map (· + 1) := by
  rw [find?_cons, if_neg h]

theorem overlapFrom_succ (d : Bytes) (start : Nat) (u : Bytes) :
    overlapFrom d (start + 1) u = overlapFrom d start u + 1 := by
  induction u generalizing start with
  | nil => rfl
  | cons b u ih =>
    simp only [overlapFrom]
    split
    · rfl
    · exact ih (start + 1)

theorem overlapFrom_cons (d : Bytes) (b : UInt8) (u : Bytes) :
    overlapFrom d 0 (b :: u) = if b :: u <+: d then 0 else overlapFrom d 0 u + 1 := by
  simp only [overlapFrom, List.isPrefixOf_iff_prefix, overlapFrom_succ]

theorem find?_eq_none_iff : find? d u = none ↔ ¬d <:+: u := by
  induction u with
  | nil =>
    simp only [find?, findFrom, List.isEmpty_iff, List.infix_nil]
    split <;> simp_all
  | cons b u ih =>
    by_cases h : d <+: b :: u
    · rw [find?_cons_pos h]
      simp [List.infix_cons_iff, h]
    · rw [find?_cons_neg h, Option.map_eq_none_iff, ih]
      simp [List.infix_cons_iff, h]

def FirstAt (d u : Bytes) (p : Nat) : Prop := d <+: u.drop p ∧ ∀ q < p, ¬d <+: u.drop q

theorem firstAt_of_find? {p : Nat} (h : find? d u = some p) : d.FirstAt u p := by
  induction u generalizing p with
  | nil =>
    simp only [find?, findFrom, List.isEmpty_iff] at h
    split at h
    · rename_i hd
      obtain rfl := Option.some.inj h
      exact ⟨hd ▸ List.nil_prefix, fun q hq ↦ absurd hq (Nat.not_lt_zero q)⟩
    · cases h
  | cons b u ih =>
    by_cases hp : d <+: b :: u
    · rw [find?_cons_pos hp] at h
      obtain rfl := Option.some.inj h
      exact ⟨hp, fun q hq ↦ absurd hq (Nat.not_lt_zero q)⟩
    · rw [find?_cons_neg hp, Option.map_eq_some_iff] at h
      obtain ⟨p, hf, rfl⟩ := h
      obtain ⟨hat, hbefore⟩ := ih hf
      refine ⟨hat, fun q hq ↦ ?_⟩
      cases q with
      | zero => exact hp
      | succ q => exact hbefore q (Nat.lt_of_succ_lt_succ hq)

/-- The first occurrence is where the delimiter stands, unless it already occurs in what precedes
its last byte. -/
theorem find?_append_append {t : Bytes} (rest : Bytes) (h : ¬d <:+: t ++ d.dropLast) :
    find? d (t ++ (d ++ rest)) = some t.length := by
  induction t with
  | nil =>
    cases hr : d ++ rest with
    | nil =>
      obtain ⟨rfl, rfl⟩ := List.append_eq_nil_iff.1 hr
      rfl
    | cons b u => exact find?_cons_pos (hr ▸ List.prefix_append d rest)
  | cons b t ih =>
    rw [List.cons_append, List.infix_cons_iff, not_or] at h
    have hp : ¬d <+: b :: (t ++ (d ++ rest)) := by
      intro hp
      have hq : b :: (t ++ d.dropLast) <+: b :: (t ++ (d ++ rest)) := by
        refine List.cons_prefix_cons.2 ⟨rfl, (List.prefix_append_right_inj t).2 ?_⟩
        exact (List.dropLast_prefix d).trans (List.prefix_append d rest)
      refine h.1 (List.prefix_of_prefix_length_le hp hq ?_)
      simp only [List.length_cons, List.length_append, List.length_dropLast]
      omega
    rw [List.cons_append, find?_cons_neg hp, ih h.2]
    rfl

theorem exists_of_find?_eq_some (hd : d ≠ []) {p : Nat} (h : find? d u = some p) :
    ∃ t rest, u = t ++ (d ++ rest) ∧ t.length = p ∧ ¬d <:+: t ++ d.dropLast := by
  induction u generalizing p with
  | nil => simp [find?, findFrom, hd] at h
  | cons b u ih =>
    by_cases hp : d <+: b :: u
    · rw [find?_cons_pos hp, Option.some.injEq] at h
      obtain ⟨rest, hr⟩ := hp
      refine ⟨[], rest, hr.symm, h, fun hi ↦ ?_⟩
      have hl := hi.length_le
      have hpos := List.length_pos_iff.2 hd
      simp only [List.nil_append, List.length_dropLast] at hl
      omega
    · rw [find?_cons_neg hp, Option.map_eq_some_iff] at h
      obtain ⟨q, hq, rfl⟩ := h
      obtain ⟨t, rest, rfl, rfl, hn⟩ := ih hq
      refine ⟨b :: t, rest, rfl, rfl, ?_⟩
      rw [List.cons_append, List.infix_cons_iff, not_or]
      refine ⟨fun hb ↦ hp (hb.trans ?_), hn⟩
      refine List.cons_prefix_cons.2 ⟨rfl, (List.prefix_append_right_inj t).2 ?_⟩
      exact (List.dropLast_prefix d).trans (List.prefix_append d rest)

theorem find?_append_of_some (v : Bytes) {p : Nat} (h : find? d u = some p) :
    find? d (u ++ v) = some p := by
  induction u generalizing p with
  | nil =>
    simp only [find?, findFrom, List.isEmpty_iff] at h
    split at h
    · rename_i hd
      subst hd
      cases v <;> simpa [find?, findFrom] using h
    · simp at h
  | cons b u ih =>
    by_cases hp : d <+: b :: u
    · have hp' : d <+: b :: (u ++ v) := hp.trans (List.prefix_append (b :: u) v)
      rw [List.cons_append, find?_cons_pos hp']
      rwa [find?_cons_pos hp] at h
    · rw [find?_cons_neg hp, Option.map_eq_some_iff] at h
      obtain ⟨q, hq, rfl⟩ := h
      have hl := le_of_find? hq
      have hp' : ¬d <+: b :: (u ++ v) := fun hc ↦
        hp (List.prefix_of_prefix_length_le hc (List.prefix_append (b :: u) v) (by
          simp only [List.length_cons]; omega))
      rw [List.cons_append, find?_cons_neg hp', ih hq]
      rfl

/-- Later bytes complete no occurrence that begins before the overlap. -/
theorem find?_append_of_none (v : Bytes) (h : find? d u = none) :
    find? d (u ++ v) =
      (find? d (u.drop (overlapFrom d 0 u) ++ v)).map (overlapFrom d 0 u + ·) := by
  induction u with
  | nil => simp [overlapFrom]
  | cons b u ih =>
    rw [overlapFrom_cons]
    split
    · simp
    · rename_i hb
      have hp : ¬d <+: b :: u := by
        intro hp
        rw [find?_cons_pos hp] at h
        cases h
      have hp' : ¬d <+: b :: (u ++ v) := by
        intro hc
        rcases List.prefix_or_prefix_of_prefix hc (List.prefix_append (b :: u) v) with hx | hx
        · exact hp hx
        · exact hb hx
      rw [find?_cons_neg hp, Option.map_eq_none_iff] at h
      rw [List.cons_append, find?_cons_neg hp', ih h, List.drop_succ_cons,
        Option.map_map]
      congr 1
      funext n
      simp only [Function.comp_apply]
      omega

theorem overlapFrom_append (d u v : Bytes) :
    overlapFrom d 0 (u ++ v) =
      overlapFrom d 0 u + overlapFrom d 0 (u.drop (overlapFrom d 0 u) ++ v) := by
  induction u with
  | nil => simp [overlapFrom]
  | cons b u ih =>
    rw [overlapFrom_cons]
    split
    · simp
    · rename_i hb
      have hb' : ¬b :: (u ++ v) <+: d := fun hc ↦
        hb ((List.prefix_append (b :: u) v).trans hc)
      rw [List.cons_append, overlapFrom_cons, if_neg hb', ih, List.drop_succ_cons]
      omega

theorem overlapFrom_le (d u : Bytes) : overlapFrom d 0 u ≤ u.length := by
  induction u with
  | nil => exact Nat.le_refl _
  | cons b u ih =>
    rw [overlapFrom_cons, List.length_cons]
    split <;> omega

theorem drop_overlapFrom_isPrefix (d u : Bytes) : u.drop (overlapFrom d 0 u) <+: d := by
  induction u with
  | nil => exact List.nil_prefix
  | cons b u ih =>
    rw [overlapFrom_cons]
    split
    · assumption
    · exact ih

/-- The tail that starts at this offset could be the beginning of the delimiter, and no longer tail
could. -/
def OverlapAt (d u : Bytes) (p : Nat) : Prop := u.drop p <+: d ∧ ∀ q < p, ¬u.drop q <+: d

theorem overlapAt_overlapFrom (d u : Bytes) : d.OverlapAt u (overlapFrom d 0 u) := by
  refine ⟨drop_overlapFrom_isPrefix d u, ?_⟩
  induction u with
  | nil => exact nofun
  | cons b u ih =>
    rw [overlapFrom_cons]
    split
    · exact nofun
    · rename_i hb
      intro q hq
      cases q with
      | zero => exact hb
      | succ q => exact ih q (Nat.lt_of_succ_lt_succ hq)

theorem OverlapAt.unique {p q : Nat} (hp : d.OverlapAt u p) (hq : d.OverlapAt u q) : p = q := by
  rcases Nat.lt_trichotomy p q with h | h | h
  · exact absurd hp.1 (hq.2 p h)
  · exact h
  · exact absurd hq.1 (hp.2 q h)

theorem overlapFrom_singleton {c : UInt8} (h : find? [c] u = none) :
    overlapFrom [c] 0 u = u.length := by
  have hn := find?_eq_none_iff.1 h
  have hp := drop_overlapFrom_isPrefix [c] u
  have hle := overlapFrom_le [c] u
  rcases Nat.lt_or_ge (u.drop (overlapFrom [c] 0 u)).length 1 with hlt | hge
  · rw [List.length_drop] at hlt
    omega
  · have he := hp.eq_of_length_le hge
    exact absurd (he ▸ (List.drop_suffix _ u).isInfix) hn

theorem infix_singleton_iff {c : UInt8} : [c] <:+: u ↔ c ∈ u := by
  constructor
  · rintro ⟨s, t, rfl⟩
    simp
  · intro h
    obtain ⟨s, t, rfl⟩ := List.append_of_mem h
    exact ⟨s, t, by simp⟩

theorem pair_infix_append_singleton_iff {a b : UInt8} (h : a ≠ b) :
    [a, b] <:+: u ++ [a] ↔ [a, b] <:+: u := by
  induction u with
  | nil => simp [List.infix_cons_iff, List.cons_prefix_cons]
  | cons x u ih =>
    rw [List.cons_append, List.infix_cons_iff, List.infix_cons_iff, ih]
    refine or_congr_left ?_
    cases u with
    | nil => simp [List.cons_prefix_cons, h.symm]
    | cons y u => simp [List.cons_prefix_cons]

end LocalHttp.Bytes
