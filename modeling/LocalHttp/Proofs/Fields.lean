import LocalHttp.Fields

namespace LocalHttp

theorem Field.mk_eq_iff {name value : String} {f : Field} :
    ⟨name, value⟩ = f ↔ name = f.name ∧ value = f.value := by
  obtain ⟨n, v⟩ := f
  exact Field.mk.injEq name value n v ▸ Iff.rfl

theorem toList_toLower (s : String) : s.toLower.toList = s.toList.map Char.toLower :=
  String.toList_map

theorem toLower_eq_iff {s t : String} :
    s.toLower = t ↔ s.toList.map Char.toLower = t.toList := by
  rw [← String.toList_inj, toList_toLower]

theorem noBreak_of_not_mem {cs : List Char} (h : '\r' ∉ cs) : ¬['\r', '\n'] <:+: cs :=
  fun hi ↦ h (hi.subset List.mem_cons_self)

theorem getD_getLast?_filterMap {α β : Type} (f : α → Option β) (x : α) (rest : List α) (y : β) :
    ((x :: rest).filterMap f).getLast?.getD y =
      (rest.filterMap f).getLast?.getD ((f x).getD y) := by
  cases hf : f x with
  | none => rw [List.filterMap_cons_none hf, Option.getD_none]
  | some z =>
    rw [List.filterMap_cons_some hf, List.getLast?_cons, Option.getD_some, Option.getD_some]

namespace FieldTable

variable {key : String → String}

theorem contains_congr {t : FieldTable key} {a b : String} (h : key a = key b) :
    t.contains a = t.contains b := by
  rw [contains, contains, get?, get?, h]

theorem add_of_contains {t : FieldTable key} {name value : String}
    (h : t.contains name = true) : t.add name value = t := dif_pos h

theorem fields_insert (t : FieldTable key) (f : Field) :
    (t.insert f).fields = if t.contains f.name then t.fields else t.fields ++ [f] := by
  unfold insert
  split <;> rfl

theorem get?_insert (t : FieldTable key) (f : Field) (name : String) :
    (t.insert f).get? name =
      (t.get? name).or (if key f.name = key name then some f else none) := by
  by_cases hc : t.contains f.name = true
  · have hi : t.insert f = t := dif_pos hc
    rw [hi]
    split
    · rename_i hk
      have hs : (t.get? name).isSome = true := by
        unfold contains get? at hc
        rwa [hk] at hc
      obtain ⟨g, hg⟩ := Option.isSome_iff_exists.1 hs
      rw [hg, Option.some_or]
    · rw [Option.or_none]
  · rw [get?, fields_insert, if_neg hc, List.find?_append, List.find?_singleton]
    simp only [beq_iff_eq, get?]

theorem get?_foldl_insert (t : FieldTable key) (fields : List Field) (name : String) :
    (fields.foldl insert t).get? name =
      (t.get? name).or (fields.find? fun f ↦ key f.name == key name) := by
  induction fields generalizing t with
  | nil => rw [List.foldl_nil, List.find?_nil, Option.or_none]
  | cons f fields ih =>
    rw [List.foldl_cons, ih, get?_insert, Option.or_assoc, List.find?_cons]
    congr 1
    by_cases hk : key f.name = key name
    · rw [if_pos hk, Option.some_or, beq_iff_eq.2 hk]
    · rw [if_neg hk, Option.none_or, beq_eq_false_iff_ne.2 hk]

/-- The first field of a name counts. -/
theorem get?_ofList (fields : List Field) (name : String) :
    (ofList fields : FieldTable key).get? name =
      fields.find? fun f ↦ key f.name == key name :=
  (get?_foldl_insert empty fields name).trans Option.none_or

def sameName (key : String → String) (a b : Field) : Bool := key a.name == key b.name

theorem contains_insert (t : FieldTable key) (f g : Field) :
    (t.insert f).contains g.name = (t.contains g.name || sameName key g f) := by
  rw [contains, contains, get?_insert, Option.isSome_or, sameName]
  by_cases hk : key f.name = key g.name
  · rw [if_pos hk, hk, beq_self_eq_true, Option.isSome_some]
  · rw [if_neg hk, beq_eq_false_iff_ne.2 (Ne.symm hk), Option.isSome_none]

theorem fields_foldl_insert (t : FieldTable key) (fields : List Field) :
    (fields.foldl insert t).fields =
      t.fields ++ (fields.filter fun f ↦ !t.contains f.name).eraseDupsBy (sameName key) := by
  induction fields generalizing t with
  | nil => simp
  | cons f fields ih =>
    rw [List.foldl_cons, ih, fields_insert, List.filter_cons]
    cases hc : t.contains f.name with
    | true =>
      have hi : t.insert f = t := dif_pos hc
      simp only [hi, Bool.not_true, Bool.false_eq_true, ↓reduceIte]
    | false =>
      simp only [Bool.not_false, Bool.false_eq_true, ↓reduceIte]
      rw [List.eraseDupsBy_cons, List.filter_filter, List.append_assoc, List.singleton_append]
      congr 3
      refine List.filter_congr fun g _ ↦ ?_
      rw [contains_insert]
      cases t.contains g.name <;> cases sameName key g f <;> rfl

/-- A table of a list keeps the first field of each name, in their order. -/
theorem fields_ofList (fields : List Field) :
    (ofList fields : FieldTable key).fields = fields.eraseDupsBy (sameName key) := by
  have hall : (fields.filter fun f ↦ !(empty : FieldTable key).contains f.name) = fields :=
    List.filter_eq_self.2 fun _ _ ↦ rfl
  rw [ofList, fields_foldl_insert, hall]
  rfl

theorem mem_fields_foldl_insert {t : FieldTable key} {fields : List Field} {f : Field}
    (h : f ∈ (fields.foldl insert t).fields) : f ∈ t.fields ∨ f ∈ fields := by
  induction fields generalizing t with
  | nil => exact .inl h
  | cons g fields ih =>
    rcases ih h with ht | hf
    · rw [fields_insert] at ht
      split at ht
      · exact .inl ht
      · refine (List.mem_append.1 ht).imp_right fun hg ↦ ?_
        exact List.mem_cons.2 (.inl (List.mem_singleton.1 hg))
    · exact .inr (List.mem_cons_of_mem g hf)

theorem mem_of_mem_fields_ofList {fields : List Field} {f : Field}
    (h : f ∈ (ofList fields : FieldTable key).fields) : f ∈ fields :=
  (mem_fields_foldl_insert h).resolve_left List.not_mem_nil

theorem ext_fields {t u : FieldTable key} (h : t.fields = u.fields) : t = u := by
  obtain ⟨fields, _⟩ := t
  obtain rfl : fields = u.fields := h
  rfl

theorem eraseDupsBy_sameName {fields : List Field}
    (h : fields.Pairwise fun a b ↦ key a.name ≠ key b.name) :
    fields.eraseDupsBy (sameName key) = fields := by
  induction fields with
  | nil => rfl
  | cons f fields ih =>
    rw [List.pairwise_cons] at h
    rw [List.eraseDupsBy_cons, List.filter_eq_self.2, ih h.2]
    intro g hg
    simpa [sameName] using fun he ↦ h.1 g hg he.symm

theorem ofList_fields (t : FieldTable key) : ofList t.fields = t := by
  refine ext_fields ?_
  rw [fields_ofList, eraseDupsBy_sameName t.distinct]

theorem empty_merge (t : FieldTable key) : empty.merge t = t := t.ofList_fields

end FieldTable

end LocalHttp
