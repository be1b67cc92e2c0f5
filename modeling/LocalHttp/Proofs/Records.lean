import LocalHttp.Json.Record
import Mathlib.Data.List.Forall2

namespace LocalHttp.Json

variable {α : Type} {shape : Shape α} {P : FieldShape α → α → Prop}

theorem exists_of_closeShaped {close : Cursor → Cursor × Option Error} {body : Shaped α}
    {x : α} {c : Cursor} (h : closeShaped close body = .ok (x, c)) :
    ∃ c, body = .ok (.ok x, c) := by
  unfold closeShaped at h
  cases body with
  | error e => cases h
  | ok result =>
    obtain ⟨shaped, c⟩ := result
    cases shaped with
    | error cause => cases h
    | ok y =>
      dsimp only at h
      split at h
      · cases h
      · cases h
      · rename_i hy _
        cases h
        cases hy
        exact ⟨c, rfl⟩

theorem forall_mem_readFields
    (hvalue : ∀ f ∈ shape.fields, ∀ c x c', f.value c = .ok (x, c') → P f x)
    {fuel : Nat} {first : Bool} {c c' : Cursor} {seen all : Members α}
    (hseen : ∀ m ∈ seen, ∃ f, shape.fields.find? (fun f ↦ f.name = m.1) = some f ∧ P f m.2)
    (h : readFields shape fuel first c seen = .ok (.ok all, c')) :
    ∀ m ∈ all, ∃ f, shape.fields.find? (fun f ↦ f.name = m.1) = some f ∧ P f m.2 := by
  induction fuel generalizing first c seen with
  | zero => cases h
  | succ fuel ih =>
    rw [readFields] at h
    split at h
    · cases h
    · cases h
      exact hseen
    · split at h
      · cases h
      · split at h
        · split at h
          · cases h
          · split at h
            · cases h
            · exact ih hseen h
        · rename_i name _ _ field hfield
          split at h
          · cases h
          · split at h
            · cases h
            · split at h
              · cases h
              · rename_i x _ hx
                refine ih (fun m hm ↦ ?_) h
                rcases List.mem_cons.1 hm with rfl | hm
                · exact ⟨field, hfield, hvalue field (List.mem_of_find?_eq_some hfield) _ _ _ hx⟩
                · exact hseen m hm

theorem forall₂_completeFields {seen : Members α} {fields : List (FieldShape α)} {xs : List α}
    (hgiven : ∀ f ∈ fields, ∀ m, seen.find? (fun m ↦ m.1 = f.name) = some m → P f m.2)
    (habsent : ∀ f ∈ fields, ∀ x, f.absent = some x → P f x)
    (h : completeFields seen fields = .ok xs) : List.Forall₂ P fields xs := by
  induction fields generalizing xs with
  | nil =>
    cases h
    exact .nil
  | cons field fields ih =>
    rw [completeFields] at h
    split at h
    · cases h
    · rename_i x hx
      cases hrest : completeFields seen fields with
      | error cause =>
        rw [hrest] at h
        cases h
      | ok rest =>
        rw [hrest] at h
        cases h
        refine .cons ?_ (ih (fun f hf ↦ hgiven f (List.mem_cons_of_mem _ hf))
          (fun f hf ↦ habsent f (List.mem_cons_of_mem _ hf)) hrest)
        cases hfind : seen.find? (fun m ↦ m.1 = field.name) with
        | some m =>
          rw [hfind] at hx
          cases hx
          exact hgiven field List.mem_cons_self m hfind
        | none =>
          rw [hfind] at hx
          exact habsent field List.mem_cons_self x hx

theorem forall₂_readPositions {fields : List (FieldShape α)} {c c' : Cursor} {done xs : List α}
    (hvalue : ∀ f ∈ fields, ∀ c x c', f.value c = .ok (x, c') → P f x)
    (h : readPositions shape fields c done = .ok (.ok xs, c')) :
    ∃ rest, xs = done.reverse ++ rest ∧ List.Forall₂ P fields rest := by
  induction fields generalizing c done with
  | nil =>
    cases h
    exact ⟨[], (List.append_nil _).symm, .nil⟩
  | cons field fields ih =>
    rw [readPositions] at h
    split at h
    · cases h
    · cases h
    · split at h
      · cases h
      · rename_i x _ hx
        obtain ⟨rest, rfl, hrest⟩ := ih (fun f hf ↦ hvalue f (List.mem_cons_of_mem _ hf)) h
        refine ⟨x :: rest, ?_, .cons (hvalue field List.mem_cons_self _ _ _ hx) hrest⟩
        rw [List.reverse_cons, List.append_assoc]
        rfl

/-- The values of a record stand in the order of its fields. -/
theorem forall₂_readRecord {c c' : Cursor} {xs : List α}
    (hnames : ∀ f ∈ shape.fields, shape.fields.find? (fun g ↦ g.name = f.name) = some f)
    (hvalue : ∀ f ∈ shape.fields, ∀ c x c', f.value c = .ok (x, c') → P f x)
    (habsent : ∀ f ∈ shape.fields, ∀ x, f.absent = some x → P f x)
    (h : readRecord shape c = .ok (xs, c')) : List.Forall₂ P shape.fields xs := by
  unfold readRecord at h
  dsimp only at h
  split at h
  · cases h
  · split at h
    · obtain ⟨_, hpositions⟩ := exists_of_closeShaped h
      obtain ⟨rest, rfl, hrest⟩ := forall₂_readPositions hvalue hpositions
      exact hrest
    · split at h
      · obtain ⟨_, hfields⟩ := exists_of_closeShaped h
        cases hread : readFields shape (c.skipBlanks.rest.length + 1) true c.skipBlanks.next [] with
        | error e =>
          rw [hread] at hfields
          cases hfields
        | ok result =>
          obtain ⟨given, last⟩ := result
          rw [hread] at hfields
          cases given with
          | error cause => cases hfields
          | ok seen =>
            have hcomplete : completeFields seen shape.fields = .ok xs :=
              (Prod.mk.inj (Except.ok.inj hfields)).1
            have hseen := forall_mem_readFields hvalue (fun m hm ↦ absurd hm List.not_mem_nil) hread
            refine forall₂_completeFields (fun f hf m hm ↦ ?_) habsent hcomplete
            obtain ⟨g, hg, hp⟩ := hseen m (List.mem_of_find?_eq_some hm)
            have hname : m.1 = f.name := by
              simpa using List.find?_some hm
            rw [hname, hnames f hf] at hg
            cases hg
            exact hp
      · cases h

end LocalHttp.Json
