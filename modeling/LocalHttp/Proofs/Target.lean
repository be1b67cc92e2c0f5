import LocalHttp.Proofs.Fields
import LocalHttp.Proofs.Utf8
import LocalHttp.Target
import Mathlib.Data.List.Forall2

namespace LocalHttp.Target

def before (mark : Char) (cs : List Char) : List Char := cs.takeWhile (· ≠ mark)

def behind (mark : Char) (cs : List Char) : List Char := (cs.dropWhile (· ≠ mark)).drop 1

/-- The segment gives the field, each side of its first equals sign decoding to UTF-8. -/
def Argument (segment : List Char) (f : Field) : Prop :=
  Percent.decode (String.ofList (before '=' segment)) = Bytes.ofText f.name ∧
    Percent.decode (String.ofList (behind '=' segment)) = Bytes.ofText f.value

def segments (query : List Char) : List (List Char) := (query.splitOn '&').filter (· ≠ [])

variable {mark : Char} {cs front rest : List Char}

theorem ne_of_not_mem (h : mark ∉ cs) : ∀ c ∈ cs, decide (c ≠ mark) = true := by
  intro c hc
  refine decide_eq_true fun he ↦ h ?_
  rwa [← he]

theorem before_of_not_mem (h : mark ∉ cs) : before mark cs = cs := by
  have ht : before mark (cs ++ []) = cs ++ before mark [] :=
    List.takeWhile_append_of_pos (ne_of_not_mem h)
  rwa [List.append_nil, before, before, List.takeWhile_nil, List.append_nil] at ht

theorem dropWhile_of_not_mem (h : mark ∉ cs) : cs.dropWhile (· ≠ mark) = [] := by
  have hd : (cs ++ []).dropWhile (· ≠ mark) = [].dropWhile (· ≠ mark) :=
    List.dropWhile_append_of_pos (ne_of_not_mem h)
  rwa [List.append_nil, List.dropWhile_nil] at hd

theorem behind_of_not_mem (h : mark ∉ cs) : behind mark cs = [] := by
  rw [behind, dropWhile_of_not_mem h, List.drop_nil]

theorem before_append (h : mark ∉ front) : before mark (front ++ mark :: rest) = front := by
  rw [before, List.takeWhile_append_of_pos (ne_of_not_mem h),
    List.takeWhile_cons_of_neg (by simp), List.append_nil]

theorem dropWhile_append (h : mark ∉ front) :
    (front ++ mark :: rest).dropWhile (· ≠ mark) = mark :: rest := by
  rw [List.dropWhile_append_of_pos (ne_of_not_mem h), List.dropWhile_cons_of_neg (by simp)]

theorem behind_append (h : mark ∉ front) : behind mark (front ++ mark :: rest) = rest := by
  rw [behind, dropWhile_append h, List.drop_one, List.tail_cons]

theorem splitOnce?_of_not_mem (h : mark ∉ cs) : splitOnce? mark cs = none := by
  unfold splitOnce?
  rw [dropWhile_of_not_mem h]

theorem splitOnce?_append (h : mark ∉ front) :
    splitOnce? mark (front ++ mark :: rest) = some (front, rest) := by
  unfold splitOnce?
  rw [dropWhile_append h]
  exact congrArg (fun b ↦ some (b, rest)) (before_append h)

theorem decodeText_eq_ok_iff {s : String} :
    decodeText cs = .ok s ↔ Percent.decode (String.ofList cs) = Bytes.ofText s := by
  rw [← Bytes.text?_eq_some_iff, decodeText]
  cases Bytes.text? (Percent.decode (String.ofList cs)) <;> simp

theorem readArgument_eq_ok_iff {segment : List Char} {f : Field} :
    readArgument segment = .ok f ↔ Argument segment f := by
  unfold Argument
  rw [← decodeText_eq_ok_iff, ← decodeText_eq_ok_iff, readArgument]
  by_cases hm : '=' ∈ segment
  · obtain ⟨name, value, rfl, hn⟩ := List.eq_append_cons_of_mem hm
    rw [splitOnce?_append hn, before_append hn, behind_append hn]
    dsimp only
    cases decodeText name with
    | error e => simp
    | ok n => cases decodeText value <;> simp [Except.map, Field.mk_eq_iff]
  · have hempty : decodeText [] = .ok "" := decodeText_eq_ok_iff.2 rfl
    rw [splitOnce?_of_not_mem hm, before_of_not_mem hm, behind_of_not_mem hm, hempty]
    cases decodeText segment <;> simp [Except.map, Field.mk_eq_iff]

theorem segments_of_not_mem (h : '&' ∉ cs) : segments cs = if cs = [] then [] else [cs] := by
  rw [segments, List.splitOn_eq_singleton h, List.filter_singleton]
  split <;> simp_all

theorem segments_append (h : '&' ∉ front) :
    segments (front ++ '&' :: rest) =
      if front = [] then segments rest else front :: segments rest := by
  rw [segments, List.splitOn_append_cons_self_of_not_mem h, List.filter_cons]
  split <;> simp_all [segments]

theorem readQuery_of_not_mem {args : Arguments} (h : '&' ∉ cs) :
    readQuery args cs = if cs = [] then .ok args else (readArgument cs).map args.insert := by
  have hs := splitOnce?_of_not_mem h
  rw [readQuery]
  split
  · cases cs <;> rfl
  · rename_i ho
    rw [hs] at ho
    cases ho

theorem readQuery_append {args : Arguments} (h : '&' ∉ front) :
    readQuery args (front ++ '&' :: rest) =
      if front = [] then readQuery args rest
      else
        match readArgument front with
        | .error e => .error e
        | .ok field => readQuery (args.insert field) rest := by
  have hs : splitOnce? '&' (front ++ '&' :: rest) = some (front, rest) := splitOnce?_append h
  rw [readQuery]
  split
  · rename_i ho
    rw [hs] at ho
    cases ho
  · rename_i ho
    rw [hs] at ho
    cases ho
    cases front <;> rfl

/-- The arguments of a query are those of its segments, behind those that are there already. -/
theorem readQuery_eq_ok_iff {args out : Arguments} {query : List Char} :
    readQuery args query = .ok out ↔
      ∃ fields, List.Forall₂ Argument (segments query) fields ∧
        fields.foldl FieldTable.insert args = out := by
  induction hn : query.length using Nat.strongRecOn generalizing args query with
  | ind n ih =>
    by_cases hm : '&' ∈ query
    · obtain ⟨segment, rest, rfl, hs⟩ := List.eq_append_cons_of_mem hm
      have hlt : rest.length < n := by
        rw [← hn, List.length_append, List.length_cons]
        omega
      rw [readQuery_append hs, segments_append hs]
      by_cases hempty : segment = []
      · rw [if_pos hempty, if_pos hempty]
        exact ih _ hlt rfl
      · rw [if_neg hempty, if_neg hempty]
        simp only [List.forall₂_cons_left_iff, ← readArgument_eq_ok_iff]
        cases readArgument segment with
        | error e => simp
        | ok f =>
          dsimp only
          rw [ih _ hlt rfl]
          constructor
          · rintro ⟨fields, hf, rfl⟩
            exact ⟨f :: fields, ⟨f, fields, rfl, hf, rfl⟩, rfl⟩
          · rintro ⟨_, ⟨g, fields, hg, hf, rfl⟩, rfl⟩
            cases hg
            exact ⟨fields, hf, rfl⟩
    · rw [readQuery_of_not_mem hm, segments_of_not_mem hm]
      by_cases hempty : query = []
      · rw [if_pos hempty, if_pos hempty]
        simp [List.forall₂_nil_left_iff]
      · rw [if_neg hempty, if_neg hempty]
        simp only [List.forall₂_cons_left_iff, List.forall₂_nil_left_iff, ← readArgument_eq_ok_iff]
        cases readArgument query with
        | error e => simp [Except.map]
        | ok f => simp [Except.map]

/-- A target gives its resource and its arguments, of which the first of a name counts. -/
theorem read_eq_ok_iff {target resource : String} {args : Arguments} :
    read target = .ok (resource, args) ↔
      resource = String.ofList (before '?' target.toList) ∧
        ∃ fields, List.Forall₂ Argument (segments (behind '?' target.toList)) fields ∧
          FieldTable.ofList fields = args := by
  unfold read
  by_cases hm : '?' ∈ target.toList
  · obtain ⟨front, query, ht, hf⟩ := List.eq_append_cons_of_mem hm
    rw [ht, splitOnce?_append hf, before_append hf, behind_append hf]
    simp only [FieldTable.ofList, ← readQuery_eq_ok_iff]
    cases readQuery .empty query with
    | error e => simp [Except.map]
    | ok out => simp [Except.map, eq_comm]
  · rw [splitOnce?_of_not_mem hm, before_of_not_mem hm, behind_of_not_mem hm, String.ofList_toList]
    simp only [FieldTable.ofList, ← readQuery_eq_ok_iff]
    rw [readQuery_of_not_mem (by simp)]
    simp [eq_comm]

end LocalHttp.Target
