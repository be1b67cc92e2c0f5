import LocalHttp.Proofs.Target
import LocalHttp.Proofs.Utf8

namespace LocalHttp.Percent

/-- The characters that delimit the parts of a first line and of a query. -/
def marks : List Char := [' ', '?', '&', '=']

theorem encodeByte_plain (b : UInt8) {c : Char} (hc : c ∈ encodeByte b) :
    c.toNat < 128 ∧ c ∉ marks := by
  have h := Bytes.forall_byte
    (p := fun b ↦ (encodeByte b).all fun c ↦ c.toNat < 128 && !marks.contains c)
    (by decide +kernel) b
  simpa using List.all_eq_true.1 h c hc

theorem encode_plain {bytes : Bytes} {c : Char} (h : c ∈ (encode bytes).toList) :
    c.toNat < 128 ∧ c ∉ marks := by
  rw [encode, String.toList_ofList, List.mem_flatMap] at h
  obtain ⟨b, _, hc⟩ := h
  exact encodeByte_plain b hc

theorem ofText_encode (bytes : Bytes) :
    Bytes.ofText (encode bytes) = bytes.flatMap fun b ↦ (encodeByte b).map Bytes.asciiByte := by
  have hmap {cs : List Char} (h : ∀ c ∈ cs, c.toNat < 128) :
      cs.flatMap String.utf8EncodeChar = cs.map Bytes.asciiByte := by
    rw [List.map_eq_flatMap, List.flatMap_def, List.flatMap_def,
      List.map_congr_left fun c hc ↦ Bytes.utf8EncodeChar_of_lt (h c hc)]
  rw [Bytes.ofText_eq, encode, String.toList_ofList, List.flatMap_assoc, List.flatMap_def,
    List.flatMap_def, List.map_congr_left fun b _ ↦ hmap fun c hc ↦ (encodeByte_plain b hc).1]

theorem decodeInto_cons_of_ne {b : UInt8} (h : b ≠ 0x25) (done rest : Bytes) :
    decodeInto done (b :: rest) = decodeInto (b :: done) rest := by
  match rest with
  | [] => rfl
  | [_] => rfl
  | _ :: _ :: _ => rw [decodeInto, if_neg h]

theorem hexValue?_upperHexDigit {n : Nat} (h : n < 16) :
    hexValue? (Bytes.asciiByte (upperHexDigit n)) = some (UInt8.ofNat n) := by
  revert n
  decide

theorem plain_byte {b : UInt8} (hp : isPlain b = true) :
    b ≠ 0x25 ∧ Bytes.asciiByte (Char.ofNat b.toNat) = b := by
  have h := Bytes.forall_byte
    (p := fun b ↦ !isPlain b || (b != 0x25 && Bytes.asciiByte (Char.ofNat b.toNat) == b))
    (by decide +kernel) b
  simpa [hp] using h

theorem decodeInto_encodeByte (b : UInt8) (done rest : Bytes) :
    decodeInto done ((encodeByte b).map Bytes.asciiByte ++ rest) = decodeInto (b :: done) rest := by
  rw [encodeByte]
  split
  · rename_i h
    obtain ⟨hne, hb⟩ := plain_byte h
    rw [List.map_singleton, hb]
    exact decodeInto_cons_of_ne hne done rest
  · have hlt := b.toNat_lt
    have hp : Bytes.asciiByte '%' = 0x25 := by decide
    have hv : UInt8.ofNat (b.toNat / 16) * 16 + UInt8.ofNat (b.toNat % 16) = b := by
      refine UInt8.toNat_inj.1 ?_
      simp only [UInt8.toNat_add, UInt8.toNat_mul, UInt8.toNat_ofNat', UInt8.reduceToNat]
      omega
    simp only [List.map_cons, List.map_nil, List.cons_append, List.nil_append, hp]
    rw [decodeInto, if_pos rfl, hexValue?_upperHexDigit (by omega),
      hexValue?_upperHexDigit (by omega)]
    dsimp only
    rw [hv]

theorem decodeInto_flatMap_encodeByte (bytes done : Bytes) :
    decodeInto done (bytes.flatMap fun b ↦ (encodeByte b).map Bytes.asciiByte) =
      done.reverse ++ bytes := by
  induction bytes generalizing done with
  | nil => rw [List.flatMap_nil, decodeInto, List.append_nil]
  | cons b bytes ih =>
    rw [List.flatMap_cons, decodeInto_encodeByte, ih, List.reverse_cons, List.append_assoc,
      List.singleton_append]

theorem decode_encode (bytes : Bytes) : decode (encode bytes) = bytes := by
  rw [decode, decodeBytes, ofText_encode, decodeInto_flatMap_encodeByte, List.reverse_nil,
    List.nil_append]

end LocalHttp.Percent

namespace LocalHttp.Target

open Percent (marks)

variable {resource : String} {args : Arguments} {f : Field}

theorem toList_argumentText (f : Field) :
    (argumentText f).toList =
      (Percent.encode (Bytes.ofText f.name)).toList ++
        '=' :: (Percent.encode (Bytes.ofText f.value)).toList := by
  simp [argumentText]

theorem not_mem_encode {c : Char} (hc : c ∈ marks) (bytes : Bytes) :
    c ∉ (Percent.encode bytes).toList := fun h ↦ (Percent.encode_plain h).2 hc

theorem not_mem_argumentText {c : Char} (hc : c ∈ marks) (he : c ≠ '=') :
    c ∉ (argumentText f).toList := by
  rw [toList_argumentText, List.mem_append, List.mem_cons]
  rintro (h | h | h)
  · exact not_mem_encode hc _ h
  · exact he h
  · exact not_mem_encode hc _ h

theorem argument_argumentText (f : Field) : Argument (argumentText f).toList f := by
  have he := not_mem_encode (c := '=') (by decide) (Bytes.ofText f.name)
  unfold Argument
  rw [toList_argumentText, before_append he, behind_append he, String.ofList_toList,
    String.ofList_toList, Percent.decode_encode, Percent.decode_encode]
  exact ⟨rfl, rfl⟩

def queryChars (args : Arguments) : List Char :=
  ['&'].intercalate (args.fields.map fun f ↦ (argumentText f).toList)

theorem toList_queryText (args : Arguments) :
    (queryText args).toList = if args.fields = [] then [] else '?' :: queryChars args := by
  unfold queryText queryChars
  cases args.fields with
  | nil => rfl
  | cons f fields =>
    rw [if_neg (List.cons_ne_nil _ _)]
    simp [Function.comp_def]

theorem segments_queryChars (args : Arguments) :
    segments (queryChars args) = args.fields.map fun f ↦ (argumentText f).toList := by
  unfold segments queryChars
  cases hf : args.fields with
  | nil => rfl
  | cons f fields =>
    rw [List.splitOn_intercalate, List.filter_eq_self]
    · intro cs hc
      obtain ⟨g, _, rfl⟩ := List.mem_map.1 hc
      simp [toList_argumentText]
    · intro cs hc
      obtain ⟨g, _, rfl⟩ := List.mem_map.1 hc
      exact not_mem_argumentText (by decide) (by decide)
    · simp

theorem mem_intercalate {c d : Char} {parts : List (List Char)} (h : c ∈ [d].intercalate parts) :
    c = d ∨ ∃ part ∈ parts, c ∈ part := by
  induction parts with
  | nil => simp at h
  | cons part parts ih =>
    cases parts with
    | nil =>
      rw [List.intercalate_singleton] at h
      exact .inr ⟨part, List.mem_cons_self, h⟩
    | cons next parts =>
      rw [List.intercalate_cons_cons, List.append_assoc, List.mem_append, List.mem_append,
        List.mem_singleton] at h
      rcases h with h | h | h
      · exact .inr ⟨part, List.mem_cons_self, h⟩
      · exact .inl h
      · refine (ih h).imp_right ?_
        rintro ⟨p, hp, hc⟩
        exact ⟨p, List.mem_cons_of_mem _ hp, hc⟩

theorem space_not_mem_queryText (args : Arguments) : ' ' ∉ (queryText args).toList := by
  rw [toList_queryText]
  split
  · exact List.not_mem_nil
  · intro h
    rcases List.mem_cons.1 h with h | h
    · exact absurd h (by decide)
    · rcases mem_intercalate h with h | ⟨part, hp, hc⟩
      · exact absurd h (by decide)
      · obtain ⟨f, _, rfl⟩ := List.mem_map.1 hp
        exact not_mem_argumentText (by decide) (by decide) hc

theorem before_queryText (h : '?' ∉ resource.toList) :
    before '?' (resource ++ queryText args).toList = resource.toList := by
  rw [String.toList_append, toList_queryText]
  split
  · rw [List.append_nil, before_of_not_mem h]
  · exact before_append h

theorem segments_queryText (h : '?' ∉ resource.toList) :
    segments (behind '?' (resource ++ queryText args).toList) =
      args.fields.map fun f ↦ (argumentText f).toList := by
  rw [String.toList_append, toList_queryText]
  split
  · rename_i hf
    rw [List.append_nil, behind_of_not_mem h, hf]
    rfl
  · rw [behind_append h, segments_queryChars]

/-- A target is read back, if its resource has no question mark of its own. -/
theorem read_queryText (h : '?' ∉ resource.toList) :
    read (resource ++ queryText args) = .ok (resource, args) := by
  rw [read_eq_ok_iff, before_queryText h, segments_queryText h]
  refine ⟨String.ofList_toList.symm, args.fields, ?_, FieldTable.ofList_fields args⟩
  rw [List.forall₂_map_left_iff]
  exact List.forall₂_same.2 fun f _ ↦ argument_argumentText f

end LocalHttp.Target
