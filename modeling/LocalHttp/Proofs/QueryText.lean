import LocalHttp.Proofs.TargetText

namespace LocalHttp

namespace Percent

def IsUnreserved (c : Char) : Prop := c.isAlphanum = true ∨ c ∈ ['-', '_', '~', '.']

def IsUpperHex (c : Char) : Prop := c ∈ "0123456789ABCDEF".toList

instance (c : Char) : Decidable (IsUnreserved c) := inferInstanceAs (Decidable (_ ∨ _))

instance (c : Char) : Decidable (IsUpperHex c) := inferInstanceAs (Decidable (_ ∈ _))

/-- Unreserved characters and escapes, and nothing between them. -/
inductive Coded : List Char → Prop
  | nil : Coded []
  | plain {c : Char} {rest : List Char} : IsUnreserved c → Coded rest → Coded (c :: rest)
  | escape {high low : Char} {rest : List Char} : IsUpperHex high → IsUpperHex low →
    Coded rest → Coded ('%' :: high :: low :: rest)

theorem isUnreserved_of_isPlain {b : UInt8} (h : isPlain b = true) :
    IsUnreserved (Char.ofNat b.toNat) := by
  have hall := Bytes.forall_byte
    (p := fun b ↦ !isPlain b || decide (IsUnreserved (Char.ofNat b.toNat))) (by decide +kernel) b
  simpa [h] using hall

theorem isUpperHex_upperHexDigit {n : Nat} (h : n < 16) : IsUpperHex (upperHexDigit n) := by
  revert n
  decide

theorem Coded.encodeByte {rest : List Char} (h : Coded rest) (b : UInt8) :
    Coded (encodeByte b ++ rest) := by
  unfold Percent.encodeByte
  split
  · rename_i hp
    exact .plain (isUnreserved_of_isPlain hp) h
  · have hb := b.toNat_lt
    exact .escape (isUpperHex_upperHexDigit (by omega)) (isUpperHex_upperHexDigit (by omega)) h

theorem coded_encode (bytes : Bytes) : Coded (encode bytes).toList := by
  rw [encode, String.toList_ofList]
  induction bytes with
  | nil => exact .nil
  | cons b bytes ih => exact ih.encodeByte b

end Percent

namespace Target

def bareQuery (text : String) : String :=
  match text.toList with
  | '?' :: query => String.ofList query
  | _ => text

theorem toList_bareQuery (args : Arguments) :
    (bareQuery (queryText args)).toList = queryChars args := by
  have htext := toList_queryText args
  unfold bareQuery
  split
  · rename_i query hq
    rw [hq] at htext
    split at htext
    · cases htext
    · rw [String.toList_ofList, (List.cons.inj htext).2]
  · rename_i hq
    split at htext
    · rename_i hf
      rw [htext, queryChars, hf]
      rfl
    · exact absurd htext (hq _)

theorem argumentsOf_queryText (args : Arguments) :
    argumentsOf (bareQuery (queryText args)) = .ok args := by
  rw [argumentsOf, toList_bareQuery, readQuery_eq_ok_iff, segments_queryChars]
  refine ⟨args.fields, ?_, FieldTable.ofList_fields args⟩
  rw [List.forall₂_map_left_iff]
  exact List.forall₂_same.2 fun f _ ↦ argument_argumentText f

/-- Coding keeps to its alphabet and loses nothing: bytes are read back from their code, a path with
any arguments from the target that is written for them, and the arguments alone from their query,
be they read from another query, added one by one or merged from several tables. -/
theorem coding_reads_back :
    (∀ bytes : Bytes, Percent.decode (Percent.encode bytes) = bytes ∧
      Percent.Coded (Percent.encode bytes).toList) ∧
    (∀ (path : String) (args : Arguments), '?' ∉ path.toList →
      read (path ++ queryText args) = .ok (path, args)) ∧
    ∀ args : Arguments, argumentsOf (bareQuery (queryText args)) = .ok args :=
  ⟨fun bytes ↦ ⟨Percent.decode_encode bytes, Percent.coded_encode bytes⟩,
    fun _ _ h ↦ read_queryText h, argumentsOf_queryText⟩

def awkward : Arguments :=
  .ofList [⟨"", ""⟩, ⟨"a&b=c?", "100%"⟩, ⟨"fän", "%26"⟩, ⟨"a&b=c?", "again"⟩]

theorem coding_reads_back_awkward :
    '?' ∉ "/a=b&c".toList ∧
      read ("/a=b&c" ++ queryText awkward) = .ok ("/a=b&c", awkward) := by
  have hp : '?' ∉ "/a=b&c".toList := by decide
  exact ⟨hp, coding_reads_back.2.1 "/a=b&c" awkward hp⟩

end Target

end LocalHttp
