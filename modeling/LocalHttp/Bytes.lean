namespace LocalHttp

abbrev Bytes := List UInt8

namespace Bytes

def ofText (text : String) : Bytes := text.toByteArray.data.toList

def text? (bytes : Bytes) : Option String := String.fromUTF8? ⟨bytes.toArray⟩

def replacement : Char := '\ufffd'

/-- The continuation bytes that a leading byte asks for: how many, and the range of the first
one, which is narrower than `80..BF` where overlong forms and surrogates begin. -/
structure Lead where
  payload : Nat
  count : Nat
  low : UInt8
  high : UInt8

def lead? (b : UInt8) : Option Lead :=
  if b < 0x80 then some ⟨b.toNat, 0, 0x80, 0xbf⟩
  else if b < 0xc2 then none
  else if b < 0xe0 then some ⟨b.toNat - 0xc0, 1, 0x80, 0xbf⟩
  else if b == 0xe0 then some ⟨0, 2, 0xa0, 0xbf⟩
  else if b == 0xed then some ⟨0xd, 2, 0x80, 0x9f⟩
  else if b < 0xf0 then some ⟨b.toNat - 0xe0, 2, 0x80, 0xbf⟩
  else if b == 0xf0 then some ⟨0, 3, 0x90, 0xbf⟩
  else if b < 0xf4 then some ⟨b.toNat - 0xf0, 3, 0x80, 0xbf⟩
  else if b == 0xf4 then some ⟨4, 3, 0x80, 0x8f⟩
  else none

/-- Reads `count` continuation bytes; stops before the first byte that cannot belong to the
sequence, which leaves a maximal invalid prefix behind. -/
def continuation : (payload count : Nat) → (low high : UInt8) → Bytes → Option Char × Bytes
  | payload, 0, _, _, rest => (some (Char.ofNat payload), rest)
  | _, _ + 1, _, _, [] => (none, [])
  | payload, count + 1, low, high, b :: rest =>
    if low ≤ b ∧ b ≤ high then continuation (payload * 64 + (b.toNat - 0x80)) count 0x80 0xbf rest
    else (none, b :: rest)

theorem length_continuation_le (payload count : Nat) (low high : UInt8) (rest : Bytes) :
    (continuation payload count low high rest).2.length ≤ rest.length := by
  induction rest generalizing payload count low high with
  | nil => cases count <;> simp [continuation]
  | cons b rest ih =>
    cases count with
    | zero => simp [continuation]
    | succ count =>
      simp only [continuation]
      split
      · exact Nat.le_succ_of_le (ih _ _ _ _)
      · exact Nat.le_refl _

def decodeChar (b : UInt8) (rest : Bytes) : Option Char × Bytes :=
  match lead? b with
  | none => (none, rest)
  | some l => continuation l.payload l.count l.low l.high rest

theorem length_decodeChar_le (b : UInt8) (rest : Bytes) :
    (decodeChar b rest).2.length ≤ rest.length := by
  unfold decodeChar
  split
  · exact Nat.le_refl _
  · exact length_continuation_le _ _ _ _ _

/-- Every maximal invalid prefix becomes one U+FFFD; `done` holds the characters so far, last
first. -/
def lossyChars (done : List Char) : Bytes → List Char
  | [] => done.reverse
  | b :: rest =>
    lossyChars ((decodeChar b rest).1.getD replacement :: done) (decodeChar b rest).2
termination_by bytes => bytes.length
decreasing_by
  have := length_decodeChar_le b rest
  simp only [List.length_cons]
  omega

def lossyText (bytes : Bytes) : String :=
  (text? bytes).getD (String.ofList (lossyChars [] bytes))

def validLength (valid : Nat) : Bytes → Nat
  | [] => valid
  | b :: rest =>
    match (decodeChar b rest).1 with
    | none => valid
    | some c => validLength (valid + c.utf8Size) (decodeChar b rest).2
termination_by bytes => bytes.length
decreasing_by
  have := length_decodeChar_le b rest
  simp only [List.length_cons]
  omega

def findFrom (pattern : Bytes) (start : Nat) : Bytes → Option Nat
  | [] => if pattern.isEmpty then some start else none
  | b :: rest =>
    if pattern.isPrefixOf (b :: rest) then some start else findFrom pattern (start + 1) rest

def find? (pattern bytes : Bytes) : Option Nat := findFrom pattern 0 bytes

theorem le_of_findFrom {pattern bytes : Bytes} {start position : Nat}
    (h : findFrom pattern start bytes = some position) :
    start ≤ position ∧ position - start + pattern.length ≤ bytes.length := by
  induction bytes generalizing start with
  | nil =>
    simp only [findFrom, List.isEmpty_iff] at h
    split at h <;> simp_all
  | cons b rest ih =>
    rw [findFrom] at h
    split at h
    · rename_i hp
      have := (List.isPrefixOf_iff_prefix.1 hp).length_le
      simp only [Option.some.injEq] at h
      omega
    · have := ih h
      simp only [List.length_cons]
      omega

theorem le_of_find? {pattern bytes : Bytes} {position : Nat}
    (h : find? pattern bytes = some position) : position + pattern.length ≤ bytes.length := by
  have := le_of_findFrom h
  omega

/-- The position of the longest suffix that `pattern` starts with, counted from `start`; the
end if only the empty one is. -/
def overlapFrom (pattern : Bytes) (start : Nat) : Bytes → Nat
  | [] => start
  | b :: rest =>
    if (b :: rest).isPrefixOf pattern then start else overlapFrom pattern (start + 1) rest

end Bytes

end LocalHttp
