import LocalHttp.Json.Container
import LocalHttp.Json.Numeral

namespace LocalHttp.Json

def maxDepth : Nat := 127

def readMembers (value : Cursor → Result Value) :
    (fuel : Nat) → (first : Bool) → Cursor → Dictionary Value → Result (Dictionary Value)
  | 0, _, c, _ => .error (c.errorHere .endInObject)
  | fuel + 1, first, c, members =>
    match nextName? first c with
    | .error e => .error e
    | .ok (false, c) => .ok (members, c)
    | .ok (true, c) =>
      match readQuoted c.next with
      | .error e => .error e
      | .ok (name, c) =>
        match readColon c with
        | .error e => .error e
        | .ok c =>
          match value c with
          | .error e => .error e
          | .ok (v, c) => readMembers value fuel false c (Dictionary.insert name v members)

def readObject (value : Cursor → Result Value) (c : Cursor) : Result Value :=
  match readMembers value (c.rest.length + 1) true c [] with
  | .error e => .error e
  | .ok (members, c) =>
    match closeObject c with
    | (c, none) => .ok (.object members, c)
    | (_, some e) => .error e

def readScalar (c : Cursor) : Result Value :=
  match c.peek? with
  | none => .error (c.errorAhead .endInValue)
  | some b =>
    match b.toNat with
    | 0x6e => (c.next.readWord nullTail).map fun c ↦ (.null, c)
    | 0x74 => (c.next.readWord trueTail).map fun c ↦ (.boolean true, c)
    | 0x66 => (c.next.readWord falseTail).map fun c ↦ (.boolean false, c)
    | 0x22 => (readQuoted c.next).map fun (s, c) ↦ (.string s, c)
    | _ =>
      if b = 0x2d ∨ isDigit b then (readSignedNumber c).map fun (n, c) ↦ (.number n, c)
      else .error (c.errorAhead .expectedValue)

/-- Reads a value around which `depth` more containers may be opened. -/
def readValue : (depth : Nat) → Cursor → Result Value
  | depth, c =>
    let c := c.skipBlanks
    if c.peek? = some 0x5b then
      match depth with
      | 0 => .error (c.errorAhead .recursionLimit)
      | depth + 1 => (readList (readValue depth) c.next).map fun (items, c) ↦ (.array items, c)
    else if c.peek? = some 0x7b then
      match depth with
      | 0 => .error (c.errorAhead .recursionLimit)
      | depth + 1 => readObject (readValue depth) c.next
    else readScalar c

def Value.ofBytes (text : Bytes) : Except Error Value := finish (readValue maxDepth ⟨text, 1, 0⟩)

def skipScalar (c : Cursor) : Except Error Cursor :=
  match c.peek? with
  | none => .error (c.errorAhead .endInValue)
  | some b =>
    match b.toNat with
    | 0x6e => c.next.readWord nullTail
    | 0x74 => c.next.readWord trueTail
    | 0x66 => c.next.readWord falseTail
    | 0x22 => skipQuoted c.next
    | 0x2d => skipNumber c.next
    | _ => if isDigit b then skipNumber c else .error (c.errorAhead .expectedValue)

inductive Open
  | list
  | object

def Open.endCause : Open → Cause
  | .list => .endInList
  | .object => .endInObject

def Open.closing : Open → UInt8
  | .list => 0x5d
  | .object => 0x7d

def Open.separatorCause : Open → Cause
  | .list => .expectedListEnd
  | .object => .expectedObjectEnd

/-- Closes as many containers as end here, then passes the comma that must follow a value. Ends
in the container that goes on, or in none. -/
def skipClosing : (stack : List Open) → (comma : Bool) → Cursor →
    Except Error (List Open × Cursor)
  | [], _, c => .ok ([], c)
  | top :: stack, comma, c =>
    let c := c.skipBlanks
    match c.peek? with
    | none => .error (c.errorAhead top.endCause)
    | some b =>
      if comma ∧ b = 0x2c then .ok (top :: stack, c.next)
      else if b = top.closing then skipClosing stack true c.next
      else if comma then .error (c.errorAhead top.separatorCause)
      else .ok (top :: stack, c)

def skipName (stack : List Open) (c : Cursor) : Except Error Cursor :=
  match stack with
  | .object :: _ =>
    let c := c.skipBlanks
    match c.peek? with
    | none => .error (c.errorAhead .endInObject)
    | some b =>
      if b = 0x22 then
        match skipQuoted c.next with
        | .error e => .error e
        | .ok c => readColon c
      else .error (c.errorAhead .keyNotString)
  | _ => .ok c

/-- Passes over a value inside the open containers, and what is left of them. -/
def skipInside : (fuel : Nat) → (stack : List Open) → Cursor → Except Error Cursor
  | 0, _, c => .error (c.errorHere .endInValue)
  | fuel + 1, stack, c =>
    let c := c.skipBlanks
    let closed :=
      if c.peek? = some 0x5b then skipClosing (.list :: stack) false c.next
      else if c.peek? = some 0x7b then skipClosing (.object :: stack) false c.next
      else
        match skipScalar c with
        | .error e => .error e
        | .ok c => skipClosing stack true c
    match closed with
    | .error e => .error e
    | .ok ([], c) => .ok c
    | .ok (stack, c) =>
      match skipName stack c with
      | .error e => .error e
      | .ok c => skipInside fuel stack c

def skipValue (c : Cursor) : Except Error Cursor := skipInside (c.rest.length + 1) [] c

end LocalHttp.Json
