import LocalHttp.Json.Reader
import LocalHttp.Json.Value
import LocalHttp.Message

namespace LocalHttp.Json

def unexpected (expected : String) (c : Cursor) : Error :=
  let report (found : Found) (c : Cursor) : Error := c.errorHere (.invalidType found expected)
  match c.peek? with
  | some 0x5b => report .sequence c
  | some 0x7b => report .map c
  | _ =>
    match readScalar c with
    | .error e => e
    | .ok (.null, c) => report .null c
    | .ok (.boolean b, c) => report (.boolean b) c
    | .ok (.number (.integer n), c) => report (.integer n) c
    | .ok (.number (.float x), c) => report (.float x) c
    | .ok (.string s, c) => report (.string s) c
    | .ok (_, c) => report .null c

def readUnsigned (bits : Nat) (c : Cursor) : Result Nat :=
  let expected := "u" ++ Nat.repr bits
  let c := c.skipBlanks
  match c.peek? with
  | none => .error (c.errorAhead .endInValue)
  | some b =>
    if b = 0x2d ∨ isDigit b then
      match readSignedNumber c with
      | .error e => .error e
      | .ok (.integer n, c) =>
        if 0 ≤ n ∧ n.toNat < Nat.pow 2 bits then .ok (n.toNat, c)
        else .error (c.errorHere (.invalidValue (.integer n) expected))
      | .ok (.float x, c) => .error (c.errorHere (.invalidType (.float x) expected))
    else .error (unexpected expected c)

def readOptional {α : Type} (value : Cursor → Result α) (c : Cursor) : Result (Option α) :=
  let c := c.skipBlanks
  if c.peek? = some 0x6e then (c.next.readWord nullTail).map fun c ↦ (none, c)
  else (value c).map fun (x, c) ↦ (some x, c)

def readSequence {α : Type} (item : Cursor → Result α) (c : Cursor) : Result (List α) :=
  let c := c.skipBlanks
  match c.peek? with
  | none => .error (c.errorAhead .endInValue)
  | some b => if b = 0x5b then readList item c.next else .error (unexpected "a sequence" c)

/-- A field of a record: how its value is read, and what stands for it if an object lacks it. -/
structure FieldShape (α : Type) where
  name : String
  value : Cursor → Result α
  absent : Option α := none

structure Shape (α : Type) where
  name : String
  fields : List (FieldShape α)

def Shape.expected {α : Type} (s : Shape α) : String := "struct " ++ s.name

def Shape.expectedLength {α : Type} (s : Shape α) : String :=
  s.expected ++ " with " ++ Nat.repr s.fields.length ++
    (if s.fields.length = 1 then " element" else " elements")

/-- A fault in the shape has no place until the record is closed. -/
abbrev Shaped (α : Type) := Except Error (Except Cause α × Cursor)

abbrev Members (α : Type) := List (String × α)

def readFields {α : Type} (shape : Shape α) :
    (fuel : Nat) → (first : Bool) → Cursor → Members α → Shaped (Members α)
  | 0, _, c, _ => .error (c.errorHere .endInObject)
  | fuel + 1, first, c, seen =>
    match nextName? first c with
    | .error e => .error e
    | .ok (false, c) => .ok (.ok seen, c)
    | .ok (true, c) =>
      match readQuoted c.next with
      | .error e => .error e
      | .ok (name, c) =>
        match shape.fields.find? (fun f ↦ f.name = name) with
        | none =>
          match readColon c with
          | .error e => .error e
          | .ok c =>
            match skipValue c with
            | .error e => .error e
            | .ok c => readFields shape fuel false c seen
        | some field =>
          if seen.any (fun m ↦ m.1 = name) then .ok (.error (.duplicateField name), c)
          else
            match readColon c with
            | .error e => .error e
            | .ok c =>
              match field.value c with
              | .error e => .error e
              | .ok (x, c) => readFields shape fuel false c ((name, x) :: seen)

/-- The values in the order of the fields; the first one that is missing is the fault. -/
def completeFields {α : Type} (seen : Members α) : List (FieldShape α) → Except Cause (List α)
  | [] => .ok []
  | field :: fields =>
    match (seen.find? fun m ↦ m.1 = field.name).map (·.2) <|> field.absent with
    | none => .error (.missingField field.name)
    | some x => (completeFields seen fields).map (x :: ·)

def readPositions {α : Type} (shape : Shape α) :
    List (FieldShape α) → Cursor → List α → Shaped (List α)
  | [], c, done => .ok (.ok done.reverse, c)
  | field :: fields, c, done =>
    match nextItem? done.isEmpty c with
    | .error e => .error e
    | .ok (false, c) => .ok (.error (.invalidLength done.length shape.expectedLength), c)
    | .ok (true, c) =>
      match field.value c with
      | .error e => .error e
      | .ok (x, c) => readPositions shape fields c (x :: done)

def closeShaped {α : Type} (close : Cursor → Cursor × Option Error) (body : Shaped α) : Result α :=
  match body with
  | .error e => .error e
  | .ok (shaped, c) =>
    match shaped, close c with
    | .error cause, (c, _) => .error (c.errorHere cause)
    | .ok _, (_, some e) => .error e
    | .ok x, (c, none) => .ok (x, c)

def readRecord {α : Type} (shape : Shape α) (c : Cursor) : Result (List α) :=
  let c := c.skipBlanks
  match c.peek? with
  | none => .error (c.errorAhead .endInValue)
  | some b =>
    if b = 0x5b then closeShaped closeList (readPositions shape shape.fields c.next [])
    else if b = 0x7b then
      closeShaped closeObject <|
        (readFields shape (c.rest.length + 1) true c.next []).map fun (seen, c) ↦
          (seen.bind fun seen ↦ completeFields seen shape.fields, c)
    else .error (unexpected shape.expected c)

def readWhole {α : Type} (value : Cursor → Result α) (text : Bytes) : Except Error α :=
  finish (value ⟨text, 1, 0⟩)

end LocalHttp.Json

namespace LocalHttp

def Json.contentType : String := "application/json"

def Message.json (m : Message) : Except Json.Error Json.Value := Json.Value.ofBytes m.body

def Request.Draft.withJson (d : Request.Draft) (value : Json.Value) : Request.Draft :=
  d.withBody (Bytes.ofText value.text) Json.contentType

def Response.json (status : Status) (value : Json.Value) : Response :=
  { status := status, body := Bytes.ofText value.text,
    contentType := Json.contentType : Draft }.toResponse

end LocalHttp
