import LocalHttp.Json.Quoted

namespace LocalHttp.Json

/-- Finds the next item of a list behind its opening bracket or an item; none at the closing
bracket. -/
def nextItem? (first : Bool) (c : Cursor) : Except Error (Bool × Cursor) :=
  let c := c.skipBlanks
  match c.peek? with
  | none => .error (c.errorAhead .endInList)
  | some b =>
    if b = 0x5d then .ok (false, c)
    else if first then .ok (true, c)
    else if b = 0x2c then
      let c := c.next.skipBlanks
      match c.peek? with
      | none => .error (c.errorAhead .endInValue)
      | some b => if b = 0x5d then .error (c.errorAhead .trailingComma) else .ok (true, c)
    else .error (c.errorAhead .expectedListEnd)

def nextName? (first : Bool) (c : Cursor) : Except Error (Bool × Cursor) :=
  let c := c.skipBlanks
  match c.peek? with
  | none => .error (c.errorAhead .endInObject)
  | some b =>
    if b = 0x7d then .ok (false, c)
    else if first then
      if b = 0x22 then .ok (true, c) else .error (c.errorAhead .keyNotString)
    else if b = 0x2c then
      let c := c.next.skipBlanks
      match c.peek? with
      | none => .error (c.errorAhead .endInValue)
      | some b =>
        if b = 0x22 then .ok (true, c)
        else .error (c.errorAhead (if b = 0x7d then .trailingComma else .keyNotString))
    else .error (c.errorAhead .expectedObjectEnd)

def readColon (c : Cursor) : Except Error Cursor :=
  let c := c.skipBlanks
  match c.peek? with
  | none => .error (c.errorAhead .endInObject)
  | some b => if b = 0x3a then .ok c.next else .error (c.errorAhead .expectedColon)

def closeList (c : Cursor) : Cursor × Option Error :=
  let c := c.skipBlanks
  match c.peek? with
  | none => (c, some (c.errorAhead .endInList))
  | some b =>
    if b = 0x5d then (c.next, none)
    else if b = 0x2c then
      let c := c.next.skipBlanks
      (c, some (c.errorAhead (if c.peek? = some 0x5d then .trailingComma else .trailingCharacters)))
    else (c, some (c.errorAhead .trailingCharacters))

def closeObject (c : Cursor) : Cursor × Option Error :=
  let c := c.skipBlanks
  match c.peek? with
  | none => (c, some (c.errorAhead .endInObject))
  | some b =>
    if b = 0x7d then (c.next, none)
    else (c, some (c.errorAhead (if b = 0x2c then .trailingComma else .trailingCharacters)))

/-- Reads items behind an opening bracket, up to the closing one. `fuel` exceeds the number of
items. -/
def readItems {α : Type} (item : Cursor → Result α) :
    (fuel : Nat) → (first : Bool) → Cursor → List α → Result (List α)
  | 0, _, c, _ => .error (c.errorHere .endInList)
  | fuel + 1, first, c, done =>
    match nextItem? first c with
    | .error e => .error e
    | .ok (false, c) => .ok (done.reverse, c)
    | .ok (true, c) =>
      match item c with
      | .error e => .error e
      | .ok (x, c) => readItems item fuel false c (x :: done)

def readList {α : Type} (item : Cursor → Result α) (c : Cursor) : Result (List α) :=
  match readItems item (c.rest.length + 1) true c [] with
  | .error e => .error e
  | .ok (xs, c) =>
    match closeList c with
    | (c, none) => .ok (xs, c)
    | (_, some e) => .error e

def finish {α : Type} (r : Result α) : Except Error α :=
  match r with
  | .error e => .error e
  | .ok (x, c) =>
    let c := c.skipBlanks
    if c.rest.isEmpty then .ok x else .error (c.errorAhead .trailingCharacters)

end LocalHttp.Json
