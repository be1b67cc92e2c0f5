import LocalHttp.Json.Cursor

namespace LocalHttp.Json

def hexValue? (b : UInt8) : Option Nat :=
  if 0x30 ≤ b && b ≤ 0x39 then some (b.toNat - 0x30)
  else if 0x41 ≤ b && b ≤ 0x46 then some (b.toNat - 0x37)
  else if 0x61 ≤ b && b ≤ 0x66 then some (b.toNat - 0x57)
  else none

/-- Four hexadecimal digits; they are passed together, and what there is of them at the end. -/
def readHex (c : Cursor) : Result Nat :=
  match c.rest with
  | b₁ :: b₂ :: b₃ :: b₄ :: _ =>
    let after := c.advance 4
    match hexValue? b₁, hexValue? b₂, hexValue? b₃, hexValue? b₄ with
    | some h₁, some h₂, some h₃, some h₄ => .ok (((h₁ * 16 + h₂) * 16 + h₃) * 16 + h₄, after)
    | _, _, _, _ => .error (after.errorHere .invalidEscape)
  | short => .error ((c.advance short.length).errorHere .endInString)

def readPairMark (c : Cursor) (b : UInt8) : Except Error Cursor :=
  match c.peek? with
  | none => .error (c.errorHere .endInString)
  | some x => if x = b then .ok c.next else .error (c.next.errorHere .endOfHexEscape)

def isLeading (n : Nat) : Bool := 0xd800 ≤ n && n ≤ 0xdbff

def isTrailing (n : Nat) : Bool := 0xdc00 ≤ n && n ≤ 0xdfff

def readCodePoint (c : Cursor) : Except Error (Char × Cursor) := do
  let (n, c) ← readHex c
  if isTrailing n then .error (c.errorHere .loneSurrogate)
  else if isLeading n then
    let c ← readPairMark c 0x5c
    let c ← readPairMark c 0x75
    let (m, c) ← readHex c
    if isTrailing m then return (Char.ofNat ((n - 0xd800) * 0x400 + (m - 0xdc00) + 0x10000), c)
    else .error (c.errorHere .loneSurrogate)
  else return (Char.ofNat n, c)

def shortEscape? (b : UInt8) : Option Char :=
  match b.toNat with
  | 0x22 => some '"'
  | 0x5c => some '\\'
  | 0x2f => some '/'
  | 0x62 => some '\x08'
  | 0x66 => some '\x0c'
  | 0x6e => some '\n'
  | 0x72 => some '\r'
  | 0x74 => some '\t'
  | _ => none

def readEscape (codePoint : Cursor → Result Char) (c : Cursor) : Result Char :=
  match c.peek? with
  | none => .error (c.errorHere .endInString)
  | some b =>
    match shortEscape? b with
    | some x => .ok (x, c.next)
    | none =>
      if b = 0x75 then codePoint c.next else .error (c.next.errorHere .invalidEscape)

def isRaw (b : UInt8) : Bool := b != 0x22 && b != 0x5c && 0x20 ≤ b

def codePointFault (c : Cursor) (raw : Bytes) : Option Error :=
  match Bytes.text? raw with
  | some _ => none
  | none => some ((c.advance (Bytes.validLength 0 raw + 1)).errorHere .invalidCodePoint)

/-- Reads on behind `done`, the characters so far, last first. Bytes that are no UTF-8 are
reported once the literal is complete. -/
def readQuotedFrom : Nat → Cursor → List Char → Option Error → Result String
  | 0, c, _, _ => .error (c.errorHere .endInString)
  | fuel + 1, c, done, fault =>
    let raw := c.rest.takeWhile isRaw
    let after := c.advance raw.length
    let fault := fault <|> codePointFault c raw
    let done := (Bytes.lossyChars [] raw).reverse ++ done
    match after.peek? with
    | none => .error (after.errorHere .endInString)
    | some b =>
      if b = 0x22 then
        match fault with
        | some e => .error e
        | none => .ok (String.ofList done.reverse, after.next)
      else if b = 0x5c then
        match readEscape readCodePoint after.next with
        | .ok (x, c) => readQuotedFrom fuel c (x :: done) fault
        | .error e => .error e
      else .error (after.next.errorHere .controlCharacter)

def readQuoted (c : Cursor) : Result String := readQuotedFrom (c.rest.length + 1) c [] none

def skipCodePoint (c : Cursor) : Result Char := (readHex c).map fun (_, c) ↦ (' ', c)

def skipQuotedFrom : Nat → Cursor → Except Error Cursor
  | 0, c => .error (c.errorHere .endInString)
  | fuel + 1, c =>
    let after := c.advance (c.rest.takeWhile isRaw).length
    match after.peek? with
    | none => .error (after.errorHere .endInString)
    | some b =>
      if b = 0x22 then .ok after.next
      else if b = 0x5c then
        match readEscape skipCodePoint after.next with
        | .ok (_, c) => skipQuotedFrom fuel c
        | .error e => .error e
      else .error (after.next.errorHere .controlCharacter)

def skipQuoted (c : Cursor) : Except Error Cursor := skipQuotedFrom (c.rest.length + 1) c

end LocalHttp.Json
