import LocalHttp.Bytes
import LocalHttp.Yaml.Scalar

namespace LocalHttp.Yaml

inductive Token
  | version (major minor : Nat)
  | tagHandle (handle : String) (stem : Bytes)
  | documentStart
  | documentEnd
  | blockSequenceStart
  | blockMappingStart
  | blockEnd
  | flowSequenceStart
  | flowSequenceEnd
  | flowMappingStart
  | flowMappingEnd
  | flowEntry
  | blockEntry
  | key
  | value
  | reference (name : String)
  | anchor (name : String)
  | tag (handle : String) (suffix : Bytes)
  | scalar (isPlain : Bool) (text : String)
  deriving DecidableEq

def readAnchorName (p : Place) : Option (String × Place) :=
  let (name, p) := p.takeWhile isWord
  let ends := p.wordEnds 0 ||
    p.any 0 fun c ↦ ['?', ':', ',', ']', '\x7d', '%', '@', '\x60'].contains c
  if name.isEmpty || !ends then none else some (String.ofList name, p)

def isTagCharacter (verbatim : Bool) (c : Char) : Bool :=
  isWord c || ";/?:@&=+$.!~*'()".toList.contains c || (verbatim && [',', '[', ']'].contains c)

def readOctet : List Char → Option (UInt8 × List Char)
  | '%' :: a :: b :: rest => (hexNumber? [a, b]).map fun n ↦ (n.toUInt8, rest)
  | _ => none

/-- How many bytes a character has that begins with a byte; none does with 0. -/
def leadWidth (b : UInt8) : Nat :=
  if b < 0x80 then 1
  else if 0xC0 ≤ b && b < 0xE0 then 2
  else if 0xE0 ≤ b && b < 0xF0 then 3
  else if 0xF0 ≤ b && b < 0xF8 then 4
  else 0

def readTrailingOctets : Nat → List Char → Option Bytes
  | 0, _ => some []
  | n + 1, rest =>
    match readOctet rest with
    | some (b, rest) =>
      if 0x80 ≤ b && b < 0xC0 then (readTrailingOctets n rest).map (b :: ·) else none
    | none => none

def readEscapedBytes (rest : List Char) : Option Bytes :=
  (readOctet rest).bind fun (b, rest) ↦
    if leadWidth b = 0 then none
    else (readTrailingOctets (leadWidth b - 1) rest).map (b :: ·)

def readTagText (verbatim : Bool) : Nat → Place → Option (Bytes × Place)
  | 0, p => some ([], p)
  | fuel + 1, p =>
    match p.peek? with
    | none => some ([], p)
    | some c =>
      let next? : Option (Bytes × Place) :=
        if c == '%' then (readEscapedBytes p.rest).map fun bs ↦ (bs, p.skip (3 * bs.length))
        else if isTagCharacter verbatim c then some ([c.toNat.toUInt8], p.skip 1)
        else some ([], p)
      next?.bind fun (bs, next) ↦
        if bs.isEmpty then some ([], p)
        else (readTagText verbatim fuel next).map fun (more, p) ↦ (bs ++ more, p)

def readTagSuffix (verbatim : Bool) (p : Place) : Option (Bytes × Place) :=
  (readTagText verbatim p.rest.length p).bind fun (text, p) ↦
    if text.isEmpty then none else some (text, p)

/-- A tag handle: a mark, and between it and another mark a name. The second mark may be missing. -/
def readTagHandle (p : Place) : Option (List Char × Place) :=
  if p.isAt '!' then
    let (name, p) := (p.skip 1).takeWhile isWord
    if p.isAt '!' then some ('!' :: name ++ ['!'], p.skip 1) else some ('!' :: name, p)
  else none

/-- A tag in its short form. A single mark with text is a handle; one without is all the tag. -/
def readShortTag (p : Place) : Option (String × Bytes × Place) :=
  (readTagHandle p).bind fun (handle, behind) ↦
    if 1 < handle.length && handle.getLast? == some '!' then
      (readTagSuffix false behind).map fun (suffix, p) ↦ (String.ofList handle, suffix, p)
    else
      (readTagText false behind.rest.length behind).map fun (more, p) ↦
        let suffix := Bytes.ofText (String.ofList handle.tail) ++ more
        if suffix.isEmpty then ("", Bytes.ofText "!", p) else ("!", suffix, p)

def readVerbatimTag (p : Place) : Option (String × Bytes × Place) :=
  (readTagSuffix true (p.skip 2)).bind fun (suffix, p) ↦
    if p.isAt '>' then some ("", suffix, p.skip 1) else none

def readTag (inFlow : Bool) (p : Place) : Option (Token × Place) :=
  (if p.any 1 (· == '<') then readVerbatimTag p else readShortTag p).bind fun (handle, suffix, p) ↦
    if p.wordEnds 0 || (inFlow && p.isAt ',') then some (.tag handle suffix, p) else none

def readVersionNumber (p : Place) : Option (Nat × Place) :=
  let (digits, p) := p.takeWhile Char.isDigit
  if digits.isEmpty || 9 < digits.length then none
  else some (digits.foldl (fun n c ↦ 10 * n + (c.toNat - '0'.toNat)) 0, p)

def readVersion (p : Place) : Option (Token × Place) := do
  let (major, p) ← readVersionNumber (p.skipWhile isBlank)
  if p.isAt '.' then
    let (minor, p) ← readVersionNumber (p.skip 1)
    some (.version major minor, p)
  else none

def readTagDirective (p : Place) : Option (Token × Place) := do
  let (handle, p) ← readTagHandle (p.skipWhile isBlank)
  let closed := handle.length = 1 || handle.getLast? == some '!'
  if closed && p.isAtBlank then
    let (stem, p) ← readTagSuffix true (p.skipWhile isBlank)
    if p.wordEnds 0 then some (.tagHandle (String.ofList handle) stem, p) else none
  else none

def readDirective (p : Place) : Option (Token × Place) := do
  let (name, p) := (p.skip 1).takeWhile isWord
  let (token, p) ←
    if !p.wordEnds 0 then none
    else if name == "YAML".toList then readVersion p
    else if name == "TAG".toList then readTagDirective p
    else none
  (p.skipLineEnd?).map fun p ↦ (token, p)

end LocalHttp.Yaml
