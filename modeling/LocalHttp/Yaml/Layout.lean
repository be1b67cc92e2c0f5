import LocalHttp.Yaml.Token

namespace LocalHttp.Yaml

def maxKeyLength : Nat := 1024

structure KeyStart where
  required : Bool
  position : Nat
  index : Nat
  line : Nat
  column : Nat

structure Layout where
  place : Place
  /-- The tokens so far, last first. -/
  tokens : List Token := []
  count : Nat := 0
  /-- The columns of the open block collections, innermost first. -/
  indents : List Nat := []
  /-- Where a key may have begun at this level of brackets. -/
  keyStart : Option KeyStart := none
  outerKeyStarts : List (Option KeyStart) := []
  keyAllowed : Bool := true

namespace Layout

def inFlow (s : Layout) : Bool := !s.outerKeyStarts.isEmpty

def push (s : Layout) (t : Token) : Layout :=
  { s with tokens := t :: s.tokens, count := s.count + 1 }

def insert (s : Layout) (position : Nat) (t : Token) : Layout :=
  let later := s.count - position
  { s with tokens := s.tokens.take later ++ t :: s.tokens.drop later, count := s.count + 1 }

/-- The place of the next token: blanks, comments and empty lines are left out. Tabs count as blanks
where no key may begin. -/
def skipToToken : Nat → Layout → Layout
  | 0, s => s
  | fuel + 1, s =>
    let p := if s.place.index = 0 && s.place.isAt '\ufeff' then s.place.skip 1 else s.place
    let tabs := s.inFlow || !s.keyAllowed
    let p := p.skipWhile fun c ↦ c == ' ' || (tabs && c == '\t')
    let p := if p.isAt '#' then p.skipWhile (!isBreak ·) else p
    if p.isAtBreak then
      skipToToken fuel { s with place := p.skipBreak, keyAllowed := s.keyAllowed || !s.inFlow }
    else { s with place := p }

/-- A key ends in the line in which it begins, and soon. -/
def isStale (p : Place) (k : KeyStart) : Bool :=
  k.line < p.line || k.index + maxKeyLength < p.index

/-- Gives up a place for a key; a required key must not be missing. -/
def dropKeyStart (k : Option KeyStart) : Option (Option KeyStart) :=
  if k.any (·.required) then none else some none

def dropStale (s : Layout) : Option Layout := do
  let check (k : Option KeyStart) : Option (Option KeyStart) :=
    if k.any (isStale s.place) then dropKeyStart k else some k
  let outer ← s.outerKeyStarts.mapM check
  let here ← check s.keyStart
  some { s with keyStart := here, outerKeyStarts := outer }

def closeDeeper (column : Nat) (s : Layout) : Layout :=
  let closing := s.indents.takeWhile (column < ·)
  closing.foldl (fun s _ ↦ s.push .blockEnd) { s with indents := s.indents.drop closing.length }

def closeAll (s : Layout) : Layout :=
  s.indents.foldl (fun s _ ↦ s.push .blockEnd) { s with indents := [] }

def openBlock (s : Layout) (column position : Nat) (t : Token) : Layout :=
  if !s.inFlow && s.indents.head?.all (· < column) then
    ({ s with indents := column :: s.indents } : Layout).insert position t
  else s

def forgetKey (s : Layout) : Option Layout :=
  (dropKeyStart s.keyStart).map fun k ↦ { s with keyStart := k }

def markKey (s : Layout) : Option Layout :=
  let p := s.place
  let here : KeyStart :=
    { required := !s.inFlow && s.indents.head? == some p.column
      position := s.count, index := p.index, line := p.line, column := p.column }
  if s.keyAllowed then s.forgetKey.map fun s ↦ { s with keyStart := some here } else some s

def allowKey (b : Bool) (s : Layout) : Layout := { s with keyAllowed := b }

def advance (s : Layout) (n : Nat) : Layout := { s with place := s.place.skip n }

def take (s : Layout) (read : Option (Token × Place)) : Option Layout :=
  read.map fun (t, p) ↦ { s with place := p, keyAllowed := false }.push t

def betweenDocuments (s : Layout) (read : Option (Token × Place)) : Option Layout :=
  s.closeAll.forgetKey.bind (·.take read)

def openFlow (s : Layout) (t : Token) : Option Layout :=
  s.markKey.map fun s ↦
    let inner : Layout :=
      { s with keyStart := none, outerKeyStarts := s.keyStart :: s.outerKeyStarts,
               keyAllowed := true }
    (inner.advance 1).push t

def closeFlow (s : Layout) (t : Token) : Option Layout :=
  s.forgetKey.map fun s ↦
    let s :=
      match s.outerKeyStarts with
      | k :: outer => { s with keyStart := k, outerKeyStarts := outer }
      | [] => s
    ((s.allowKey false).advance 1).push t

def flowEntry (s : Layout) : Option Layout :=
  s.forgetKey.map fun s ↦ ((s.allowKey true).advance 1).push .flowEntry

def blockMark (s : Layout) (opening : Token) : Option Layout :=
  if s.inFlow then some s
  else if s.keyAllowed then some (s.openBlock s.place.column s.count opening)
  else none

def blockEntry (s : Layout) : Option Layout := do
  let s ← (← s.blockMark .blockSequenceStart).forgetKey
  some (((s.allowKey true).advance 1).push .blockEntry)

def explicitKey (s : Layout) : Option Layout := do
  let s ← (← s.blockMark .blockMappingStart).forgetKey
  some (((s.allowKey (!s.inFlow)).advance 1).push .key)

def value (s : Layout) : Option Layout :=
  match s.keyStart with
  | some k =>
    let s := (s.insert k.position .key).openBlock k.column k.position .blockMappingStart
    some (({ s with keyStart := none, keyAllowed := false }.advance 1).push .value)
  | none =>
    (s.blockMark .blockMappingStart).map fun s ↦
      ((s.allowKey (!s.inFlow)).advance 1).push .value

def nameToken (s : Layout) (make : String → Token) : Option Layout :=
  s.markKey.bind fun s ↦
    s.take ((readAnchorName (s.place.skip 1)).map fun (name, p) ↦ (make name, p))

def tag (s : Layout) : Option Layout := s.markKey.bind fun s ↦ s.take (readTag s.inFlow s.place)

def quoted (s : Layout) (q : Quote) : Option Layout :=
  s.markKey.bind fun s ↦
    s.take ((readQuoted q s.place).map fun (text, p) ↦ (.scalar false (String.ofList text), p))

def block (s : Layout) (folded : Bool) : Option Layout :=
  s.forgetKey.bind fun s ↦
    (s.take ((readBlock folded s.indents.head? s.place).map fun (text, p) ↦
      (.scalar false (String.ofList text), p))).map (allowKey true)

def plain (s : Layout) : Option Layout :=
  s.markKey.bind fun s ↦
    let minColumn := (s.indents.head?.map (· + 1)).getD 0
    (readPlain s.inFlow minColumn s.place).bind fun (text, p, lineEnded) ↦
      (s.take (some (.scalar true (String.ofList text), p))).map (allowKey lineEnded)

def isIndicator (c : Char) : Bool := "-?:,[]\x7b\x7d#&*!|>'\"%@\x60".toList.contains c

def startsPlain (s : Layout) (c : Char) : Bool :=
  !(isBlank c || isBreak c || isIndicator c) || (c == '-' && !s.place.any 1 isBlank) ||
    (!s.inFlow && (c == '?' || c == ':') && !s.place.wordEnds 1)

def token (s : Layout) (c : Char) : Option Layout :=
  let p := s.place
  if p.column == 0 && c == '%' then s.betweenDocuments (readDirective p)
  else if p.isAtLineMark '-' then s.betweenDocuments (some (.documentStart, p.skip 3))
  else if p.isAtLineMark '.' then s.betweenDocuments (some (.documentEnd, p.skip 3))
  else if c == '[' then s.openFlow .flowSequenceStart
  else if c == '\x7b' then s.openFlow .flowMappingStart
  else if c == ']' then s.closeFlow .flowSequenceEnd
  else if c == '\x7d' then s.closeFlow .flowMappingEnd
  else if c == ',' then s.flowEntry
  else if c == '-' && p.wordEnds 1 then s.blockEntry
  else if c == '?' && (s.inFlow || p.wordEnds 1) then s.explicitKey
  else if c == ':' && (s.inFlow || p.wordEnds 1) then s.value
  else if c == '*' then s.nameToken .reference
  else if c == '&' then s.nameToken .anchor
  else if c == '!' then s.tag
  else if c == '|' && !s.inFlow then s.block false
  else if c == '>' && !s.inFlow then s.block true
  else if c == '\'' then s.quoted .single
  else if c == '"' then s.quoted .double
  else if s.startsPlain c then s.plain
  else none

def tokensWithin : Nat → Layout → Option (List Token)
  | 0, _ => none
  | fuel + 1, s => do
    let s ← (skipToToken (s.place.rest.length + 1) s).dropStale
    let s := if s.inFlow then s else s.closeDeeper s.place.column
    match s.place.peek? with
    | some c => (← s.token c).tokensWithin fuel
    | none =>
      let s ← (if s.inFlow then s else s.closeAll).forgetKey
      some s.tokens.reverse

end Layout

def tokens? (text : String) : Option (List Token) :=
  let chars := text.toList
  if chars.all isAllowed then
    Layout.tokensWithin (chars.length + 1) { place := { rest := chars } }
  else none

end LocalHttp.Yaml
