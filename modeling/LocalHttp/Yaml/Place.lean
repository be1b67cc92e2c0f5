namespace LocalHttp.Yaml

def isAllowed (c : Char) : Bool :=
  let n := c.toNat
  n == 0x9 || n == 0xA || n == 0xD || (0x20 ≤ n && n ≤ 0x7E) || n == 0x85 ||
    (0xA0 ≤ n && n ≤ 0xD7FF) || (0xE000 ≤ n && n ≤ 0xFFFD) || 0x10000 ≤ n

def isBreak (c : Char) : Bool :=
  c == '\n' || c == '\r' || c == '\u0085' || c == '\u2028' || c == '\u2029'

def isBlank (c : Char) : Bool := c == ' ' || c == '\t'

def isWord (c : Char) : Bool := c.isAlphanum || c == '_' || c == '-'

def isFlowIndicator (c : Char) : Bool := [',', '[', ']', '\x7b', '\x7d'].contains c

structure Place where
  rest : List Char
  index : Nat := 0
  line : Nat := 0
  column : Nat := 0

namespace Place

def peek? (p : Place) : Option Char := p.rest.head?

def isAt (p : Place) (c : Char) : Bool := p.peek? == some c

def isAtEnd (p : Place) : Bool := p.rest.isEmpty

def any (p : Place) (n : Nat) (test : Char → Bool) : Bool := (p.rest[n]?).any test

def isAtBlank (p : Place) : Bool := p.any 0 isBlank

def isAtBreak (p : Place) : Bool := p.any 0 isBreak

def wordEnds (p : Place) (n : Nat) : Bool := (p.rest[n]?).all fun c ↦ isBlank c || isBreak c

def skip (p : Place) (n : Nat) : Place :=
  { p with rest := p.rest.drop n, index := p.index + n, column := p.column + n }

def skipWhile (p : Place) (test : Char → Bool) : Place := p.skip (p.rest.takeWhile test).length

def takeWhile (p : Place) (test : Char → Bool) : List Char × Place :=
  (p.rest.takeWhile test, p.skipWhile test)

/-- The line break here, if there is one. Two of the breaks keep their character; the others are
all alike. -/
def takeBreak (p : Place) : List Char × Place :=
  let next (n : Nat) : Place :=
    { rest := p.rest.drop n, index := p.index + n, line := p.line + 1, column := 0 }
  match p.rest with
  | '\r' :: '\n' :: _ => (['\n'], next 2)
  | c :: _ =>
    if c == '\u2028' || c == '\u2029' then ([c], next 1)
    else if isBreak c then (['\n'], next 1)
    else ([], p)
  | [] => ([], p)

def skipBreak (p : Place) : Place := p.takeBreak.2

def skipLineEnd? (p : Place) : Option Place :=
  let p := p.skipWhile isBlank
  let p := if p.isAt '#' then p.skipWhile (!isBreak ·) else p
  if p.isAtEnd || p.isAtBreak then some p.skipBreak else none

def isAtLineMark (p : Place) (mark : Char) : Bool :=
  p.column == 0 && p.rest.take 3 == [mark, mark, mark] && p.wordEnds 3

def isAtDocumentMark (p : Place) : Bool := p.isAtLineMark '-' || p.isAtLineMark '.'

end Place

inductive Gap
  | blanks (chars : List Char)
  | breaks (first more : List Char)

namespace Gap

/-- A single line break is a space, and of more than one the first is left out. -/
def text : Gap → List Char
  | .blanks chars => chars
  | .breaks first more =>
    if first == ['\n'] then (if more.isEmpty then [' '] else more) else first ++ more

def isBreaks : Gap → Bool
  | .blanks _ => false
  | .breaks _ _ => true

end Gap

/-- Takes blanks and breaks; on a new line no tab may stand left of a column. -/
def Place.gapWithin (minTabColumn : Nat) : Nat → Place → Gap → Option (Gap × Place)
  | 0, p, gap => some (gap, p)
  | fuel + 1, p, gap =>
    match p.rest with
    | [] => some (gap, p)
    | c :: _ =>
      if isBlank c then
        match gap with
        | .blanks chars => gapWithin minTabColumn fuel (p.skip 1) (.blanks (chars ++ [c]))
        | .breaks _ _ =>
          if c == '\t' && p.column < minTabColumn then none
          else gapWithin minTabColumn fuel (p.skip 1) gap
      else if isBreak c then
        let (b, p) := p.takeBreak
        match gap with
        | .blanks _ => gapWithin minTabColumn fuel p (.breaks b [])
        | .breaks first more => gapWithin minTabColumn fuel p (.breaks first (more ++ b))
      else some (gap, p)

def Place.gap (p : Place) (minTabColumn : Nat) (start : Gap) : Option (Gap × Place) :=
  p.gapWithin minTabColumn p.rest.length start

end LocalHttp.Yaml
