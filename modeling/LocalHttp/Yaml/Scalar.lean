import LocalHttp.Yaml.Place

namespace LocalHttp.Yaml

def plainWord (inFlow : Bool) : List Char → Option (List Char)
  | [] => some []
  | c :: rest =>
    let next := rest.head?
    if isBlank c || isBreak c then some []
    else if inFlow && c == ':' && next.any (fun d ↦ isFlowIndicator d || d == '?') then none
    else if (c == ':' && next.all fun d ↦ isBlank d || isBreak d) || (inFlow && isFlowIndicator c)
    then some []
    else (plainWord inFlow rest).map (c :: ·)

/-- The words of a plain scalar from here on, with the gap in front of them. Says also whether a
line ended behind the last word. -/
def plainWords (inFlow : Bool) (minColumn : Nat) :
    Nat → Place → Gap → Option (List Char × Place × Bool)
  | 0, p, gap => some ([], p, gap.isBreaks)
  | fuel + 1, p, gap =>
    if p.isAtDocumentMark || p.isAt '#' then some ([], p, gap.isBreaks)
    else do
      let word ← plainWord inFlow p.rest
      let p := p.skip word.length
      let head := if word.isEmpty then [] else gap.text ++ word
      let gap := if word.isEmpty then gap else .blanks []
      if p.isAtBlank || p.isAtBreak then
        let (gap, p) ← p.gap minColumn gap
        if !inFlow && p.column < minColumn then some (head, p, gap.isBreaks)
        else
          let (tail, behind) ← plainWords inFlow minColumn fuel p gap
          some (head ++ tail, behind)
      else some (head, p, gap.isBreaks)

/-- A plain scalar. It ends where a line begins left of `minColumn`, unless it is in brackets. -/
def readPlain (inFlow : Bool) (minColumn : Nat) (p : Place) : Option (List Char × Place × Bool) :=
  plainWords inFlow minColumn (p.rest.length + 1) p (.blanks [])

inductive Quote
  | single
  | double
  deriving DecidableEq

def Quote.mark : Quote → Char
  | .single => '\''
  | .double => '"'

def escaped? : Char → Option Char
  | '0' => some '\x00'
  | 'a' => some '\x07'
  | 'b' => some '\x08'
  | 't' | '\t' => some '\t'
  | 'n' => some '\n'
  | 'v' => some '\x0b'
  | 'f' => some '\x0c'
  | 'r' => some '\r'
  | 'e' => some '\x1b'
  | ' ' => some ' '
  | '"' => some '"'
  | '/' => some '/'
  | '\\' => some '\\'
  | 'N' => some '\u0085'
  | '_' => some '\u00a0'
  | 'L' => some '\u2028'
  | 'P' => some '\u2029'
  | _ => none

def escapeWidth? : Char → Option Nat
  | 'x' => some 2
  | 'u' => some 4
  | 'U' => some 8
  | _ => none

def hexDigit? (c : Char) : Option Nat :=
  if c.isDigit then some (c.toNat - '0'.toNat)
  else if 'a' ≤ c && c ≤ 'f' then some (c.toNat - 'a'.toNat + 10)
  else if 'A' ≤ c && c ≤ 'F' then some (c.toNat - 'A'.toNat + 10)
  else none

def hexNumber? (digits : List Char) : Option Nat :=
  digits.foldlM (fun n c ↦ (hexDigit? c).map (16 * n + ·)) 0

def charOfCode? (n : Nat) : Option Char :=
  if h : n.isValidChar then some (Char.ofNatAux n h) else none

def readEscape (letter : Char) (rest : List Char) : Option (Char × Nat) :=
  match escapeWidth? letter with
  | some width =>
    if rest.length < width then none
    else (hexNumber? (rest.take width)).bind fun n ↦ (charOfCode? n).map fun c ↦ (c, width + 2)
  | none => (escaped? letter).map fun c ↦ (c, 2)

/-- The part of a quoted scalar up to the next blank, break or closing mark, with the place behind
it. Says also whether it ended with an escaped line break. -/
def quotedWord (q : Quote) : Nat → Place → Option (List Char × Place × Bool)
  | 0, p => some ([], p, false)
  | fuel + 1, p =>
    let further (c : Char) (n : Nat) : Option (List Char × Place × Bool) :=
      (quotedWord q fuel (p.skip n)).map fun (word, behind) ↦ (c :: word, behind)
    match p.rest with
    | [] => some ([], p, false)
    | c :: rest =>
      if isBlank c || isBreak c then some ([], p, false)
      else if q == .single && c == '\'' && rest.head? == some '\'' then further c 2
      else if c == q.mark then some ([], p, false)
      else if q == .double && c == '\\' then
        match rest with
        | [] => none
        | d :: rest =>
          if isBreak d then some ([], (p.skip 1).skipBreak, true)
          else (readEscape d rest).bind fun (c, n) ↦ further c n
      else further c 1

def quotedWords (q : Quote) : Nat → Place → Option (List Char × Place)
  | 0, _ => none
  | fuel + 1, p =>
    if p.isAtDocumentMark || p.isAtEnd then none
    else do
      let (word, p, broken) ← quotedWord q p.rest.length p
      if p.isAt q.mark then some (word, p.skip 1)
      else
        let (gap, p) ← p.gap 0 (if broken then .breaks [] [] else .blanks [])
        let (rest, p) ← quotedWords q fuel p
        some (word ++ gap.text ++ rest, p)

def readQuoted (q : Quote) (p : Place) : Option (List Char × Place) :=
  quotedWords q (p.rest.length + 1) (p.skip 1)

inductive Chomping
  | strip
  | clip
  | keep
  deriving DecidableEq

def readChomping (p : Place) : Option Chomping × Place :=
  match p.peek? with
  | some '+' => (some .keep, p.skip 1)
  | some '-' => (some .strip, p.skip 1)
  | _ => (none, p)

def readIncrement (p : Place) : Option (Nat × Place) :=
  match p.peek? with
  | some c =>
    if c == '0' then none
    else if c.isDigit then some (c.toNat - '0'.toNat, p.skip 1)
    else some (0, p)
  | none => some (0, p)

def readBlockHead (p : Place) : Option (Chomping × Nat × Place) :=
  match readChomping p with
  | (some chomping, p) => (readIncrement p).map fun (n, p) ↦ (chomping, n, p)
  | (none, p) =>
    (readIncrement p).map fun (n, p) ↦
      if n = 0 then (.clip, 0, p)
      else
        let (chomping, p) := readChomping p
        (chomping.getD .clip, n, p)

/-- The empty lines here and the indentation behind them, with the deepest indentation seen. An
indent of 0 is not known yet. -/
def blockBreaks (indent : Nat) : Nat → Place → Nat → List Char → Option (List Char × Nat × Place)
  | 0, p, deepest, breaks => some (breaks, deepest, p)
  | fuel + 1, p, deepest, breaks =>
    let spaces := (p.rest.takeWhile (· == ' ')).length
    let p := p.skip (if indent = 0 then spaces else min spaces (indent - p.column))
    let deepest := max deepest p.column
    if (indent = 0 || p.column < indent) && p.isAt '\t' then none
    else if p.isAtBreak then
      let (b, p) := p.takeBreak
      blockBreaks indent fuel p deepest (breaks ++ b)
    else some (breaks, deepest, p)

/-- The lines of a block, with what is left of line breaks at its end. `lineBreak` is the break
behind the line before, and `breaks` are those of the empty lines since then; a folded block keeps
all of them beside lines that begin with a blank. -/
def blockLines (folded : Bool) (indent : Nat) : Nat → Place → (afterBlank : Bool) →
    (lineBreak breaks : List Char) → Option (List Char × List Char × List Char × Place)
  | 0, p, _, lineBreak, breaks => some ([], lineBreak, breaks, p)
  | fuel + 1, p, afterBlank, lineBreak, breaks =>
    if p.column != indent || p.isAtEnd then some ([], lineBreak, breaks, p)
    else do
      let joined :=
        if folded && lineBreak == ['\n'] && !afterBlank && !p.isAtBlank then
          (if breaks.isEmpty then [' '] else breaks)
        else lineBreak ++ breaks
      let startsBlank := p.isAtBlank
      let (line, p) := p.takeWhile (!isBreak ·)
      let (lineBreak, p) := p.takeBreak
      let (breaks, _, p) ← blockBreaks indent (p.rest.length + 1) p 0 []
      let (lines, behind) ← blockLines folded indent fuel p startsBlank lineBreak breaks
      some (joined ++ line ++ lines, behind)

def readBlock (folded : Bool) (outer : Option Nat) (p : Place) : Option (List Char × Place) := do
  let (chomping, increment, p) ← readBlockHead (p.skip 1)
  let p ← p.skipLineEnd?
  let given := if increment = 0 then 0 else outer.getD 0 + increment
  let (breaks, deepest, p) ← blockBreaks given (p.rest.length + 1) p 0 []
  let indent := if given = 0 then max deepest ((outer.map (· + 1)).getD 1) else given
  let (text, lineBreak, breaks, p) ←
    blockLines folded indent (p.rest.length + 1) p false [] breaks
  let tail :=
    match chomping with
    | .strip => []
    | .clip => lineBreak
    | .keep => lineBreak ++ breaks
  some (text ++ tail, p)

end LocalHttp.Yaml
