import LocalHttp.Json.Cursor
import LocalHttp.Json.Value

namespace LocalHttp.Json

def maxSignificand : Nat := Nat.pow 2 64 - 1

def maxExponent : Nat := Nat.pow 2 31 - 1

def digitOf (b : UInt8) : Nat := b.toNat - 0x30

/-- Continues a significand through digits while it keeps within 64 bits; counts them. -/
def significandFrom (value count : Nat) : Bytes → Nat × Nat
  | [] => (value, count)
  | b :: rest =>
    if isDigit b && value * 10 + digitOf b ≤ maxSignificand then
      significandFrom (value * 10 + digitOf b) (count + 1) rest
    else (value, count)

def digitCount (bytes : Bytes) : Nat := (bytes.takeWhile isDigit).length

def startsWithDigit (c : Cursor) : Bool := c.peek?.any isDigit

def startsExponent (c : Cursor) : Bool := c.peek?.any fun b ↦ b == 0x65 || b == 0x45

def maxPower : Nat := 308

/-- `x · 10^exponent`, or none beyond the range. Two quotients by the highest power leave nothing
of a 64-bit significand. -/
def scaled : Nat → Binary64 → Int → Option Binary64
  | fuel, x, exponent =>
    if exponent.natAbs ≤ maxPower then
      if 0 ≤ exponent then
        let y := x.mulPow10 exponent.toNat
        if y.isInfinite then none else some y
      else some (x.divPow10 exponent.natAbs)
    else if x.isZero then some x
    else if 0 ≤ exponent then none
    else
      match fuel with
      | 0 => some (.zero false)
      | fuel + 1 => scaled fuel (x.divPow10 maxPower) (exponent + maxPower)

def signed (negative : Bool) (x : Binary64) : Binary64 := if negative then x.neg else x

def floatOf (negative : Bool) (significand : Nat) (exponent : Int) (c : Cursor) : Result Number :=
  match scaled 3 (.ofNat significand) exponent with
  | some x => .ok (.float (signed negative x), c)
  | none => .error (c.errorHere .numberOutOfRange)

/-- Digits of an exponent; more than 31 bits decide the number by themselves. -/
def readExponentDigits (negative : Bool) (significand : Nat) (start : Int) (down : Bool) :
    (value : Nat) → Nat → Cursor → Result Number
  | value, 0, c => floatOf negative significand (if down then start - value else start + value) c
  | value, count + 1, c =>
    match c.peek? with
    | none => floatOf negative significand (if down then start - value else start + value) c
    | some b =>
      let next := value * 10 + digitOf b
      if next ≤ maxExponent then
        readExponentDigits negative significand start down next count c.next
      else if significand ≠ 0 ∧ ¬down then .error (c.next.errorHere .numberOutOfRange)
      else .ok (.float (.zero negative), c.advance (count + 1))

def readExponent (negative : Bool) (significand : Nat) (start : Int) (c : Cursor) :
    Result Number :=
  let c := c.next
  let (down, c) :=
    match c.peek? with
    | some 0x2b => (false, c.next)
    | some 0x2d => (true, c.next)
    | _ => (false, c)
  match c.peek? with
  | none => .error (c.errorHere .endInValue)
  | some b =>
    if isDigit b then
      readExponentDigits negative significand start down 0 (digitCount c.rest) c
    else .error (c.next.errorHere .invalidNumber)

def endFloat (negative : Bool) (significand : Nat) (exponent : Int) (c : Cursor) : Result Number :=
  if startsExponent c then readExponent negative significand exponent c
  else floatOf negative significand exponent c

def readFraction (negative : Bool) (significand : Nat) (start : Int) (c : Cursor) :
    Result Number :=
  let c := c.next
  let (significand, count) := significandFrom significand 0 c.rest
  let after := c.advance count
  if startsWithDigit after then
    endFloat negative significand (start - count) (after.advance (digitCount after.rest))
  else if count = 0 then
    .error (after.errorAhead (if after.rest.isEmpty then .endInValue else .invalidNumber))
  else endFloat negative significand (start - count) after

def wholeNumber (negative : Bool) (significand : Nat) : Number :=
  if !negative then .integer significand
  else if 0 < significand ∧ significand ≤ Nat.pow 2 63 then .integer (-(significand : Int))
  else .float (Binary64.ofNat significand).neg

def readNumber (negative : Bool) (c : Cursor) : Result Number :=
  match c.peek? with
  | none => .error (c.errorHere .endInValue)
  | some b =>
    if !isDigit b then .error (c.next.errorHere .invalidNumber)
    else if b = 0x30 ∧ startsWithDigit c.next then .error (c.next.errorAhead .invalidNumber)
    else
      let (significand, count) := significandFrom 0 0 c.rest
      let after := c.advance count
      let extra := digitCount after.rest
      let c := after.advance extra
      if c.peek? = some 0x2e then readFraction negative significand extra c
      else if startsExponent c then readExponent negative significand extra c
      else if extra = 0 then .ok (wholeNumber negative significand, c)
      else floatOf negative significand extra c

def readSignedNumber (c : Cursor) : Result Number :=
  if c.peek? = some 0x2d then readNumber true c.next else readNumber false c

def skipExponent (c : Cursor) : Except Error Cursor :=
  let c := c.next
  let c := if c.peek? = some 0x2b ∨ c.peek? = some 0x2d then c.next else c
  if startsWithDigit c then .ok (c.advance (digitCount c.rest))
  else .error (c.next.errorHere .invalidNumber)

def skipNumber (c : Cursor) : Except Error Cursor :=
  if !startsWithDigit c then .error (c.next.errorHere .invalidNumber)
  else if c.peek? = some 0x30 ∧ startsWithDigit c.next then
    .error (c.next.errorAhead .invalidNumber)
  else
    let c := c.advance (digitCount c.rest)
    if c.peek? = some 0x2e then
      let c := c.next
      if !startsWithDigit c then .error (c.errorAhead .invalidNumber)
      else
        let c := c.advance (digitCount c.rest)
        if startsExponent c then skipExponent c else .ok c
    else if startsExponent c then skipExponent c
    else .ok c

end LocalHttp.Json
