import LocalHttp.Binary64.Shortest
import LocalHttp.Bytes
import LocalHttp.Text

namespace LocalHttp.Json

inductive Found
  | integer (value : Int)
  | float (value : Binary64)
  | boolean (value : Bool)
  | string (value : String)
  | null
  | map
  | sequence

def Found.text : Found → String
  | .integer n => "integer `" ++ Int.repr n ++ "`"
  | .float x => "floating point `" ++ x.text?.getD "null" ++ "`"
  | .boolean true => "boolean `true`"
  | .boolean false => "boolean `false`"
  | .string s => "string " ++ Text.quoted s
  | .null => "null"
  | .map => "map"
  | .sequence => "sequence"

inductive Cause
  | endInValue
  | endInList
  | endInObject
  | endInString
  | expectedValue
  | expectedIdent
  | expectedColon
  | expectedListEnd
  | expectedObjectEnd
  | keyNotString
  | trailingComma
  | trailingCharacters
  | invalidNumber
  | numberOutOfRange
  | invalidEscape
  | controlCharacter
  | invalidCodePoint
  | loneSurrogate
  | endOfHexEscape
  | recursionLimit
  | invalidType (found : Found) (expected : String)
  | invalidValue (found : Found) (expected : String)
  | missingField (name : String)
  | duplicateField (name : String)
  | invalidLength (length : Nat) (expected : String)

def Cause.text : Cause → String
  | .endInValue => "EOF while parsing a value"
  | .endInList => "EOF while parsing a list"
  | .endInObject => "EOF while parsing an object"
  | .endInString => "EOF while parsing a string"
  | .expectedValue => "expected value"
  | .expectedIdent => "expected ident"
  | .expectedColon => "expected `:`"
  | .expectedListEnd => "expected `,` or `]`"
  | .expectedObjectEnd => "expected `,` or `\x7d`"
  | .keyNotString => "key must be a string"
  | .trailingComma => "trailing comma"
  | .trailingCharacters => "trailing characters"
  | .invalidNumber => "invalid number"
  | .numberOutOfRange => "number out of range"
  | .invalidEscape => "invalid escape"
  | .controlCharacter => "control character (\\u0000-\\u001F) found while parsing a string"
  | .invalidCodePoint => "invalid unicode code point"
  | .loneSurrogate => "lone leading surrogate in hex escape"
  | .endOfHexEscape => "unexpected end of hex escape"
  | .recursionLimit => "recursion limit exceeded"
  | .invalidType found expected => "invalid type: " ++ found.text ++ ", expected " ++ expected
  | .invalidValue found expected => "invalid value: " ++ found.text ++ ", expected " ++ expected
  | .missingField name => "missing field `" ++ name ++ "`"
  | .duplicateField name => "duplicate field `" ++ name ++ "`"
  | .invalidLength length expected =>
    "invalid length " ++ Nat.repr length ++ ", expected " ++ expected

/-- A cause with the line and the number of bytes of that line that had been read. -/
structure Error where
  cause : Cause
  line : Nat
  column : Nat

def Error.message (e : Error) : String :=
  e.cause.text ++ " at line " ++ Nat.repr e.line ++ " column " ++ Nat.repr e.column

structure Cursor where
  rest : Bytes
  line : Nat := 1
  column : Nat := 0

abbrev Result (α : Type) := Except Error (α × Cursor)

namespace Cursor

def pass (c : Cursor) (b : UInt8) (rest : Bytes) : Cursor :=
  if b = 0x0a then ⟨rest, c.line + 1, 0⟩ else ⟨rest, c.line, c.column + 1⟩

def next (c : Cursor) : Cursor :=
  match c.rest with
  | [] => c
  | b :: rest => c.pass b rest

def peek? (c : Cursor) : Option UInt8 := c.rest.head?

def advance (c : Cursor) : Nat → Cursor
  | 0 => c
  | count + 1 => c.next.advance count

def errorHere (c : Cursor) (cause : Cause) : Error := ⟨cause, c.line, c.column⟩

def errorAhead (c : Cursor) (cause : Cause) : Error := c.next.errorHere cause

def isBlank (b : UInt8) : Bool := b == 0x20 || b == 0x09 || b == 0x0a || b == 0x0d

def skipBlanksFrom (line column : Nat) : Bytes → Cursor
  | [] => ⟨[], line, column⟩
  | b :: rest =>
    if b = 0x0a then skipBlanksFrom (line + 1) 0 rest
    else if isBlank b then skipBlanksFrom line (column + 1) rest
    else ⟨b :: rest, line, column⟩

def skipBlanks (c : Cursor) : Cursor := skipBlanksFrom c.line c.column c.rest

def readWord (c : Cursor) : Bytes → Except Error Cursor
  | [] => .ok c
  | expected :: word =>
    match c.peek? with
    | none => .error (c.errorHere .endInValue)
    | some b =>
      if b = expected then c.next.readWord word else .error (c.next.errorHere .expectedIdent)

end Cursor

/-- The words of JSON without their first letters. -/
def nullTail : Bytes := [0x75, 0x6c, 0x6c]

def trueTail : Bytes := [0x72, 0x75, 0x65]

def falseTail : Bytes := [0x61, 0x6c, 0x73, 0x65]

def isDigit (b : UInt8) : Bool := 0x30 ≤ b && b ≤ 0x39

end LocalHttp.Json
