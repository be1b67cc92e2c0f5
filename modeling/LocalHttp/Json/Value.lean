import LocalHttp.Binary64.Shortest
import LocalHttp.Dictionary

namespace LocalHttp.Json

inductive Number
  | integer (value : Int)
  | float (value : Binary64)
  deriving DecidableEq

inductive Value
  | null
  | boolean (value : Bool)
  | number (value : Number)
  | string (value : String)
  | array (items : List Value)
  | object (members : List (String × Value))

instance : Inhabited Value := ⟨.null⟩

def Value.ofMembers (members : List (String × Value)) : Value :=
  .object (Dictionary.ofList members)

def Value.ofNat (n : Nat) : Value := .number (.integer n)

/-- NaN and the infinities have no JSON form. -/
def Value.ofBinary64 (x : Binary64) : Value :=
  match x with
  | .finite _ _ _ => .number (.float x)
  | _ => .null

def lowerHexDigit (n : Nat) : Char :=
  if n < 10 then Char.ofNat (0x30 + n) else Char.ofNat (0x57 + n)

/-- Quotes, backslashes and controls are escaped; all else stands for itself. -/
def escapeChar (c : Char) : List Char :=
  if c = '"' then ['\\', '"']
  else if c = '\\' then ['\\', '\\']
  else if c = '\x08' then ['\\', 'b']
  else if c = '\x0c' then ['\\', 'f']
  else if c = '\n' then ['\\', 'n']
  else if c = '\r' then ['\\', 'r']
  else if c = '\t' then ['\\', 't']
  else if c.toNat < 0x20 then
    ['\\', 'u', '0', '0', lowerHexDigit (c.toNat / 16), lowerHexDigit (c.toNat % 16)]
  else [c]

def stringText (s : String) : String :=
  String.ofList ('"' :: s.toList.flatMap escapeChar ++ ['"'])

def Number.text : Number → String
  | .integer n => Int.repr n
  | .float x => x.text?.getD "null"

mutual

def Value.text : Value → String
  | .null => "null"
  | .boolean true => "true"
  | .boolean false => "false"
  | .number n => n.text
  | .string s => stringText s
  | .array items => "[" ++ ",".intercalate (itemTexts items) ++ "]"
  | .object members => "\x7b" ++ ",".intercalate (memberTexts members) ++ "\x7d"

def itemTexts : List Value → List String
  | [] => []
  | v :: rest => v.text :: itemTexts rest

def memberTexts : List (String × Value) → List String
  | [] => []
  | (name, v) :: rest => (stringText name ++ ":" ++ v.text) :: memberTexts rest

end

def indentation (depth : Nat) : String := String.ofList (List.replicate (2 * depth) ' ')

def block (depth : Nat) (opening closing : String) (lines : List String) : String :=
  let inner := "\n" ++ indentation (depth + 1)
  opening ++ inner ++ ("," ++ inner).intercalate lines ++ "\n" ++ indentation depth ++ closing

mutual

def Value.pretty (depth : Nat) : Value → String
  | .array [] => "[]"
  | .array (v :: rest) =>
    block depth "[" "]" (v.pretty (depth + 1) :: prettyItems (depth + 1) rest)
  | .object [] => "\x7b\x7d"
  | .object ((name, v) :: rest) =>
    block depth "\x7b" "\x7d"
      ((stringText name ++ ": " ++ v.pretty (depth + 1)) :: prettyMembers (depth + 1) rest)
  | v => v.text

def prettyItems (depth : Nat) : List Value → List String
  | [] => []
  | v :: rest => v.pretty depth :: prettyItems depth rest

def prettyMembers (depth : Nat) : List (String × Value) → List String
  | [] => []
  | (name, v) :: rest =>
    (stringText name ++ ": " ++ v.pretty depth) :: prettyMembers depth rest

end

end LocalHttp.Json
