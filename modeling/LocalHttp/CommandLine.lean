import LocalHttp.Text

namespace LocalHttp.CommandLine

inductive Rejection
  | unexpected (argument : String)
  | unknownCommand (name : String)
  | invalidValue (value argument why : String)
  | missingValue (argument : String)
  | unwantedValue (value argument : String)
  | repeated (argument : String)
  | missingArguments
  | missingCommand (program : String)
  deriving DecidableEq

def Rejection.message : Rejection → String
  | .unexpected argument => "error: unexpected argument '" ++ argument ++ "' found"
  | .unknownCommand name => "error: unrecognized subcommand '" ++ name ++ "'"
  | .invalidValue value argument why =>
    "error: invalid value '" ++ value ++ "' for '" ++ argument ++ "': " ++ why
  | .missingValue argument =>
    "error: a value is required for '" ++ argument ++ "' but none was supplied"
  | .unwantedValue value argument =>
    "error: unexpected value '" ++ value ++ "' for '" ++ argument ++
      "' found; no more were expected"
  | .repeated argument => "error: the argument '" ++ argument ++ "' cannot be used multiple times"
  | .missingArguments => "error: the following required arguments were not provided:"
  | .missingCommand program =>
    "error: '" ++ program ++ "' requires a subcommand but one was not provided"

inductive Stop
  | rejected (rejection : Rejection)
  | version
  | help
  deriving DecidableEq

inductive Word
  /-- All words behind this one are values. -/
  | dashes
  | long (name : String) (value : Option String)
  | short (letters : List Char)
  | plain (text : String)

def Word.ofText (text : String) : Word :=
  match text.toList with
  | ['-', '-'] => .dashes
  | '-' :: '-' :: rest =>
    let name := rest.takeWhile (· != '=')
    let value := rest.dropWhile (· != '=')
    .long (String.ofList name) (if value.isEmpty then none else some (String.ofList value.tail))
  | '-' :: c :: rest => .short (c :: rest)
  | _ => .plain text

structure OptionShape where
  long : String
  short : Option Char := none
  value : Option String := none
  repeatable : Bool := false
  fault : String → Option Rejection := fun _ ↦ none

def OptionShape.shown (o : OptionShape) : String :=
  match o.value with
  | some name => "--" ++ o.long ++ " <" ++ name ++ ">"
  | none => "--" ++ o.long

def pathOption (long : String) (short : Char) (value : String) : OptionShape :=
  { long := long, short := some short, value := some value
    fault := fun path ↦
      if path.isEmpty then some (.missingValue ("--" ++ long ++ " <" ++ value ++ ">")) else none }

structure Options where
  shapes : List OptionShape
  given : List (String × String) := []
  /-- An option with its value, if that has come. It is judged when the word behind it has been
  recognised, so of two mistakes in a row the later one is reported if it is an unknown word. -/
  waiting : Option (OptionShape × Option String) := none

namespace Options

def reject {α : Type} (r : Rejection) : Except Stop α := .error (.rejected r)

def value? (s : Options) (long : String) : Option String :=
  (s.given.find? fun g ↦ g.1 == long).map (·.2)

def has (s : Options) (long : String) : Bool := (s.value? long).isSome

def add (s : Options) (o : OptionShape) (value : String) : Except Stop Options :=
  if s.has o.long && !o.repeatable then reject (.repeated o.shown)
  else
    match o.fault value with
    | some r => reject r
    | none => .ok { s with given := s.given ++ [(o.long, value)] }

def settle (s : Options) : Except Stop Options :=
  match s.waiting with
  | none => .ok s
  | some (o, none) => reject (.missingValue o.shown)
  | some (o, some value) => { s with waiting := none }.add o value

def take (s : Options) (o : OptionShape) (value : String) : Except Stop Options :=
  s.settle.bind fun s ↦ s.add o value

def await (s : Options) (o : OptionShape) : Except Stop Options :=
  s.settle.map fun s ↦ { s with waiting := some (o, none) }

def stop {α : Type} (s : Options) (how : Stop) : Except Stop α := s.settle.bind fun _ ↦ .error how

def takeLong (s : Options) (name : String) (value : Option String) : Except Stop Options :=
  match s.shapes.find? fun o ↦ o.long == name with
  | some o =>
    match o.value, value with
    | some _, some v => s.take o v
    | some _, none => s.await o
    | none, none => s.take o ""
    | none, some v => reject (.unwantedValue v o.shown)
  | none =>
    if name == "help" then s.stop .help
    else if name == "version" && !s.shapes.isEmpty then s.stop .version
    else reject (.unexpected ("--" ++ name))

def takeShort (s : Options) : List Char → Except Stop Options
  | [] => .ok s
  | c :: rest =>
    match s.shapes.find? fun o ↦ o.short == some c with
    | some o =>
      match o.value, rest with
      | none, _ => (s.take o "").bind fun s ↦ s.takeShort rest
      | some _, [] => s.await o
      | some _, '=' :: value => s.take o (String.ofList value)
      | some _, value => s.take o (String.ofList value)
    | none =>
      if c == 'h' then s.stop .help
      else if c == 'V' && !s.shapes.isEmpty then s.stop .version
      else reject (.unexpected ("-" ++ String.singleton c))

def read (commands : List String) : Options → List String →
    Except Stop (Options × Option (String × List String))
  | s, [] => s.settle.map fun s ↦ (s, none)
  | s, text :: rest =>
    match Word.ofText text with
    | .dashes =>
      match rest with
      | [] => s.settle.map fun s ↦ (s, none)
      | w :: _ => reject (.unexpected w)
    | .long name value => (s.takeLong name value).bind fun s ↦ read commands s rest
    | .short letters => (s.takeShort letters).bind fun s ↦ read commands s rest
    | .plain word =>
      match s.waiting with
      | some (o, none) => read commands { s with waiting := some (o, some word) } rest
      | _ =>
        if commands.isEmpty then reject (.unexpected word)
        else if commands.contains word then .ok (s, some (word, rest))
        else if word == "help" then .error .help
        else reject (.unknownCommand word)

end Options

/-- The values in words, of which there may be at most `limit`. -/
def readValues (limit : Option Nat) : (escaped : Bool) → List String → List String →
    Except Stop (List String)
  | _, values, [] => .ok values
  | escaped, values, text :: rest =>
    let word := if escaped then .plain text else Word.ofText text
    match word with
    | .dashes => readValues limit true values rest
    | .long name _ =>
      if name == "help" then .error .help else .error (.rejected (.unexpected ("--" ++ name)))
    | .short letters =>
      let letter := String.ofList (letters.take 1)
      if letter == "h" then .error .help else .error (.rejected (.unexpected ("-" ++ letter)))
    | .plain value =>
      if limit.all (values.length < ·) then readValues limit escaped (values ++ [value]) rest
      else .error (.rejected (.unexpected value))

def readNumber (bits : Nat) (argument value : String) : Except Rejection Nat :=
  match Text.readSigned 64 value.toList with
  | .error e => .error (.invalidValue value argument e.message)
  | .ok n =>
    if 0 ≤ n ∧ n.toNat < Nat.pow 2 bits then .ok n.toNat
    else
      .error (.invalidValue value argument
        (Int.repr n ++ " is not in 0..=" ++ Nat.repr (Nat.pow 2 bits - 1)))

def numberOption (long value : String) (bits : Nat) : OptionShape :=
  { long := long, value := some value
    fault := fun n ↦
      match readNumber bits ("--" ++ long ++ " <" ++ value ++ ">") n with
      | .ok _ => none
      | .error r => some r }

end LocalHttp.CommandLine
