import LocalHttp.Bytes

namespace LocalHttp.Yaml

structure Label where
  number : Option Nat := none
  tag : Option Bytes := none

inductive Node
  | reference (number : Nat)
  | scalar (label : Label) (isPlain : Bool) (text : String)
  | sequence (label : Label) (items : List Node)
  | mapping (label : Label) (entries : List (Node × Node))

namespace Node

def nothing : Node := .scalar {} true ""

def selfMarked (number : Nat) (label : Label) (n : Node) : List Node :=
  if label.number == some number then [n] else []

mutual

def marked (number : Nat) : Node → List Node
  | .reference _ => []
  | .scalar label isPlain text => selfMarked number label (.scalar label isPlain text)
  | .sequence label items =>
    selfMarked number label (.sequence label items) ++ markedItems number items
  | .mapping label entries =>
    selfMarked number label (.mapping label entries) ++ markedEntries number entries

def markedItems (number : Nat) : List Node → List Node
  | [] => []
  | n :: rest => marked number n ++ markedItems number rest

def markedEntries (number : Nat) : List (Node × Node) → List Node
  | [] => []
  | (key, value) :: rest => marked number key ++ marked number value ++ markedEntries number rest

end

end Node

structure Document where
  root : Node

namespace Document

/-- The node that is meant: what an alias refers to, and otherwise the node itself. -/
def follow (d : Document) : Node → Node
  | .reference number => (d.root.marked number).getLast?.getD .nothing
  | n => n

def text? (d : Document) (n : Node) : Option String :=
  match d.follow n with
  | .scalar _ _ text => some text
  | _ => none

def nullTag : Bytes := Bytes.ofText "tag:yaml.org,2002:null"

def isNullWord (text : String) : Bool := ["null", "Null", "NULL", "~"].contains text

/-- A text that may be missing. A plain scalar that is empty or a word for null says that it is,
unless it has another tag; under the tag for null there must be such a word. -/
def optionalText? (d : Document) (n : Node) : Option (Option String) :=
  match d.follow n with
  | .scalar label true text =>
    match label.tag with
    | none => some (if text.isEmpty || isNullWord text then none else some text)
    | some tag =>
      if tag == nullTag then (if isNullWord text then some none else none) else some (some text)
  | .scalar _ false text => some (some text)
  | _ => none

def entries? (d : Document) (n : Node) : Option (List (Node × Node)) :=
  match d.follow n with
  | .mapping _ entries => some entries
  | .scalar _ _ text => if text.isEmpty then some [] else none
  | _ => none

/-- The fields of a mapping with text keys that have one of the names, each of which may stand
there once. -/
def fields? (d : Document) (names : List String) (n : Node) : Option (List (String × Node)) := do
  let fields ← (← d.entries? n).mapM fun (key, value) ↦ (d.text? key).map fun name ↦ (name, value)
  let known := fields.filter fun (name, _) ↦ names.contains name
  if (known.map (·.1)).Nodup then some known else none

def field? {α : Type} (fields : List (String × Node)) (name : String) (default : α)
    (read : Node → Option α) : Option α :=
  match fields.find? fun f ↦ f.1 == name with
  | some (_, n) => read n
  | none => some default

end Document

end LocalHttp.Yaml
