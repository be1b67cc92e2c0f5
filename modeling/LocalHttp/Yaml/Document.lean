import LocalHttp.Yaml.Layout
import LocalHttp.Yaml.Node

namespace LocalHttp.Yaml

structure Construction where
  tokens : List Token
  handles : List (String × Bytes) := []
  /-- The numbers of the anchors, which are given once per name; a name that comes again gets the
  number that a new one would have got. -/
  anchors : List (String × Nat) := []

abbrev Build := StateT Construction Option

namespace Build

def peek : Build (Option Token) := do return (← get).tokens.head?

def skip : Build Unit := modify fun c ↦ { c with tokens := c.tokens.drop 1 }

def isAt (ts : List Token) : Build Bool := do return (← peek).any ts.contains

def takes (t : Token) : Build Bool := do
  let found ← isAt [t]
  if found then skip
  return found

def expect (t : Token) : Build Unit := do
  if !(← takes t) then failure

def newAnchor (name : String) : Build Nat := do
  let c ← get
  let number := c.anchors.length
  set { c with anchors := (name, number) :: c.anchors.filter fun a ↦ a.1 != name }
  return number

def anchorNumber (name : String) : Build Nat := do
  match (← get).anchors.find? fun a ↦ a.1 == name with
  | some (_, number) => return number
  | none => failure

def anchor? : Build (Option Nat) := do
  match ← peek with
  | some (.anchor name) =>
    skip
    return some (← newAnchor name)
  | _ => return none

def tag? : Build (Option Bytes) := do
  match ← peek with
  | some (.tag handle suffix) =>
    skip
    if handle.isEmpty then return some suffix
    match (← get).handles.find? fun h ↦ h.1 == handle with
    | some (_, stem) => return some (stem ++ suffix)
    | none => failure
  | _ => return none

def label : Build Label := do
  match ← anchor? with
  | some number => return { number := some number, tag := ← tag? }
  | none =>
    let tag ← tag?
    return { number := ← anchor?, tag := tag }

def scalarLabel (l : Label) : Label :=
  if l.tag == some (Bytes.ofText "!") then { l with tag := none } else l

mutual

/-- A node. In a block, block collections may stand here, and as a value also a sequence without an
indentation of its own. -/
def node (inBlock isValue : Bool) : Nat → Build Node
  | 0 => failure
  | fuel + 1 => do
    match ← peek with
    | some (.reference name) =>
      skip
      return .reference (← anchorNumber name)
    | _ =>
      let l ← label
      match ← peek with
      | some (.scalar isPlain text) =>
        skip
        return .scalar (scalarLabel l) isPlain text
      | some .flowSequenceStart =>
        skip
        return .sequence l (← flowSequence true fuel)
      | some .flowMappingStart =>
        skip
        return .mapping l (← flowMapping true fuel)
      | some .blockEntry =>
        if isValue then return .sequence l (← indentlessSequence fuel) else bare l
      | some .blockSequenceStart =>
        if !inBlock then bare l
        else
          skip
          return .sequence l (← blockSequence fuel)
      | some .blockMappingStart =>
        if !inBlock then bare l
        else
          skip
          return .mapping l (← blockMapping fuel)
      | _ => bare l

def bare (l : Label) : Build Node :=
  if l.number.isSome || l.tag.isSome then return .scalar l true "" else failure

def nodeUnless (ts : List Token) (inBlock isValue : Bool) : Nat → Build Node
  | 0 => failure
  | fuel + 1 => do
    if ← isAt ts then return .nothing else node inBlock isValue fuel

def blockSequence : Nat → Build (List Node)
  | 0 => failure
  | fuel + 1 => do
    if ← takes .blockEntry then
      let item ← nodeUnless [.blockEntry, .blockEnd] true false fuel
      return item :: (← blockSequence fuel)
    else
      expect .blockEnd
      return []

def indentlessSequence : Nat → Build (List Node)
  | 0 => failure
  | fuel + 1 => do
    if ← takes .blockEntry then
      let item ← nodeUnless [.blockEntry, .key, .value, .blockEnd] true false fuel
      return item :: (← indentlessSequence fuel)
    else return []

def blockMapping : Nat → Build (List (Node × Node))
  | 0 => failure
  | fuel + 1 => do
    if ← takes .key then
      let key ← nodeUnless [.key, .value, .blockEnd] true true fuel
      let value ←
        if ← takes .value then nodeUnless [.key, .value, .blockEnd] true true fuel
        else pure .nothing
      return (key, value) :: (← blockMapping fuel)
    else
      expect .blockEnd
      return []

/-- The items up to the closing bracket. A pair is a mapping of its own. -/
def flowSequence (isFirst : Bool) : Nat → Build (List Node)
  | 0 => failure
  | fuel + 1 => do
    if ← takes .flowSequenceEnd then return []
    if !isFirst then expect .flowEntry
    if ← takes .key then
      let pair ← flowPair fuel
      return .mapping {} [pair] :: (← flowSequence false fuel)
    else if ← takes .flowSequenceEnd then return []
    else
      let item ← node false false fuel
      return item :: (← flowSequence false fuel)

/-- A key with its value within a sequence; an empty key takes the token behind it with it. -/
def flowPair : Nat → Build (Node × Node)
  | 0 => failure
  | fuel + 1 => do
    let key ←
      if ← isAt [.value, .flowEntry, .flowSequenceEnd] then
        skip
        pure Node.nothing
      else node false false fuel
    let value ←
      if ← takes .value then nodeUnless [.flowEntry, .flowSequenceEnd] false false fuel
      else pure .nothing
    return (key, value)

def flowMapping (isFirst : Bool) : Nat → Build (List (Node × Node))
  | 0 => failure
  | fuel + 1 => do
    if ← takes .flowMappingEnd then return []
    if !isFirst then expect .flowEntry
    if ← takes .key then
      let key ← nodeUnless [.value, .flowEntry, .flowMappingEnd] false false fuel
      let value ←
        if ← takes .value then nodeUnless [.flowEntry, .flowMappingEnd] false false fuel
        else pure .nothing
      return (key, value) :: (← flowMapping false fuel)
    else if ← takes .flowMappingEnd then return []
    else
      let key ← node false false fuel
      return (key, .nothing) :: (← flowMapping false fuel)

end

/-- The directives in front of a document. There may be one for the version, which has to be known,
and one for each handle. -/
def directives : Nat → Bool → Build Unit
  | 0, _ => failure
  | fuel + 1, versionSeen => do
    match ← peek with
    | some (.version major minor) =>
      if versionSeen || major != 1 || (minor != 1 && minor != 2) then failure
      skip
      directives fuel true
    | some (.tagHandle handle stem) =>
      if (← get).handles.any fun h ↦ h.1 == handle then failure
      modify fun c ↦ { c with handles := (handle, stem) :: c.handles }
      skip
      directives fuel versionSeen
    | _ => return

def isDirective : Token → Bool
  | .version _ _ | .tagHandle _ _ => true
  | _ => false

def content (fuel : Nat) : Build Node := do
  let next ← peek
  if next.all fun t ↦ isDirective t || t == .documentStart || t == .documentEnd then
    return .nothing
  else node true false fuel

def defaultHandles : List (String × Bytes) :=
  [("!", Bytes.ofText "!"), ("!!", Bytes.ofText "tag:yaml.org,2002:")]

def addDefaultHandles : Build Unit :=
  modify fun c ↦ { c with handles := c.handles ++ defaultHandles }

def document (fuel : Nat) : Build Node := do
  match ← peek with
  | none => return .nothing
  | some t =>
    if isDirective t || t == .documentStart then
      directives fuel false
      addDefaultHandles
      expect .documentStart
      content fuel
    else
      addDefaultHandles
      node true false fuel

end Build

def Document.ofTokens? (tokens : List Token) : Option Document :=
  match (Build.document (2 * tokens.length + 2)).run { tokens := tokens } with
  | some (root, rest) => if rest.tokens.all (· == .documentEnd) then some ⟨root⟩ else none
  | none => none

def Document.ofText? (text : String) : Option Document := (tokens? text).bind Document.ofTokens?

end LocalHttp.Yaml
