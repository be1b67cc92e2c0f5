import LocalHttp.Bytes
import LocalHttp.Fault
import LocalHttp.Fields

namespace LocalHttp.Percent

/-- The bytes that are written as themselves. -/
def isPlain (b : UInt8) : Bool :=
  (0x30 ≤ b && b ≤ 0x39) || (0x41 ≤ b && b ≤ 0x5a) || (0x61 ≤ b && b ≤ 0x7a) ||
    b == 0x2d || b == 0x2e || b == 0x5f || b == 0x7e

def upperHexDigit (n : Nat) : Char :=
  if n < 10 then Char.ofNat (0x30 + n) else Char.ofNat (0x37 + n)

def encodeByte (b : UInt8) : List Char :=
  if isPlain b then [Char.ofNat b.toNat]
  else ['%', upperHexDigit (b.toNat / 16), upperHexDigit (b.toNat % 16)]

def encode (bytes : Bytes) : String := String.ofList (bytes.flatMap encodeByte)

def hexValue? (b : UInt8) : Option UInt8 :=
  if 0x30 ≤ b && b ≤ 0x39 then some (b - 0x30)
  else if 0x41 ≤ b && b ≤ 0x46 then some (b - 0x37)
  else if 0x61 ≤ b && b ≤ 0x66 then some (b - 0x57)
  else none

def decodeInto (done : Bytes) : Bytes → Bytes
  | [] => done.reverse
  | [a] => (a :: done).reverse
  | [a, b] => (b :: a :: done).reverse
  | a :: b :: c :: rest =>
    if a = 0x25 then
      match hexValue? b, hexValue? c with
      | some high, some low => decodeInto ((high * 16 + low) :: done) rest
      | _, _ => decodeInto (a :: done) (b :: c :: rest)
    else decodeInto (a :: done) (b :: c :: rest)

def decodeBytes (bytes : Bytes) : Bytes := decodeInto [] bytes

def decode (text : String) : Bytes := decodeBytes (Bytes.ofText text)

end LocalHttp.Percent

namespace LocalHttp.Target

def splitOnce? (mark : Char) (cs : List Char) : Option (List Char × List Char) :=
  match cs.dropWhile (· ≠ mark) with
  | [] => none
  | _ :: behind => some (cs.takeWhile (· ≠ mark), behind)

theorem length_lt_of_splitOnce? {mark : Char} {cs before behind : List Char}
    (h : splitOnce? mark cs = some (before, behind)) : behind.length < cs.length := by
  unfold splitOnce? at h
  split at h
  · simp at h
  · rename_i hd
    have hl := (List.dropWhile_sublist (l := cs) (fun c ↦ decide (c ≠ mark))).length_le
    simp only [Option.some.injEq, Prod.mk.injEq] at h
    rw [hd, List.length_cons, h.2] at hl
    omega

def decodeText (cs : List Char) : Except ReadFault String :=
  match Bytes.text? (Percent.decode (String.ofList cs)) with
  | some s => .ok s
  | none => .error .encoding

/-- One segment of a query: a name with a value behind the first equals sign, or a bare name. -/
def readArgument (segment : List Char) : Except ReadFault Field :=
  match splitOnce? '=' segment with
  | some (name, value) =>
    match decodeText name with
    | .error e => .error e
    | .ok name => (decodeText value).map fun value ↦ ⟨name, value⟩
  | none => (decodeText segment).map fun name ↦ ⟨name, ""⟩

/-- Adds the arguments of a query; empty segments are skipped. -/
def readQuery (args : Arguments) (query : List Char) : Except ReadFault Arguments :=
  match h : splitOnce? '&' query with
  | none =>
    if query.isEmpty then .ok args else (readArgument query).map args.insert
  | some (segment, rest) =>
    have : rest.length < query.length := length_lt_of_splitOnce? h
    if segment.isEmpty then readQuery args rest
    else
      match readArgument segment with
      | .error e => .error e
      | .ok field => readQuery (args.insert field) rest
termination_by query.length

def argumentsOf (query : String) : Except ReadFault Arguments := readQuery .empty query.toList

def read (target : String) : Except ReadFault (String × Arguments) :=
  match splitOnce? '?' target.toList with
  | none => .ok (target, .empty)
  | some (resource, query) =>
    (readQuery .empty query).map fun args ↦ (String.ofList resource, args)

def argumentText (f : Field) : String :=
  Percent.encode (Bytes.ofText f.name) ++ "=" ++ Percent.encode (Bytes.ofText f.value)

def queryText (args : Arguments) : String :=
  match args.fields with
  | [] => ""
  | fields => "?" ++ "&".intercalate (fields.map argumentText)

end LocalHttp.Target
