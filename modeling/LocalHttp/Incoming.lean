import LocalHttp.Buffer
import LocalHttp.Message

namespace LocalHttp

structure StartLine where
  first : Bytes
  second : Bytes
  third : Bytes
  deriving DecidableEq

structure RawMessage where
  line : StartLine
  headers : Headers
  body : Bytes
  deriving DecidableEq

def readText (bytes : Bytes) : Except ReadFault String :=
  match Bytes.text? bytes with
  | some s => .ok s
  | none => .error .encoding

def RawMessage.contentType (m : RawMessage) : String := (m.headers.value? "content-type").getD ""

def Request.ofRaw (m : RawMessage) : Except ReadFault Request := do
  let method ← readText m.line.first
  let target ← readText m.line.second
  let draft ← Draft.ofTarget? method target
  return { draft with headers := m.headers, body := m.body, contentType := m.contentType }.toRequest

/-- The status must be a 16-bit number, which may be padded with blanks. -/
def Status.ofText (code : String) : Except ReadFault Status :=
  match Text.readUnsigned 16 (Text.trim code.toList) with
  | .ok n => .ok ⟨n.toUInt16⟩
  | .error _ => .error (.statusCode code)

/-- The reason is kept as it was sent, even if it is empty. -/
def Response.ofRaw (m : RawMessage) : Except ReadFault Response := do
  let code ← readText m.line.second
  let status ← Status.ofText code
  let reason ← readText m.line.third
  return { status := status, reason := some reason, headers := m.headers, body := m.body,
           contentType := m.contentType : Draft }.toResponse

inductive Incoming
  | first (token : Bytes)
  | second (initial token : Bytes)
  | third (initial middle token : Bytes)
  | headerName (line : StartLine) (headers : Headers) (token : Bytes)
  | headerValue (line : StartLine) (headers : Headers) (name token : Bytes)
  | body (line : StartLine) (headers : Headers) (length : Nat) (received : Array UInt8)
  deriving DecidableEq

namespace Incoming

def fresh : Incoming := .first []

def space : Bytes := [0x20]

def colon : Bytes := [0x3a]

def carriageReturn : UInt8 := 0x0d

def lineFeed : UInt8 := 0x0a

def lineBreak : Bytes := [carriageReturn, lineFeed]

inductive Step
  | next (state : Incoming) (rest : Buffer)
  | blocked (state : Incoming) (rest : Buffer)
  | done (message : RawMessage) (rest : Buffer)
  | fault (fault : ReadFault) (rest : Buffer)

def readToken (b : Buffer) (token delimiter : Bytes) (state next : Bytes → Incoming) : Step :=
  match b.takeToken delimiter with
  | (fragment, true, rest) => .next (next (token ++ fragment)) rest
  | (fragment, false, rest) => .blocked (state (token ++ fragment)) rest

def isPadding (c : Char) : Bool :=
  c == ' ' || c == '\t' || c == '\r' || c == '\n' || c == '\x0b'

def headerField (name value : Bytes) : Except ReadFault Field := do
  let name ← readText name
  let value ← readText value
  return ⟨name, String.ofList (value.toList.dropWhile isPadding)⟩

/-- The body length that the headers announce, which is none without a header for it. -/
def announcedLength (headers : Headers) : Except ReadFault Nat :=
  match headers.get? "content-length" with
  | none => .ok 0
  | some f =>
    match Text.readUnsigned 64 (Text.trim f.value.toList) with
    | .ok n => .ok n
    | .error _ => .error (.contentLength f.value)

def endHeaders (line : StartLine) (headers : Headers) (rest : Buffer) : Step :=
  match announcedLength headers with
  | .ok length => .next (.body line headers length #[]) rest
  | .error fault => .fault fault rest

/-- Reads a name up to its colon; a line break before it makes the line no header. -/
def readName (line : StartLine) (headers : Headers) (token : Bytes) (b : Buffer) : Step :=
  match b.takeUntil colon with
  | (fragment, found, rest) =>
    if fragment.contains carriageReturn || fragment.contains lineFeed then .fault .header rest
    else if found then .next (.headerValue line headers (token ++ fragment) []) (rest.skip 1)
    else .blocked (.headerName line headers (token ++ fragment)) rest

def step (state : Incoming) (b : Buffer) : Step :=
  match state with
  | .first token => readToken b token space .first fun t ↦ .second t []
  | .second initial token => readToken b token space (.second initial) fun t ↦ .third initial t []
  | .third initial middle token =>
    readToken b token lineBreak (.third initial middle)
      fun t ↦ .headerName ⟨initial, middle, t⟩ .empty []
  | .headerName line headers token =>
    if token.isEmpty && b.peek 2 == lineBreak then endHeaders line headers (b.skip 2)
    else if token.isEmpty && b.peek 2 == [carriageReturn] then .blocked state b
    else readName line headers token b
  | .headerValue line headers name token =>
    match b.takeToken lineBreak with
    | (fragment, false, rest) => .blocked (.headerValue line headers name (token ++ fragment)) rest
    | (fragment, true, rest) =>
      match headerField name (token ++ fragment) with
      | .ok field => .next (.headerName line (headers.insert field) []) rest
      | .error fault => .fault fault rest
  | .body line headers length received =>
    match b.take (length - received.size) with
    | (fragment, rest) =>
      let received := received ++ fragment
      if received.size = length then .done ⟨line, headers, received.toList⟩ rest
      else .blocked (.body line headers length received) rest

theorem length_lt_of_readToken {b rest : Buffer} {token delimiter : Bytes}
    {state next : Bytes → Incoming} {after : Incoming} (hd : delimiter ≠ [])
    (h : readToken b token delimiter state next = .next after rest) : rest.length < b.length := by
  unfold readToken at h
  split at h
  · rename_i ht
    simp only [Step.next.injEq] at h
    rw [← h.2]
    exact Buffer.length_takeToken_lt hd ht
  · simp at h

theorem length_skip_lt_of_peek {b : Buffer} (h : b.peek 2 = lineBreak) :
    (b.skip 2).length < b.length := by
  have hl : (b.peek 2).length = 2 := by
    rw [h]
    rfl
  rw [Buffer.length_skip]
  simp only [Buffer.peek, List.length_take, Buffer.length] at hl ⊢
  omega

theorem length_skip_lt_of_takeUntil {b rest : Buffer} {fragment : Bytes}
    (h : b.takeUntil colon = (fragment, true, rest)) : (rest.skip 1).length < b.length := by
  have hl := Buffer.length_takeUntil h
  rw [Buffer.length_skip]
  simp only [colon, List.length_cons, List.length_nil] at hl
  omega

theorem length_lt_of_step {state after : Incoming} {b rest : Buffer}
    (h : step state b = .next after rest) : rest.length < b.length := by
  unfold step at h
  split at h
  · exact length_lt_of_readToken (by simp [space]) h
  · exact length_lt_of_readToken (by simp [space]) h
  · exact length_lt_of_readToken (by simp [lineBreak]) h
  · split at h
    · rename_i hp
      unfold endHeaders at h
      split at h
      · simp only [Step.next.injEq] at h
        rw [← h.2]
        exact length_skip_lt_of_peek (beq_iff_eq.1 (Bool.and_eq_true_iff.1 hp).2)
      · simp at h
    · split at h
      · simp at h
      · unfold readName at h
        split at h
        rename_i ht
        split at h
        · simp at h
        · split at h
          · rename_i hf
            subst hf
            simp only [Step.next.injEq] at h
            rw [← h.2]
            exact length_skip_lt_of_takeUntil ht
          · simp at h
  · split at h
    · simp at h
    · rename_i ht
      split at h
      · simp only [Step.next.injEq] at h
        rw [← h.2]
        exact Buffer.length_takeToken_lt (by simp [lineBreak]) ht
      · simp at h
  · split at h
    dsimp only at h
    split at h <;> simp at h

inductive Run
  | blocked (state : Incoming) (rest : Buffer)
  | done (message : RawMessage) (rest : Buffer)
  | fault (fault : ReadFault) (rest : Buffer)

/-- Every step forward consumes at least one byte. -/
def run (state : Incoming) (b : Buffer) : Run :=
  match h : step state b with
  | .next after rest =>
    have : rest.length < b.length := length_lt_of_step h
    run after rest
  | .blocked after rest => .blocked after rest
  | .done message rest => .done message rest
  | .fault fault rest => .fault fault rest
termination_by b.length

inductive Outcome (α : Type)
  | incomplete
  | message (message : α)
  | fault (fault : ReadFault)
  deriving DecidableEq

/-- Reads on in the buffer. Only an incomplete message reclaims the space of what was consumed. -/
def read {α : Type} (ofRaw : RawMessage → Except ReadFault α) (state : Incoming) (b : Buffer) :
    Outcome α × Incoming × Buffer :=
  match run state b with
  | .blocked after rest => (.incomplete, after, rest.realign)
  | .fault fault rest => (.fault fault, fresh, rest)
  | .done raw rest =>
    match ofRaw raw with
    | .ok message => (.message message, fresh, rest)
    | .error fault => (.fault fault, fresh, rest)

def readRequest : Incoming → Buffer → Outcome Request × Incoming × Buffer := read Request.ofRaw

def readResponse : Incoming → Buffer → Outcome Response × Incoming × Buffer := read Response.ofRaw

end Incoming

end LocalHttp
