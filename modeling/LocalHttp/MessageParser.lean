import LocalHttp.Incoming

namespace LocalHttp

open Incoming (announcedLength carriageReturn colon isPadding lineBreak lineFeed space Outcome)

/-- The header that is being read, the headers before it, and the body with what the headers say
about it. -/
structure Scratch where
  name : Bytes := []
  value : Bytes := []
  headers : Headers := .empty
  body : Array UInt8 := #[]
  length : Nat := 0
  contentType : String := ""
  deriving DecidableEq

/-- Takes what is in some memory. What has been taken is gone, also if there is a fault later. -/
abbrev Taking (σ α : Type) : Type := ExceptT ReadFault (StateM σ) α

namespace Scratch

def takeField : Taking Scratch Field := do
  let name ← readText (← modifyGet fun s ↦ (s.name, { s with name := [] }))
  let value ← readText (← modifyGet fun s ↦ (s.value, { s with value := [] }))
  return ⟨name, String.ofList (value.toList.dropWhile isPadding)⟩

def takeHeader : Taking Scratch Unit := do
  let field ← takeField
  modify fun s ↦ { s with headers := s.headers.insert field }

def endHeaders : Taking Scratch Unit := do
  let length ← announcedLength (← get).headers
  modify fun s ↦
    { s with length := length, contentType := (s.headers.value? "content-type").getD "" }

end Scratch

inductive MessageParser.Phase
  | start
  | first
  | second
  | third
  | headerName
  | headerValue
  | body
  deriving DecidableEq

structure MessageParser where
  phase : MessageParser.Phase := .start
  first : Bytes := []
  second : Bytes := []
  third : Bytes := []
  scratch : Scratch := {}
  deriving DecidableEq

namespace MessageParser

def new : MessageParser := {}

inductive Step
  | next (p : MessageParser) (rest : Buffer)
  | blocked (p : MessageParser) (rest : Buffer)
  | complete (p : MessageParser) (rest : Buffer)
  | fault (cause : ReadFault) (p : MessageParser) (rest : Buffer)

def readToken (b : Buffer) (delimiter token : Bytes) (put : Bytes → MessageParser)
    (next : Phase) : Step :=
  match b.takeToken delimiter with
  | (fragment, true, rest) => .next { put (token ++ fragment) with phase := next } rest
  | (fragment, false, rest) => .blocked (put (token ++ fragment)) rest

def takeScratch (p : MessageParser) (take : Taking Scratch Unit) (next : Phase)
    (rest : Buffer) : Step :=
  match take.run.run p.scratch with
  | (.ok _, scratch) => .next { p with phase := next, scratch := scratch } rest
  | (.error cause, scratch) => .fault cause { p with scratch := scratch } rest

def readName (p : MessageParser) (b : Buffer) : Step :=
  match b.takeUntil colon with
  | (fragment, found, rest) =>
    if fragment.contains carriageReturn || fragment.contains lineFeed then .fault .header p rest
    else
      let p := { p with scratch := { p.scratch with name := p.scratch.name ++ fragment } }
      if found then .next { p with phase := .headerValue } (rest.skip 1) else .blocked p rest

def step (p : MessageParser) (b : Buffer) : Step :=
  match p.phase with
  | .start =>
    .next { p with phase := .first, first := [], second := [], third := [], scratch := {} } b
  | .first => readToken b space p.first (fun t ↦ { p with first := t }) .second
  | .second => readToken b space p.second (fun t ↦ { p with second := t }) .third
  | .third => readToken b lineBreak p.third (fun t ↦ { p with third := t }) .headerName
  | .headerName =>
    if p.scratch.name.isEmpty && b.peek 2 == lineBreak then
      takeScratch p Scratch.endHeaders .body (b.skip 2)
    else if p.scratch.name.isEmpty && b.peek 2 == [carriageReturn] then .blocked p b
    else readName p b
  | .headerValue =>
    match b.takeToken lineBreak with
    | (fragment, found, rest) =>
      let p := { p with scratch := { p.scratch with value := p.scratch.value ++ fragment } }
      if found then takeScratch p Scratch.takeHeader .headerName rest else .blocked p rest
  | .body =>
    match b.take (p.scratch.length - p.scratch.body.size) with
    | (fragment, rest) =>
      let p := { p with scratch := { p.scratch with body := p.scratch.body ++ fragment } }
      if p.scratch.body.size = p.scratch.length then .complete { p with phase := .start } rest
      else .blocked p rest

/-- The start of a message takes no byte, but it comes only once. -/
def ahead (p : MessageParser) (b : Buffer) : Nat := 2 * b.length + if p.phase = .start then 1 else 0

theorem ahead_lt {p after : MessageParser} {b rest : Buffer} (h : rest.length < b.length) :
    ahead after rest < ahead p b := by
  unfold ahead
  split <;> omega

theorem ahead_lt_of_readToken {p after : MessageParser} {b rest : Buffer} {delimiter token : Bytes}
    {put : Bytes → MessageParser} {next : Phase} (hd : delimiter ≠ [])
    (h : readToken b delimiter token put next = .next after rest) :
    ahead after rest < ahead p b := by
  unfold readToken at h
  split at h
  · rename_i ht
    cases h
    exact ahead_lt (Buffer.length_takeToken_lt hd ht)
  · cases h

theorem rest_of_takeScratch {p after : MessageParser} {take : Taking Scratch Unit} {next : Phase}
    {b rest : Buffer} (h : takeScratch p take next b = .next after rest) : rest = b := by
  unfold takeScratch at h
  split at h <;> cases h
  rfl

theorem ahead_lt_of_readName {p after : MessageParser} {b rest : Buffer}
    (h : readName p b = .next after rest) : ahead after rest < ahead p b := by
  unfold readName at h
  split at h
  rename_i fragment found left ht
  split at h
  · cases h
  · cases found with
    | false => cases h
    | true =>
      cases h
      exact ahead_lt (Incoming.length_skip_lt_of_takeUntil ht)

theorem ahead_lt_of_step {p after : MessageParser} {b rest : Buffer}
    (h : step p b = .next after rest) : ahead after rest < ahead p b := by
  unfold step at h
  split at h
  · rename_i hp
    cases h
    simp [ahead, hp]
  · exact ahead_lt_of_readToken (by simp [space]) h
  · exact ahead_lt_of_readToken (by simp [space]) h
  · exact ahead_lt_of_readToken (by simp [lineBreak]) h
  · split at h
    · rename_i hp
      rw [rest_of_takeScratch h]
      exact ahead_lt (Incoming.length_skip_lt_of_peek (beq_iff_eq.1 (Bool.and_eq_true_iff.1 hp).2))
    · split at h
      · cases h
      · exact ahead_lt_of_readName h
  · split at h
    rename_i fragment found left ht
    cases found with
    | false => cases h
    | true =>
      rw [rest_of_takeScratch h]
      exact ahead_lt (Buffer.length_takeToken_lt (by simp [lineBreak]) ht)
  · split at h
    dsimp only at h
    split at h <;> cases h

inductive Run
  | blocked (p : MessageParser) (rest : Buffer)
  | complete (p : MessageParser) (rest : Buffer)
  | fault (cause : ReadFault) (p : MessageParser) (rest : Buffer)

def run (p : MessageParser) (b : Buffer) : Run :=
  match h : step p b with
  | .next after rest =>
    have : ahead after rest < ahead p b := ahead_lt_of_step h
    run after rest
  | .blocked after rest => .blocked after rest
  | .complete after rest => .complete after rest
  | .fault cause after rest => .fault cause after rest
termination_by ahead p b

def finishRequest : Taking MessageParser Request := do
  let method ← readText (← modifyGet fun p ↦ (p.first, { p with first := [] }))
  let target ← readText (← modifyGet fun p ↦ (p.second, { p with second := [] }))
  let scratch ← modifyGet fun p ↦ (p.scratch, { p with scratch := {} })
  let draft ← Request.Draft.ofTarget? method target
  return { draft with headers := draft.headers.merge scratch.headers, body := scratch.body.toList,
                      contentType := scratch.contentType }.toRequest

def finishResponse : Taking MessageParser Response := do
  let code ← readText (← modifyGet fun p ↦ (p.second, { p with second := [] }))
  let status ← Status.ofText code
  let reason ← readText (← modifyGet fun p ↦ (p.third, { p with third := [] }))
  let scratch ← modifyGet fun p ↦ (p.scratch, { p with scratch := {} })
  return { status := status, reason := some reason,
           headers := FieldTable.empty.merge scratch.headers, body := scratch.body.toList,
           contentType := scratch.contentType : Response.Draft }.toResponse

/-- After a message and after a fault the parser starts again, with what is left in its memory. -/
def parse {α : Type} (finish : Taking MessageParser α) (p : MessageParser) (b : Buffer) :
    Outcome α × MessageParser × Buffer :=
  match run p b with
  | .blocked after rest => (.incomplete, after, rest.realign)
  | .fault cause after rest => (.fault cause, { after with phase := .start }, rest)
  | .complete after rest =>
    match finish.run.run after with
    | (.ok message, last) => (.message message, last, rest)
    | (.error cause, last) => (.fault cause, { last with phase := .start }, rest)

def parseRequest : MessageParser → Buffer → Outcome Request × MessageParser × Buffer :=
  parse finishRequest

def parseResponse : MessageParser → Buffer → Outcome Response × MessageParser × Buffer :=
  parse finishResponse

end MessageParser

end LocalHttp
