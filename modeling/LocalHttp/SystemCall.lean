import LocalHttp.Socket

namespace LocalHttp

/-- What a call of `read` reports. No bytes are the end of what the peer sends. -/
inductive ReadReport
  | bytes (data : Bytes)
  | wouldBlock
  | interrupted
  | fault (errno : Errno)
  deriving DecidableEq

inductive WriteReport
  | count (n : Nat)
  | wouldBlock
  | interrupted
  | fault (errno : Errno)
  deriving DecidableEq

structure ReadCall where
  room : Nat
  report : ReadReport
  deriving DecidableEq

structure WriteCall where
  offered : Bytes
  report : WriteReport
  deriving DecidableEq

namespace ReadReport

def data : ReadReport → Bytes
  | .bytes data => data
  | _ => []

def goesOn : ReadReport → Bool
  | .bytes data => !data.isEmpty
  | .interrupted => true
  | _ => false

end ReadReport

namespace WriteReport

def accepted : WriteReport → Nat
  | .count n => n
  | _ => 0

def goesOn : WriteReport → Bool
  | .count n => n != 0
  | .interrupted => true
  | _ => false

end WriteReport

/-- What a line reports to a call with so much room, and what comes on it then. No block of bytes is
empty for a call, and of a block that is too long a part stays for the next one. -/
def reportRead (room : Nat) : List Arrival → ReadReport × List Arrival
  | [] => (.wouldBlock, [])
  | .data bytes :: rest =>
    if bytes.isEmpty then reportRead room rest
    else if bytes.length ≤ room then (.bytes bytes, rest)
    else (.bytes (bytes.take room), .data (bytes.drop room) :: rest)
  | .endOfFile :: rest => (.bytes [], .endOfFile :: rest)
  | .wouldBlock :: rest => (.wouldBlock, rest)
  | .interrupted :: rest => (.interrupted, rest)
  | .fault errno :: rest => (.fault errno, rest)

def reportWrite (offered : Nat) : List Acceptance → WriteReport × List Acceptance
  | [] => (.wouldBlock, [])
  | .room count :: rest => (.count (min count offered), rest)
  | .wouldBlock :: rest => (.wouldBlock, rest)
  | .interrupted :: rest => (.interrupted, rest)
  | .fault errno :: rest => (.fault errno, rest)

/-- Calls that a line can answer with something to go on with are no more than this. -/
def toCome (arrivals : List Arrival) : Nat := arrivals.length + pendingBytes arrivals

theorem toCome_lt_of_reportRead {room : Nat} {arrivals rest : List Arrival} {report : ReadReport}
    (hroom : room ≠ 0) (h : reportRead room arrivals = (report, rest))
    (hgoes : report.goesOn = true) : toCome rest < toCome arrivals := by
  induction arrivals with
  | nil => cases h; cases hgoes
  | cons a later ih =>
    cases a with
    | data bytes =>
      unfold reportRead at h
      simp only [toCome, pendingBytes, List.length_cons] at ih ⊢
      split at h
      · have := ih h
        omega
      · split at h <;> cases h
        · omega
        · simp only [pendingBytes, List.length_drop, List.length_cons]
          omega
    | interrupted =>
      cases h
      exact Nat.add_lt_add_right (Nat.lt_succ_self _) _
    | _ => cases h; cases hgoes

theorem length_lt_of_reportWrite {offered : Nat} {acceptances rest : List Acceptance}
    {report : WriteReport} (h : reportWrite offered acceptances = (report, rest))
    (hgoes : report.goesOn = true) : rest.length < acceptances.length := by
  cases acceptances with
  | nil => cases h; cases hgoes
  | cons a later =>
    cases a <;> cases h <;> exact Nat.lt_succ_self _

structure ReadLoop where
  buffer : Buffer
  answer : Except Errno Nat
  sawEnd : Bool := false
  rest : List Arrival
  calls : List ReadCall

/-- Reads until the buffer is full, behind `total` bytes that have been read so far. -/
def readLoop (b : Buffer) (total : Nat) (arrivals : List Arrival) : ReadLoop :=
  if hroom : b.writable = 0 then
    { buffer := b, answer := .ok total, rest := arrivals, calls := [] }
  else
    match h : reportRead b.writable arrivals with
    | (.bytes [], rest) =>
      { buffer := b, answer := .ok total, sawEnd := true, rest := rest,
        calls := [⟨b.writable, .bytes []⟩] }
    | (.bytes (first :: data), rest) =>
      have : toCome rest < toCome arrivals := toCome_lt_of_reportRead hroom h rfl
      let bytes := first :: data
      let onward := readLoop ((b.stage bytes).commit bytes.length) (total + bytes.length) rest
      { onward with calls := ⟨b.writable, .bytes bytes⟩ :: onward.calls }
    | (.wouldBlock, rest) =>
      { buffer := b, answer := .ok total, rest := rest, calls := [⟨b.writable, .wouldBlock⟩] }
    | (.interrupted, rest) =>
      have : toCome rest < toCome arrivals := toCome_lt_of_reportRead hroom h rfl
      let onward := readLoop b total rest
      { onward with calls := ⟨b.writable, .interrupted⟩ :: onward.calls }
    | (.fault errno, rest) =>
      { buffer := b, answer := .error errno, rest := rest, calls := [⟨b.writable, .fault errno⟩] }
termination_by toCome arrivals

structure WriteLoop where
  answer : Except Errno Nat
  rest : List Acceptance
  calls : List WriteCall

def writeLoop (data : Bytes) (sent : Nat) (acceptances : List Acceptance) : WriteLoop :=
  if data.length ≤ sent then { answer := .ok sent, rest := acceptances, calls := [] }
  else
    let offered := data.drop sent
    match h : reportWrite offered.length acceptances with
    | (.count 0, rest) => { answer := .ok sent, rest := rest, calls := [⟨offered, .count 0⟩] }
    | (.count (n + 1), rest) =>
      have : rest.length < acceptances.length := length_lt_of_reportWrite h rfl
      let onward := writeLoop data (sent + (n + 1)) rest
      { onward with calls := ⟨offered, .count (n + 1)⟩ :: onward.calls }
    | (.wouldBlock, rest) =>
      { answer := .ok sent, rest := rest, calls := [⟨offered, .wouldBlock⟩] }
    | (.interrupted, rest) =>
      have : rest.length < acceptances.length := length_lt_of_reportWrite h rfl
      let onward := writeLoop data sent rest
      { onward with calls := ⟨offered, .interrupted⟩ :: onward.calls }
    | (.fault errno, rest) =>
      { answer := .error errno, rest := rest, calls := [⟨offered, .fault errno⟩] }
termination_by acceptances.length

def broughtBy (calls : List ReadCall) : Bytes := calls.flatMap (·.report.data)

def acceptedBy (calls : List WriteCall) : Bytes :=
  calls.flatMap fun call ↦ call.offered.take call.report.accepted

@[simp]
theorem broughtBy_nil : broughtBy [] = [] := rfl

@[simp]
theorem broughtBy_cons (call : ReadCall) (calls : List ReadCall) :
    broughtBy (call :: calls) = call.report.data ++ broughtBy calls := List.flatMap_cons

@[simp]
theorem acceptedBy_nil : acceptedBy [] = [] := rfl

@[simp]
theorem acceptedBy_cons (call : WriteCall) (calls : List WriteCall) :
    acceptedBy (call :: calls) = call.offered.take call.report.accepted ++ acceptedBy calls :=
  List.flatMap_cons

namespace Socket

def readByCalls (s : Socket) : (Except TransportFault Nat × Socket) × List ReadCall :=
  if s.isOpen then
    let loop := readLoop s.buffer 0 s.line.arrivals
    let after :=
      { s with line := { s.line with arrivals := loop.rest }, buffer := loop.buffer,
               peerClosed := s.peerClosed || loop.sawEnd }
    ((loop.answer.mapError fun errno ↦ .socket .read (.system errno), after), loop.calls)
  else ((.error (.socket .read .notConnected), s), [])

def writeByCalls (s : Socket) (data : Bytes) :
    (Except TransportFault Nat × Socket) × List WriteCall :=
  if s.isOpen then
    let loop := writeLoop data 0 s.line.acceptances
    let line :=
      { s.line with acceptances := loop.rest, accepted := s.line.accepted ++ acceptedBy loop.calls }
    ((loop.answer.mapError fun errno ↦ .socket .write (.system errno), { s with line := line }),
      loop.calls)
  else ((.error (.socket .write .notConnected), s), [])

end Socket

/-- A message on its way out, with the number of its bytes that have been written. -/
structure Sending where
  bytes : Bytes
  written : Nat := 0

namespace Sending

def remaining (w : Sending) : Nat := w.bytes.length - w.written

def isDone (w : Sending) : Bool := w.remaining == 0

def flush (w : Sending) (s : Socket) : Except TransportFault Bool × Sending × Socket :=
  if w.isDone then (.ok w.isDone, w, s)
  else
    match (s.writeByCalls (w.bytes.drop w.written)).1 with
    | (.ok n, s) =>
      let w := { w with written := w.written + n }
      (.ok w.isDone, w, s)
    | (.error fault, s) => (.error fault, w, s)

end Sending

end LocalHttp
