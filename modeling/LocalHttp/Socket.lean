import LocalHttp.Arrival
import LocalHttp.Incoming

namespace LocalHttp

inductive Interest
  | readable
  | writable
  deriving DecidableEq

structure Readiness where
  readable : Bool := false
  writable : Bool := false
  hungUp : Bool := false
  error : Bool := false
  deriving DecidableEq

namespace Readiness

def none : Readiness := {}

def isNone (r : Readiness) : Bool := !(r.readable || r.writable || r.hungUp || r.error)

/-- What a wait for `interest` reports: the end of a line and errors come unasked. -/
def restrict (r : Readiness) (interest : Interest) : Readiness :=
  { r with readable := r.readable && interest = .readable
           writable := r.writable && interest = .writable }

end Readiness

structure Watch (ι : Type) where
  entries : List (ι × Interest) := []

namespace Watch

variable {ι : Type}

def register (w : Watch ι) (descriptor : ι) (interest : Interest) : Watch ι :=
  ⟨w.entries ++ [(descriptor, interest)]⟩

def report (w : Watch ι) (status : ι → Readiness) : List Readiness :=
  w.entries.map fun (descriptor, interest) ↦ (status descriptor).restrict interest

end Watch

def readinessAt (report : List Readiness) (position : Nat) : Readiness :=
  report.getD position .none

/-- What the system calls on a descriptor will report, and what it has accepted so far. -/
structure Line where
  arrivals : List Arrival := []
  acceptances : List Acceptance := []
  accepted : Bytes := []

structure Socket where
  line : Line := {}
  isOpen : Bool := true
  buffer : Buffer := .ofCapacity Buffer.defaultCapacity
  peerClosed : Bool := false

structure Outgoing where
  unsent : Bytes

namespace Socket

def read (s : Socket) : Except TransportFault Nat × Socket :=
  if s.isOpen then
    let r := receive s.buffer 0 s.line.arrivals
    let after :=
      { s with line := { s.line with arrivals := r.rest }, buffer := r.buffer,
               peerClosed := s.peerClosed || r.sawEnd }
    match r.fault with
    | none => (.ok r.count, after)
    | some errno => (.error (.socket .read (.system errno)), after)
  else (.error (.socket .read .notConnected), s)

/-- Sends what the line takes; what is left comes back. -/
def write (s : Socket) (data : Bytes) : Except TransportFault Bytes × Socket :=
  if s.isOpen then
    let t := transmit [] data s.line.acceptances
    let line := { s.line with acceptances := t.rest, accepted := s.line.accepted ++ t.sent }
    let after := { s with line := line }
    match t.fault with
    | none => (.ok t.unsent, after)
    | some errno => (.error (.socket .write (.system errno)), after)
  else (.error (.socket .write .notConnected), s)

def close (s : Socket) : Socket := { s with isOpen := false }

theorem pendingBytes_read {s after : Socket} {count : Nat} (h : s.read = (.ok count, after)) :
    pendingBytes after.line.arrivals + count = pendingBytes s.line.arrivals := by
  unfold read at h
  split at h
  · have hp := pendingBytes_receive s.buffer 0 s.line.arrivals
    dsimp only at h
    split at h
    · simp only [Prod.mk.injEq, Except.ok.injEq] at h
      rw [← h.1, ← h.2]
      exact hp
    · simp at h
  · simp at h

inductive Drained (α : Type)
  | message (message : α)
  | fault (fault : ReadFault)
  | failed (fault : TransportFault)
  | dry

def drain {α : Type} (ofRaw : RawMessage → Except ReadFault α) (state : Incoming) (s : Socket) :
    Drained α × Incoming × Socket :=
  match h : s.read with
  | (.error fault, s) => (.failed fault, state, s)
  | (.ok count, after) =>
    match Incoming.read ofRaw state after.buffer with
    | (.message m, state, b) => (.message m, state, { after with buffer := b })
    | (.fault fault, state, b) => (.fault fault, state, { after with buffer := b })
    | (.incomplete, state, b) =>
      if hc : count = 0 then (.dry, state, { after with buffer := b })
      else
        have : pendingBytes after.line.arrivals < pendingBytes s.line.arrivals := by
          have := pendingBytes_read h
          omega
        drain ofRaw state { after with buffer := b }
termination_by pendingBytes s.line.arrivals

end Socket

namespace Outgoing

def remaining (o : Outgoing) : Nat := o.unsent.length

def isDone (o : Outgoing) : Bool := o.unsent.isEmpty

/-- Sends on, and says whether everything is out. A failed write leaves the count as it was. -/
def flush (o : Outgoing) (s : Socket) : Except TransportFault Bool × Outgoing × Socket :=
  if o.isDone then (.ok true, o, s)
  else
    match s.write o.unsent with
    | (.error fault, s) => (.error fault, o, s)
    | (.ok unsent, s) => (.ok unsent.isEmpty, ⟨unsent⟩, s)

end Outgoing

end LocalHttp

namespace LocalHttp.Control

def stop : String := "stop"

def frame (command : String) : Bytes := Bytes.ofText command ++ [0]

def send (s : Socket) (command : String) : Except TransportFault Unit × Socket :=
  match s.write (frame command) with
  | (.ok [], s) => (.ok (), s)
  | (.ok _, s) => (.error (.socket .write .wouldBlock), s)
  | (.error fault, s) => (.error fault, s)

/-- The commands that stand complete in a buffer, and what is left behind them. -/
def takeCommands (b : Buffer) : List String × Buffer :=
  match h : b.takeToken [0] with
  | (token, true, rest) =>
    have : rest.length < b.length := Buffer.length_takeToken_lt (by simp) h
    let (commands, left) := takeCommands rest
    (Bytes.lossyText token :: commands, left)
  | (_, false, _) => ([], b)
termination_by b.length

def drain (s : Socket) : Except TransportFault (List String) × Socket :=
  match s.read with
  | (.error fault, s) => (.error fault, s)
  | (.ok _, s) =>
    let (commands, left) := takeCommands s.buffer
    (.ok commands, { s with buffer := left.realign })

end LocalHttp.Control
