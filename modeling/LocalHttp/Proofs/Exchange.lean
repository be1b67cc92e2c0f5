import LocalHttp.Proofs.Draining

namespace LocalHttp

open Incoming

inductive Party
  | client
  | server
  deriving DecidableEq

/-- What one of the two meets: what its wait reports, what the system calls on its socket will
report, and what the state of the handlers has become meanwhile. -/
structure Turn (σ : Type) where
  party : Party
  readiness : Readiness
  arrivals : List Arrival
  acceptances : List Acceptance
  state : σ

namespace Call

def unsent : Call → Bytes
  | .sending _ outgoing => outgoing.unsent
  | _ => []

end Call

namespace Connection

def unsent (c : Connection) : Bytes :=
  match c.phase with
  | .writing outgoing => outgoing.unsent
  | _ => []

end Connection

structure Exchange where
  call : Call
  connection : Connection
  toServer : Bytes
  toClient : Bytes

inductive Way
  | requestOut
  | requestIn
  | responseOut
  | responseIn

def Way.party : Way → Party
  | .requestOut | .responseIn => .client
  | .requestIn | .responseOut => .server

variable {σ : Type}

namespace Turn

def line (t : Turn σ) : Line := { arrivals := t.arrivals, acceptances := t.acceptances }

def taken (t : Turn σ) (s : Socket) : Nat :=
  pendingBytes t.arrivals - pendingBytes s.line.arrivals

theorem taken_eq {t : Turn σ} {ended : Prop} {taken later : Bytes} {s after : Socket}
    (h : ({ s with line := t.line } : Socket).Takes ended taken later after) :
    t.taken after = taken.length := by
  have hp : pendingBytes after.line.arrivals + taken.length = pendingBytes t.arrivals := h.pending
  rw [Turn.taken]
  omega

/-- Whether at least one byte moves in this turn if there is one. -/
def Offers (t : Turn σ) : Way → Prop
  | .requestOut => t.party = .client ∧ takes t.acceptances = true
  | .requestIn => t.party = .server ∧ t.readiness.readable = true ∧ brings t.arrivals = true
  | .responseOut => t.party = .server ∧ t.readiness.writable = true ∧ takes t.acceptances = true
  | .responseIn => t.party = .client ∧ brings t.arrivals = true

theorem Offers.of_client {t : Turn σ} {way : Way} (h : t.Offers way) (hp : t.party = .client) :
    way = .requestOut ∧ takes t.acceptances = true ∨
      way = .responseIn ∧ brings t.arrivals = true := by
  have hne : t.party ≠ .server := by
    rw [hp]
    exact Party.noConfusion
  cases way with
  | requestOut => exact .inl ⟨rfl, h.2⟩
  | requestIn => exact absurd h.1 hne
  | responseOut => exact absurd h.1 hne
  | responseIn => exact .inr ⟨rfl, h.2⟩

theorem Offers.of_server {t : Turn σ} {way : Way} (h : t.Offers way) (hp : t.party = .server) :
    way = .requestIn ∧ t.readiness.readable = true ∧ brings t.arrivals = true ∨
      way = .responseOut ∧ t.readiness.writable = true ∧ takes t.acceptances = true := by
  have hne : t.party ≠ .client := by
    rw [hp]
    exact Party.noConfusion
  cases way with
  | requestOut => exact absurd h.1 hne
  | requestIn => exact .inl ⟨rfl, h.2⟩
  | responseOut => exact .inr ⟨rfl, h.2⟩
  | responseIn => exact absurd h.1 hne

end Turn

namespace Exchange

def start (request : Request) (acceptances : List Acceptance) : Exchange :=
  let call := Call.start { line := { acceptances := acceptances } } request
  { call := call
    connection := { socket := {} }
    toServer := call.socket.line.accepted
    toClient := [] }

def next (service : Service σ) (x : Exchange) (t : Turn σ) : Exchange :=
  match t.party with
  | .client =>
    let call := (x.call.withSocket { x.call.socket with line := t.line }).wake t.readiness
    { x with call := call
             toServer := x.toServer ++ call.socket.line.accepted
             toClient := x.toClient.drop (t.taken call.socket) }
  | .server =>
    let watched := { x.connection with socket := { x.connection.socket with line := t.line } }
    let connection := (watched.handle service t.state t.readiness).1
    { x with connection := connection
             toServer := x.toServer.drop (t.taken connection.socket)
             toClient := x.toClient ++ connection.socket.line.accepted }

def run (service : Service σ) (x : Exchange) (schedule : Nat → Turn σ) : Nat → Exchange
  | 0 => x
  | n + 1 => (run service x schedule n).next service (schedule n)

def pending (x : Exchange) : Way → Bytes
  | .requestOut => x.call.unsent
  | .requestIn => x.toServer
  | .responseOut => x.connection.unsent
  | .responseIn => x.toClient

def waiting (x : Exchange) : Party → Bytes
  | .client => x.toClient
  | .server => x.toServer

/-- The other side has closed its end. -/
def Ended (x : Exchange) : Party → Prop
  | .client => x.connection.isClosed = true
  | .server => x.call.result?.isSome = true

/-- What can be reported when no system call fails. Once the other side is known to have hung up,
what it has sent can be read without a pause. -/
structure Allows (x : Exchange) (t : Turn σ) : Prop where
  error : t.readiness.error = false
  writes : ∀ errno, .fault errno ∉ t.acceptances
  reads : Arrives (x.Ended t.party) (x.waiting t.party) t.arrivals
  hungUp : t.readiness.hungUp = true → x.Ended t.party ∧ .wouldBlock ∉ t.arrivals ∧
    pendingBytes t.arrivals = (x.waiting t.party).length

/-- No system call fails, and bytes that wait are moved at some time. -/
structure Fair (service : Service σ) (x : Exchange) (schedule : Nat → Turn σ) : Prop where
  allowed : ∀ n, (x.run service schedule n).Allows (schedule n)
  moves : ∀ way n, ∃ m, n ≤ m ∧
    ((x.run service schedule m).pending way ≠ [] → (schedule m).Offers way)

end Exchange

/-- These bytes are a request, and the response to it is these bytes, whatever the state of the
handlers is. -/
structure Service.Answers (service : Service σ) (asked answered : Bytes) (response : Response) :
    Prop where
  request : ∃ raw request, reading .fresh asked = .done raw [] ∧
    Request.ofRaw raw = .ok request ∧
      ∀ state, (service.dispatch request state).1.encode = answered
  response : ∃ raw, reading .fresh answered = .done raw [] ∧ Response.ofRaw raw = .ok response

namespace Exchange

/-- How far it is to the end, for a response of a known length. Bytes that still have to be sent
count double. -/
def left (length : Nat) (x : Exchange) : Nat :=
  2 * x.call.unsent.length + x.toServer.length + 2 * x.connection.unsent.length +
    x.toClient.length + if x.connection.isReading then 2 * length + 1 else 0

def Goes (length : Nat) (t : Turn σ) (x after : Exchange) : Prop :=
  after.left length < x.left length ∨
    after.left length = x.left length ∧ (∀ way, after.pending way = x.pending way) ∧
      ∀ way, x.pending way ≠ [] → ¬t.Offers way

def Asks : Call → Prop
  | .sending socket outgoing => socket.Heard [] .fresh ∧ outgoing.unsent ≠ []
  | .receiving socket incoming => socket.Heard [] incoming
  | .done _ _ => False

structure Asking (asked : Bytes) (x : Exchange) : Prop where
  phase : x.connection.phase = .reading
  toClient : x.toClient = []
  call : Asks x.call
  heard : ∃ got, x.connection.socket.Heard got x.connection.incoming ∧
    asked = got ++ (x.toServer ++ x.call.unsent)

def Replies (c : Connection) : Prop :=
  match c.phase with
  | .reading => False
  | .writing _ => c.socket.isOpen = true
  | .closed => True

structure Answering (answered : Bytes) (x : Exchange) : Prop where
  toServer : x.toServer = []
  connection : Replies x.connection
  heard : ∃ socket incoming got, x.call = .receiving socket incoming ∧
    socket.Heard got incoming ∧ answered = got ++ (x.toClient ++ x.connection.unsent)

variable {service : Service σ} {x : Exchange} {t : Turn σ} {asked answered : Bytes}
  {response : Response}

theorem next_of_client (hp : t.party = .client) {call : Call}
    (hc : (x.call.withSocket { x.call.socket with line := t.line }).wake t.readiness = call) :
    x.next service t =
      { x with call := call
               toServer := x.toServer ++ call.socket.line.accepted
               toClient := x.toClient.drop (t.taken call.socket) } := by
  subst hc
  rw [next, hp]

theorem next_of_server (hp : t.party = .server) {connection : Connection}
    (hc : ({ x.connection with socket := { x.connection.socket with line := t.line } }.handle
      service t.state t.readiness).1 = connection) :
    x.next service t =
      { x with connection := connection
               toServer := x.toServer.drop (t.taken connection.socket)
               toClient := x.toClient ++ connection.socket.line.accepted } := by
  subst hc
  rw [next, hp]

theorem goes_of_moved {after : Exchange} {length : Nat} (moved : Bytes)
    (hl : after.left length + moved.length ≤ x.left length)
    (hr : moved = [] → after.connection.isReading = x.connection.isReading)
    (hs : moved = [] → ∀ way, after.pending way = x.pending way)
    (ho : ∀ way, x.pending way ≠ [] → t.Offers way → moved ≠ []) : Goes length t x after := by
  by_cases he : moved = []
  · refine .inr ⟨?_, hs he, fun way hw hf ↦ ho way hw hf he⟩
    have h1 : after.call.unsent = x.call.unsent := hs he .requestOut
    have h2 : after.toServer = x.toServer := hs he .requestIn
    have h3 : after.connection.unsent = x.connection.unsent := hs he .responseOut
    have h4 : after.toClient = x.toClient := hs he .responseIn
    rw [left, left, h1, h2, h3, h4, hr he]
  · have hpos := List.length_pos_iff.2 he
    exact .inl (by omega)

theorem Asking.isClosed (h : x.Asking asked) : x.connection.isClosed = false := by
  obtain ⟨got, hh, -⟩ := h.heard
  rw [Connection.isClosed, h.phase]
  simp only [hh.isOpen, Bool.not_true]

theorem Asking.unsent (h : x.Asking asked) : x.connection.unsent = [] := by
  rw [Connection.unsent, h.phase]

theorem Asking.isReading (h : x.Asking asked) : x.connection.isReading = true := by
  rw [Connection.isReading, h.phase]

theorem Asking.result? (h : x.Asking asked) : x.call.result? = none := by
  have hc := h.call
  cases hk : x.call with
  | done socket result => rw [hk] at hc; exact hc.elim
  | _ => rfl

theorem Asks.receiving {call : Call} (h : Asks call) (hu : call.unsent = []) :
    ∃ socket incoming, call = .receiving socket incoming ∧ socket.Heard [] incoming := by
  cases call with
  | sending socket outgoing => exact absurd hu h.2
  | receiving socket incoming => exact ⟨socket, incoming, rfl, h⟩
  | done socket result => exact h.elim

theorem Replies.unsent_of_isClosed {c : Connection} (h : Replies c) (hc : c.isClosed = true) :
    c.unsent = [] := by
  unfold Connection.unsent
  unfold Replies at h
  unfold Connection.isClosed at hc
  cases hp : c.phase with
  | writing outgoing =>
    rw [hp] at h hc
    rw [show c.socket.isOpen = true from h] at hc
    cases hc
  | _ => rfl

theorem Replies.isReading {c : Connection} (h : Replies c) : c.isReading = false := by
  unfold Replies at h
  unfold Connection.isReading
  cases hp : c.phase with
  | reading => rw [hp] at h; exact h.elim
  | _ => rfl

def Answered (response : Response) (x : Exchange) : Prop := x.call.result? = some (.ok response)

end Exchange

end LocalHttp
