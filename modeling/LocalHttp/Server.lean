import LocalHttp.Connection
import LocalHttp.Network
import LocalHttp.Socket

namespace LocalHttp

structure Client where
  descriptor : Descriptor
  connection : Connection

/-- After an accept has failed, the listener sits out one round. -/
structure Backoff where
  failing : Bool := false
  paused : Bool := false
  deriving DecidableEq

structure Server (σ : Type) where
  service : Service σ
  state : σ
  path : String
  listener : Descriptor
  control : Descriptor
  controlSocket : Socket
  clients : List Client := []
  backoff : Backoff := {}

inductive Accepted
  | connection (descriptor : Descriptor) (line : Line)
  | none
  | fault (errno : Errno)

/-- What the system reports in one round: the state of every descriptor, or why it cannot be
had, and the accepts in order. -/
structure Events where
  status : Except Errno (Descriptor → Readiness)
  accepts : List Accepted

namespace Server

variable {σ : Type}

/-- The descriptors to wait for: the connections in order, the listener unless it sits out, and
the control pipe. -/
def watch (s : Server σ) : Watch Descriptor :=
  let clients : Watch Descriptor :=
    s.clients.foldl (fun w c ↦ w.register c.descriptor c.connection.interest) {}
  let withListener := if s.backoff.paused then clients else clients.register s.listener .readable
  withListener.register s.control .readable

def listenerPosition? (s : Server σ) : Option Nat :=
  if s.backoff.paused then none else some s.clients.length

def controlPosition (s : Server σ) : Nat := s.clients.length + (if s.backoff.paused then 0 else 1)

def takeControl (s : Server σ) (r : Readiness) : Except ServerFault Bool × Server σ :=
  if r.readable || r.hungUp then
    match Control.drain s.controlSocket with
    | (.error fault, socket) => (.error (.transport fault), { s with controlSocket := socket })
    | (.ok commands, socket) =>
      (.ok (commands.contains Control.stop || (r.hungUp && !r.readable)),
        { s with controlSocket := socket })
  else (.ok false, s)

def acceptAll (s : Server σ) : List Accepted → Server σ
  | .connection descriptor line :: rest =>
    let socket : Socket := { line := line }
    let client : Client := { descriptor := descriptor, connection := { socket := socket } }
    acceptAll { s with clients := s.clients ++ [client]
                       backoff := { s.backoff with failing := false } } rest
  | .none :: _ | [] => { s with backoff := { s.backoff with failing := false } }
  | .fault _ :: _ => { s with backoff := { failing := true, paused := true } }

def handleAll (service : Service σ) (report : List Readiness) :
    (position : Nat) → σ → List Client → List Client × σ
  | _, state, [] => ([], state)
  | position, state, c :: rest =>
    let (connection, state) := c.connection.handle service state (readinessAt report position)
    let (rest, state) := handleAll service report (position + 1) state rest
    ({ c with connection := connection } :: rest, state)

structure Round (σ : Type) where
  server : Server σ
  closed : List Client := []
  ended : Option (Except ServerFault Unit) := none

def serveRound (s : Server σ) (report : List Readiness) (accepts : List Accepted)
    (listenerReady : Bool) : Round σ :=
  let polled := s.clients
  let s := if listenerReady then s.acceptAll accepts else s
  let (handled, state) := handleAll s.service report 0 s.state polled
  let clients := handled ++ s.clients.drop polled.length
  { server :=
      { s with state := state, clients := clients.filter fun c ↦ !c.connection.isClosed }
    closed := clients.filter fun c ↦ c.connection.isClosed }

def round (s : Server σ) (events : Events) : Round σ :=
  let watch := s.watch
  let listenerPosition? := s.listenerPosition?
  let controlPosition := s.controlPosition
  let s := { s with backoff := { s.backoff with paused := false } }
  match events.status with
  | .error errno => { server := s, ended := some (.error (.transport (.poll (.system errno)))) }
  | .ok status =>
    let report := watch.report status
    match s.takeControl (readinessAt report controlPosition) with
    | (.error fault, s) => { server := s, ended := some (.error fault) }
    | (.ok true, s) => { server := s, ended := some (.ok ()) }
    | (.ok false, s) =>
      s.serveRound report events.accepts
        (listenerPosition?.any fun p ↦ (readinessAt report p).readable)

/-- What is left of a server whose loop has ended: everything is closed, the path is to be
removed, and the result is that of the loop. -/
structure Departure (σ : Type) where
  clients : List Client
  closed : List Descriptor
  path : String
  state : σ
  result : Except ServerFault Unit

def depart (s : Server σ) (result : Except ServerFault Unit) : Departure σ where
  clients := s.clients.map fun c ↦ { c with connection := c.connection.close }
  closed := s.clients.map (·.descriptor) ++ [s.listener, s.control]
  path := s.path
  state := s.state
  result := result

/-- Runs rounds until one ends the loop, or as long as there are events. -/
def run (s : Server σ) : List Events → Server σ ⊕ Departure σ
  | [] => .inl s
  | events :: rest =>
    let r := s.round events
    match r.ended with
    | some result => .inr (r.server.depart result)
    | none => r.server.run rest

end Server

end LocalHttp
