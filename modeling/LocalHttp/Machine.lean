import LocalHttp.Call
import LocalHttp.Server

namespace LocalHttp

structure Machine (σ : Type) where
  network : Network
  server : Option (Server σ)
  state : σ
  /-- The end of the control pipe that commands go into. -/
  sender : Descriptor
  path : String

namespace Machine

variable {σ : Type}

def onDescriptor {α : Type} (n : Network) (d : Descriptor) (s : Socket) (f : Socket → α × Socket) :
    α × Socket × Network :=
  let (a, s) := f { s with line := n.line d }
  (a, s, n.settle d s.line)

/-- Makes place for the socket of a server: what stands at the path goes, and missing directories
are made. -/
def preparePath (t : FileTree) (path : String) : Except ServerFault FileTree :=
  let names := FileTree.names path
  let removed : Except Errno FileTree :=
    match t.remove names with
    | .error e => if e = .noEntry then .ok t else .error e
    | .ok t => .ok t
  match removed.bind fun t ↦ t.makeDirectories names.dropLast with
  | .ok t => .ok t
  | .error e => .error (.socketPath path (.system e))

def checkPathLength (path : String) : Except TransportFault Unit :=
  if Network.maxPathLength < path.utf8ByteSize then .error (.pathTooLong path) else .ok ()

def listen (n : Network) (d : Descriptor) (path : String) : Except TransportFault Unit × Network :=
  match checkPathLength path with
  | .error fault => (.error fault, n)
  | .ok () =>
    match n.bind d (FileTree.names path) with
    | .error e => (.error (.socket .bind (.system e)), n)
    | .ok n =>
      match n.startListening d with
      | .error e => (.error (.socket .listen (.system e)), n)
      | .ok n => (.ok (), n)

def connect (n : Network) (d : Descriptor) (path : String) : Except TransportFault Network :=
  (checkPathLength path).bind fun () ↦
    match n.connect d (FileTree.names path) with
    | .error e => .error (.socket .connect (.system e))
    | .ok n => .ok n

def start (files : FileTree) (service : Service σ) (state : σ) (path : String) :
    Except ServerFault (Machine σ) :=
  (preparePath files path).bind fun files ↦
    let (listener, n) := ({ files := files } : Network).addSocket
    match listen n listener path with
    | (.error fault, _) => .error (.transport fault)
    | (.ok (), n) =>
      let (reader, sender, n) := n.addPipe
      let server : Server σ :=
        { service := service, state := state, path := path, listener := listener,
          control := reader, controlSocket := {} }
      .ok { network := n, server := some server, state := state, sender := sender, path := path }

def loaded (n : Network) (s : Server σ) : Server σ :=
  { s with
    controlSocket := { s.controlSocket with line := n.line s.control }
    clients := s.clients.map fun c ↦
      { c with connection :=
        { c.connection with socket := { c.connection.socket with line := n.line c.descriptor } } } }

/-- Takes over what the connections have done that were there before the round. -/
def settleClients (n : Network) (before : List Descriptor) (clients : List Client) : Network :=
  clients.foldl (fun n c ↦
    if before.contains c.descriptor then n.settle c.descriptor c.connection.socket.line else n) n

def waitingAt (n : Network) (listener : Descriptor) : List Descriptor :=
  match (n.get listener).kind with
  | .listener waiting => waiting
  | _ => []

def afterDeparture (n : Network) (d : Server.Departure σ) : Network :=
  let n := d.closed.foldl Network.close n
  match n.files.remove (FileTree.names d.path) with
  | .ok files => { n with files := files }
  | .error _ => n

def round (m : Machine σ) (s : Server σ) : Machine σ :=
  let n := m.network
  let before := s.clients.map (·.descriptor)
  let waiting := waitingAt n s.listener
  let listenerWatched := s.listenerPosition?.isSome
  let r := (loaded n s).round
    { status := .ok n.status, accepts := waiting.map fun d ↦ .connection d {} }
  let n := n.settle s.control r.server.controlSocket.line
  let n := settleClients n before (r.server.clients ++ r.closed)
  let n := r.closed.foldl (fun n c ↦ n.close c.descriptor) n
  match r.ended with
  | some result =>
    { m with network := afterDeparture n (r.server.depart result), server := none,
             state := r.server.state }
  | none =>
    let n :=
      if listenerWatched then n.modify s.listener fun e ↦ { e with kind := .listener [] } else n
    { m with network := n, server := some r.server, state := r.server.state }

def isDue (n : Network) (s : Server σ) : Bool :=
  (s.watch.report n.status).any fun r ↦ !r.isNone

def quiesceWithin : Nat → Machine σ → Machine σ
  | 0, m => m
  | fuel + 1, m =>
    match m.server with
    | none => m
    | some s => if isDue m.network s then quiesceWithin fuel (m.round s) else m

def pendingWork (n : Network) : Nat :=
  n.endpoints.foldl (fun k e ↦ k + e.inbox.length + 4) 8

def quiesce (m : Machine σ) : Machine σ := quiesceWithin (pendingWork m.network) m

def command (m : Machine σ) (text : String) : Except TransportFault Unit × Machine σ :=
  let (result, _, n) := onDescriptor m.network m.sender {} fun s ↦ Control.send s text
  (result, { m with network := n }.quiesce)

def isServing (m : Machine σ) : Bool := m.server.isSome

def pathExists (m : Machine σ) : Bool := m.network.files.exists? (FileTree.names m.path)

def openConnection (m : Machine σ) : Except TransportFault (Descriptor × Machine σ) :=
  let (d, n) := m.network.addSocket
  (connect n d m.path).map fun n ↦ (d, { m with network := n }.quiesce)

/-- How many times a client tries on before it gives up; every try moves bytes. -/
def maxTries : Nat := 100000

def writeWithin : Nat → Machine σ → Descriptor → Bytes → Machine σ
  | 0, m, _, _ => m
  | fuel + 1, m, d, data =>
    if data.isEmpty then m
    else
      match onDescriptor m.network d {} fun s ↦ s.write data with
      | (.error _, _, n) => { m with network := n }.quiesce
      | (.ok left, _, n) => writeWithin fuel { m with network := n }.quiesce d left

def write (m : Machine σ) (d : Descriptor) (data : Bytes) : Machine σ :=
  writeWithin maxTries m d data

def halfClose (m : Machine σ) (d : Descriptor) : Machine σ :=
  { m with network := m.network.endOutput d }.quiesce

def closeConnection (m : Machine σ) (d : Descriptor) : Machine σ :=
  { m with network := m.network.close d }.quiesce

def takeInbox (n : Network) (d : Descriptor) : Bytes × Network :=
  ((n.get d).inbox, n.modify d fun e ↦ { e with inbox := [] })

def receiveWithin : Nat → Machine σ → Descriptor → Bytes → Bytes × Machine σ
  | 0, m, _, received => (received, m)
  | fuel + 1, m, d, received =>
    let (bytes, n) := takeInbox m.network d
    let m := { m with network := n }.quiesce
    let e := m.network.get d
    if e.inbox.isEmpty then (received ++ bytes, m)
    else receiveWithin fuel m d (received ++ bytes)

def receive (m : Machine σ) (d : Descriptor) : Bytes × Machine σ := receiveWithin maxTries m d []

/-- Sends bytes on a connection of their own, ends the sending and takes what comes back. -/
def exchange (m : Machine σ) (data : Bytes) : Except TransportFault (Bytes × Machine σ) :=
  m.openConnection.map fun (d, m) ↦
    let (reply, m) := ((m.write d data).halfClose d).receive d
    (reply, m.closeConnection d)

def callWithin : Nat → Machine σ → Descriptor → Call → Except ClientFault Response × Machine σ
  | 0, m, _, _ => (.error .peerClosed, m)
  | fuel + 1, m, d, c =>
    match c.result?, c.interest? with
    | some result, _ => (result, m.closeConnection d)
    | none, some interest =>
      let m := m.quiesce
      let r := (m.network.status d).restrict interest
      let (c, _, n) := onDescriptor m.network d c.socket fun s ↦
        let c := (c.withSocket s).wake r
        (c, c.socket)
      callWithin fuel { m with network := n } d c
    | none, none => (.error .peerClosed, m)

def roundTrip (m : Machine σ) (request : Request) : Except ClientFault Response × Machine σ :=
  match m.openConnection with
  | .error fault => (.error (.transport fault), m)
  | .ok (d, m) =>
    let (c, _, n) := onDescriptor m.network d {} fun s ↦
      let c := Call.start s request
      (c, c.socket)
    callWithin maxTries { m with network := n } d c

def call (m : Machine σ) (host : String) (request : Request) :
    Except ClientFault Response × Machine σ :=
  m.roundTrip (Call.complete host request)

end Machine

end LocalHttp
