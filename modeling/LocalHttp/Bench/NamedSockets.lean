import LocalHttp.Machine

namespace LocalHttp.Bench

structure Named where
  name : String
  descriptor : Descriptor
  socket : Socket := {}

structure NamedSockets where
  network : Network := {}
  sockets : List Named := []

namespace NamedSockets

def find? (e : NamedSockets) (name : String) : Option Named :=
  e.sockets.find? fun s ↦ s.name == name

def put (e : NamedSockets) (s : Named) : NamedSockets :=
  { e with sockets := s :: e.sockets.filter fun other ↦ other.name != s.name }

def drop (e : NamedSockets) (name : String) : NamedSockets :=
  match e.find? name with
  | some s =>
    { network := e.network.close s.descriptor
      sockets := e.sockets.filter fun other ↦ other.name != name }
  | none => e

/-- Gives a descriptor a name; what had the name is dropped. -/
def name (e : NamedSockets) (name : String) (d : Descriptor) : NamedSockets :=
  (e.drop name).put { name := name, descriptor := d }

def addPair (e : NamedSockets) (a b : String) : NamedSockets :=
  let (x, y, n) := e.network.addPair
  (({ e with network := n } : NamedSockets).name a x).name b y

def addPipe (e : NamedSockets) (reader writer : String) : NamedSockets :=
  let (x, y, n) := e.network.addPipe
  (({ e with network := n } : NamedSockets).name reader x).name writer y

def addSocket (e : NamedSockets) (name : String) : NamedSockets :=
  let (d, n) := e.network.addSocket
  ({ e with network := n } : NamedSockets).name name d

def addFile (e : NamedSockets) (path : String) : NamedSockets :=
  { e with network :=
    { e.network with files := e.network.files.put (FileTree.names path) .file } }

def act {α : Type} (e : NamedSockets) (s : Named) (f : Socket → α × Socket) : α × NamedSockets :=
  let (a, socket, n) := Machine.onDescriptor e.network s.descriptor s.socket f
  (a, ({ e with network := if socket.isOpen then n else e.network } : NamedSockets).put
    { s with socket := socket })

def read (e : NamedSockets) (s : Named) : Except TransportFault Nat × NamedSockets :=
  e.act s Socket.read

def write (e : NamedSockets) (s : Named) (data : Bytes) :
    Except TransportFault Nat × NamedSockets :=
  e.act s fun socket ↦
    let (result, socket) := socket.write data
    (result.map fun left ↦ data.length - left.length, socket)

def flush (e : NamedSockets) (s : Named) (o : Outgoing) :
    Except TransportFault Outgoing × NamedSockets :=
  e.act s fun socket ↦
    let (result, o, socket) := o.flush socket
    (result.map fun _ ↦ o, socket)

def flushTimes (s : Named) : Nat → NamedSockets → Outgoing →
    List (Except TransportFault Outgoing) × NamedSockets
  | 0, e, _ => ([], e)
  | times + 1, e, o =>
    let (result, e) := e.flush s o
    let (results, e) := flushTimes s times e (result.toOption.getD o)
    (result :: results, e)

def listen (e : NamedSockets) (s : Named) (path : String) :
    Except TransportFault Unit × NamedSockets :=
  if s.socket.isOpen then
    let (result, n) := Machine.listen e.network s.descriptor path
    (result, { e with network := n })
  else (.error (.socket .bind .notConnected), e)

def connect (e : NamedSockets) (s : Named) (path : String) :
    Except TransportFault Unit × NamedSockets :=
  if s.socket.isOpen then
    match Machine.connect e.network s.descriptor path with
    | .ok n => (.ok (), { e with network := n })
    | .error fault => (.error fault, e)
  else (.error (.socket .connect .notConnected), e)

/-- Accepts a connection under a name; says whether one was waiting. -/
def accept (e : NamedSockets) (s : Named) (name : String) :
    Except TransportFault Bool × NamedSockets :=
  if s.socket.isOpen then
    match e.network.accept s.descriptor with
    | .ok (some d, n) => (.ok true, ({ e with network := n } : NamedSockets).name name d)
    | .ok (none, _) => (.ok false, e)
    | .error errno => (.error (.socket .accept (.system errno)), e)
  else (.error (.socket .accept .notConnected), e)

def close (e : NamedSockets) (s : Named) : NamedSockets :=
  ({ e with network := e.network.close s.descriptor } : NamedSockets).put
    { s with socket := s.socket.close }

def poll (e : NamedSockets) (s : Named) (interest : Interest) : List Readiness :=
  (({} : Watch Descriptor).register s.descriptor interest).report fun d ↦
    if s.socket.isOpen then e.network.status d else .none

end NamedSockets

end LocalHttp.Bench
