import LocalHttp.Dictionary
import LocalHttp.Socket

namespace LocalHttp

inductive FileNode
  | file
  | directory
  /-- A socket file, with the number of the descriptor that was bound to it, unless its program is
  gone. -/
  | socket (descriptor : Option Nat)
  deriving DecidableEq

structure FileTree where
  nodes : List (List String × FileNode) := []

namespace FileTree

def names (path : String) : List String := (path.splitOn "/").filter (· ≠ "")

def node? (t : FileTree) (path : List String) : Option FileNode :=
  if path.isEmpty then some .directory
  else (t.nodes.find? fun (p, _) ↦ p = path).map (·.2)

def checkParent (t : FileTree) (path : List String) : Except Errno Unit :=
  (List.range path.length).forM fun n ↦
    match t.node? (path.take n) with
    | some .directory => .ok ()
    | some _ => .error .notDirectory
    | none => .error .noEntry

def find (t : FileTree) (path : List String) : Except Errno FileNode :=
  (t.checkParent path).bind fun _ ↦
    match t.node? path with
    | some node => .ok node
    | none => .error .noEntry

def put (t : FileTree) (path : List String) (node : FileNode) : FileTree :=
  ⟨(path, node) :: t.nodes.filter fun (p, _) ↦ p ≠ path⟩

def exists? (t : FileTree) (path : List String) : Bool := (t.find path).toOption.isSome

def remove (t : FileTree) (path : List String) : Except Errno FileTree :=
  match t.find path with
  | .error e => .error e
  | .ok .directory => .error .isDirectory
  | .ok _ => .ok ⟨t.nodes.filter fun (p, _) ↦ p ≠ path⟩

def makeDirectories (t : FileTree) (path : List String) : Except Errno FileTree :=
  (List.range (path.length + 1)).foldlM (fun t n ↦
    match t.node? (path.take n) with
    | some .directory => .ok t
    | some _ => .error .notDirectory
    | none => .ok (t.put (path.take n) .directory)) t

end FileTree

abbrev Descriptor := Nat

inductive EndpointKind
  | unconnected
  | listener (waiting : List Descriptor)
  | stream (peer : Descriptor)
  | pipeReader (peer : Descriptor)
  | pipeWriter (peer : Descriptor)

structure Endpoint where
  kind : EndpointKind
  isOpen : Bool := true
  isBound : Bool := false
  inbox : Bytes := []
  inputEnded : Bool := false
  outputEnded : Bool := false
  /-- Whether the peer closed with bytes unread and this has not been reported. -/
  reset : Bool := false

structure Network where
  endpoints : Array Endpoint := #[]
  files : FileTree := {}

namespace Network

def streamCapacity : Nat := 219264

def pipeCapacity : Nat := 65536

/-- Connections that a listener keeps waiting, one more than its backlog. -/
def maxWaiting : Nat := 17

def maxPathLength : Nat := 107

def closedEndpoint : Endpoint := { kind := .unconnected, isOpen := false }

def get (n : Network) (d : Descriptor) : Endpoint := n.endpoints.getD d closedEndpoint

def modify (n : Network) (d : Descriptor) (f : Endpoint → Endpoint) : Network :=
  { n with endpoints := n.endpoints.modify d f }

def add (n : Network) (e : Endpoint) : Descriptor × Network :=
  (n.endpoints.size, { n with endpoints := n.endpoints.push e })

def addPair (n : Network) : Descriptor × Descriptor × Network :=
  let size := n.endpoints.size
  let (a, n) := n.add { kind := .stream (size + 1) }
  let (b, n) := n.add { kind := .stream size }
  (a, b, n)

def addPipe (n : Network) : Descriptor × Descriptor × Network :=
  let size := n.endpoints.size
  let (r, n) := n.add { kind := .pipeReader (size + 1) }
  let (w, n) := n.add { kind := .pipeWriter size }
  (r, w, n)

def addSocket (n : Network) : Descriptor × Network := n.add { kind := .unconnected }

def inboxArrivals (e : Endpoint) : List Arrival :=
  (if e.inbox.isEmpty then [] else [.data e.inbox]) ++
    (if e.reset then [.fault .connectionReset] else []) ++
    (if e.inputEnded then [.endOfFile] else [])

def arrivals (e : Endpoint) : List Arrival :=
  match e.kind with
  | .stream _ | .pipeReader _ => inboxArrivals e
  | .pipeWriter _ => [.fault .badDescriptor]
  | .unconnected | .listener _ => [.fault .invalid]

def acceptances (n : Network) (e : Endpoint) : List Acceptance :=
  match e.kind with
  | .stream peer =>
    if e.outputEnded || !(n.get peer).isOpen then [.fault .brokenPipe]
    else [.room (streamCapacity - (n.get peer).inbox.length)]
  | .pipeWriter peer =>
    if (n.get peer).isOpen then [.room (pipeCapacity - (n.get peer).inbox.length)]
    else [.fault .brokenPipe]
  | .pipeReader _ => [.fault .badDescriptor]
  | .unconnected | .listener _ => [.fault .unconnected]

def line (n : Network) (d : Descriptor) : Line :=
  { arrivals := arrivals (n.get d), acceptances := n.acceptances (n.get d) }

def leftData (arrivals : List Arrival) : Bytes :=
  arrivals.flatMap fun
    | .data bytes => bytes
    | _ => []

def deliver (n : Network) (d : Descriptor) (bytes : Bytes) : Network :=
  if bytes.isEmpty then n else n.modify d fun e ↦ { e with inbox := e.inbox ++ bytes }

/-- Takes over what is left of a line that `line` has given. A reset is reported once, to the
reader. -/
def settle (n : Network) (d : Descriptor) (l : Line) : Network :=
  match (n.get d).kind with
  | .stream peer =>
    let n := n.modify d fun e ↦
      { e with
        inbox := leftData l.arrivals
        reset := e.reset && l.arrivals.contains (.fault .connectionReset) }
    n.deliver peer l.accepted
  | .pipeReader _ => n.modify d fun e ↦ { e with inbox := leftData l.arrivals }
  | .pipeWriter peer => n.deliver peer l.accepted
  | .unconnected | .listener _ => n

def peerGone (n : Network) (d : Descriptor) (unread : Bool) : Network :=
  n.modify d fun e ↦ { e with inputEnded := true, reset := e.reset || unread }

/-- Closes an end. Connections that wait at a listener are broken off. -/
def close (n : Network) (d : Descriptor) : Network :=
  let e := n.get d
  if !e.isOpen then n
  else
    let n := n.modify d fun e ↦ { e with isOpen := false }
    match e.kind with
    | .stream peer => n.peerGone peer (!e.inbox.isEmpty)
    | .pipeWriter peer => n.peerGone peer false
    | .listener waiting =>
      waiting.foldl (fun n w ↦
        let n := n.modify w fun e ↦ { e with isOpen := false }
        match (n.get w).kind with
        | .stream peer => n.peerGone peer true
        | _ => n) n
    | .pipeReader _ | .unconnected => n

def endOutput (n : Network) (d : Descriptor) : Network :=
  match (n.get d).kind with
  | .stream peer => (n.modify d fun e ↦ { e with outputEnded := true }).peerGone peer false
  | _ => n

def status (n : Network) (d : Descriptor) : Readiness :=
  let e := n.get d
  if !e.isOpen then .none
  else
    match e.kind with
    | .stream peer =>
      let p := n.get peer
      { readable := !e.inbox.isEmpty || e.inputEnded
        writable := !p.isOpen || p.inbox.length < streamCapacity
        hungUp := !p.isOpen || (e.inputEnded && e.outputEnded)
        error := e.reset }
    | .pipeReader peer => { readable := !e.inbox.isEmpty, hungUp := !(n.get peer).isOpen }
    | .pipeWriter peer =>
      { writable := (n.get peer).inbox.length < pipeCapacity, error := !(n.get peer).isOpen }
    | .listener waiting => { readable := !waiting.isEmpty }
    | .unconnected => { writable := true, hungUp := true }

def isListening (n : Network) (d : Descriptor) : Bool :=
  match (n.get d).kind with
  | .listener _ => (n.get d).isOpen
  | _ => false

def listenerAt (n : Network) (path : List String) : Except Errno (Descriptor × List Descriptor) :=
  match n.files.find path with
  | .error e => .error e
  | .ok (.socket (some d)) =>
    match (n.get d).isOpen, (n.get d).kind with
    | true, .listener waiting => .ok (d, waiting)
    | _, _ => .error .refused
  | .ok _ => .error .refused

def connect (n : Network) (d : Descriptor) (path : List String) : Except Errno Network :=
  match (n.get d).kind with
  | .pipeReader _ | .pipeWriter _ => .error ⟨88⟩
  | kind =>
    match n.listenerAt path with
    | .error e => .error e
    | .ok (l, waiting) =>
      match kind with
      | .unconnected =>
        if maxWaiting ≤ waiting.length then .error .wouldBlock
        else
          let (server, n) := n.add { kind := .stream d }
          let n := n.modify d fun e ↦ { e with kind := .stream server }
          .ok (n.modify l fun e ↦ { e with kind := .listener (waiting ++ [server]) })
      | .stream _ => .error .alreadyConnected
      | _ => .error .invalid

def bind (n : Network) (d : Descriptor) (path : List String) : Except Errno Network :=
  match (n.get d).kind with
  | .pipeReader _ | .pipeWriter _ => .error ⟨88⟩
  | _ =>
    match n.files.find path with
    | .ok _ => .error .addressInUse
    | .error e =>
      if path.isEmpty || (n.files.checkParent path).toOption.isNone then .error e
      else if (n.get d).isBound then .error .invalid
      else
        let n := n.modify d fun e ↦ { e with isBound := true }
        .ok { n with files := n.files.put path (.socket (some d)) }

def startListening (n : Network) (d : Descriptor) : Except Errno Network :=
  match (n.get d).kind with
  | .unconnected => .ok (n.modify d fun e ↦ { e with kind := .listener [] })
  | .listener _ => .ok n
  | _ => .error .invalid

def accept (n : Network) (d : Descriptor) : Except Errno (Option Descriptor × Network) :=
  match (n.get d).kind with
  | .listener [] => .ok (none, n)
  | .listener (w :: waiting) =>
    .ok (some w, n.modify d fun e ↦ { e with kind := .listener waiting })
  | .pipeReader _ | .pipeWriter _ => .error ⟨88⟩
  | _ => .error .invalid

end Network

end LocalHttp
