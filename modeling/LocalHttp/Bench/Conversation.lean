import LocalHttp.Machine

namespace LocalHttp.Bench

structure Conversation where
  network : Network
  own : Descriptor
  peer : Descriptor
  connection : Connection

namespace Conversation

def start : Conversation :=
  let (own, peer, n) := ({} : Network).addPair
  { network := n, own := own, peer := peer, connection := { socket := {} } }

def act {α : Type} (t : Conversation) (f : Connection → α × Connection) : α × Conversation :=
  let socket := { t.connection.socket with line := t.network.line t.own }
  let (a, c) := f { t.connection with socket := socket }
  let n := if t.connection.socket.isOpen then t.network.settle t.own c.socket.line else t.network
  (a, { t with network := if c.socket.isOpen then n else n.close t.own, connection := c })

def send (t : Conversation) (data : Bytes) : Except TransportFault Nat × Conversation :=
  let (result, _, n) := Machine.onDescriptor t.network t.peer {} fun s ↦ s.write data
  (result.map fun left ↦ data.length - left.length, { t with network := n })

def endSending (t : Conversation) : Conversation := { t with network := t.network.endOutput t.peer }

def closePeer (t : Conversation) : Conversation := { t with network := t.network.close t.peer }

def readRequest (t : Conversation) : Connection.Event × Conversation := t.act Connection.readRequest

def respond (t : Conversation) (r : Response) : Conversation :=
  (t.act fun c ↦ ((), c.respond r)).2

def flush (t : Conversation) : Conversation := (t.act fun c ↦ ((), c.flush)).2

def close (t : Conversation) : Conversation := (t.act fun c ↦ ((), c.close)).2

def receive (t : Conversation) : Bytes × Conversation :=
  let (data, n) := Machine.takeInbox t.network t.peer
  (data, { t with network := n })

def drainWithin : Nat → Conversation → Nat → Nat × Conversation
  | 0, t, received => (received, t)
  | fuel + 1, t, received =>
    let (data, t) := t.receive
    let received := received + data.length
    if t.connection.isClosed && data.isEmpty then (received, t)
    else drainWithin fuel t.flush received

/-- The peer reads and the connection writes in turn, until the connection has ended. -/
def drain (t : Conversation) : Nat × Conversation := drainWithin Machine.maxTries t 0

end Conversation

structure CommandPipe where
  network : Network
  reader : Descriptor
  writer : Descriptor
  receiver : Socket := {}

namespace CommandPipe

def start : CommandPipe :=
  let (r, w, n) := ({} : Network).addPipe
  { network := n, reader := r, writer := w }

def send (p : CommandPipe) (command : String) : Except TransportFault Unit × CommandPipe :=
  let (result, _, n) := Machine.onDescriptor p.network p.writer {} fun s ↦ Control.send s command
  (result, { p with network := n })

def drain (p : CommandPipe) : Except TransportFault (List String) × CommandPipe :=
  let (result, socket, n) := Machine.onDescriptor p.network p.reader p.receiver Control.drain
  (result, { p with network := n, receiver := socket })

def dropSender (p : CommandPipe) : CommandPipe := { p with network := p.network.close p.writer }

end CommandPipe

end LocalHttp.Bench
