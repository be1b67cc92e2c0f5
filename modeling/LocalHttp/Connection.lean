import LocalHttp.Message
import LocalHttp.Service
import LocalHttp.Socket

namespace LocalHttp

namespace Connection

inductive Phase
  | reading
  | writing (outgoing : Outgoing)
  | closed

end Connection

structure Connection where
  socket : Socket
  incoming : Incoming := .fresh
  phase : Connection.Phase := .reading

namespace Connection

inductive Event
  | pending
  | request (request : Request)
  | fault (response : Response)

def isReading (c : Connection) : Bool :=
  match c.phase with
  | .reading => true
  | _ => false

def isClosed (c : Connection) : Bool :=
  match c.phase with
  | .closed => true
  | _ => !c.socket.isOpen

def interest (c : Connection) : Interest :=
  match c.phase with
  | .writing _ => .writable
  | _ => .readable

def close (c : Connection) : Connection := { c with socket := c.socket.close, phase := .closed }

/-- Reads as far as there is something to read. A peer that ends before its request does is
not answered. -/
def readRequest (c : Connection) : Event × Connection :=
  match c.socket.drain Request.ofRaw c.incoming with
  | (.message request, incoming, socket) =>
    (.request request, { c with socket := socket, incoming := incoming })
  | (.fault fault, incoming, socket) =>
    (.fault (.badRequest fault.message), { c with socket := socket, incoming := incoming })
  | (.failed fault, incoming, socket) =>
    (.fault (.internalError fault.message), { c with socket := socket, incoming := incoming })
  | (.dry, incoming, socket) =>
    let c := { c with socket := socket, incoming := incoming }
    (.pending, if socket.peerClosed then c.close else c)

/-- Writes on; a connection with nothing left to write, or that cannot write, is closed. -/
def flush (c : Connection) : Connection :=
  match c.phase with
  | .writing outgoing =>
    match outgoing.flush c.socket with
    | (.ok true, _, socket) => { c with socket := socket }.close
    | (.ok false, outgoing, socket) => { c with socket := socket, phase := .writing outgoing }
    | (.error _, _, socket) => { c with socket := socket }.close
  | _ => c

def respond (c : Connection) (r : Response) : Connection :=
  { c with phase := .writing ⟨r.encode⟩ }.flush

variable {σ : Type}

def serve (c : Connection) (service : Service σ) (state : σ) : Connection × σ :=
  match c.readRequest with
  | (.pending, c) => (c, state)
  | (.request request, c) =>
    let (response, state) := service.dispatch request state
    (c.respond response, state)
  | (.fault response, c) => (c.respond (service.decorate response), state)

/-- Does what is due after a wait. An error ends the connection at once; a peer that hung up ends
it after what could still be done. -/
def handle (c : Connection) (service : Service σ) (state : σ) (r : Readiness) : Connection × σ :=
  if r.error then (c.close, state)
  else
    let (c, state) :=
      if c.isReading && (r.readable || r.hungUp) then c.serve service state
      else if r.writable then (c.flush, state)
      else (c, state)
    (if r.hungUp && !c.isClosed then c.close else c, state)

end Connection

end LocalHttp
