import LocalHttp.Message
import LocalHttp.Service
import LocalHttp.Socket

namespace LocalHttp

inductive Call
  | sending (socket : Socket) (outgoing : Outgoing)
  | receiving (socket : Socket) (incoming : Incoming)
  | done (socket : Socket) (result : Except ClientFault Response)

namespace Call

def complete (host : String) (request : Request) : Request :=
  (request.addHeader "Host" host).withContentLength

def send (socket : Socket) (outgoing : Outgoing) : Call :=
  match outgoing.flush socket with
  | (.error fault, _, socket) => .done socket (.error (.transport fault))
  | (.ok true, _, socket) => .receiving socket .fresh
  | (.ok false, outgoing, socket) => .sending socket outgoing

def start (socket : Socket) (request : Request) : Call := send socket ⟨request.encode⟩

/-- Reads on; nothing more will come once the peer has ended or hung up. -/
def receive (socket : Socket) (incoming : Incoming) (r : Readiness) : Call :=
  match socket.drain Response.ofRaw incoming with
  | (.message response, _, socket) => .done socket (.ok response)
  | (.fault fault, _, socket) => .done socket (.error (.malformed fault))
  | (.failed fault, _, socket) => .done socket (.error (.transport fault))
  | (.dry, incoming, socket) =>
    if socket.peerClosed || r.hungUp || r.error then .done socket (.error .peerClosed)
    else .receiving socket incoming

def wake (c : Call) (r : Readiness) : Call :=
  match c with
  | .sending socket outgoing =>
    if r.hungUp || r.error then .done socket (.error .peerClosed) else send socket outgoing
  | .receiving socket incoming => receive socket incoming r
  | .done _ _ => c

def interest? : Call → Option Interest
  | .sending _ _ => some .writable
  | .receiving _ _ => some .readable
  | .done _ _ => none

def socket : Call → Socket
  | .sending s _ | .receiving s _ | .done s _ => s

def withSocket (c : Call) (s : Socket) : Call :=
  match c with
  | .sending _ outgoing => .sending s outgoing
  | .receiving _ incoming => .receiving s incoming
  | .done _ result => .done s result

def result? : Call → Option (Except ClientFault Response)
  | .done _ result => some result
  | _ => none

/-- A whole exchange over a line that is known in advance, woken as often as the waits report;
none if the call would wait on. -/
def roundTrip (socket : Socket) (request : Request) (waits : List Readiness) :
    Option (Except ClientFault Response) :=
  (waits.foldl wake (start socket request)).result?

end Call

end LocalHttp
