import LocalHttp.Text

namespace LocalHttp

inductive ReadFault
  | contentLength (value : String)
  | statusCode (value : String)
  | header
  | encoding
  deriving DecidableEq

def ReadFault.message : ReadFault → String
  | .contentLength value => "invalid Content-Length header value: " ++ Text.quoted value
  | .statusCode value => "invalid status code: " ++ Text.quoted value
  | .header => "header line without a name/value separator"
  | .encoding => "message head or query argument is not valid UTF-8"

structure Errno where
  number : Nat
  deriving DecidableEq

namespace Errno

def noEntry : Errno := ⟨2⟩
def badDescriptor : Errno := ⟨9⟩
def wouldBlock : Errno := ⟨11⟩
def notDirectory : Errno := ⟨20⟩
def isDirectory : Errno := ⟨21⟩
def invalid : Errno := ⟨22⟩
def brokenPipe : Errno := ⟨32⟩
def addressInUse : Errno := ⟨98⟩
def connectionReset : Errno := ⟨104⟩
def alreadyConnected : Errno := ⟨106⟩
def unconnected : Errno := ⟨107⟩
def refused : Errno := ⟨111⟩

def description (e : Errno) : String :=
  match e.number with
  | 1 => "Operation not permitted"
  | 2 => "No such file or directory"
  | 3 => "No such process"
  | 4 => "Interrupted system call"
  | 5 => "Input/output error"
  | 9 => "Bad file descriptor"
  | 11 => "Resource temporarily unavailable"
  | 12 => "Cannot allocate memory"
  | 13 => "Permission denied"
  | 14 => "Bad address"
  | 16 => "Device or resource busy"
  | 17 => "File exists"
  | 20 => "Not a directory"
  | 21 => "Is a directory"
  | 22 => "Invalid argument"
  | 23 => "Too many open files in system"
  | 24 => "Too many open files"
  | 28 => "No space left on device"
  | 30 => "Read-only file system"
  | 32 => "Broken pipe"
  | 36 => "File name too long"
  | 88 => "Socket operation on non-socket"
  | 98 => "Address already in use"
  | 103 => "Software caused connection abort"
  | 104 => "Connection reset by peer"
  | 105 => "No buffer space available"
  | 106 => "Transport endpoint is already connected"
  | 107 => "Transport endpoint is not connected"
  | 110 => "Connection timed out"
  | 111 => "Connection refused"
  | n => "Unknown error " ++ Nat.repr n

end Errno

inductive IoCause
  | system (errno : Errno)
  | notConnected
  | wouldBlock
  deriving DecidableEq

def IoCause.message : IoCause → String
  | .system e => e.description ++ " (os error " ++ Nat.repr e.number ++ ")"
  | .notConnected => "not connected"
  | .wouldBlock => "operation would block"

inductive SocketAction
  | create
  | configure
  | connect
  | bind
  | listen
  | accept
  | read
  | write
  | createPipe
  deriving DecidableEq

def SocketAction.phrase : SocketAction → String
  | .create => "create"
  | .configure => "configure"
  | .connect => "connect"
  | .bind => "bind"
  | .listen => "listen"
  | .accept => "accept"
  | .read => "read from"
  | .write => "write to"
  | .createPipe => "create pipe for"

inductive TransportFault
  | socket (action : SocketAction) (cause : IoCause)
  | pathTooLong (path : String)
  | poll (cause : IoCause)
  deriving DecidableEq

def TransportFault.message : TransportFault → String
  | .socket action cause =>
    "unable to " ++ action.phrase ++ " the local socket: " ++ cause.message
  | .pathTooLong path => "socket path is too long for sockaddr_un: " ++ path
  | .poll cause => "readiness poll failed: " ++ cause.message

def TransportFault.causes (f : TransportFault) : List String :=
  match f with
  | .socket _ cause | .poll cause => [f.message, cause.message]
  | .pathTooLong _ => [f.message]

inductive ClientFault
  | transport (fault : TransportFault)
  | peerClosed
  | malformed (fault : ReadFault)
  deriving DecidableEq

def ClientFault.message : ClientFault → String
  | .transport fault => fault.message
  | .peerClosed => "server closed connection before sending a full response"
  | .malformed fault => "malformed response: " ++ fault.message

def ClientFault.causes (f : ClientFault) : List String :=
  match f with
  | .transport fault => fault.causes
  | .peerClosed => [f.message]
  | .malformed fault => [f.message, fault.message]

/-- Only a transport fault may go away by itself. -/
def ClientFault.isTransient : ClientFault → Bool
  | .transport _ => true
  | _ => false

inductive ServerFault
  | transport (fault : TransportFault)
  | socketPath (path : String) (cause : IoCause)
  | spawn (cause : IoCause)
  | workerPanicked
  deriving DecidableEq

def ServerFault.message : ServerFault → String
  | .transport fault => fault.message
  | .socketPath path cause => "unable to prepare socket path " ++ path ++ ": " ++ cause.message
  | .spawn cause => "unable to spawn server worker: " ++ cause.message
  | .workerPanicked => "server worker panicked"

end LocalHttp
