import LocalHttp.Dictionary
import LocalHttp.Message

namespace LocalHttp

structure Routes (H : Type) where
  table : Dictionary (Dictionary H)

namespace Routes

variable {H : Type}

inductive Found (H : Type)
  | notFound
  | methodNotAllowed (allowed : List String)
  | handler (handler : H)

def empty : Routes H := ⟨[]⟩

def routeKey (route : String) : String := route.toLower

def methodKey (method : String) : String := method.toUpper

def size (r : Routes H) : Nat := r.table.length

def isEmpty (r : Routes H) : Bool := r.table.isEmpty

def methods? (r : Routes H) (route : String) : Option (Dictionary H) :=
  r.table.get? (routeKey route)

def add (r : Routes H) (route : String) (methods : List String) (handler : H) : Routes H :=
  let before := (r.methods? route).getD []
  ⟨r.table.insert (routeKey route)
    (methods.foldl (fun d m ↦ d.insert (methodKey m) handler) before)⟩

def find (r : Routes H) (route method : String) : Found H :=
  match r.methods? route with
  | none => .notFound
  | some methods =>
    match methods.get? (methodKey method) with
    | some handler => .handler handler
    | none => .methodNotAllowed methods.keys

def hasRoute (r : Routes H) (route : String) : Bool := (r.methods? route).isSome

def hasMethod (r : Routes H) (route method : String) : Bool :=
  ((r.methods? route).bind fun methods ↦ methods.get? (methodKey method)).isSome

end Routes

def frameworkId : String := "coolipc 0.1.0"

inductive Outcome
  | response (response : Response)
  | failure (message : String)
  /-- The handler broke off, with a message if it left one. -/
  | panic (message : Option String)

/-- What a handler makes of a request and of the state that the handlers share. -/
abbrev Handler (σ : Type) := Request → σ → Outcome × σ

structure Service (σ : Type) where
  routes : Routes (Handler σ)
  serverHeader : Option String

def Outcome.toResponse : Outcome → Response
  | .response r => r
  | .failure message => .internalError message
  | .panic message => .internalError (message.getD "handler panicked")

namespace Service

variable {σ : Type}

def respond (s : Service σ) (request : Request) (state : σ) : Response × σ :=
  match s.routes.find request.resource request.method with
  | .notFound => (.notFound, state)
  | .methodNotAllowed allowed => (.methodNotAllowed allowed, state)
  | .handler handler =>
    let (outcome, state) := handler request state
    (outcome.toResponse, state)

/-- Completes the headers of a response; those that it has stay. -/
def decorate (s : Service σ) (r : Response) : Response :=
  let r := r.withContentLength
  let r :=
    match s.serverHeader with
    | some server => r.addHeader "Server" server
    | none => r
  (r.addHeader "Connection" "close").addHeader "X-Framework" frameworkId

def dispatch (s : Service σ) (request : Request) (state : σ) : Response × σ :=
  let (r, state) := s.respond request state
  (s.decorate r, state)

end Service

end LocalHttp
