import LocalHttp.Bytes
import LocalHttp.Target

namespace LocalHttp

structure Status where
  code : UInt16
  deriving DecidableEq

namespace Status

def ok : Status := ⟨200⟩
def badRequest : Status := ⟨400⟩
def notFound : Status := ⟨404⟩
def methodNotAllowed : Status := ⟨405⟩
def internalServerError : Status := ⟨500⟩

def text (s : Status) : String := Nat.repr s.code.toNat

def isSuccess (s : Status) : Bool := 200 ≤ s.code && s.code < 300

def phrase? (s : Status) : Option String :=
  match s.code.toNat with
  | 100 => some "Continue"
  | 101 => some "Switching Protocols"
  | 200 => some "OK"
  | 201 => some "Created"
  | 202 => some "Accepted"
  | 203 => some "Non-Authoritative Information"
  | 204 => some "No Content"
  | 205 => some "Reset Content"
  | 206 => some "Partial Content"
  | 300 => some "Multiple Choices"
  | 301 => some "Moved Permanently"
  | 302 => some "Found"
  | 303 => some "See Other"
  | 304 => some "Not Modified"
  | 305 => some "Use Proxy"
  | 307 => some "Temporary Redirect"
  | 400 => some "Bad Request"
  | 401 => some "Unauthorized"
  | 402 => some "Payment Required"
  | 403 => some "Forbidden"
  | 404 => some "Not Found"
  | 405 => some "Method Not Allowed"
  | 406 => some "Not Acceptable"
  | 407 => some "Proxy Authentication Required"
  | 408 => some "Request Timeout"
  | 409 => some "Conflict"
  | 410 => some "Gone"
  | 411 => some "Length Required"
  | 412 => some "Precondition Failed"
  | 413 => some "Request Entity Too Large"
  | 414 => some "Request-URI Too Long"
  | 415 => some "Unsupported Media Type"
  | 416 => some "Requested Range Not Satisfiable"
  | 417 => some "Expectation Failed"
  | 500 => some "Internal Server Error"
  | 501 => some "Not Implemented"
  | 502 => some "Bad Gateway"
  | 503 => some "Service Unavailable"
  | 504 => some "Gateway Timeout"
  | 505 => some "HTTP Version Not Supported"
  | _ => none

end Status

structure Message where
  body : Bytes
  contentType : String
  headers : Headers
  deriving DecidableEq

namespace Message

def ofParts (body : Bytes) (contentType : String) (headers : Headers) : Message where
  body := body
  contentType := contentType
  headers := if contentType.isEmpty then headers else headers.add "Content-Type" contentType

def text (m : Message) : String := Bytes.lossyText m.body

def header? (m : Message) (name : String) : Option Field := m.headers.get? name

def addHeader (m : Message) (name value : String) : Message :=
  { m with headers := m.headers.add name value }

def withContentLength (m : Message) : Message :=
  if m.body.isEmpty then m else m.addHeader "Content-Length" (Nat.repr m.body.length)

end Message

structure Request extends Message where
  method : String
  resource : String
  args : Arguments
  deriving DecidableEq

namespace Request

structure Draft where
  method : String
  resource : String
  args : Arguments := .empty
  headers : Headers := .empty
  body : Bytes := []
  contentType : String := ""

namespace Draft

def ofTarget? (method target : String) : Except ReadFault Draft :=
  (Target.read target).map fun (resource, args) ↦
    { method := method, resource := resource, args := args }

/-- A target whose query does not decode is kept whole as the resource. -/
def ofTarget (method target : String) : Draft :=
  match ofTarget? method target with
  | .ok draft => draft
  | .error _ => { method := method, resource := target }

def withBody (d : Draft) (body : Bytes) (contentType : String) : Draft :=
  { d with body := body, contentType := contentType }

def toRequest (d : Draft) : Request where
  toMessage := .ofParts d.body d.contentType d.headers
  method := d.method
  resource := d.resource
  args := d.args

end Draft

def plain (method target : String) : Request := (Draft.ofTarget method target).toRequest

def isMethod (r : Request) (method : String) : Bool := r.method.toLower == method.toLower

def arg? (r : Request) (name : String) : Option String := r.args.value? name

def target (r : Request) : String := r.resource ++ Target.queryText r.args

def addHeader (r : Request) (name value : String) : Request :=
  { r with toMessage := r.toMessage.addHeader name value }

def withContentLength (r : Request) : Request :=
  { r with toMessage := r.toMessage.withContentLength }

end Request

structure Response extends Message where
  status : Status
  /-- A reason that replaces the standard phrase; it may be empty. -/
  givenReason : Option String
  deriving DecidableEq

namespace Response

structure Draft where
  status : Status
  reason : Option String := none
  headers : Headers := .empty
  body : Bytes := []
  contentType : String := ""

def Draft.toResponse (d : Draft) : Response where
  toMessage := (Message.ofParts d.body d.contentType d.headers).withContentLength
  status := d.status
  givenReason := d.reason

def empty (status : Status) : Response := { status := status : Draft }.toResponse

def plainText (status : Status) (text : String) : Response :=
  { status := status, body := Bytes.ofText text, contentType := "text/plain" : Draft }.toResponse

def badRequest (text : String) : Response := plainText .badRequest text

def internalError (text : String) : Response := plainText .internalServerError text

def notFound : Response := empty .notFound

def methodNotAllowed (allowed : List String) : Response :=
  { status := .methodNotAllowed
    headers := FieldTable.empty.add "Allow" (", ".intercalate allowed) : Draft }.toResponse

def reason (r : Response) : String := (r.givenReason <|> r.status.phrase?).getD "Unknown"

def addHeader (r : Response) (name value : String) : Response :=
  { r with toMessage := r.toMessage.addHeader name value }

def withContentLength (r : Response) : Response :=
  { r with toMessage := r.toMessage.withContentLength }

end Response

def version : String := "HTTP/1.1"

def lineEnd : Bytes := [0x0d, 0x0a]

def Field.encode (f : Field) : Bytes := Bytes.ofText (f.name ++ ": " ++ f.value) ++ lineEnd

def Message.encode (m : Message) : Bytes :=
  m.headers.fields.flatMap Field.encode ++ lineEnd ++ m.body

def Request.encode (r : Request) : Bytes :=
  Bytes.ofText (r.method ++ " " ++ r.target ++ " " ++ version) ++ lineEnd ++ r.toMessage.encode

def Response.encode (r : Response) : Bytes :=
  Bytes.ofText (version ++ " " ++ r.status.text ++ " " ++ r.reason) ++ lineEnd ++
    r.toMessage.encode

end LocalHttp
