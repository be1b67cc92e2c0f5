import LocalHttp.Fault
import LocalHttp.Service
import LocalHttp.Text
import LocalHttp.Yaml.Document

namespace LocalHttp

def defaultSocketPath : String := "/var/run/coolipc/coold.sock"

structure ServerConfig where
  socketPath : String := defaultSocketPath
  /-- The value of the `Server` header, which is left out unless it is set. -/
  serverHeader : Option String := none
  deriving DecidableEq

structure ClientConfig where
  socketPath : String := defaultSocketPath
  host : String := frameworkId
  deriving DecidableEq

structure LogConfig where
  level : String := "info"
  deriving DecidableEq

structure Config where
  server : ServerConfig := {}
  client : ClientConfig := {}
  log : LogConfig := {}
  deriving DecidableEq

open Yaml (Document Node)

def ServerConfig.ofNode? (d : Document) (n : Node) : Option ServerConfig := do
  let fields ← d.fields? ["socket_path", "server_header"] n
  return { socketPath := ← Document.field? fields "socket_path" defaultSocketPath d.text?
           serverHeader := ← Document.field? fields "server_header" none d.optionalText? }

def ClientConfig.ofNode? (d : Document) (n : Node) : Option ClientConfig := do
  let fields ← d.fields? ["socket_path", "host"] n
  return { socketPath := ← Document.field? fields "socket_path" defaultSocketPath d.text?
           host := ← Document.field? fields "host" frameworkId d.text? }

def LogConfig.ofNode? (d : Document) (n : Node) : Option LogConfig := do
  let fields ← d.fields? ["level"] n
  return { level := ← Document.field? fields "level" "info" d.text? }

inductive TextFault
  | missing
  | notUtf8
  deriving DecidableEq

def TextFault.message : TextFault → String
  | .missing => (IoCause.system .noEntry).message
  | .notUtf8 => "stream did not contain valid UTF-8"

inductive ConfigFault
  | unreadable (path : String) (cause : TextFault)
  | malformed (path : String)
  deriving DecidableEq

def ConfigFault.message : ConfigFault → String
  | .unreadable path _ => "reading config file " ++ path
  | .malformed path => "parsing config file " ++ path

def ConfigFault.causes (f : ConfigFault) : List String :=
  match f with
  | .unreadable _ cause => [f.message, cause.message]
  | .malformed _ => [f.message]

structure Environment where
  file : Option (String × Option Bytes) := none
  socketPath : Option String := none

namespace Config

def ofDocument? (d : Document) : Option Config := do
  let fields ← d.fields? ["server", "client", "log"] d.root
  return { server := ← Document.field? fields "server" {} (ServerConfig.ofNode? d)
           client := ← Document.field? fields "client" {} (ClientConfig.ofNode? d)
           log := ← Document.field? fields "log" {} (LogConfig.ofNode? d) }

/-- Reads a configuration; blank text says nothing. -/
def ofText? (text : String) : Option Config :=
  if text.toList.all Text.isBlank then some {} else (Document.ofText? text).bind ofDocument?

def ofFile (path : String) (content : Option Bytes) : Except ConfigFault Config :=
  match content, content.bind Bytes.text? with
  | none, _ => .error (.unreadable path .missing)
  | some _, none => .error (.unreadable path .notUtf8)
  | some _, some text =>
    match ofText? text with
    | some c => .ok c
    | none => .error (.malformed path)

def withSocketPath (c : Config) (path : String) : Config :=
  { c with server := { c.server with socketPath := path }
           client := { c.client with socketPath := path } }

/-- The defaults, with the file over them and the path over both. -/
def load (e : Environment) : Except ConfigFault Config :=
  let fromFile : Except ConfigFault Config :=
    match e.file with
    | some (path, content) => ofFile path content
    | none => .ok {}
  fromFile.map fun c ↦
    match e.socketPath with
    | some path => c.withSocketPath path
    | none => c

end Config

end LocalHttp
