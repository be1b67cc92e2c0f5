import LocalHttp.Cooling.Endpoints
import LocalHttp.Cooling.Invocation

namespace LocalHttp.Cooling

open CommandLine (OptionShape Options Rejection Stop)

structure DaemonOptions where
  socketPath : Option String
  configPath : Option String
  deviceName : String
  fanCount : Nat

namespace DaemonOptions

def shapes : List OptionShape :=
  [ CommandLine.pathOption "socket" 's' "SOCKET",
    CommandLine.pathOption "config" 'c' "CONFIG",
    { long := "device-name", value := some "DEVICE_NAME" },
    CommandLine.numberOption "fans" "FANS" 32,
    { long := "verbose", short := some 'v', repeatable := true } ]

def fanCountOf (options : Options) : Nat :=
  ((options.value? "fans").bind fun n ↦ (CommandLine.readNumber 32 "" n).toOption).getD 2

def read (words : List String) : Except Stop DaemonOptions := do
  let (options, _) ← Options.read [] { shapes := shapes } words
  return { socketPath := options.value? "socket"
           configPath := options.value? "config"
           deviceName := (options.value? "device-name").getD defaultName
           fanCount := fanCountOf options }

/-- The configuration: that of the named file alone, or that of the environment, with the path of
the command line over it. -/
def config (o : DaemonOptions) (e : Environment) (files : String → Option Bytes) :
    Except ConfigFault Config :=
  let found :=
    match o.configPath with
    | some path => Config.ofFile path (files path)
    | none => Config.load e
  found.map fun c ↦
    match o.socketPath with
    | some path => c.withSocketPath path
    | none => c

end DaemonOptions

inductive Daemon
  | exited (code : Nat)
  | serving (machine : Machine SharedCooler)

def startDaemon (e : Environment) (files : String → Option Bytes) (tree : FileTree)
    (words : List String) : Daemon :=
  match DaemonOptions.read words with
  | .error (.rejected _) => .exited 2
  | .error _ => .exited 0
  | .ok o =>
    match o.config e files with
    | .error _ => .exited 1
    | .ok config =>
      let service : Service SharedCooler :=
        { routes := endpoints, serverHeader := config.server.serverHeader }
      let cooler : Cooler := { name := o.deviceName, fanCount := o.fanCount }
      match Machine.start tree service { cooler := cooler } config.server.socketPath with
      | .error _ => .exited 1
      | .ok m => .serving m

end LocalHttp.Cooling
