import LocalHttp.Cooling.Daemon

namespace LocalHttp.Cooling

def readEnvironment : IO Environment := do
  let socketPath ← IO.getEnv "COOLIPC_SOCKET"
  match ← IO.getEnv "COOLIPC_CONFIG" with
  | none => return { socketPath := socketPath }
  | some path =>
    let content ← (IO.FS.readBinFile path).toBaseIO
    return { file := some (path, content.toOption.map fun b ↦ b.data.toList)
             socketPath := socketPath }

/-- A daemon in this environment, or with the defaults if it does not start there. -/
def daemonIn (e : Environment) : Daemon :=
  match startDaemon e (fun _ ↦ none) {} [] with
  | .exited _ => startDaemon {} (fun _ ↦ none) {} []
  | serving => serving

end LocalHttp.Cooling

open LocalHttp Cooling

def main (args : List String) : IO UInt32 := do
  let e ← readEnvironment
  match daemonIn e with
  | .exited code => return code.toUInt32
  | .serving m =>
    match (runCommandLine e args m).1 with
    | .rejected reason =>
      IO.eprintln reason
      return 2
    | .printed p =>
      IO.print p.output
      IO.eprint p.errors
      return p.code.toUInt32
