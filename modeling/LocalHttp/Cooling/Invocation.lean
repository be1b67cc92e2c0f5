import LocalHttp.CommandLine
import LocalHttp.Config
import LocalHttp.Cooling.Command
import LocalHttp.Machine

namespace LocalHttp.Cooling

open CommandLine (OptionShape Options Rejection Stop)

structure Invocation where
  /-- Goes before the configured path. -/
  socketPath : Option String
  asJson : Bool
  command : Command

namespace Invocation

def program : String := "coolctl"

def version : String := "0.1.0"

def shapes : List OptionShape :=
  [ CommandLine.pathOption "socket" 's' "SOCKET",
    { long := "json", short := some 'j' },
    { long := "verbose", short := some 'v', repeatable := true } ]

def curvePointFormat : String := "fan curve points need the format <TEMP>-<PWM>"

def curvePoint? (text : String) : Option CurvePoint :=
  let chars := text.toList
  let left := chars.takeWhile (· != '-')
  match chars.dropWhile (· != '-') with
  | '-' :: right =>
    match Text.readUnsigned 8 (Text.trim left), Text.readUnsigned 8 (Text.trim right) with
    | .ok t, .ok p => some ⟨t.toUInt8, p.toUInt8⟩
    | _, _ => none
  | _ => none

def readPoint (text : String) : Except Rejection CurvePoint :=
  match curvePoint? text with
  | some p => .ok p
  | none => .error (.invalidValue text "<POINTS>..." curvePointFormat)

def readSetting (bits : Nat) (words : List String) (setting : Nat → FanDrive) :
    Except Stop FanDrive :=
  (CommandLine.readValues (some 1) false [] words).bind fun values ↦
    match values with
    | [] => .error (.rejected .missingArguments)
    | value :: _ =>
      ((CommandLine.readNumber bits "<VALUE>" value).map setting).mapError .rejected

def readCurve (words : List String) : Except Stop FanDrive :=
  (CommandLine.readValues none false [] words).bind fun values ↦
    if values.isEmpty then .error (.rejected .missingArguments)
    else ((values.mapM readPoint).map .curve).mapError .rejected

def readFans (words : List String) : Except Stop Command :=
  (Options.read ["pwm", "rpm", "curve"] { shapes := [] } words).bind fun (_, setting) ↦
    match setting with
    | some ("pwm", rest) =>
      (readSetting 8 rest fun n ↦ .pwm n.toUInt8).map fun d ↦ .fans (some d)
    | some ("rpm", rest) =>
      (readSetting 16 rest fun n ↦ .rpm n.toUInt16).map fun d ↦ .fans (some d)
    | some (_, rest) => (readCurve rest).map fun d ↦ .fans (some d)
    | none => .ok (.fans none)

def readPump (words : List String) : Except Stop Command :=
  (CommandLine.readValues (some 1) false [] words).bind fun values ↦
    match values with
    | [] => .ok (.pump none)
    | value :: _ =>
      ((CommandLine.readNumber 8 "[MODE]" value).map fun n ↦
        Command.pump (some n.toUInt8)).mapError .rejected

def readCommand (name : String) (words : List String) : Except Stop Command :=
  let alone (c : Command) : Except Stop Command :=
    (CommandLine.readValues (some 0) false [] words).map fun _ ↦ c
  match name with
  | "pump" => readPump words
  | "fans" => readFans words
  | "temp" => alone .temperature
  | "firmware" => alone .firmware
  | _ => alone .info

def commandNames : List String := ["info", "pump", "fans", "temp", "firmware"]

/-- Reads a command line. One without any word asks for help. -/
def read (words : List String) : Except Stop Invocation := do
  let (options, command?) ← Options.read commandNames { shapes := shapes } words
  match command? with
  | some (name, rest) =>
    let command ← readCommand name rest
    let options ← options.settle
    return { socketPath := options.value? "socket"
             asJson := options.has "json"
             command := command }
  | none =>
    if options.given.isEmpty then .error .help else .error (.rejected (.missingCommand program))

variable {σ : Type}

def perform (v : Invocation) (e : Environment) (m : Machine σ) : Printed × Machine σ :=
  match Config.load e with
  | .error fault => (failure fault.causes, m)
  | .ok config =>
    let client := (match v.socketPath with
      | some path => config.withSocketPath path
      | none => config).client
    let (result, m) := { m with path := client.socketPath }.call client.host v.command.request
    (report v.asJson client.socketPath result, { m with path := m.path })

end Invocation

inductive Ending
  | rejected (reason : String)
  | printed (printed : Printed)

def Ending.code : Ending → Nat
  | .rejected _ => 2
  | .printed p => p.code

def helpLine : String := "Control a running coold"

variable {σ : Type}

def runCommandLine (e : Environment) (words : List String) (m : Machine σ) : Ending × Machine σ :=
  match Invocation.read words with
  | .error (.rejected r) => (.rejected r.message, m)
  | .error .help =>
    if words.isEmpty then (.rejected helpLine, m)
    else (.printed { code := 0, output := helpLine ++ "\n" }, m)
  | .error .version =>
    (.printed { code := 0, output := Invocation.program ++ " " ++ Invocation.version ++ "\n" }, m)
  | .ok v =>
    let (printed, m) := v.perform e m
    (.printed printed, m)

end LocalHttp.Cooling
