import LocalHttp.Cooling.Settings
import LocalHttp.Fault
import LocalHttp.Json.Record

namespace LocalHttp.Cooling

inductive Command
  | info
  | pump (mode : Option UInt8)
  | fans (drive : Option FanDrive)
  | temperature
  | firmware

structure Printed where
  code : Nat
  output : String := ""
  errors : String := ""
  deriving DecidableEq

def FanDrive.toJson : FanDrive → Json.Value
  | .pwm duty => .ofMembers [("pwm", .ofNat duty.toNat)]
  | .rpm speed => .ofMembers [("rpm", .ofNat speed.toNat)]
  | .curve points => .ofMembers [("curve", .array (points.map CurvePoint.toJson))]

namespace Command

def resource : Command → String
  | .info => "/info"
  | .pump _ => "/pump"
  | .fans _ => "/fans"
  | .temperature => "/temperature"
  | .firmware => "/firmware"

def payload : Command → Option Json.Value
  | .pump (some mode) => some (.ofMembers [("mode", .ofNat mode.toNat)])
  | .fans (some drive) => some drive.toJson
  | _ => none

def method (c : Command) : String := if c.payload.isSome then "POST" else "GET"

def request (c : Command) : Request :=
  match c.payload with
  | some value => ((Request.Draft.ofTarget c.method c.resource).withJson value).toRequest
  | none => .plain c.method c.resource

end Command

mutual

def plainText (indent : Nat) : Json.Value → String
  | .object members => plainMembers indent members
  | .array items => Json.indentation indent ++ ", ".intercalate (Json.itemTexts items) ++ "\n"
  | .string s => Json.indentation indent ++ s ++ "\n"
  | v => Json.indentation indent ++ v.text ++ "\n"

def plainMembers (indent : Nat) : List (String × Json.Value) → String
  | [] => ""
  | (name, .object members) :: rest =>
    Json.indentation indent ++ name ++ ":\n" ++ plainMembers (indent + 1) members ++
      plainMembers indent rest
  | (name, v) :: rest =>
    Json.indentation indent ++ name ++ ": " ++ plainText 0 v ++ plainMembers indent rest

end

/-- What is printed of a value; an empty object says that all went well. -/
def valueText (asJson : Bool) (v : Json.Value) : String :=
  if asJson then v.pretty 0 ++ "\n"
  else
    let text := plainText 0 v
    if text.isEmpty then "OK\n" else text

/-- The value that a body holds; no body is null. -/
def bodyValue (r : Response) : Except Json.Error Json.Value :=
  if r.body.isEmpty then .ok .null else r.toMessage.json

def failure (causes : List String) : Printed :=
  { code := 1, errors := "error: " ++ ": ".intercalate causes ++ "\n" }

def reportResponse (asJson : Bool) (r : Response) : Printed :=
  if r.status.isSuccess then
    match bodyValue r with
    | .ok v => { code := 0, output := valueText asJson v }
    | .error e => failure ["daemon sent a body that is not JSON", e.message]
  else
    { code := 2
      errors := "Request failed! (" ++ r.status.text ++ " " ++ r.reason ++ ")\n\n" ++
        r.toMessage.text ++ "\n" }

def maxAttempts : Nat := 50

def report (asJson : Bool) (path : String) : Except ClientFault Response → Printed
  | .ok r => reportResponse asJson r
  | .error (.transport fault) =>
    failure (("no answer from " ++ path ++ " after " ++ Nat.repr maxAttempts ++ " attempts") ::
      fault.causes)
  | .error fault => failure fault.causes

end LocalHttp.Cooling
