import LocalHttp.Cooling.Settings
import LocalHttp.Json.Record
import LocalHttp.Service

namespace LocalHttp.Cooling

structure SharedCooler where
  cooler : Cooler
  poisoned : Bool := false

def done (value : Json.Value) : Outcome := .response (.json .ok value)

def poisonedMessage : String := "device state is poisoned"

def missingFanSetting : String := "Either 'rpm', 'pwm' or 'curve' needs to be set."

def reading (view : Cooler → Json.Value) : Handler SharedCooler := fun _ s ↦
  (if s.poisoned then .failure poisonedMessage else done (view s.cooler), s)

def writing {α : Type} (read : Json.Cursor → Json.Result α)
    (apply : α → Cooler → Outcome × Cooler) : Handler SharedCooler := fun request s ↦
  match Json.readWhole read request.body with
  | .error e => (.failure e.message, s)
  | .ok settings =>
    if s.poisoned then (.failure poisonedMessage, s)
    else
      let (outcome, cooler) := apply settings s.cooler
      (outcome, { s with cooler := cooler })

/-- The outcome of a write; a refused one changes nothing. -/
def afterWrite (before : Cooler) (result : Except CoolerFault Cooler) : Outcome × Cooler :=
  match result with
  | .ok after => (done (.ofMembers []), after)
  | .error fault => (.failure fault.message, before)

def applyPump (settings : PumpSettings) (c : Cooler) : Outcome × Cooler :=
  afterWrite c (c.setPumpMode settings.mode)

def Cooler.drive (c : Cooler) : FanDrive → Except CoolerFault Cooler
  | .rpm speed => c.setRpm speed
  | .pwm duty => c.setPwm duty
  | .curve points => c.setCurve points

/-- Only the first drive that is given counts. -/
def applyFans (settings : FanSettings) (c : Cooler) : Outcome × Cooler :=
  match settings.drives with
  | drive :: _ => afterWrite c (c.drive drive)
  | [] =>
    (.response (.json .badRequest (.ofMembers [("error", .string missingFanSetting)])), c)

def infoJson (c : Cooler) : Json.Value :=
  .ofMembers [("name", .string c.name), ("fan_count", .ofNat c.fanCount)]

def pumpJson (c : Cooler) : Json.Value := .ofMembers [("rpm", .ofNat c.pumpRpm.toNat)]

def fansJson (c : Cooler) : Json.Value :=
  .ofMembers [("rpm", .array (c.fansRpm.map fun n ↦ .ofNat n.toNat))]

def temperatureJson (c : Cooler) : Json.Value :=
  .ofMembers [("temperature", .ofBinary64 c.temperature)]

def firmwareJson (c : Cooler) : Json.Value := .ofMembers [("version", c.firmware.toJson)]

def endpoints : Routes (Handler SharedCooler) :=
  Routes.empty
    |>.add "/info" ["GET"] (reading infoJson)
    |>.add "/pump" ["GET"] (reading pumpJson)
    |>.add "/pump" ["POST"] (writing readPumpSettings applyPump)
    |>.add "/fans" ["GET"] (reading fansJson)
    |>.add "/fans" ["POST"] (writing readFanSettings applyFans)
    |>.add "/temperature" ["GET"] (reading temperatureJson)
    |>.add "/firmware" ["GET"] (reading firmwareJson)

end LocalHttp.Cooling
