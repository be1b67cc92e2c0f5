import LocalHttp.Cooling.Endpoints

namespace LocalHttp.Cooling

abbrev Device (α : Type) : Type := ExceptT CoolerFault (StateM Cooler) α

namespace Device

def writePumpMode (mode : UInt8) : Device Unit := do
  if 2 < mode then
    throw (.pumpMode mode)
  modify fun c ↦ { c with pumpMode := mode }

def writePwm (duty : UInt8) : Device Unit := do
  if maxPwm < duty then
    throw (.pwm duty)
  modify fun c ↦ { c with fans := .pwm duty }

def writeRpm (speed : UInt16) : Device Unit := modify fun c ↦ { c with fans := .rpm speed }

def writeCurve (points : List CurvePoint) : Device Unit := do
  if points.isEmpty then
    throw .emptyCurve
  if let some p := points.find? fun p ↦ maxPwm < p.pwm then
    throw (.pwm p.pwm)
  if !increasing points then
    throw .unorderedCurve
  modify fun c ↦ { c with fans := .curve points }

def writeFans : FanDrive → Device Unit
  | .pwm duty => writePwm duty
  | .rpm speed => writeRpm speed
  | .curve points => writeCurve points

end Device

inductive Access
  | writePumpMode (mode : UInt8)
  | writeFans (drive : FanDrive)
  | readPump
  | readFans
  | readTemperature
  | readFirmware

inductive Reply
  | done
  | pump (speed : UInt16)
  | fans (speeds : List UInt16)
  | temperature (value : Binary64)
  | firmware (version : Firmware)
  deriving DecidableEq

def Access.perform : Access → Device Reply
  | .writePumpMode mode => do
    Device.writePumpMode mode
    return .done
  | .writeFans drive => do
    Device.writeFans drive
    return .done
  | .readPump => return .pump (← get).pumpRpm
  | .readFans => return .fans (← get).fansRpm
  | .readTemperature => return .temperature (← get).temperature
  | .readFirmware => return .firmware (← get).firmware

abbrev Answer : Type := Except CoolerFault Reply

def Cooler.answer (c : Cooler) (access : Access) : Answer × Cooler := access.perform.run c

/-- The accesses with their answers, and the cooler that they leave. -/
def Cooler.answerAll (c : Cooler) : List Access → List (Access × Answer) × Cooler
  | [] => ([], c)
  | access :: rest =>
    let (answer, after) := c.answer access
    let (log, last) := after.answerAll rest
    ((access, answer) :: log, last)

end LocalHttp.Cooling
