import LocalHttp.Binary64

namespace LocalHttp.Cooling

/-- At `temperature` and above the fans run at `pwm` percent. -/
structure CurvePoint where
  temperature : UInt8
  pwm : UInt8
  deriving DecidableEq

inductive FanDrive
  | pwm (duty : UInt8)
  | rpm (speed : UInt16)
  | curve (points : List CurvePoint)
  deriving DecidableEq

structure Firmware where
  major : UInt8
  minor : UInt8
  patch : UInt8
  deriving DecidableEq

def Firmware.text (f : Firmware) : String :=
  Nat.repr f.major.toNat ++ "." ++ Nat.repr f.minor.toNat ++ "." ++ Nat.repr f.patch.toNat

structure Cooler where
  name : String
  fanCount : Nat
  firmware : Firmware := ⟨1, 0, 0⟩
  temperature : Binary64 := .ofNat 30
  pumpMode : UInt8 := 0
  fans : FanDrive := .pwm 50
  deriving DecidableEq

inductive CoolerFault
  | pumpMode (mode : UInt8)
  | pwm (duty : UInt8)
  | emptyCurve
  | unorderedCurve
  deriving DecidableEq

def CoolerFault.message : CoolerFault → String
  | .pumpMode mode => "unsupported pump mode " ++ Nat.repr mode.toNat
  | .pwm duty => "pwm " ++ Nat.repr duty.toNat ++ " is out of range 0-100"
  | .emptyCurve => "fan curve needs at least one point"
  | .unorderedCurve => "fan curve temperatures must be strictly increasing"

def maxPwm : UInt8 := 100

def maxRpm : Nat := 2000

def defaultName : String := "Simulated Cooler"

def rpmOfPwm (duty : UInt8) : UInt16 := (maxRpm * (min duty maxPwm).toNat / maxPwm.toNat).toUInt16

def increasing : List CurvePoint → Bool
  | a :: b :: rest => a.temperature < b.temperature && increasing (b :: rest)
  | _ => true

/-- The duty of the last point that the temperature has reached, else that of the first. -/
def curveDuty (points : List CurvePoint) (temperature : Binary64) : UInt8 :=
  let reached := points.takeWhile fun p ↦ temperature.natLe p.temperature.toNat
  ((reached.getLast? <|> points.head?).map (·.pwm)).getD 0

namespace Cooler

def pumpRpm (c : Cooler) : UInt16 :=
  match c.pumpMode.toNat with
  | 0 => 1800
  | 1 => 2400
  | _ => 2800

def fanRpm (c : Cooler) : UInt16 :=
  match c.fans with
  | .pwm duty => rpmOfPwm duty
  | .rpm speed => speed
  | .curve points => rpmOfPwm (curveDuty points c.temperature)

def fansRpm (c : Cooler) : List UInt16 := List.replicate c.fanCount c.fanRpm

def setPumpMode (c : Cooler) (mode : UInt8) : Except CoolerFault Cooler :=
  if 2 < mode then .error (.pumpMode mode) else .ok { c with pumpMode := mode }

def setPwm (c : Cooler) (duty : UInt8) : Except CoolerFault Cooler :=
  if maxPwm < duty then .error (.pwm duty) else .ok { c with fans := .pwm duty }

def setRpm (c : Cooler) (speed : UInt16) : Except CoolerFault Cooler :=
  .ok { c with fans := .rpm speed }

def setCurve (c : Cooler) (points : List CurvePoint) : Except CoolerFault Cooler :=
  if points.isEmpty then .error .emptyCurve
  else
    match points.find? fun p ↦ maxPwm < p.pwm with
    | some p => .error (.pwm p.pwm)
    | none =>
      if increasing points then .ok { c with fans := .curve points } else .error .unorderedCurve

end Cooler

end LocalHttp.Cooling
