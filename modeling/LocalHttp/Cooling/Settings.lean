import LocalHttp.Cooling.Cooler
import LocalHttp.Json.Record
import LocalHttp.Json.Value

namespace LocalHttp.Cooling

open Json (Cursor Result FieldShape Shape)

def byteField (name : String) : FieldShape Nat := ⟨name, Json.readUnsigned 8, none⟩

structure PumpSettings where
  mode : UInt8

def pumpShape : Shape Nat := ⟨"PumpSettings", [byteField "mode"]⟩

def readPumpSettings (c : Cursor) : Result PumpSettings :=
  (Json.readRecord pumpShape c).map fun (xs, c) ↦ (⟨(xs.headD 0).toUInt8⟩, c)

def curvePointShape : Shape Nat := ⟨"CurvePoint", [byteField "temperature", byteField "pwm"]⟩

def readCurvePoint (c : Cursor) : Result CurvePoint :=
  (Json.readRecord curvePointShape c).map fun (xs, c) ↦
    (⟨(xs.getD 0 0).toUInt8, (xs.getD 1 0).toUInt8⟩, c)

def readCurve : Cursor → Result (List CurvePoint) := Json.readSequence readCurvePoint

def firmwareShape : Shape Nat :=
  ⟨"FirmwareVersion", [byteField "major", byteField "minor", byteField "patch"]⟩

def readFirmware (c : Cursor) : Result Firmware :=
  (Json.readRecord firmwareShape c).map fun (xs, c) ↦
    (⟨(xs.getD 0 0).toUInt8, (xs.getD 1 0).toUInt8, (xs.getD 2 0).toUInt8⟩, c)

/-- At most one of the drives that are given is applied. -/
structure FanSettings where
  drives : List FanDrive

def driveField {α : Type} (name : String) (read : Cursor → Result α) (drive : α → FanDrive) :
    FieldShape (Option FanDrive) where
  name := name
  value c := (Json.readOptional read c).map fun (x, c) ↦ (x.map drive, c)
  absent := some none

/-- The order of the fields is the order in which the drives are preferred. -/
def fanShape : Shape (Option FanDrive) where
  name := "FanSettings"
  fields :=
    [ driveField "rpm" (Json.readUnsigned 16) fun n ↦ .rpm n.toUInt16,
      driveField "pwm" (Json.readUnsigned 8) fun n ↦ .pwm n.toUInt8,
      driveField "curve" readCurve .curve ]

def readFanSettings (c : Cursor) : Result FanSettings :=
  (Json.readRecord fanShape c).map fun (xs, c) ↦ (⟨xs.filterMap id⟩, c)

def CurvePoint.toJson (p : CurvePoint) : Json.Value :=
  .ofMembers [("temperature", .ofNat p.temperature.toNat), ("pwm", .ofNat p.pwm.toNat)]

def Firmware.toJson (f : Firmware) : Json.Value :=
  .ofMembers [("major", .ofNat f.major.toNat), ("minor", .ofNat f.minor.toNat),
    ("patch", .ofNat f.patch.toNat)]

end LocalHttp.Cooling
