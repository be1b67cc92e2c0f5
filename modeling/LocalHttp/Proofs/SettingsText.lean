import LocalHttp.Proofs.Settings
import LocalHttp.Proofs.Spelling

namespace LocalHttp.Cooling

open Bytes (ofText)
open Json (Member Spells Value)

theorem spells_byte (name : String) (n : UInt8) :
    Spells (byteField name).value (ofText (Value.ofNat n.toNat).text) n.toNat :=
  Json.spells_ofNat (by decide) n.toNat_lt

theorem spells_pumpSettings (mode : UInt8) :
    Spells readPumpSettings (ofText (Value.ofMembers [("mode", .ofNat mode.toNat)]).text)
      ⟨mode⟩ := by
  have hplain : Json.isPlain "mode" = true := by decide
  have hrecord : Spells (Json.readRecord pumpShape)
      (ofText (Value.ofMembers [("mode", .ofNat mode.toNat)]).text) [mode.toNat] := by
    refine Spells.record [⟨"mode", .ofNat mode.toNat, mode.toNat⟩] ?_ (by simp) rfl
    intro m hm
    obtain rfl := List.mem_singleton.1 hm
    exact ⟨hplain, _, rfl, spells_byte "mode" mode⟩
  have hsettings : Spells readPumpSettings
      (ofText (Value.ofMembers [("mode", .ofNat mode.toNat)]).text) ⟨mode.toNat.toUInt8⟩ :=
    hrecord.map fun xs ↦ (⟨(xs.headD 0).toUInt8⟩ : PumpSettings)
  simpa using hsettings

theorem spells_curvePoint (p : CurvePoint) :
    Spells readCurvePoint (ofText p.toJson.text) p := by
  have hpwm : Json.isPlain "pwm" = true := by decide
  have htemperature : Json.isPlain "temperature" = true := by decide
  have hrecord : Spells (Json.readRecord curvePointShape) (ofText p.toJson.text)
      [p.temperature.toNat, p.pwm.toNat] := by
    refine Spells.record
      [⟨"pwm", .ofNat p.pwm.toNat, p.pwm.toNat⟩,
        ⟨"temperature", .ofNat p.temperature.toNat, p.temperature.toNat⟩] ?_ (by simp) rfl
    intro m hm
    simp only [List.mem_cons, List.not_mem_nil, or_false] at hm
    rcases hm with rfl | rfl
    · exact ⟨hpwm, _, rfl, spells_byte "pwm" p.pwm⟩
    · exact ⟨htemperature, _, rfl, spells_byte "temperature" p.temperature⟩
  have hpoint : Spells readCurvePoint (ofText p.toJson.text)
      ⟨p.temperature.toNat.toUInt8, p.pwm.toNat.toUInt8⟩ :=
    hrecord.map fun xs ↦ (⟨(xs.getD 0 0).toUInt8, (xs.getD 1 0).toUInt8⟩ : CurvePoint)
  simpa using hpoint

/-- The form as JSON, without what it does not give. -/
def FanForm.toJson (f : FanForm) : Value :=
  .ofMembers
    ((f.rpm.map fun speed ↦ ("rpm", .ofNat speed.toNat)).toList ++
      (f.pwm.map fun duty ↦ ("pwm", .ofNat duty.toNat)).toList ++
      (f.curve.map fun points ↦ ("curve", .array (points.map CurvePoint.toJson))).toList)

def FanForm.members (f : FanForm) : List (Member (Option FanDrive)) :=
  (f.curve.map fun points ↦
      ⟨"curve", .array (points.map CurvePoint.toJson), some (.curve points)⟩).toList ++
    (f.pwm.map fun duty ↦ ⟨"pwm", .ofNat duty.toNat, some (.pwm duty)⟩).toList ++
    (f.rpm.map fun speed ↦ ⟨"rpm", .ofNat speed.toNat, some (.rpm speed)⟩).toList

theorem FanForm.toJson_eq (f : FanForm) :
    f.toJson = .object (f.members.map fun m ↦ (m.name, m.json)) := by
  obtain ⟨rpm, pwm, curve⟩ := f
  cases rpm <;> cases pwm <;> cases curve <;> rfl

theorem spells_driveField {α : Type} {name : String} {read : Json.Cursor → Json.Result α}
    {text : Bytes} {y : α} (h : Spells read text y) (drive : α → FanDrive) :
    Spells (driveField name read drive).value text (some (drive y)) :=
  h.optional.map (Option.map drive)

theorem FanForm.fits (f : FanForm) : ∀ m ∈ f.members, m.Fits fanShape := by
  intro m hm
  simp only [members, List.mem_append, Option.mem_toList, Option.map_eq_some_iff] at hm
  have hcurve : Json.isPlain "curve" = true := by decide
  have hpwm : Json.isPlain "pwm" = true := by decide
  have hrpm : Json.isPlain "rpm" = true := by decide
  rcases hm with (⟨points, -, rfl⟩ | ⟨duty, -, rfl⟩) | ⟨speed, -, rfl⟩
  · refine ⟨hcurve, _, rfl, spells_driveField ?_ _⟩
    exact Spells.sequence fun p _ ↦ spells_curvePoint p
  · have hduty : FanDrive.pwm duty.toNat.toUInt8 = .pwm duty := by simp
    refine ⟨hpwm, _, rfl, ?_⟩
    rw [← hduty]
    exact spells_driveField (Json.spells_ofNat (by decide) duty.toNat_lt) fun n ↦ .pwm n.toUInt8
  · have hspeed : FanDrive.rpm speed.toNat.toUInt16 = .rpm speed := by simp
    refine ⟨hrpm, _, rfl, ?_⟩
    rw [← hspeed]
    exact spells_driveField (Json.spells_ofNat (by decide) speed.toNat_lt) fun n ↦ .rpm n.toUInt16

theorem FanForm.readWhole_toJson (f : FanForm) :
    Json.readWhole readFanSettings (ofText f.toJson.text) = .ok ⟨f.drives⟩ := by
  have hrecord : Spells (Json.readRecord fanShape) (ofText f.toJson.text)
      [f.rpm.map .rpm, f.pwm.map .pwm, f.curve.map .curve] := by
    rw [f.toJson_eq]
    obtain ⟨rpm, pwm, curve⟩ := f
    refine Spells.record (FanForm.members ⟨rpm, pwm, curve⟩) (FanForm.fits _) ?_ ?_
    · cases rpm <;> cases pwm <;> cases curve <;> simp [FanForm.members]
    · cases rpm <;> cases pwm <;> cases curve <;> rfl
  have hsettings := hrecord.map fun xs ↦ (⟨xs.filterMap id⟩ : FanSettings)
  have hdrives : [f.rpm.map .rpm, f.pwm.map .pwm, f.curve.map .curve].filterMap id = f.drives := by
    obtain ⟨rpm, pwm, curve⟩ := f
    cases rpm <;> cases pwm <;> cases curve <;> rfl
  rw [← hdrives]
  exact hsettings.readWhole

theorem FanForm.isReadFrom_toJson (f : FanForm) : f.IsReadFrom (ofText f.toJson.text) :=
  ⟨_, f.readWhole_toJson, rfl⟩

end LocalHttp.Cooling
