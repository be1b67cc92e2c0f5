import LocalHttp.Proofs.Drives
import LocalHttp.Proofs.Records

namespace LocalHttp.Cooling

structure FanForm where
  rpm : Option UInt16
  pwm : Option UInt8
  curve : Option (List CurvePoint)

def FanForm.drives (f : FanForm) : List FanDrive :=
  (f.rpm.map .rpm).toList ++ (f.pwm.map .pwm).toList ++ (f.curve.map .curve).toList

open Json (Cursor Result FieldShape)

theorem exists_of_readOptional {α : Type} {read : Cursor → Result α} {name : String}
    {drive : α → FanDrive} {c c' : Cursor} {x : Option FanDrive}
    (h : (driveField name read drive).value c = .ok (x, c')) : ∃ y : Option α, x = y.map drive := by
  rw [driveField] at h
  dsimp only at h
  cases hr : Json.readOptional read c with
  | error e =>
    rw [hr] at h
    cases h
  | ok result =>
    rw [hr] at h
    cases h
    exact ⟨result.1, rfl⟩

theorem exists_of_readWhole {α : Type} {read : Cursor → Result α} {body : Bytes} {x : α}
    (h : Json.readWhole read body = .ok x) : ∃ c, read ⟨body, 1, 0⟩ = .ok (x, c) := by
  unfold Json.readWhole Json.finish at h
  split at h
  · cases h
  · rename_i y c hr
    dsimp only at h
    split at h
    · cases h
      exact ⟨c, hr⟩
    · cases h

def IsGiven (f : FieldShape (Option FanDrive)) (x : Option FanDrive) : Prop :=
  (f.name = "rpm" → ∃ y : Option UInt16, x = y.map .rpm) ∧
    (f.name = "pwm" → ∃ y : Option UInt8, x = y.map .pwm) ∧
    (f.name = "curve" → ∃ y : Option (List CurvePoint), x = y.map .curve)

theorem isGiven_value : ∀ f ∈ fanShape.fields, ∀ c x c', f.value c = .ok (x, c') → IsGiven f x := by
  intro f hf c x c' h
  simp only [fanShape, List.mem_cons, List.not_mem_nil, or_false] at hf
  rcases hf with rfl | rfl | rfl
  · obtain ⟨y, rfl⟩ := exists_of_readOptional h
    refine ⟨fun _ ↦ ⟨y.map (·.toUInt16), ?_⟩, fun hn ↦ ?_, fun hn ↦ ?_⟩
    · rw [Option.map_map]
      rfl
    · exact absurd hn (by decide)
    · exact absurd hn (by decide)
  · obtain ⟨y, rfl⟩ := exists_of_readOptional h
    refine ⟨fun hn ↦ ?_, fun _ ↦ ⟨y.map (·.toUInt8), ?_⟩, fun hn ↦ ?_⟩
    · exact absurd hn (by decide)
    · rw [Option.map_map]
      rfl
    · exact absurd hn (by decide)
  · obtain ⟨y, rfl⟩ := exists_of_readOptional h
    refine ⟨fun hn ↦ ?_, fun hn ↦ ?_, fun _ ↦ ⟨y, rfl⟩⟩
    · exact absurd hn (by decide)
    · exact absurd hn (by decide)

theorem isGiven_absent : ∀ f ∈ fanShape.fields, ∀ x, f.absent = some x → IsGiven f x := by
  intro f hf x h
  have hx : x = none := by
    simp only [fanShape, List.mem_cons, List.not_mem_nil, or_false] at hf
    rcases hf with rfl | rfl | rfl <;> exact (Option.some.inj h).symm
  rw [hx]
  exact ⟨fun _ ↦ ⟨none, rfl⟩, fun _ ↦ ⟨none, rfl⟩, fun _ ↦ ⟨none, rfl⟩⟩

/-- A body that is understood gives at most one speed, one duty and one curve, preferred in this
order. -/
theorem exists_form {body : Bytes} {settings : FanSettings}
    (h : Json.readWhole readFanSettings body = .ok settings) :
    ∃ form : FanForm, settings.drives = form.drives := by
  obtain ⟨c, hread⟩ := exists_of_readWhole h
  unfold readFanSettings at hread
  cases hr : Json.readRecord fanShape ⟨body, 1, 0⟩ with
  | error e =>
    rw [hr] at hread
    cases hread
  | ok result =>
    obtain ⟨xs, last⟩ := result
    rw [hr] at hread
    cases hread
    have hnames : ∀ f ∈ fanShape.fields,
        fanShape.fields.find? (fun g ↦ g.name = f.name) = some f := by
      intro f hf
      simp only [fanShape, List.mem_cons, List.not_mem_nil, or_false] at hf
      rcases hf with rfl | rfl | rfl <;> rfl
    have hall := Json.forall₂_readRecord hnames isGiven_value isGiven_absent hr
    obtain ⟨_, _, hrpm, hbehind, rfl⟩ := List.forall₂_cons_left_iff.1 hall
    obtain ⟨_, _, hpwm, hlast, rfl⟩ := List.forall₂_cons_left_iff.1 hbehind
    obtain ⟨_, _, hcurve, hend, rfl⟩ := List.forall₂_cons_left_iff.1 hlast
    obtain rfl := List.forall₂_nil_left_iff.1 hend
    obtain ⟨rpm, rfl⟩ := hrpm.1 rfl
    obtain ⟨pwm, rfl⟩ := hpwm.2.1 rfl
    obtain ⟨curve, rfl⟩ := hcurve.2.2 rfl
    refine ⟨⟨rpm, pwm, curve⟩, ?_⟩
    cases rpm <;> cases pwm <;> cases curve <;> rfl

example :
    (Json.readWhole readFanSettings (Bytes.ofText "\x7b\"pwm\":25,\"rpm\":900\x7d")).toOption.map
      (·.drives) = some [.rpm 900, .pwm 25] := by decide +kernel

/-- The body of a write to the pump, the cooler before it, the status of the answer and the cooler
after it. -/
inductive PumpWrite (body : Bytes) (c : Cooler) : Status → Cooler → Prop
  | accepted {settings : PumpSettings} : Json.readWhole readPumpSettings body = .ok settings →
    settings.mode ≤ 2 → PumpWrite body c .ok { c with pumpMode := settings.mode }
  | refused {settings : PumpSettings} : Json.readWhole readPumpSettings body = .ok settings →
    2 < settings.mode → PumpWrite body c .internalServerError c
  | unread {e : Json.Error} : Json.readWhole readPumpSettings body = .error e →
    PumpWrite body c .internalServerError c

def FanForm.IsReadFrom (form : FanForm) (body : Bytes) : Prop :=
  ∃ settings, Json.readWhole readFanSettings body = .ok settings ∧ settings.drives = form.drives

/-- The same of a write to the fans. Of the drives that are given only the first is looked at. -/
inductive FansWrite (body : Bytes) (c : Cooler) : Status → Cooler → Prop
  | accepted {form : FanForm} {drive : FanDrive} {others : List FanDrive} :
    form.IsReadFrom body → form.drives = drive :: others → drive.IsValid →
      FansWrite body c .ok { c with fans := drive }
  | refused {form : FanForm} {drive : FanDrive} {others : List FanDrive} :
    form.IsReadFrom body → form.drives = drive :: others → ¬drive.IsValid →
      FansWrite body c .internalServerError c
  | empty {form : FanForm} : form.IsReadFrom body → form.drives = [] →
    FansWrite body c .badRequest c
  | unread {e : Json.Error} : Json.readWhole readFanSettings body = .error e →
    FansWrite body c .internalServerError c

section Writes

variable {body : Bytes} {c after : Cooler} {status : Status}

def statuses : List Status :=
  [.ok, .badRequest, .notFound, .methodNotAllowed, .internalServerError]

theorem PumpWrite.status_mem (h : PumpWrite body c status after) : status ∈ statuses := by
  cases h <;> decide

theorem FansWrite.status_mem (h : FansWrite body c status after) : status ∈ statuses := by
  cases h <;> decide

theorem PumpWrite.eq_of_ne_ok (h : PumpWrite body c status after) (hne : status ≠ .ok) :
    after = c := by
  cases h with
  | accepted => exact absurd rfl hne
  | refused => rfl
  | unread => rfl

theorem FansWrite.eq_of_ne_ok (h : FansWrite body c status after) (hne : status ≠ .ok) :
    after = c := by
  cases h with
  | accepted => exact absurd rfl hne
  | refused => rfl
  | empty => rfl
  | unread => rfl

theorem PumpWrite.of_ok (h : PumpWrite body c .ok after) :
    ∃ settings, Json.readWhole readPumpSettings body = .ok settings ∧
      after = { c with pumpMode := settings.mode } := by
  cases h with
  | accepted hr _ => exact ⟨_, hr, rfl⟩

theorem FansWrite.of_ok (h : FansWrite body c .ok after) :
    ∃ settings drive, Json.readWhole readFanSettings body = .ok settings ∧
      settings.drives.head? = some drive ∧ drive.IsValid ∧ after = { c with fans := drive } := by
  cases h with
  | accepted hform hdrives hv =>
    obtain ⟨settings, hr, hs⟩ := hform
    refine ⟨settings, _, hr, ?_, hv, rfl⟩
    rw [hs, hdrives]
    rfl

end Writes

section Writing

variable {α : Type} {read : Cursor → Result α} (apply : α → Cooler → Outcome × Cooler)
  {request : Request}

theorem writing_of_error {e : Json.Error} (h : Json.readWhole read request.body = .error e)
    (s : SharedCooler) : writing read apply request s = (.failure e.message, s) := by
  rw [writing, h]

theorem writing_of_ok {x : α} (h : Json.readWhole read request.body = .ok x) (c : Cooler) :
    writing read apply request ⟨c, false⟩ = ((apply x c).1, ⟨(apply x c).2, false⟩) := by
  rw [writing, h]
  rfl

end Writing

theorem pumpWrite_writing (request : Request) (c : Cooler) :
    ∃ after, (writing readPumpSettings applyPump request ⟨c, false⟩).2 = ⟨after, false⟩ ∧
      PumpWrite request.body c
        (writing readPumpSettings applyPump request ⟨c, false⟩).1.toResponse.status after := by
  cases hr : Json.readWhole readPumpSettings request.body with
  | error e =>
    rw [writing_of_error applyPump hr]
    exact ⟨c, rfl, .unread hr⟩
  | ok settings =>
    rw [writing_of_ok applyPump hr]
    refine ⟨_, rfl, ?_⟩
    rw [applyPump, Cooler.setPumpMode]
    split
    · exact .refused hr ‹_›
    · exact .accepted hr (UInt8.not_lt.1 ‹_›)

theorem fansWrite_writing (request : Request) (c : Cooler) :
    ∃ after, (writing readFanSettings applyFans request ⟨c, false⟩).2 = ⟨after, false⟩ ∧
      FansWrite request.body c
        (writing readFanSettings applyFans request ⟨c, false⟩).1.toResponse.status after := by
  cases hr : Json.readWhole readFanSettings request.body with
  | error e =>
    rw [writing_of_error applyFans hr]
    exact ⟨c, rfl, .unread hr⟩
  | ok settings =>
    obtain ⟨form, hform⟩ := exists_form hr
    have hread : form.IsReadFrom request.body := ⟨settings, hr, hform⟩
    rw [writing_of_ok applyFans hr]
    refine ⟨_, rfl, ?_⟩
    rw [applyFans]
    cases hd : settings.drives with
    | nil => exact .empty hread (hform.symm.trans hd)
    | cons drive others =>
      have hdrives := hform.symm.trans hd
      dsimp only
      rcases c.drive_eq drive with ⟨hv, he⟩ | ⟨hv, fault, he⟩
      · rw [he]
        exact .accepted hread hdrives hv
      · rw [he]
        exact .refused hread hdrives hv

end LocalHttp.Cooling
