import LocalHttp.Cooling.Device
import LocalHttp.Proofs.Drives
import LocalHttp.Proofs.Fields
import Mathlib.Data.List.Perm.Subperm

namespace LocalHttp.Cooling

namespace Device

def settled {α : Type} (c : Cooler) (x : α) :
    Except CoolerFault Cooler → Except CoolerFault α × Cooler
  | .ok after => (.ok x, after)
  | .error fault => (.error fault, c)

variable (c : Cooler)

theorem run_writePumpMode (mode : UInt8) :
    (writePumpMode mode).run c = settled c () (c.setPumpMode mode) := by
  unfold writePumpMode Cooler.setPumpMode
  split <;> rfl

theorem run_writePwm (duty : UInt8) : (writePwm duty).run c = settled c () (c.setPwm duty) := by
  unfold writePwm Cooler.setPwm
  split <;> rfl

theorem run_writeCurve (points : List CurvePoint) :
    (writeCurve points).run c = settled c () (c.setCurve points) := by
  unfold writeCurve Cooler.setCurve
  cases points.isEmpty with
  | true => rfl
  | false =>
    cases points.find? fun p ↦ maxPwm < p.pwm with
    | some p => rfl
    | none => cases increasing points <;> rfl

theorem run_writeFans (drive : FanDrive) :
    (writeFans drive).run c = settled c () (c.drive drive) := by
  cases drive with
  | rpm speed => rfl
  | pwm duty => exact run_writePwm c duty
  | curve points => exact run_writeCurve c points

theorem run_done {c : Cooler} {write : Device Unit} {result : Except CoolerFault Cooler}
    (h : write.run c = settled c () result) :
    (do write; return Reply.done : Device Reply).run c = settled c .done result := by
  change (ExceptT.bindCont _ (write.run c).1 : StateM Cooler _) (write.run c).2 = _
  rw [h]
  cases result <;> rfl

end Device

/-- What an access answers and makes of the cooler. -/
inductive Allows (c : Cooler) : Access → Answer → Cooler → Prop
  | pumpMode {mode : UInt8} : mode ≤ 2 →
    Allows c (.writePumpMode mode) (.ok .done) { c with pumpMode := mode }
  | noPumpMode {mode : UInt8} : ¬mode ≤ 2 →
    Allows c (.writePumpMode mode) (.error (.pumpMode mode)) c
  | fans {drive : FanDrive} : drive.IsValid →
    Allows c (.writeFans drive) (.ok .done) { c with fans := drive }
  | noFans {drive : FanDrive} {fault : CoolerFault} : ¬drive.IsValid →
    Allows c (.writeFans drive) (.error fault) c
  | readPump : Allows c .readPump (.ok (.pump c.pumpRpm)) c
  | readFans : Allows c .readFans (.ok (.fans c.fansRpm)) c
  | readTemperature : Allows c .readTemperature (.ok (.temperature c.temperature)) c
  | readFirmware : Allows c .readFirmware (.ok (.firmware c.firmware)) c

theorem allows_answer (c : Cooler) (access : Access) :
    Allows c access (c.answer access).1 (c.answer access).2 := by
  cases access with
  | readPump => exact .readPump
  | readFans => exact .readFans
  | readTemperature => exact .readTemperature
  | readFirmware => exact .readFirmware
  | writePumpMode mode =>
    have hrun := Device.run_done (Device.run_writePumpMode c mode)
    rw [Cooler.answer, Access.perform, hrun]
    unfold Cooler.setPumpMode
    by_cases hm : 2 < mode
    · rw [if_pos hm]
      exact .noPumpMode (UInt8.not_le.2 hm)
    · rw [if_neg hm]
      exact .pumpMode (UInt8.not_lt.1 hm)
  | writeFans drive =>
    have hrun := Device.run_done (Device.run_writeFans c drive)
    rw [Cooler.answer, Access.perform, hrun]
    rcases c.drive_eq drive with ⟨hv, hd⟩ | ⟨hv, fault, hd⟩
    · rw [hd]
      exact .fans hv
    · rw [hd]
      exact .noFans hv

theorem refused_iff (c : Cooler) (drive : FanDrive) :
    (∃ fault, (c.answer (.writeFans drive)).1 = .error fault) ↔ ¬drive.IsValid := by
  have hstep := allows_answer c (.writeFans drive)
  generalize c.answer (.writeFans drive) = result at hstep ⊢
  obtain ⟨answer, after⟩ := result
  cases hstep with
  | fans hv => exact ⟨nofun, fun h ↦ absurd hv h⟩
  | noFans hv => exact ⟨fun _ ↦ hv, fun _ ↦ ⟨_, rfl⟩⟩

/-- Accesses with their answers, and what they make of a cooler one after the other. -/
inductive Transcript : Cooler → List (Access × Answer) → Cooler → Prop
  | nil {c : Cooler} : Transcript c [] c
  | cons {c after last : Cooler} {access : Access} {answer : Answer}
    {log : List (Access × Answer)} : Allows c access answer after → Transcript after log last →
      Transcript c ((access, answer) :: log) last

theorem transcript_answerAll (accesses : List Access) (c : Cooler) :
    Transcript c (c.answerAll accesses).1 (c.answerAll accesses).2 ∧
      (c.answerAll accesses).1.map (·.1) = accesses := by
  induction accesses generalizing c with
  | nil => exact ⟨.nil, rfl⟩
  | cons access rest ih =>
    obtain ⟨hrest, hmap⟩ := ih (c.answer access).2
    refine ⟨.cons (allows_answer c access) hrest, ?_⟩
    rw [Cooler.answerAll, List.map_cons, hmap]

theorem Transcript.split {c last : Cooler} {access : Access} {answer : Answer}
    {before after : List (Access × Answer)}
    (h : Transcript c (before ++ (access, answer) :: after) last) :
    ∃ mid next, Transcript c before mid ∧ Allows mid access answer next := by
  induction before generalizing c with
  | nil =>
    cases h with
    | cons hstep _ => exact ⟨c, _, .nil, hstep⟩
  | cons e before ih =>
    cases h with
    | cons hstep hrest =>
      obtain ⟨mid, next, hbefore, hallows⟩ := ih hrest
      exact ⟨mid, next, .cons hstep hbefore, hallows⟩

section Limits

theorem length_le_of_increasing {points : List CurvePoint}
    (h : points.Pairwise (·.temperature < ·.temperature)) : points.length ≤ 256 := by
  let degrees := points.map fun p ↦ p.temperature.toNat
  have hnodup : degrees.Nodup := by
    refine List.pairwise_map.2 (h.imp fun hab ↦ ?_)
    exact Nat.ne_of_lt hab
  have hrange : degrees ⊆ List.range 256 := by
    intro n hn
    obtain ⟨p, -, rfl⟩ := List.mem_map.1 hn
    exact List.mem_range.2 p.temperature.toNat_lt
  have hle := (List.subperm_of_subset hnodup hrange).length_le
  rwa [List.length_map, List.length_range] at hle

/-- What a cooler holds whatever it has been asked. -/
structure Cooler.Bounded (c : Cooler) : Prop where
  pumpMode : c.pumpMode ≤ 2
  fans : c.fans.IsValid
  points : ∀ points, c.fans = .curve points → points.length ≤ 256

theorem Cooler.bounded_of_isValid {c : Cooler} (hm : c.pumpMode ≤ 2) (hf : c.fans.IsValid) :
    c.Bounded where
  pumpMode := hm
  fans := hf
  points points hp := by
    rw [hp] at hf
    exact length_le_of_increasing hf.2.2

theorem Allows.bounded {c after : Cooler} {access : Access} {answer : Answer}
    (h : Allows c access answer after) (hc : c.Bounded) : after.Bounded := by
  cases h with
  | pumpMode hm => exact Cooler.bounded_of_isValid hm hc.fans
  | fans hv => exact Cooler.bounded_of_isValid hc.pumpMode hv
  | noPumpMode _ => exact hc
  | noFans _ => exact hc
  | readPump => exact hc
  | readFans => exact hc
  | readTemperature => exact hc
  | readFirmware => exact hc

theorem Transcript.bounded {c last : Cooler} {log : List (Access × Answer)}
    (h : Transcript c log last) (hc : c.Bounded) : last.Bounded := by
  induction h with
  | nil => exact hc
  | cons hstep _ ih => exact ih (hstep.bounded hc)

theorem FanDrive.speed_le {drive : FanDrive} (h : drive.IsValid)
    (hr : ∀ speed, drive ≠ .rpm speed) (temperature : Binary64) :
    drive.speed temperature ≤ maxRpm := by
  have hduty {duty : UInt8} (hd : duty ≤ 100) : 20 * duty.toNat ≤ maxRpm := by
    have hnat : duty.toNat ≤ 100 := hd
    rw [maxRpm]
    omega
  cases drive with
  | rpm speed => exact absurd rfl (hr speed)
  | pwm duty => exact hduty h
  | curve points => exact hduty (dutyAt_le temperature h.2.1)

theorem rpmOfPwm_exact (duty : UInt8) :
    maxRpm * (min duty maxPwm).toNat < UInt32.size ∧
      (rpmOfPwm duty).toNat = maxRpm * (min duty maxPwm).toNat / maxPwm.toNat := by
  have hmin : (min duty maxPwm).toNat ≤ 100 := by
    change (if duty ≤ maxPwm then duty else maxPwm).toNat ≤ 100
    split
    · assumption
    · decide
  have hpwm : maxPwm.toNat = 100 := rfl
  have hsize : UInt32.size = 4294967296 := rfl
  rw [rpmOfPwm, hpwm, hsize, maxRpm, Nat.toUInt16_eq, UInt16.toNat_ofNat']
  omega

end Limits

section Last

def takenMode? : Access × Answer → Option UInt8
  | (.writePumpMode mode, .ok _) => some mode
  | _ => none

def takenDrive? : Access × Answer → Option FanDrive
  | (.writeFans drive, .ok _) => some drive
  | _ => none

def lastTaken? {α : Type} (taken? : Access × Answer → Option α) (log : List (Access × Answer)) :
    Option α :=
  (log.filterMap taken?).getLast?

variable {c after last : Cooler} {access : Access} {answer : Answer}
  {log : List (Access × Answer)}

theorem Allows.eq (h : Allows c access answer after) :
    after =
      { c with
        pumpMode := (takenMode? (access, answer)).getD c.pumpMode
        fans := (takenDrive? (access, answer)).getD c.fans } := by
  cases h <;> rfl

theorem Transcript.eq (h : Transcript c log last) :
    last =
      { c with
        pumpMode := (lastTaken? takenMode? log).getD c.pumpMode
        fans := (lastTaken? takenDrive? log).getD c.fans } := by
  induction h with
  | nil => rfl
  | cons hstep _ ih =>
    have hafter := hstep.eq
    subst hafter
    rw [ih]
    simp only [lastTaken?, getD_getLast?_filterMap]

/-- The speeds that are read behind some accesses: one for each fan, all equal, and that of the last
drive that was taken where this is a speed. -/
def Reads (log : List (Access × Answer)) (fanCount : Nat) (speeds : List UInt16) : Prop :=
  ∃ speed : UInt16, speeds = List.replicate fanCount speed ∧
    (lastTaken? takenDrive? log = some (.rpm speed) ∨
      (∀ other, lastTaken? takenDrive? log ≠ some (.rpm other)) ∧ speed.toNat ≤ 2000)

theorem Transcript.reads (h : Transcript c log last) (hc : c.Bounded)
    (hr : ∀ speed, c.fans ≠ .rpm speed) : Reads log c.fanCount last.fansRpm := by
  have hlast := h.eq
  have hcount : last.fanCount = c.fanCount := by rw [hlast]
  have hfans : last.fans = (lastTaken? takenDrive? log).getD c.fans := by rw [hlast]
  have hspeed : (∀ speed, last.fans ≠ .rpm speed) → last.fanRpm.toNat ≤ 2000 := by
    intro hne
    rw [Cooler.toNat_fanRpm (h.bounded hc).fans]
    exact FanDrive.speed_le (h.bounded hc).fans hne last.temperature
  refine ⟨last.fanRpm, by rw [Cooler.fansRpm, hcount], ?_⟩
  cases hd : lastTaken? takenDrive? log with
  | none =>
    rw [hd, Option.getD_none] at hfans
    exact .inr ⟨nofun, hspeed fun speed ↦ hfans ▸ hr speed⟩
  | some drive =>
    rw [hd, Option.getD_some] at hfans
    cases drive with
    | rpm speed =>
      refine .inl ?_
      rw [Cooler.fanRpm, hfans]
    | pwm duty => exact .inr ⟨nofun, hspeed fun speed ↦ by rw [hfans]; nofun⟩
    | curve points => exact .inr ⟨nofun, hspeed fun speed ↦ by rw [hfans]; nofun⟩

end Last

/-- A new cooler keeps to its limits whatever it is asked, takes a curve exactly if it keeps to
them, does what every access allows and no more, and reads the same speed for each fan. A write to a
cooler in use comes to the same as the write that gives a cooler or a fault. -/
theorem cooler_keeps_within_limits (name : String) (fanCount : Nat) (firmware : Firmware)
    (temperature : Binary64) (accesses : List Access) :
    (∃ log last,
      Cooler.answerAll { name, fanCount, firmware, temperature } accesses = (log, last) ∧
        log.map (·.1) = accesses ∧
        Transcript { name, fanCount, firmware, temperature } log last ∧ last.Bounded ∧
        ∀ before answer after, log = before ++ (.readFans, answer) :: after →
          ∃ speeds, answer = .ok (.fans speeds) ∧ Reads before fanCount speeds) ∧
    (∀ (c : Cooler) (points : List CurvePoint),
      (∃ fault, (c.answer (.writeFans (.curve points))).1 = .error fault) ↔
        ¬(points ≠ [] ∧ (∀ p ∈ points, p.pwm ≤ 100) ∧
          points.Pairwise (·.temperature < ·.temperature))) ∧
    (∀ duty : UInt8, maxRpm * (min duty maxPwm).toNat < UInt32.size ∧
      (rpmOfPwm duty).toNat = maxRpm * (min duty maxPwm).toNat / maxPwm.toNat) ∧
    (∀ (c : Cooler) (mode : UInt8),
      (Device.writePumpMode mode).run c = Device.settled c () (c.setPumpMode mode)) ∧
    ∀ (c : Cooler) (drive : FanDrive),
      (Device.writeFans drive).run c = Device.settled c () (c.drive drive) := by
  refine ⟨?_, fun c points ↦ refused_iff c (.curve points), rpmOfPwm_exact,
    Device.run_writePumpMode, Device.run_writeFans⟩
  have hzero : (0 : UInt8) ≤ 2 := by decide
  have hfifty : (50 : UInt8) ≤ 100 := by decide
  have hnew : Cooler.Bounded { name, fanCount, firmware, temperature } :=
    Cooler.bounded_of_isValid hzero hfifty
  obtain ⟨hall, hmap⟩ := transcript_answerAll accesses { name, fanCount, firmware, temperature }
  refine ⟨_, _, rfl, hmap, hall, hall.bounded hnew, fun before answer after hlog ↦ ?_⟩
  rw [hlog] at hall
  obtain ⟨mid, next, hbefore, hread⟩ := hall.split
  cases hread with
  | readFans => exact ⟨_, rfl, hbefore.reads hnew nofun⟩

end LocalHttp.Cooling
