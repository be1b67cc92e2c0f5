import LocalHttp.Cooling.Endpoints

namespace LocalHttp

theorem Binary64.natLe_of_le {x : Binary64} {m n : Nat} (hmn : m ≤ n) (h : x.natLe n = true) :
    x.natLe m = true := by
  cases x with
  | nan => exact h
  | infinite negative => exact h
  | finite negative significand exponent =>
    cases negative with
    | true =>
      simp only [natLe, Bool.and_eq_true, beq_iff_eq] at h ⊢
      omega
    | false =>
      have hle : n * Nat.pow 2 (-exponent).toNat ≤ significand * Nat.pow 2 exponent.toNat := by
        simpa [natLe] using h
      have hm := Nat.le_trans (Nat.mul_le_mul_right (Nat.pow 2 (-exponent).toNat) hmn) hle
      simpa [natLe] using hm

namespace Cooling

def FanDrive.IsValid : FanDrive → Prop
  | .rpm _ => True
  | .pwm duty => duty ≤ 100
  | .curve points =>
    points ≠ [] ∧ (∀ p ∈ points, p.pwm ≤ 100) ∧ points.Pairwise (·.temperature < ·.temperature)

theorem increasing_iff {points : List CurvePoint} :
    increasing points = true ↔ points.Pairwise (·.temperature < ·.temperature) := by
  induction points with
  | nil => simp [increasing]
  | cons a rest ih =>
    cases rest with
    | nil => simp [increasing]
    | cons b rest =>
      rw [increasing, Bool.and_eq_true, ih, decide_eq_true_eq]
      constructor
      · rintro ⟨hab, hrest⟩
        refine List.pairwise_cons.2 ⟨fun p hp ↦ ?_, hrest⟩
        rcases List.mem_cons.1 hp with rfl | hp
        · exact hab
        · exact UInt8.lt_trans hab ((List.pairwise_cons.1 hrest).1 p hp)
      · intro h
        obtain ⟨ha, hrest⟩ := List.pairwise_cons.1 h
        exact ⟨ha b List.mem_cons_self, hrest⟩

theorem Cooler.drive_eq (c : Cooler) (drive : FanDrive) :
    drive.IsValid ∧ c.drive drive = .ok { c with fans := drive } ∨
      ¬drive.IsValid ∧ ∃ fault, c.drive drive = .error fault := by
  cases drive with
  | rpm speed => exact .inl ⟨trivial, rfl⟩
  | pwm duty =>
    by_cases hd : maxPwm < duty
    · refine .inr ⟨UInt8.not_le.2 hd, .pwm duty, ?_⟩
      rw [Cooler.drive, Cooler.setPwm, if_pos hd]
    · refine .inl ⟨UInt8.not_lt.1 hd, ?_⟩
      rw [Cooler.drive, Cooler.setPwm, if_neg hd]
  | curve points =>
    rw [Cooler.drive, Cooler.setCurve]
    by_cases he : points = []
    · refine .inr ⟨fun h ↦ h.1 he, .emptyCurve, ?_⟩
      rw [if_pos (by simp [he])]
    · rw [if_neg (by simpa using he)]
      cases hf : points.find? (fun p ↦ maxPwm < p.pwm) with
      | some p =>
        have hp : maxPwm < p.pwm := by simpa using List.find?_some hf
        refine .inr ⟨fun h ↦ ?_, .pwm p.pwm, rfl⟩
        exact UInt8.not_le.2 hp (h.2.1 p (List.mem_of_find?_eq_some hf))
      | none =>
        have hall : ∀ p ∈ points, p.pwm ≤ 100 := by
          intro p hp
          have hle : p.pwm ≤ maxPwm := by simpa using List.find?_eq_none.1 hf p hp
          exact hle
        cases hi : increasing points with
        | true => exact .inl ⟨⟨he, hall, increasing_iff.1 hi⟩, rfl⟩
        | false =>
          refine .inr ⟨fun h ↦ ?_, .unorderedCurve, rfl⟩
          rw [increasing_iff.2 h.2.2] at hi
          cases hi

theorem Cooler.drive_eq_ok_iff {c after : Cooler} {drive : FanDrive} :
    c.drive drive = .ok after ↔ drive.IsValid ∧ after = { c with fans := drive } := by
  rcases c.drive_eq drive with ⟨hv, hd⟩ | ⟨hv, fault, hd⟩
  · rw [hd, Except.ok.injEq, eq_comm]
    exact ⟨fun h ↦ ⟨hv, h⟩, fun h ↦ h.2⟩
  · rw [hd]
    exact ⟨nofun, fun h ↦ absurd h.1 hv⟩

theorem takeWhile_eq_filter {α : Type} {p : α → Bool} {xs : List α}
    (h : xs.Pairwise fun a b ↦ p b = true → p a = true) : xs.takeWhile p = xs.filter p := by
  induction xs with
  | nil => rfl
  | cons x rest ih =>
    obtain ⟨hx, hrest⟩ := List.pairwise_cons.1 h
    by_cases hp : p x = true
    · rw [List.takeWhile_cons_of_pos hp, List.filter_cons_of_pos hp, ih hrest]
    · have hnone : rest.filter p = [] :=
        List.filter_eq_nil_iff.2 fun y hy hpy ↦ hp (hx y hy hpy)
      rw [List.takeWhile_cons_of_neg hp, List.filter_cons_of_neg hp, hnone]

/-- The duty of the hottest point that the temperature has reached, else that of the first. -/
def dutyAt (points : List CurvePoint) (temperature : Binary64) : UInt8 :=
  let reached := points.filter fun p ↦ temperature.natLe p.temperature.toNat
  ((reached.getLast? <|> points.head?).map (·.pwm)).getD 0

/-- The speed that a drive comes to, with twenty turns for each percent of a duty. -/
def FanDrive.speed (temperature : Binary64) : FanDrive → Nat
  | .pwm duty => 20 * duty.toNat
  | .rpm speed => speed.toNat
  | .curve points => 20 * (dutyAt points temperature).toNat

theorem curveDuty_eq_dutyAt {points : List CurvePoint} (temperature : Binary64)
    (h : points.Pairwise (·.temperature < ·.temperature)) :
    curveDuty points temperature = dutyAt points temperature := by
  have hreached : points.Pairwise fun a b ↦ temperature.natLe b.temperature.toNat = true →
      temperature.natLe a.temperature.toNat = true :=
    h.imp fun hab ↦ Binary64.natLe_of_le (Nat.le_of_lt hab)
  unfold curveDuty dutyAt
  rw [takeWhile_eq_filter hreached]

theorem dutyAt_le {points : List CurvePoint} (temperature : Binary64)
    (h : ∀ p ∈ points, p.pwm ≤ 100) : dutyAt points temperature ≤ 100 := by
  unfold dutyAt
  dsimp only
  cases hl : (points.filter fun p ↦ temperature.natLe p.temperature.toNat).getLast? with
  | some p => exact h p (List.mem_filter.1 (List.mem_of_getLast? hl)).1
  | none =>
    cases points with
    | nil => decide
    | cons p rest => exact h p List.mem_cons_self

theorem toNat_rpmOfPwm {duty : UInt8} (h : duty ≤ 100) :
    (rpmOfPwm duty).toNat = 20 * duty.toNat := by
  have hle : duty.toNat ≤ 100 := h
  have hmin : min duty maxPwm = duty := by
    simp only [min]
    exact if_pos h
  have hnat : maxRpm * duty.toNat / 100 = 20 * duty.toNat := by
    simp only [maxRpm]
    omega
  have hpwm : maxPwm.toNat = 100 := rfl
  simp only [rpmOfPwm, hmin, hpwm, hnat, Nat.toUInt16_eq, UInt16.toNat_ofNat']
  omega

theorem Cooler.toNat_fanRpm {c : Cooler} (h : c.fans.IsValid) :
    c.fanRpm.toNat = c.fans.speed c.temperature := by
  unfold Cooler.fanRpm
  cases hf : c.fans with
  | rpm speed => rfl
  | pwm duty =>
    rw [hf] at h
    exact toNat_rpmOfPwm h
  | curve points =>
    rw [hf] at h
    obtain ⟨-, hduty, horder⟩ := h
    dsimp only
    rw [curveDuty_eq_dutyAt _ horder, toNat_rpmOfPwm (dutyAt_le _ hduty), FanDrive.speed]

end Cooling

end LocalHttp
