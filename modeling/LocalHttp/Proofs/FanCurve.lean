import LocalHttp.Proofs.Drives
import LocalHttp.Proofs.Rounding
import Mathlib.Order.WithBot

namespace LocalHttp

namespace Binary64

/-- The numbers, with an end on either side. -/
abbrev Line : Type := WithBot (WithTop ℚ)

def onLine (q : ℚ) : Line := ((q : WithTop ℚ) : Line)

def number? : Binary64 → Option Line
  | .finite true m e => some (onLine (-scale m e))
  | .finite false m e => some (onLine (scale m e))
  | .infinite true => some ⊥
  | .infinite false => some ⊤
  | .nan => none

theorem onLine_le_iff {p q : ℚ} : onLine p ≤ onLine q ↔ p ≤ q := by
  rw [onLine, onLine, WithBot.coe_le_coe, WithTop.coe_le_coe]

theorem scale_pos_iff {m : Nat} {e : Int} : 0 < scale m e ↔ 0 < m := by
  have hpow : (0 : ℚ) < 2 ^ e := zpow_pos two_pos e
  rw [scale, mul_pos_iff_of_pos_right hpow, Nat.cast_pos]

theorem le_neg_scale_iff {n m : Nat} {e : Int} : (n : ℚ) ≤ -scale m e ↔ n = 0 ∧ m = 0 := by
  constructor
  · intro h
    have hn : (0 : ℚ) ≤ n := n.cast_nonneg
    have hm : 0 ≤ scale m e := scale_nonneg m e
    have hn0 : (n : ℚ) = 0 := by linarith
    have hm0 : ¬0 < scale m e := by linarith
    rw [scale_pos_iff] at hm0
    exact ⟨Nat.cast_eq_zero.1 hn0, by omega⟩
  · rintro ⟨rfl, rfl⟩
    simp [scale_zero]

theorem le_scale_iff {n m : Nat} {e : Int} :
    (n : ℚ) ≤ scale m e ↔ n * 2 ^ (-e).toNat ≤ m * 2 ^ e.toNat := by
  have hpow : (0 : ℚ) < 2 ^ (-e).toNat := pow_pos two_pos _
  rw [scale, zpow_eq_div two_ne_zero, ← mul_div_assoc, le_div_iff₀ hpow]
  exact_mod_cast Iff.rfl

theorem natLe_iff {x : Binary64} {r : Line} (h : x.number? = some r) (n : Nat) :
    x.natLe n = true ↔ onLine n ≤ r := by
  cases x with
  | nan => cases h
  | infinite negative =>
    cases negative with
    | false =>
      obtain rfl : ⊤ = r := Option.some.inj h
      exact ⟨fun _ ↦ le_top, fun _ ↦ rfl⟩
    | true =>
      obtain rfl : ⊥ = r := Option.some.inj h
      exact ⟨nofun, fun hn ↦ absurd (le_bot_iff.1 hn) WithBot.coe_ne_bot⟩
  | finite negative m e =>
    cases negative with
    | false =>
      obtain rfl : onLine (scale m e) = r := Option.some.inj h
      rw [onLine_le_iff, le_scale_iff]
      simp [natLe]
    | true =>
      obtain rfl : onLine (-scale m e) = r := Option.some.inj h
      rw [onLine_le_iff, le_neg_scale_iff]
      simp [natLe]

end Binary64

namespace Cooling

open Binary64 (Line onLine)

def CurvePoint.place (p : CurvePoint) : Line := onLine p.temperature.toNat

/-- The point of a curve that decides at a temperature, wherever in the curve it stands. -/
inductive Governs (points : List CurvePoint) (r : Line) (p : CurvePoint) : Prop
  | reached : p ∈ points → p.place ≤ r →
    (∀ q ∈ points, q.place ≤ r → q.temperature ≤ p.temperature) → Governs points r p
  | above : p ∈ points → (∀ q ∈ points, r < q.place) →
    (∀ q ∈ points, p.temperature ≤ q.temperature) → Governs points r p

section Curve

variable {points : List CurvePoint} {p q : CurvePoint} {r : Line} {t : Binary64}

theorem Governs.mem (h : Governs points r p) : p ∈ points := by
  cases h with
  | reached hp => exact hp
  | above hp => exact hp

theorem le_getLast (h : points.Pairwise (·.temperature < ·.temperature))
    (hp : points.getLast? = some p) : ∀ q ∈ points, q.temperature ≤ p.temperature := by
  intro q hq
  obtain ⟨front, rfl⟩ := List.getLast?_eq_some_iff.1 hp
  rcases List.mem_append.1 hq with hq | hq
  · exact UInt8.le_of_lt ((List.pairwise_append.1 h).2.2 q hq p List.mem_cons_self)
  · rw [List.mem_singleton.1 hq]
    exact UInt8.le_refl _

theorem head_le (h : points.Pairwise (·.temperature < ·.temperature))
    (hp : points.head? = some p) : ∀ q ∈ points, p.temperature ≤ q.temperature := by
  intro q hq
  obtain ⟨rest, rfl⟩ := List.head?_eq_some_iff.1 hp
  rcases List.mem_cons.1 hq with rfl | hq
  · exact UInt8.le_refl _
  · exact UInt8.le_of_lt ((List.pairwise_cons.1 h).1 q hq)

theorem exists_governs (hne : points ≠ [])
    (h : points.Pairwise (·.temperature < ·.temperature)) (ht : t.number? = some r) :
    ∃ p, Governs points r p ∧ dutyAt points t = p.pwm := by
  have hreached (q : CurvePoint) : t.natLe q.temperature.toNat = true ↔ q.place ≤ r :=
    Binary64.natLe_iff ht q.temperature.toNat
  unfold dutyAt
  dsimp only
  cases hl : (points.filter fun q ↦ t.natLe q.temperature.toNat).getLast? with
  | some p =>
    obtain ⟨hp, hpt⟩ := List.mem_filter.1 (List.mem_of_getLast? hl)
    refine ⟨p, .reached hp ((hreached p).1 hpt) fun q hq hqr ↦ ?_, rfl⟩
    exact le_getLast (h.filter _) hl q (List.mem_filter.2 ⟨hq, (hreached q).2 hqr⟩)
  | none =>
    obtain ⟨p, hp⟩ := Option.isSome_iff_exists.1 (List.isSome_head?.2 hne)
    have hnone := List.filter_eq_nil_iff.1 (List.getLast?_eq_none_iff.1 hl)
    refine ⟨p, .above (List.mem_of_head? hp) (fun q hq ↦ ?_) (head_le h hp), ?_⟩
    · exact lt_of_not_ge fun hqr ↦ hnone q hq ((hreached q).2 hqr)
    · rw [hp]
      rfl

theorem eq_of_temperature_eq (h : points.Pairwise (·.temperature < ·.temperature))
    (hp : p ∈ points) (hq : q ∈ points) (he : p.temperature = q.temperature) : p = q := by
  have heq : points.Pairwise fun a b ↦ a.temperature = b.temperature → a = b :=
    h.imp fun hab he ↦ absurd he (UInt8.ne_of_lt hab)
  have hflip : points.Pairwise (flip fun a b ↦ a.temperature = b.temperature → a = b) :=
    h.imp fun hab he ↦ absurd he.symm (UInt8.ne_of_lt hab)
  exact heq.forall_of_forall_of_flip (fun _ _ _ ↦ rfl) hflip hp hq he

theorem pwm_le_of_temperature_le (h : points.Pairwise (·.temperature < ·.temperature))
    (hrise : points.Pairwise (·.pwm ≤ ·.pwm)) (hp : p ∈ points) (hq : q ∈ points)
    (hle : p.temperature ≤ q.temperature) : p.pwm ≤ q.pwm := by
  have hup : points.Pairwise fun a b ↦ a.temperature ≤ b.temperature → a.pwm ≤ b.pwm :=
    hrise.imp fun {a b} hab (_ : a.temperature ≤ b.temperature) ↦ hab
  have hflip : points.Pairwise
      (flip fun a b ↦ a.temperature ≤ b.temperature → a.pwm ≤ b.pwm) :=
    h.imp fun hab hba ↦ absurd hab (UInt8.not_lt.2 hba)
  exact hup.forall_of_forall_of_flip (fun _ _ _ ↦ UInt8.le_refl _) hflip hp hq hle

/-- The deciding point moves up with the temperature. -/
theorem Governs.mono {s : Line} (hp : Governs points r p) (hq : Governs points s q) (hrs : r ≤ s) :
    p.temperature ≤ q.temperature := by
  cases hp with
  | above hp hall hleast => exact hleast q hq.mem
  | reached hp hpr hmax =>
    cases hq with
    | reached hq hqs hmax' => exact hmax' p hp (hpr.trans hrs)
    | above hq hall hleast => exact absurd (hpr.trans hrs) (not_le_of_gt (hall p hp))

theorem Governs.unique (h : points.Pairwise (·.temperature < ·.temperature))
    (hp : Governs points r p) (hq : Governs points r q) : p = q :=
  eq_of_temperature_eq h hp.mem hq.mem
    (UInt8.le_antisymm (hp.mono hq le_rfl) (hq.mono hp le_rfl))

end Curve

section Cooler

variable {c after : Cooler} {points : List CurvePoint} {t : Binary64}

theorem toNat_fanRpm_of_curve (hv : (FanDrive.curve points).IsValid)
    (hc : c.fans = .curve points) :
    c.fanRpm.toNat = 20 * (dutyAt points c.temperature).toNat := by
  have hfans : c.fans.IsValid := hc ▸ hv
  rw [Cooler.toNat_fanRpm hfans, hc]
  rfl

/-- With a curve that was taken the fans turn as its deciding point says, which is the only one; no
other is found by looking through the whole curve; and where the curve never falls, the speed does
not fall either as it gets warmer. -/
theorem fans_follow_curve (h : c.setCurve points = .ok after) :
    (∀ (t : Binary64) (r : Line), t.number? = some r →
      ∃ (p : CurvePoint) (speed : UInt16),
        Governs points r p ∧ (∀ q, Governs points r q → q = p) ∧
        speed.toNat = 20 * p.pwm.toNat ∧
        { after with temperature := t }.fansRpm = List.replicate c.fanCount speed) ∧
    (∀ t : Binary64, curveDuty points t = dutyAt points t) ∧
    (points.Pairwise (·.pwm ≤ ·.pwm) →
      ∀ (t u : Binary64) (r s : Line), t.number? = some r → u.number? = some s → r ≤ s →
        { after with temperature := t }.fanRpm ≤ { after with temperature := u }.fanRpm) := by
  obtain ⟨hv, rfl⟩ := Cooler.drive_eq_ok_iff.1 (show c.drive (.curve points) = .ok after from h)
  obtain ⟨hne, -, horder⟩ := id hv
  refine ⟨fun t r ht ↦ ?_, fun t ↦ curveDuty_eq_dutyAt t horder, fun hrise t u r s ht hu hrs ↦ ?_⟩
  · obtain ⟨p, hp, hduty⟩ := exists_governs hne horder ht
    refine ⟨p, _, hp, fun q hq ↦ hq.unique horder hp, ?_, rfl⟩
    rw [toNat_fanRpm_of_curve hv rfl, hduty]
  · obtain ⟨p, hp, hdutyp⟩ := exists_governs hne horder ht
    obtain ⟨q, hq, hdutyq⟩ := exists_governs hne horder hu
    have hpwm : p.pwm.toNat ≤ q.pwm.toNat :=
      pwm_le_of_temperature_le horder hrise hp.mem hq.mem (hp.mono hq hrs)
    rw [UInt16.le_iff_toNat_le, toNat_fanRpm_of_curve hv rfl, toNat_fanRpm_of_curve hv rfl,
      hdutyp, hdutyq]
    omega

def steps : List CurvePoint := [⟨20, 10⟩, ⟨30, 40⟩, ⟨40, 100⟩]

def stepped : Cooler := { name := "test", fanCount := 3, fans := .curve steps }

theorem fans_follow_curve_in_steps :
    Cooler.setCurve { name := "test", fanCount := 3 } steps = .ok stepped ∧
    (∃ (p : CurvePoint) (speed : UInt16),
      Governs steps (onLine (Binary64.scale 71 (-1))) p ∧ speed.toNat = 20 * p.pwm.toNat ∧
      { stepped with temperature := .finite false 71 (-1) }.fansRpm = List.replicate 3 speed) ∧
    { stepped with temperature := .infinite true }.fanRpm ≤
      { stepped with temperature := .finite false 71 (-1) }.fanRpm := by
  have hset : Cooler.setCurve { name := "test", fanCount := 3 } steps = .ok stepped := rfl
  have hrise : steps.Pairwise (·.pwm ≤ ·.pwm) := by decide
  obtain ⟨hfollow, -, hmono⟩ := fans_follow_curve hset
  obtain ⟨p, speed, hp, -, hspeed, hfans⟩ := hfollow (.finite false 71 (-1)) _ rfl
  exact ⟨hset, ⟨p, speed, hp, hspeed, hfans⟩, hmono hrise _ _ _ _ rfl rfl bot_le⟩

end Cooler

end Cooling

end LocalHttp
