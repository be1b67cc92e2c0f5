import LocalHttp.Proofs.Fields
import LocalHttp.Proofs.Utf8
import Mathlib.Data.String.Basic

namespace LocalHttp

namespace Bytes

inductive Code : Nat → Bytes → Prop
  | one {n : Nat} : n < 0x80 → Code n [UInt8.ofNat n]
  | two {n : Nat} : 0x80 ≤ n → n < 0x800 →
    Code n [UInt8.ofNat (n / 64 + 0xc0), UInt8.ofNat (n % 64 + 0x80)]
  | three {n : Nat} : 0x800 ≤ n → n < 0x10000 →
    Code n [UInt8.ofNat (n / 4096 + 0xe0), UInt8.ofNat (n / 64 % 64 + 0x80),
      UInt8.ofNat (n % 64 + 0x80)]
  | four {n : Nat} : 0x10000 ≤ n → n < 0x110000 →
    Code n [UInt8.ofNat (n / 262144 + 0xf0), UInt8.ofNat (n / 4096 % 64 + 0x80),
      UInt8.ofNat (n / 64 % 64 + 0x80), UInt8.ofNat (n % 64 + 0x80)]

theorem code_utf8EncodeChar (c : Char) : Code c.val.toNat (String.utf8EncodeChar c) := by
  have hmax : c.val.toNat < 0x110000 := c.valid.elim (fun h ↦ Nat.lt_trans h (by decide)) (·.2)
  unfold String.utf8EncodeChar
  generalize c.val.toNat = n at hmax
  dsimp only
  split
  · exact .one (by omega)
  · split
    · rw [Nat.mod_eq_of_lt (by omega : n / 64 < 0x20)]
      exact .two (by omega) (by omega)
    · split
      · rw [Nat.mod_eq_of_lt (by omega : n / 4096 < 0x10)]
        exact .three (by omega) (by omega)
      · rw [Nat.mod_eq_of_lt (by omega : n / 262144 < 8)]
        exact .four (by omega) hmax

theorem Code.append_lt {m n : Nat} {p q : Bytes} (hp : Code m p) (hq : Code n q) (h : m < n)
    (xs ys : Bytes) : p ++ xs < q ++ ys := by
  cases hp <;> cases hq <;>
    simp only [List.cons_append, List.cons_lt_cons_iff, UInt8.lt_iff_toNat_lt, ← UInt8.toNat_inj,
      UInt8.toNat_ofNat']
  all_goals simp (disch := omega) only [Nat.mod_eq_of_lt]
  all_goals omega

theorem flatMap_utf8EncodeChar_lt {cs ds : List Char} (h : cs < ds) :
    cs.flatMap String.utf8EncodeChar < ds.flatMap String.utf8EncodeChar := by
  induction h with
  | @nil d ds =>
    obtain ⟨b, rest, hb⟩ := List.exists_cons_of_ne_nil (String.utf8EncodeChar_ne_nil (c := d))
    rw [List.flatMap_nil, List.flatMap_cons, hb]
    exact List.nil_lt_cons b _
  | rel h =>
    rw [List.flatMap_cons, List.flatMap_cons]
    exact (code_utf8EncodeChar _).append_lt (code_utf8EncodeChar _) h _ _
  | cons _ ih =>
    rw [List.flatMap_cons, List.flatMap_cons]
    exact List.append_left_lt ih

/-- Texts are in the order of their bytes. -/
theorem ofText_lt_ofText_iff {s t : String} : ofText s < ofText t ↔ s < t := by
  have hlt {s t : String} (h : s < t) : ofText s < ofText t := by
    rw [ofText_eq, ofText_eq]
    exact flatMap_utf8EncodeChar_lt (String.lt_iff_toList_lt.1 h)
  refine ⟨fun h ↦ ?_, hlt⟩
  rcases lt_trichotomy s t with hst | rfl | hts
  · exact hst
  · exact absurd h (List.lt_irrefl _)
  · exact absurd h (List.lt_asymm (hlt hts))

end Bytes

namespace Text

/-- Whether two words are equal up to the case of ASCII letters. -/
def SameWord (a b : String) : Prop := a.toLower = b.toLower

theorem sameWord_iff {a b : String} :
    SameWord a b ↔ a.toList.map Char.toLower = b.toList.map Char.toLower := by
  rw [SameWord, toLower_eq_iff, toList_toLower]

instance (a b : String) : Decidable (SameWord a b) := decidable_of_iff _ sameWord_iff.symm

theorem case_of_le {c : Char} (h : 128 ≤ c.val.toNat) : c.toUpper = c ∧ c.toLower = c := by
  constructor
  · refine dif_neg fun hc ↦ ?_
    have hz : c.val.toNat ≤ 'z'.val.toNat := UInt32.le_iff_toNat_le.1 hc.2
    exact absurd (Nat.le_trans h hz) (by decide)
  · refine dif_neg fun hc ↦ ?_
    have hz : c.val.toNat ≤ 'Z'.val.toNat := UInt32.le_iff_toNat_le.1 hc.2
    exact absurd (Nat.le_trans h hz) (by decide)

theorem case_of_case (c : Char) :
    c.toUpper.toLower = c.toLower ∧ c.toLower.toUpper = c.toUpper := by
  rcases Nat.lt_or_ge c.val.toNat 128 with h | h
  · have hascii : ∀ n < 128, (Char.ofNat n).toUpper.toLower = (Char.ofNat n).toLower ∧
        (Char.ofNat n).toLower.toUpper = (Char.ofNat n).toUpper := by decide +kernel
    have hc := hascii c.toNat h
    rwa [Char.ofNat_toNat] at hc
  · obtain ⟨hu, hl⟩ := case_of_le h
    rw [hu, hl, hu]
    exact ⟨rfl, rfl⟩

theorem toList_toUpper (s : String) : s.toUpper.toList = s.toList.map Char.toUpper :=
  String.toList_map

theorem toLower_toUpper (s : String) : s.toUpper.toLower = s.toLower := by
  rw [← String.toList_inj, toList_toLower, toList_toLower, toList_toUpper, List.map_map]
  exact List.map_congr_left fun c _ ↦ (case_of_case c).1

theorem toUpper_toLower (s : String) : s.toLower.toUpper = s.toUpper := by
  rw [← String.toList_inj, toList_toUpper, toList_toUpper, toList_toLower, List.map_map]
  exact List.map_congr_left fun c _ ↦ (case_of_case c).2

theorem toUpper_eq_iff {a b : String} : a.toUpper = b.toUpper ↔ SameWord a b := by
  constructor
  · intro h
    rw [SameWord, ← toLower_toUpper a, h, toLower_toUpper]
  · intro h
    rw [← toUpper_toLower a, show a.toLower = b.toLower from h, toUpper_toLower]

end Text

end LocalHttp
