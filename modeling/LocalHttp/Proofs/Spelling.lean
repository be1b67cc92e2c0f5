import LocalHttp.Json.Record
import LocalHttp.Json.Value
import LocalHttp.Proofs.Numeral
import LocalHttp.Proofs.Utf8
import Mathlib.Data.List.Forall2

namespace LocalHttp.Json

open Bytes (asciiByte ofText)

namespace Cursor

variable {c : Cursor} {b : UInt8} {rest : Bytes}

theorem peek?_of_rest (h : c.rest = b :: rest) : c.peek? = some b := by
  rw [peek?, h, List.head?_cons]

theorem rest_next (h : c.rest = b :: rest) : c.next.rest = rest := by
  unfold next
  rw [h]
  dsimp only [pass]
  split
  · rfl
  · rfl

theorem skipBlanks_of_rest (h : c.rest = b :: rest) (hb : isBlank b = false) :
    c.skipBlanks = c := by
  have hn : b ≠ 0x0a := by
    intro hn
    subst hn
    cases hb
  obtain ⟨bytes, line, column⟩ := c
  simp only at h
  subst h
  rw [skipBlanks, skipBlanksFrom, if_neg hn, hb, if_neg Bool.false_ne_true]

theorem rest_advance (c : Cursor) (count : Nat) : (c.advance count).rest = c.rest.drop count := by
  induction count generalizing c with
  | zero => rfl
  | succ count ih =>
    rw [advance, ih]
    cases hr : c.rest with
    | nil =>
      have hnext : c.next = c := by
        rw [next, hr]
      rw [hnext, hr, List.drop_nil, List.drop_nil]
    | cons b rest => rw [rest_next hr, List.drop_succ_cons]

end Cursor

/-- What does not go on in a number. -/
def Ends (rest : Bytes) : Prop := ∀ b ∈ rest.head?, b = 0x2c ∨ b = 0x5d ∨ b = 0x7d

def NoDigit (rest : Bytes) : Prop := ∀ b ∈ rest.head?, isDigit b = false

theorem Ends.noDigit {rest : Bytes} (h : Ends rest) : NoDigit rest := by
  intro b hb
  rcases h b hb with rfl | rfl | rfl
  all_goals rfl

theorem Ends.stops {c : Cursor} (h : Ends c.rest) :
    startsExponent c = false ∧ c.peek? ≠ some 0x2e := by
  unfold startsExponent Cursor.peek?
  cases hc : c.rest with
  | nil => exact ⟨rfl, nofun⟩
  | cons b rest =>
    rw [hc] at h
    rcases h b rfl with rfl | rfl | rfl
    all_goals exact ⟨rfl, by simp⟩

section Numbers

variable {n : Nat} {c : Cursor} {rest : Bytes}

theorem toNat_of_isDigit {c : Char} (h : c.isDigit = true) : 48 ≤ c.toNat ∧ c.toNat ≤ 57 := by
  simp only [Char.isDigit, Bool.and_eq_true, decide_eq_true_eq, UInt32.le_iff_toNat_le] at h
  exact h

theorem toNat_lt_of_isDigit {c : Char} (h : c.isDigit = true) : c.toNat < 128 :=
  Nat.lt_of_le_of_lt (toNat_of_isDigit h).2 (by decide)

theorem asciiByte_isDigit {c : Char} (h : c.isDigit = true) :
    isDigit (asciiByte c) = true ∧ digitOf (asciiByte c) = c.toNat - '0'.toNat := by
  obtain ⟨hlow, hhigh⟩ := toNat_of_isDigit h
  have hbyte : (asciiByte c).toNat = c.toNat := Bytes.toNat_asciiByte (toNat_lt_of_isDigit h)
  refine ⟨?_, ?_⟩
  · simp only [isDigit, Bool.and_eq_true, decide_eq_true_eq, UInt8.le_iff_toNat_le, hbyte]
    exact ⟨hlow, hhigh⟩
  · rw [digitOf, hbyte]
    rfl

theorem significandFrom_append {digits : List Char} {value count : Nat}
    (hd : ∀ c ∈ digits, c.isDigit = true)
    (hle : Nat.ofDigitChars 10 digits value ≤ maxSignificand) (hrest : NoDigit rest) :
    significandFrom value count (digits.map asciiByte ++ rest) =
      (Nat.ofDigitChars 10 digits value, count + digits.length) := by
  induction digits generalizing value count with
  | nil =>
    cases rest with
    | nil => rfl
    | cons b rest =>
      rw [List.map_nil, List.nil_append, significandFrom, hrest b rfl]
      rfl
  | cons c digits ih =>
    rw [List.forall_mem_cons] at hd
    obtain ⟨hdigit, hvalue⟩ := asciiByte_isDigit hd.1
    have hstep : value * 10 + digitOf (asciiByte c) = 10 * value + (c.toNat - '0'.toNat) := by
      rw [hvalue]
      omega
    rw [Nat.ofDigitChars_cons, ← hstep] at hle ⊢
    have hfirst := Nat.le_trans (Text.le_ofDigitChars _ _) hle
    rw [List.map_cons, List.cons_append, significandFrom, hdigit, if_pos (by simpa using hfirst),
      ih hd.2 hle, List.length_cons]
    congr 1
    omega

theorem head?_toDigits_ne_zero (h : 0 < n) : (Nat.toDigits 10 n).head? ≠ some '0' := by
  induction n using Nat.strongRecOn with
  | ind n ih =>
    rcases Nat.lt_or_ge n 10 with hn | hn
    · rw [Nat.toDigits_of_lt_base hn, List.head?_cons]
      have hall : ∀ m < 10, 0 < m → some m.digitChar ≠ some '0' := by decide
      exact hall n hn h
    · have hfront : (Nat.toDigits 10 (n / 10)).head? ≠ some '0' := ih (n / 10) (by omega) (by omega)
      rw [Nat.toDigits_of_base_le (by decide) hn]
      cases hd : Nat.toDigits 10 (n / 10) with
      | nil => exact absurd hd Nat.toDigits_ne_nil
      | cons d digits =>
        rw [hd] at hfront
        exact hfront

/-- A number has a first digit, and if that is zero it has no other. -/
theorem exists_toDigits (n : Nat) :
    ∃ d digits, Nat.toDigits 10 n = d :: digits ∧ d.isDigit = true ∧ (d = '0' → digits = []) := by
  obtain ⟨d, digits, hd⟩ := List.exists_cons_of_ne_nil (Nat.toDigits_ne_nil (n := n) (b := 10))
  have hmem : d ∈ Nat.toDigits 10 n := hd ▸ List.mem_cons_self
  refine ⟨d, digits, hd, Nat.isDigit_of_mem_toDigits (by decide) (by decide) hmem, ?_⟩
  intro hz
  rcases Nat.eq_zero_or_pos n with hn | hn
  · subst hn
    exact (List.cons.inj hd).2.symm
  · have hne := head?_toDigits_ne_zero hn
    rw [hd, List.head?_cons, hz] at hne
    exact absurd rfl hne

theorem ofText_repr (n : Nat) : ofText (Nat.repr n) = (Nat.toDigits 10 n).map asciiByte := by
  rw [Bytes.ofText_of_ascii, Nat.toList_repr]
  intro c hc
  exact toNat_lt_of_isDigit (Text.isDigit_of_mem_repr hc)

structure IsWhole (digits : List Char) : Prop where
  all : ∀ d ∈ digits, d.isDigit = true
  shape : ∃ d others, digits = d :: others ∧ (d = '0' → others = [])

theorem isWhole_toDigits (n : Nat) : IsWhole (Nat.toDigits 10 n) := by
  obtain ⟨d, digits, hd, -, honly⟩ := exists_toDigits n
  exact ⟨fun _ hc ↦ Nat.isDigit_of_mem_toDigits (by decide) (by decide) hc, d, digits, hd, honly⟩

theorem NoDigit.digitCount_eq (h : NoDigit rest) : digitCount rest = 0 := by
  cases rest with
  | nil => rfl
  | cons b rest => rw [digitCount, List.takeWhile_cons_of_neg (by simp [h b rfl]), List.length_nil]

theorem NoDigit.startsWithDigit_eq (h : NoDigit c.rest) : startsWithDigit c = false := by
  unfold startsWithDigit Cursor.peek?
  cases hc : c.rest with
  | nil => rfl
  | cons b rest =>
    rw [hc] at h
    exact h b rfl

/-- The digits before a point are taken together; what is behind them decides how it goes on. -/
theorem exists_readNumber_eq {whole : List Char} (hw : IsWhole whole)
    (hle : Nat.ofDigitChars 10 whole 0 ≤ maxSignificand)
    (hc : c.rest = whole.map asciiByte ++ rest) (hrest : NoDigit rest) (negative : Bool) :
    ∃ after, after.rest = rest ∧ readNumber negative c =
      if after.peek? = some 0x2e then
        readFraction negative (Nat.ofDigitChars 10 whole 0) 0 after
      else if startsExponent after then
        readExponent negative (Nat.ofDigitChars 10 whole 0) 0 after
      else .ok (wholeNumber negative (Nat.ofDigitChars 10 whole 0), after) := by
  have hsignificand :
      significandFrom 0 0 c.rest = (Nat.ofDigitChars 10 whole 0, whole.length) := by
    rw [hc, significandFrom_append hw.all hle hrest, Nat.zero_add]
  have hafter : (c.advance whole.length).rest = rest := by
    rw [Cursor.rest_advance, hc, ← List.length_map (f := asciiByte), List.drop_left]
  have hcount : digitCount (c.advance whole.length).rest = 0 :=
    NoDigit.digitCount_eq (hafter.symm ▸ hrest)
  obtain ⟨d, digits, rfl, honly⟩ := hw.shape
  have hdigit : d.isDigit = true := hw.all d List.mem_cons_self
  have hbyte : isDigit (asciiByte d) = true := (asciiByte_isDigit hdigit).1
  have hzero : ¬(asciiByte d = 0x30 ∧ startsWithDigit c.next = true) := by
    rintro ⟨hz, hmore⟩
    have hd0 : d = '0' := Bytes.asciiByte_inj (toNat_lt_of_isDigit hdigit) (by decide) hz
    rw [honly hd0] at hc
    have hnext : c.next.rest = rest := Cursor.rest_next hc
    rw [NoDigit.startsWithDigit_eq (hnext.symm ▸ hrest)] at hmore
    cases hmore
  refine ⟨c.advance (d :: digits).length, hafter, ?_⟩
  rw [readNumber, Cursor.peek?_of_rest hc]
  simp only [hbyte, hsignificand, hcount, Cursor.advance]
  simp [hzero]

theorem exists_readSignedNumber (hn : n ≤ maxSignificand)
    (hc : c.rest = ofText (Nat.repr n) ++ rest) (hrest : Ends rest) :
    ∃ after, readSignedNumber c = .ok (.integer n, after) ∧ after.rest = rest := by
  rw [ofText_repr] at hc
  have hvalue : Nat.ofDigitChars 10 (Nat.toDigits 10 n) 0 = n := Nat.ofDigitChars_ten_toDigits
  obtain ⟨after, hafter, hread⟩ := exists_readNumber_eq (isWhole_toDigits n) (by rwa [hvalue]) hc
    hrest.noDigit false
  obtain ⟨hexponent, hpoint⟩ := Ends.stops (c := after) (hafter.symm ▸ hrest)
  obtain ⟨d, digits, hd, hdigit, -⟩ := exists_toDigits n
  have hsign : c.peek? ≠ some 0x2d := by
    rw [hd] at hc
    rw [Cursor.peek?_of_rest hc, ne_eq, Option.some.injEq]
    intro hs
    have hbyte : isDigit (asciiByte d) = true := (asciiByte_isDigit hdigit).1
    rw [hs] at hbyte
    cases hbyte
  refine ⟨after, ?_, hafter⟩
  rw [readSignedNumber, if_neg hsign, hread, if_neg hpoint, hexponent, hvalue]
  rfl

end Numbers

def opensValue (b : UInt8) : Bool := b == 0x5b || b == 0x7b || isDigit b

theorem opensValue_cases {b : UInt8} (h : opensValue b = true) :
    Cursor.isBlank b = false ∧ b ≠ 0x5d ∧ b ≠ 0x6e := by
  have hall := Bytes.forall_byte
    (p := fun b ↦ !opensValue b || (!Cursor.isBlank b && b != 0x5d && b != 0x6e))
    (by decide +kernel) b
  simpa [h, and_assoc] using hall

/-- The text is read as the value. -/
structure Spells {α : Type} (read : Cursor → Result α) (text : Bytes) (x : α) : Prop where
  opens : ∃ b rest, text = b :: rest ∧ opensValue b = true
  reads : ∀ c rest, c.rest = text ++ rest → Ends rest →
    ∃ after, read c = .ok (x, after) ∧ after.rest = rest

namespace Spells

variable {α β : Type} {read : Cursor → Result α} {text : Bytes} {x : α}

theorem skipBlanks (h : Spells read text x) {c : Cursor} {rest : Bytes}
    (hc : c.rest = text ++ rest) :
    c.skipBlanks = c ∧ ∃ b, c.peek? = some b ∧ opensValue b = true := by
  obtain ⟨b, others, rfl, hb⟩ := h.opens
  rw [List.cons_append] at hc
  exact ⟨Cursor.skipBlanks_of_rest hc (opensValue_cases hb).1, b, Cursor.peek?_of_rest hc, hb⟩

theorem map (h : Spells read text x) (f : α → β) :
    Spells (fun c ↦ (read c).map fun (x, c) ↦ (f x, c)) text (f x) where
  opens := h.opens
  reads := by
    intro c rest hc hrest
    obtain ⟨after, hread, hafter⟩ := h.reads c rest hc hrest
    refine ⟨after, ?_, hafter⟩
    rw [hread]
    rfl

theorem optional (h : Spells read text x) : Spells (readOptional read) text (some x) where
  opens := h.opens
  reads := by
    intro c rest hc hrest
    obtain ⟨after, hread, hafter⟩ := h.reads c rest hc hrest
    obtain ⟨hskip, b, hpeek, hb⟩ := h.skipBlanks hc
    have hnull : ¬c.peek? = some 0x6e := by
      rw [hpeek, Option.some.injEq]
      exact (opensValue_cases hb).2.2
    refine ⟨after, ?_, hafter⟩
    rw [readOptional, hskip, if_neg hnull, hread]
    rfl

theorem readWhole (h : Spells read text x) : Json.readWhole read text = .ok x := by
  obtain ⟨after, hread, hafter⟩ := h.reads ⟨text, 1, 0⟩ [] (List.append_nil text).symm nofun
  have hblank : after.skipBlanks.rest = [] := by
    rw [Cursor.skipBlanks, hafter]
    rfl
  rw [Json.readWhole, hread, finish]
  simp only [hblank]
  rfl

end Spells

theorem spells_ofNat {bits n : Nat} (hbits : bits ≤ 64) (hn : n < Nat.pow 2 bits) :
    Spells (readUnsigned bits) (ofText (Value.ofNat n).text) n := by
  obtain ⟨d, digits, hd, hchar, -⟩ := exists_toDigits n
  have hdigit : isDigit (asciiByte d) = true := (asciiByte_isDigit hchar).1
  have htext : ofText (Value.ofNat n).text = asciiByte d :: digits.map asciiByte := by
    change ofText (Nat.repr n) = _
    rw [ofText_repr, hd]
    rfl
  have hopens : opensValue (asciiByte d) = true := by
    simp [opensValue, hdigit]
  refine ⟨⟨_, _, htext, hopens⟩, ?_⟩
  intro c rest hc hrest
  have hmax : n ≤ maxSignificand :=
    Nat.le_sub_one_of_lt (Nat.lt_of_lt_of_le hn (Nat.pow_le_pow_right (by decide) hbits))
  obtain ⟨after, hread, hafter⟩ := exists_readSignedNumber hmax hc hrest
  rw [htext, List.cons_append] at hc
  refine ⟨after, ?_, hafter⟩
  rw [readUnsigned, Cursor.skipBlanks_of_rest hc (opensValue_cases hopens).1,
    Cursor.peek?_of_rest hc]
  simp [hdigit, hread]
  exact hn

/-- The texts behind the first one, each with its comma. -/
def behind (texts : List Bytes) : Bytes := texts.flatMap (0x2c :: ·)

def joined : List Bytes → Bytes
  | [] => []
  | text :: texts => text ++ behind texts

theorem ends_behind (texts : List Bytes) {b : UInt8} (hb : b = 0x5d ∨ b = 0x7d) (rest : Bytes) :
    Ends (behind texts ++ b :: rest) := by
  intro first hfirst
  cases texts with
  | nil =>
    obtain rfl : b = first := Option.some.inj hfirst
    exact .inr hb
  | cons text texts =>
    obtain rfl : 0x2c = first := Option.some.inj hfirst
    exact .inl rfl

theorem length_le_joined (texts : List Bytes) : texts.length ≤ (joined texts).length + 1 := by
  have hbehind (texts : List Bytes) : texts.length ≤ (behind texts).length := by
    induction texts with
    | nil => exact Nat.le_refl 0
    | cons text texts ih =>
      simp only [behind, List.flatMap_cons, List.length_append, List.length_cons] at ih ⊢
      omega
  cases texts with
  | nil => exact Nat.zero_le _
  | cons text texts =>
    have hle := hbehind texts
    simp only [joined, List.length_append, List.length_cons]
    omega

section Names

/-- Names that stand for themselves between quotes. -/
def isPlain (name : String) : Bool :=
  name.toList.all fun c ↦ c.toNat < 128 && escapeChar c == [c] && isRaw (asciiByte c)

variable {name : String}

theorem isPlain_iff : isPlain name = true ↔
    ∀ c ∈ name.toList, c.toNat < 128 ∧ escapeChar c = [c] ∧ isRaw (asciiByte c) = true := by
  simp [isPlain, and_assoc]

theorem lossyChars_of_ascii {cs : List Char} (h : ∀ c ∈ cs, c.toNat < 128) (done : List Char) :
    Bytes.lossyChars done (cs.map asciiByte) = done.reverse ++ cs := by
  induction cs generalizing done with
  | nil => rw [List.map_nil, Bytes.lossyChars, List.append_nil]
  | cons c cs ih =>
    rw [List.forall_mem_cons] at h
    have hbyte : (asciiByte c).toNat = c.toNat := Bytes.toNat_asciiByte h.1
    have hlow : asciiByte c < 0x80 := by
      rw [UInt8.lt_iff_toNat_lt, hbyte]
      exact h.1
    have hdecode : Bytes.decodeChar (asciiByte c) (cs.map asciiByte) =
        (some c, cs.map asciiByte) := by
      rw [Bytes.decodeChar, Bytes.lead?, if_pos hlow]
      simp only [Bytes.continuation, hbyte, Char.ofNat_toNat]
    rw [List.map_cons, Bytes.lossyChars, hdecode, ih h.2]
    simp

theorem exists_readQuoted (h : isPlain name = true) {c : Cursor} {rest : Bytes}
    (hc : c.rest = ofText name ++ 0x22 :: rest) :
    ∃ after, readQuoted c = .ok (name, after) ∧ after.rest = rest := by
  have hn := isPlain_iff.1 h
  have hascii : ∀ d ∈ name.toList, d.toNat < 128 := fun d hd ↦ (hn d hd).1
  have htext : ofText name = name.toList.map asciiByte := Bytes.ofText_of_ascii hascii
  have hraw : ∀ b ∈ ofText name, isRaw b = true := by
    rw [htext]
    intro b hb
    obtain ⟨d, hd, rfl⟩ := List.mem_map.1 hb
    exact (hn d hd).2.2
  have htake : c.rest.takeWhile isRaw = ofText name := by
    rw [hc, List.takeWhile_append_of_pos hraw]
    exact List.append_nil _
  have hafter : (c.advance (ofText name).length).rest = 0x22 :: rest := by
    rw [Cursor.rest_advance, hc, List.drop_left]
  refine ⟨(c.advance (ofText name).length).next, ?_, Cursor.rest_next hafter⟩
  rw [readQuoted, readQuotedFrom]
  simp only [htake, Cursor.peek?_of_rest hafter, codePointFault, Bytes.text?_ofText]
  rw [htext, lossyChars_of_ascii hascii]
  simp

theorem ofText_stringText (hn : isPlain name = true) :
    ofText (stringText name) = 0x22 :: (ofText name ++ [0x22]) := by
  have hescape (cs : List Char) (h : ∀ c ∈ cs, escapeChar c = [c]) :
      cs.flatMap escapeChar = cs := by
    induction cs with
    | nil => rfl
    | cons c cs ih =>
      rw [List.forall_mem_cons] at h
      rw [List.flatMap_cons, h.1, ih h.2]
      rfl
  have htext : stringText name = "\"" ++ name ++ "\"" := by
    rw [stringText, hescape _ fun c hc ↦ (isPlain_iff.1 hn c hc).2.1]
    apply String.toList_inj.1
    simp
  rw [htext, Bytes.ofText_append, Bytes.ofText_append]
  rfl

end Names

section Texts

theorem ofText_intercalate (texts : List String) :
    ofText (",".intercalate texts) = joined (texts.map ofText) := by
  induction texts with
  | nil => rfl
  | cons text texts ih =>
    cases texts with
    | nil => simp [joined, behind]
    | cons other texts =>
      rw [String.intercalate_cons_cons, Bytes.ofText_append, Bytes.ofText_append, ih]
      simp only [List.map_cons, joined, behind, List.flatMap_cons, List.append_assoc]
      rfl

theorem itemTexts_eq (items : List Value) : itemTexts items = items.map Value.text := by
  induction items with
  | nil => rfl
  | cons v items ih => rw [itemTexts, ih, List.map_cons]

theorem memberTexts_eq (members : List (String × Value)) :
    memberTexts members = members.map fun m ↦ stringText m.1 ++ ":" ++ m.2.text := by
  induction members with
  | nil => rfl
  | cons m members ih => rw [memberTexts, ih, List.map_cons]

theorem ofText_array (items : List Value) :
    ofText (Value.array items).text =
      0x5b :: (joined (items.map fun v ↦ ofText v.text) ++ [0x5d]) := by
  rw [Value.text, Bytes.ofText_append, Bytes.ofText_append, ofText_intercalate, itemTexts_eq,
    List.map_map]
  rfl

def memberText (m : String × Value) : Bytes := ofText (stringText m.1) ++ 0x3a :: ofText m.2.text

theorem ofText_object (members : List (String × Value)) :
    ofText (Value.object members).text = 0x7b :: (joined (members.map memberText) ++ [0x7d]) := by
  have hmap : (memberTexts members).map ofText = members.map memberText := by
    rw [memberTexts_eq, List.map_map]
    refine List.map_congr_left fun m _ ↦ ?_
    rw [Function.comp, Bytes.ofText_append, Bytes.ofText_append, List.append_assoc, memberText]
    rfl
  rw [Value.text, Bytes.ofText_append, Bytes.ofText_append, ofText_intercalate, hmap]
  rfl

def written (name : String) (v : Value) : Bytes :=
  0x22 :: (ofText name ++ 0x22 :: 0x3a :: ofText v.text)

theorem memberText_of_plain {m : String × Value} (h : isPlain m.1 = true) :
    memberText m = written m.1 m.2 := by
  rw [memberText, ofText_stringText h]
  simp only [List.cons_append, List.append_assoc]
  rfl

end Texts

section Lists

variable {α : Type} {item : Cursor → Result α} {c : Cursor} {rest : Bytes}

theorem nextItem?_end (first : Bool) (hc : c.rest = 0x5d :: rest) :
    nextItem? first c = .ok (false, c) := by
  rw [nextItem?, Cursor.skipBlanks_of_rest hc rfl, Cursor.peek?_of_rest hc]
  rfl

theorem closeList_of_rest (hc : c.rest = 0x5d :: rest) : closeList c = (c.next, none) := by
  rw [closeList, Cursor.skipBlanks_of_rest hc rfl, Cursor.peek?_of_rest hc]
  rfl

/-- The text is read, as something of which `P` holds, and can be an item of a list. -/
structure Yields (read : Cursor → Result α) (text : Bytes) (P : α → Prop) : Prop where
  opens : ∃ b others, text = b :: others ∧ Cursor.isBlank b = false ∧ b ≠ 0x5d
  reads : ∀ c rest, c.rest = text ++ rest → Ends rest →
    ∃ x after, read c = .ok (x, after) ∧ P x ∧ after.rest = rest

theorem Yields.skipBlanks {text : Bytes} {P : α → Prop} (h : Yields item text P)
    (hc : c.rest = text ++ rest) : c.skipBlanks = c ∧ ∃ b, c.peek? = some b ∧ b ≠ 0x5d := by
  obtain ⟨b, others, rfl, hblank, hclose⟩ := h.opens
  rw [List.cons_append] at hc
  exact ⟨Cursor.skipBlanks_of_rest hc hblank, b, Cursor.peek?_of_rest hc, hclose⟩

theorem Spells.yields {text : Bytes} {x : α} (h : Spells item text x) :
    Yields item text (x = ·) := by
  obtain ⟨b, others, htext, hb⟩ := h.opens
  obtain ⟨hblank, hclose, -⟩ := opensValue_cases hb
  refine ⟨⟨b, others, htext, hblank, hclose⟩, fun c rest hc hrest ↦ ?_⟩
  obtain ⟨after, hread, hafter⟩ := h.reads c rest hc hrest
  exact ⟨x, after, hread, rfl, hafter⟩

variable {entries : List (Bytes × (α → Prop))}

/-- Items behind others are read up to the bracket. -/
theorem exists_readItems (h : ∀ e ∈ entries, Yields item e.1 e.2) {fuel : Nat}
    (hfuel : entries.length < fuel) (done : List α)
    (hc : c.rest = behind (entries.map (·.1)) ++ 0x5d :: rest) :
    ∃ xs after, readItems item fuel false c done = .ok (done.reverse ++ xs, after) ∧
      List.Forall₂ (fun e x ↦ e.2 x) entries xs ∧ after.rest = 0x5d :: rest := by
  induction entries generalizing fuel c done with
  | nil =>
    obtain ⟨fuel, rfl⟩ := Nat.exists_eq_add_of_lt hfuel
    refine ⟨[], c, ?_, .nil, hc⟩
    rw [readItems, nextItem?_end false hc, List.append_nil]
  | cons e entries ih =>
    obtain ⟨fuel, rfl⟩ := Nat.exists_eq_add_of_lt hfuel
    rw [List.forall_mem_cons] at h
    have hrest : c.rest = 0x2c :: (e.1 ++ (behind (entries.map (·.1)) ++ 0x5d :: rest)) := by
      rw [hc]
      simp [behind]
    have hnext : c.next.rest = e.1 ++ (behind (entries.map (·.1)) ++ 0x5d :: rest) :=
      Cursor.rest_next hrest
    obtain ⟨hskip, b, hpeek, hclose⟩ := h.1.skipBlanks hnext
    obtain ⟨x, mid, hread, hx, hmid⟩ := h.1.reads c.next _ hnext (ends_behind _ (.inl rfl) rest)
    have hless : entries.length < (e :: entries).length + fuel := by
      rw [List.length_cons]
      omega
    obtain ⟨xs, after, hitems, hxs, hafter⟩ := ih h.2 hless (x :: done) hmid
    refine ⟨x :: xs, after, ?_, .cons hx hxs, hafter⟩
    rw [readItems, nextItem?, Cursor.skipBlanks_of_rest hrest rfl, Cursor.peek?_of_rest hrest]
    simpa [hskip, hpeek, hclose, hread] using hitems

theorem exists_readList (h : ∀ e ∈ entries, Yields item e.1 e.2)
    (hc : c.rest = joined (entries.map (·.1)) ++ 0x5d :: rest) :
    ∃ xs after, readList item c = .ok (xs, after) ∧
      List.Forall₂ (fun e x ↦ e.2 x) entries xs ∧ after.rest = rest := by
  cases entries with
  | nil =>
    refine ⟨[], c.next, ?_, .nil, Cursor.rest_next hc⟩
    rw [readList, readItems, nextItem?_end true hc]
    simp [closeList_of_rest hc]
  | cons e entries =>
    have hfuel : entries.length < c.rest.length := by
      have hle := length_le_joined ((e :: entries).map (·.1))
      rw [List.length_map, List.length_cons] at hle
      rw [hc, List.length_append, List.length_cons]
      omega
    rw [List.forall_mem_cons] at h
    have hrest : c.rest = e.1 ++ (behind (entries.map (·.1)) ++ 0x5d :: rest) := by
      rw [hc, List.map_cons, joined, List.append_assoc]
    obtain ⟨hskip, b, hpeek, hclose⟩ := h.1.skipBlanks hrest
    obtain ⟨x, mid, hread, hx, hmid⟩ := h.1.reads c _ hrest (ends_behind _ (.inl rfl) rest)
    obtain ⟨xs, after, hitems, hxs, hafter⟩ := exists_readItems h.2 hfuel [x] hmid
    refine ⟨x :: xs, after.next, ?_, .cons hx hxs, Cursor.rest_next hafter⟩
    rw [readList, readItems, nextItem?, hskip, hpeek]
    simp [hclose, hread, hitems, closeList_of_rest hafter]

theorem Spells.sequence {toJson : α → Value} {xs : List α}
    (h : ∀ x ∈ xs, Spells item (ofText (toJson x).text) x) :
    Spells (readSequence item) (ofText (Value.array (xs.map toJson)).text) xs := by
  have hentries : ∀ e ∈ xs.map fun x ↦ (ofText (toJson x).text, (x = ·)), Yields item e.1 e.2 := by
    intro e he
    obtain ⟨x, hx, rfl⟩ := List.mem_map.1 he
    exact (h x hx).yields
  rw [ofText_array, List.map_map]
  refine ⟨⟨_, _, rfl, rfl⟩, fun c rest hc _ ↦ ?_⟩
  rw [List.cons_append, List.append_assoc] at hc
  have hnext : c.next.rest =
      joined ((xs.map fun x ↦ (ofText (toJson x).text, (x = ·))).map (·.1)) ++ 0x5d :: rest := by
    rw [Cursor.rest_next hc, List.map_map]
    rfl
  obtain ⟨ys, after, hread, hys, hafter⟩ := exists_readList hentries hnext
  rw [List.forall₂_map_left_iff, List.forall₂_eq_eq_eq] at hys
  refine ⟨after, ?_, hafter⟩
  rw [readSequence, Cursor.skipBlanks_of_rest hc rfl, Cursor.peek?_of_rest hc, hys]
  exact hread

end Lists

section Records

variable {α : Type} {shape : Shape α} {c : Cursor} {rest : Bytes}

/-- A member of an object, and the value that it is to be read as. -/
structure Member (α : Type) where
  name : String
  json : Value
  value : α

def Member.written (m : Member α) : Bytes := Json.written m.name m.json

/-- The record has a field of this name, which reads the member as its value. -/
structure Member.Fits (m : Member α) (shape : Shape α) : Prop where
  plain : isPlain m.name = true
  field : ∃ f, shape.fields.find? (fun f ↦ f.name = m.name) = some f ∧
    Spells f.value (ofText m.json.text) m.value

theorem closeObject_of_rest (hc : c.rest = 0x7d :: rest) : closeObject c = (c.next, none) := by
  rw [closeObject, Cursor.skipBlanks_of_rest hc rfl, Cursor.peek?_of_rest hc]
  rfl

theorem nextName?_first (hc : c.rest = 0x22 :: rest) : nextName? true c = .ok (true, c) := by
  rw [nextName?, Cursor.skipBlanks_of_rest hc rfl, Cursor.peek?_of_rest hc]
  rfl

theorem nextName?_behind (hc : c.rest = 0x2c :: 0x22 :: rest) :
    nextName? false c = .ok (true, c.next) := by
  have hnext : c.next.rest = 0x22 :: rest := Cursor.rest_next hc
  rw [nextName?, Cursor.skipBlanks_of_rest hc rfl, Cursor.peek?_of_rest hc]
  simp only [Cursor.skipBlanks_of_rest hnext rfl, Cursor.peek?_of_rest hnext]
  rfl

theorem nextName?_end (first : Bool) (hc : c.rest = 0x7d :: rest) :
    nextName? first c = .ok (false, c) := by
  rw [nextName?, Cursor.skipBlanks_of_rest hc rfl, Cursor.peek?_of_rest hc]
  rfl

theorem exists_readFields_eq {first : Bool} {d : Cursor} (hd : nextName? first c = .ok (true, d))
    {m : Member α} (hm : m.Fits shape) (hrest : d.rest = m.written ++ rest) (he : Ends rest)
    (fuel : Nat) {seen : Members α} (hseen : m.name ∉ seen.map (·.1)) :
    ∃ after, after.rest = rest ∧ readFields shape (fuel + 1) first c seen =
      readFields shape fuel false after ((m.name, m.value) :: seen) := by
  obtain ⟨f, hf, hvalue⟩ := hm.field
  have hquote : d.rest =
      0x22 :: (ofText m.name ++ 0x22 :: (0x3a :: (ofText m.json.text ++ rest))) := by
    rw [hrest]
    simp [Member.written, written]
  obtain ⟨named, hname, hnamed⟩ := exists_readQuoted hm.plain (Cursor.rest_next hquote)
  have hcolon : readColon named = .ok named.next := by
    rw [readColon, Cursor.skipBlanks_of_rest hnamed rfl, Cursor.peek?_of_rest hnamed]
    rfl
  obtain ⟨after, hread, hafter⟩ := hvalue.reads named.next rest (Cursor.rest_next hnamed) he
  have hnew : (seen.any fun s ↦ s.1 = m.name) = false := by
    rw [List.any_eq_false]
    intro s hs hsame
    exact hseen (List.mem_map.2 ⟨s, hs, by simpa using hsame⟩)
  refine ⟨after, hafter, ?_⟩
  rw [readFields, hd]
  simp only [hname, hf, hnew, hcolon, hread]
  rfl

theorem exists_readFields_behind {members : List (Member α)} (h : ∀ m ∈ members, m.Fits shape)
    (seen : Members α) (hnames : (members.map (·.name) ++ seen.map (·.1)).Nodup) {fuel : Nat}
    (hfuel : members.length < fuel)
    (hc : c.rest = behind (members.map Member.written) ++ 0x7d :: rest) :
    ∃ after, readFields shape fuel false c seen =
        .ok (.ok ((members.map fun m ↦ (m.name, m.value)).reverse ++ seen), after) ∧
      after.rest = 0x7d :: rest := by
  induction members generalizing fuel c seen with
  | nil =>
    obtain ⟨fuel, rfl⟩ := Nat.exists_eq_add_of_lt hfuel
    refine ⟨c, ?_, hc⟩
    rw [readFields, nextName?_end false hc]
    rfl
  | cons m members ih =>
    obtain ⟨fuel, rfl⟩ := Nat.exists_eq_add_of_lt hfuel
    have hrest : c.rest =
        0x2c :: (m.written ++ (behind (members.map Member.written) ++ 0x7d :: rest)) := by
      rw [hc]
      simp [behind]
    rw [List.map_cons, List.cons_append, List.nodup_cons] at hnames
    have hnew : m.name ∉ seen.map (·.1) := fun hs ↦ hnames.1 (List.mem_append_right _ hs)
    obtain ⟨mid, hmid, hstep⟩ := exists_readFields_eq (nextName?_behind hrest)
      (h m List.mem_cons_self) (Cursor.rest_next hrest) (ends_behind _ (.inr rfl) rest)
      ((m :: members).length + fuel) hnew
    have hless : members.length < (m :: members).length + fuel := by
      simp only [List.length_cons]
      omega
    obtain ⟨after, hread, hafter⟩ :=
      ih (fun j hj ↦ h j (List.mem_cons_of_mem m hj)) ((m.name, m.value) :: seen)
        (List.perm_middle.nodup_iff.2 (List.nodup_cons.2 hnames)) hless hmid
    refine ⟨after, ?_, hafter⟩
    rw [hstep, hread]
    simp

theorem exists_readFields {members : List (Member α)} (h : ∀ m ∈ members, m.Fits shape)
    (hnames : (members.map (·.name)).Nodup) {fuel : Nat} (hfuel : members.length < fuel)
    (hc : c.rest = joined (members.map Member.written) ++ 0x7d :: rest) :
    ∃ after, readFields shape fuel true c [] =
        .ok (.ok (members.map fun m ↦ (m.name, m.value)).reverse, after) ∧
      after.rest = 0x7d :: rest := by
  obtain ⟨fuel, rfl⟩ := Nat.exists_eq_add_of_lt hfuel
  cases members with
  | nil =>
    refine ⟨c, ?_, hc⟩
    rw [readFields, nextName?_end true hc]
    rfl
  | cons m members =>
    have hrest : c.rest = m.written ++ (behind (members.map Member.written) ++ 0x7d :: rest) := by
      rw [hc, List.map_cons, joined, List.append_assoc]
    have hnew : m.name ∉ ([] : Members α).map (·.1) := List.not_mem_nil
    obtain ⟨mid, hmid, hstep⟩ := exists_readFields_eq (nextName?_first hrest)
      (h m List.mem_cons_self) hrest (ends_behind _ (.inr rfl) rest)
      ((m :: members).length + fuel) hnew
    have hless : members.length < (m :: members).length + fuel := by
      simp only [List.length_cons]
      omega
    rw [List.map_cons, List.nodup_cons] at hnames
    have hothers : (members.map (·.name) ++ [(m.name, m.value)].map (·.1)).Nodup :=
      List.perm_middle.nodup_iff.2 (by simpa using hnames)
    obtain ⟨after, hread, hafter⟩ := exists_readFields_behind
      (fun j hj ↦ h j (List.mem_cons_of_mem m hj)) [(m.name, m.value)] hothers hless hmid
    refine ⟨after, ?_, hafter⟩
    rw [hstep, hread]
    simp

theorem Spells.record (members : List (Member α)) (h : ∀ m ∈ members, m.Fits shape)
    (hnames : (members.map (·.name)).Nodup) {xs : List α}
    (hx : completeFields (members.map fun m ↦ (m.name, m.value)).reverse shape.fields = .ok xs) :
    Spells (readRecord shape)
      (ofText (Value.object (members.map fun m ↦ (m.name, m.json))).text) xs := by
  have hwritten : (members.map fun m ↦ (m.name, m.json)).map memberText =
      members.map Member.written := by
    rw [List.map_map]
    exact List.map_congr_left fun m hm ↦ memberText_of_plain (h m hm).plain
  rw [ofText_object, hwritten]
  refine ⟨⟨_, _, rfl, rfl⟩, fun c rest hc _ ↦ ?_⟩
  rw [List.cons_append] at hc
  have hnext : c.next.rest = joined (members.map Member.written) ++ 0x7d :: rest := by
    rw [Cursor.rest_next hc, List.append_assoc]
    rfl
  have hfuel : members.length < c.rest.length + 1 := by
    have hle := length_le_joined (members.map Member.written)
    rw [List.length_map] at hle
    simp only [hc, List.length_cons, List.length_append]
    omega
  obtain ⟨after, hread, hafter⟩ := exists_readFields h hnames hfuel hnext
  refine ⟨after.next, ?_, Cursor.rest_next hafter⟩
  rw [readRecord, Cursor.skipBlanks_of_rest hc rfl, Cursor.peek?_of_rest hc]
  simp only [hread, closeShaped, Except.map, Except.bind, hx, closeObject_of_rest hafter]
  rfl

end Records

end LocalHttp.Json
