import LocalHttp.Json.Reader
import LocalHttp.Proofs.NumberText

namespace LocalHttp.Dictionary

variable {α : Type} {e : String × α}

theorem mem_of_mem_insert {key : String} {value : α} {d : Dictionary α}
    (h : e ∈ d.insert key value) : e = (key, value) ∨ e ∈ d := by
  induction d with
  | nil => exact .inl (List.mem_singleton.1 h)
  | cons first rest ih =>
    unfold Dictionary.insert at h
    split at h
    · exact List.mem_cons.1 h
    · split at h
      · exact (List.mem_cons.1 h).imp_right (List.mem_cons_of_mem _)
      · rcases List.mem_cons.1 h with rfl | h
        · exact .inr List.mem_cons_self
        · exact (ih h).imp_right (List.mem_cons_of_mem _)

theorem mem_of_mem_foldl_insert {entries : List (String × α)} {d : Dictionary α}
    (h : e ∈ entries.foldl (fun d (key, value) ↦ d.insert key value) d) :
    e ∈ d ∨ e ∈ entries := by
  induction entries generalizing d with
  | nil => exact .inl h
  | cons entry rest ih =>
    rcases ih h with hd | hrest
    · rcases mem_of_mem_insert hd with rfl | hd
      · exact .inr List.mem_cons_self
      · exact .inl hd
    · exact .inr (List.mem_cons_of_mem _ hrest)

theorem mem_of_mem_ofList {entries : List (String × α)} (h : e ∈ ofList entries) :
    e ∈ entries :=
  (mem_of_mem_foldl_insert h).resolve_left nofun

end LocalHttp.Dictionary

namespace LocalHttp.Json

open Bytes (asciiByte ofText)

variable {c : Cursor} {rest : Bytes}

section Strings

/-- The bytes of characters that are written one after the other. -/
def encoded (cs : List Char) : Bytes := cs.flatMap String.utf8EncodeChar

theorem encoded_append (cs ds : List Char) : encoded (cs ++ ds) = encoded cs ++ encoded ds :=
  List.flatMap_append

theorem encoded_eq_ofText (cs : List Char) : encoded cs = ofText (String.ofList cs) := by
  rw [Bytes.ofText_eq, String.toList_ofList, encoded]

theorem encoded_cons_of_lt {x : Char} (hx : x.toNat < 128) (cs : List Char) :
    encoded (x :: cs) = asciiByte x :: encoded cs := by
  rw [encoded, List.flatMap_cons, Bytes.utf8EncodeChar_of_lt hx]
  rfl

theorem isRaw_of_mem_utf8EncodeChar {x : Char} (hquote : x ≠ '"') (hslash : x ≠ '\\')
    (hcontrol : ¬x.toNat < 0x20) {b : UInt8} (hb : b ∈ String.utf8EncodeChar x) :
    isRaw b = true := by
  have hmark {m : Char} (hm : m.toNat < 128) (hx : x ≠ m) : b ≠ asciiByte m := by
    rintro rfl
    exact hx ((Bytes.mem_utf8EncodeChar_iff hm).1 hb).symm
  have hlow : 0x20 ≤ b.toNat := by
    rcases Nat.lt_or_ge x.toNat 128 with hx | hx
    · rw [Bytes.utf8EncodeChar_of_lt hx, List.mem_singleton] at hb
      rw [hb, Bytes.toNat_asciiByte hx]
      exact Nat.le_of_not_lt hcontrol
    · exact Nat.le_trans (by decide) (Bytes.le_of_mem_utf8EncodeChar hx hb)
  have hne := hmark (by decide) hquote
  have hne' := hmark (by decide) hslash
  simp only [isRaw, Bool.and_eq_true, bne_iff_ne, decide_eq_true_eq, UInt8.le_iff_toNat_le]
  exact ⟨⟨hne, hne'⟩, hlow⟩

/-- What is written for a character: itself, or a backslash and an escape. -/
inductive Escape (x : Char) : Prop
  | itself (text : escapeChar x = [x]) (raw : ∀ b ∈ String.utf8EncodeChar x, isRaw b = true)
  | short (e y : Char) (text : escapeChar x = ['\\', e]) (ascii : e.toNat < 128)
      (known : shortEscape? (asciiByte e) = some y)
  | control (low : x.toNat < 0x20) (text : escapeChar x =
      ['\\', 'u', '0', '0', lowerHexDigit (x.toNat / 16), lowerHexDigit (x.toNat % 16)])

theorem escape (x : Char) : Escape x := by
  by_cases h1 : x = '"'
  · exact .short '"' '"' (by rw [escapeChar, if_pos h1]) (by decide) rfl
  by_cases h2 : x = '\\'
  · exact .short '\\' '\\' (by rw [escapeChar, if_neg h1, if_pos h2]) (by decide) rfl
  by_cases h3 : x = '\x08'
  · exact .short 'b' '\x08' (by rw [h3]; rfl) (by decide) rfl
  by_cases h4 : x = '\x0c'
  · exact .short 'f' '\x0c' (by rw [h4]; rfl) (by decide) rfl
  by_cases h5 : x = '\n'
  · exact .short 'n' '\n' (by rw [h5]; rfl) (by decide) rfl
  by_cases h6 : x = '\r'
  · exact .short 'r' '\r' (by rw [h6]; rfl) (by decide) rfl
  by_cases h7 : x = '\t'
  · exact .short 't' '\t' (by rw [h7]; rfl) (by decide) rfl
  have hrest : escapeChar x = if x.toNat < 0x20 then
      ['\\', 'u', '0', '0', lowerHexDigit (x.toNat / 16), lowerHexDigit (x.toNat % 16)]
      else [x] := by
    rw [escapeChar, if_neg h1, if_neg h2, if_neg h3, if_neg h4, if_neg h5, if_neg h6, if_neg h7]
  by_cases hlow : x.toNat < 0x20
  · exact .control hlow (by rw [hrest, if_pos hlow])
  · exact .itself (by rw [hrest, if_neg hlow])
      fun _ hb ↦ isRaw_of_mem_utf8EncodeChar h1 h2 hlow hb

theorem exists_others_of_not_raw {x : Char}
    (hx : ¬∀ b ∈ encoded (escapeChar x), isRaw b = true) :
    ∃ others, escapeChar x = '\\' :: others := by
  cases escape x with
  | itself text raw =>
    rw [text, encoded, List.flatMap_cons, List.flatMap_nil, List.append_nil] at hx
    exact absurd raw hx
  | short e y text ascii known => exact ⟨_, text⟩
  | control low text => exact ⟨_, text⟩

theorem hexValue?_lowerHexDigit {n : Nat} (hn : n < 16) :
    (lowerHexDigit n).toNat < 128 ∧ hexValue? (asciiByte (lowerHexDigit n)) = some n := by
  have hall : ∀ n < 16, (lowerHexDigit n).toNat < 128 ∧
      hexValue? (asciiByte (lowerHexDigit n)) = some n := by decide
  exact hall n hn

theorem readHex_lowerHexDigits {n : Nat} (hn : n < 256)
    (hc : c.rest = 0x30 :: 0x30 :: asciiByte (lowerHexDigit (n / 16)) ::
      asciiByte (lowerHexDigit (n % 16)) :: rest) : readHex c = .ok (n, c.advance 4) := by
  obtain ⟨-, hhigh⟩ := hexValue?_lowerHexDigit (n := n / 16) (by omega)
  obtain ⟨-, hlow⟩ := hexValue?_lowerHexDigit (n := n % 16) (by omega)
  have hvalue : (0 * 16 + 0) * 16 * 16 + n / 16 * 16 + n % 16 = n := by omega
  rw [readHex, hc]
  simp only [hhigh, hlow, show hexValue? 0x30 = some 0 from rfl]
  rw [Nat.add_mul, hvalue]

theorem exists_readEscape {x : Char} {others : List Char} (hx : escapeChar x = '\\' :: others)
    (hc : c.rest = encoded others ++ rest) :
    ∃ y after, readEscape readCodePoint c = .ok (y, after) ∧ after.rest = rest := by
  cases escape x with
  | itself text raw =>
    rw [text] at hx
    obtain ⟨rfl, -⟩ := List.cons.inj hx
    have hraw := raw 0x5c (by decide)
    cases hraw
  | short e y text ascii known =>
    rw [text] at hx
    obtain ⟨-, rfl⟩ := List.cons.inj hx
    rw [encoded_cons_of_lt ascii] at hc
    refine ⟨y, c.next, ?_, Cursor.rest_next hc⟩
    rw [readEscape, Cursor.peek?_of_rest hc]
    simp only [known]
  | control low text =>
    obtain ⟨ha, -⟩ := hexValue?_lowerHexDigit (n := x.toNat / 16) (by omega)
    obtain ⟨hb, -⟩ := hexValue?_lowerHexDigit (n := x.toNat % 16) (by omega)
    rw [text] at hx
    obtain ⟨-, rfl⟩ := List.cons.inj hx
    rw [encoded_cons_of_lt (by decide), encoded_cons_of_lt (by decide),
      encoded_cons_of_lt (by decide), encoded_cons_of_lt ha, encoded_cons_of_lt hb] at hc
    have hnext : c.next.rest = 0x30 :: 0x30 :: asciiByte (lowerHexDigit (x.toNat / 16)) ::
        asciiByte (lowerHexDigit (x.toNat % 16)) :: rest := Cursor.rest_next hc
    have hhex : readHex c.next = .ok (x.toNat, c.next.advance 4) :=
      readHex_lowerHexDigits (by omega) hnext
    have htrailing : isTrailing x.toNat = false := by
      simp only [isTrailing, Bool.and_eq_false_iff, decide_eq_false_iff_not]
      omega
    have hleading : isLeading x.toNat = false := by
      simp only [isLeading, Bool.and_eq_false_iff, decide_eq_false_iff_not]
      omega
    refine ⟨x, c.next.advance 4, ?_, by rw [Cursor.rest_advance, hnext]; rfl⟩
    rw [readEscape, Cursor.peek?_of_rest hc]
    change readCodePoint c.next = _
    rw [readCodePoint, hhex]
    simp [bind, Except.bind, htrailing, hleading, pure, Except.pure]

theorem exists_readQuotedFrom_eq {plain : List Char}
    (hplain : ∀ b ∈ encoded plain, isRaw b = true) {b : UInt8} (hb : isRaw b = false)
    (hc : c.rest = encoded plain ++ b :: rest) (fuel : Nat) (done : List Char) :
    ∃ (after : Cursor) (done' : List Char), after.rest = b :: rest ∧
      readQuotedFrom (fuel + 1) c done none =
      if b = 0x22 then .ok (String.ofList done'.reverse, after.next)
      else if b = 0x5c then
        match readEscape readCodePoint after.next with
        | .ok (x, c) => readQuotedFrom fuel c (x :: done') none
        | .error e => .error e
      else .error (after.next.errorHere .controlCharacter) := by
  have htake : c.rest.takeWhile isRaw = encoded plain := by
    rw [hc, List.takeWhile_append_of_pos hplain, List.takeWhile_cons_of_neg (by simp [hb]),
      List.append_nil]
  have hafter : (c.advance (encoded plain).length).rest = b :: rest := by
    rw [Cursor.rest_advance, hc, List.drop_left]
  have hfault : codePointFault c (encoded plain) = none := by
    rw [codePointFault, encoded_eq_ofText, Bytes.text?_ofText]
  refine ⟨c.advance (encoded plain).length,
    (Bytes.lossyChars [] (encoded plain)).reverse ++ done, hafter, ?_⟩
  rw [readQuotedFrom]
  simp only [htake, hfault, Cursor.peek?_of_rest hafter]
  rfl

theorem isRaw_of_mem_nil : ∀ b ∈ encoded [], isRaw b = true := nofun

/-- A literal is read up to its closing quote; `plain` is what has been passed of it since the
last escape. -/
theorem exists_readQuotedFrom {cs plain : List Char}
    (hplain : ∀ b ∈ encoded plain, isRaw b = true) {fuel : Nat} (hfuel : cs.length < fuel)
    (hc : c.rest = encoded (plain ++ cs.flatMap escapeChar) ++ 0x22 :: rest) (done : List Char) :
    ∃ s after, readQuotedFrom fuel c done none = .ok (s, after) ∧ after.rest = rest := by
  induction cs generalizing plain fuel c done with
  | nil =>
    obtain ⟨fuel, rfl⟩ := Nat.exists_eq_add_of_lt hfuel
    rw [List.flatMap_nil, List.append_nil] at hc
    obtain ⟨after, done', hafter, hread⟩ := exists_readQuotedFrom_eq hplain rfl hc _ done
    exact ⟨_, after.next, hread, Cursor.rest_next hafter⟩
  | cons x cs ih =>
    obtain ⟨fuel, rfl⟩ := Nat.exists_eq_add_of_lt hfuel
    have hless : cs.length < (x :: cs).length + fuel := by
      rw [List.length_cons]
      omega
    rw [List.flatMap_cons] at hc
    by_cases hx : ∀ b ∈ encoded (escapeChar x), isRaw b = true
    · rw [← List.append_assoc] at hc
      have hmore : ∀ b ∈ encoded (plain ++ escapeChar x), isRaw b = true := by
        rw [encoded_append, List.forall_mem_append]
        exact ⟨hplain, hx⟩
      exact ih hmore (Nat.lt_succ_of_lt hless) hc done
    · obtain ⟨others, hothers⟩ := exists_others_of_not_raw hx
      rw [hothers, List.cons_append, encoded_append, encoded_cons_of_lt (by decide),
        encoded_append, List.append_assoc, List.cons_append, List.append_assoc] at hc
      obtain ⟨after, done', hafter, hread⟩ := exists_readQuotedFrom_eq hplain rfl hc _ done
      obtain ⟨y, mid, hescape, hmid⟩ := exists_readEscape hothers (Cursor.rest_next hafter)
      obtain ⟨s, last, hlast, hrest⟩ := ih isRaw_of_mem_nil hless hmid (y :: done')
      refine ⟨s, last, ?_, hrest⟩
      rw [hread, if_neg (by decide), if_pos (by decide), hescape]
      exact hlast

theorem escapeChar_ne_nil (x : Char) : escapeChar x ≠ [] := by
  cases escape x with
  | itself text => simp [text]
  | short e y text => simp [text]
  | control low text => simp [text]

theorem length_le_encoded (cs : List Char) :
    cs.length ≤ (encoded (cs.flatMap escapeChar)).length := by
  induction cs with
  | nil => exact Nat.le_refl 0
  | cons x cs ih =>
    obtain ⟨y, others, hy⟩ := List.exists_cons_of_ne_nil (escapeChar_ne_nil x)
    have hone : 0 < (String.utf8EncodeChar y).length :=
      List.length_pos_iff.2 String.utf8EncodeChar_ne_nil
    rw [List.flatMap_cons, encoded_append, hy, encoded, List.flatMap_cons]
    simp only [List.length_append, List.length_cons]
    omega

theorem ofText_stringText_eq (s : String) :
    ofText (stringText s) = 0x22 :: (encoded (s.toList.flatMap escapeChar) ++ [0x22]) := by
  rw [stringText, ← encoded_eq_ofText, List.cons_append, encoded_cons_of_lt (by decide),
    encoded_append]
  rfl

/-- The text of any string is read as a string, behind its opening quote. -/
theorem exists_readQuoted_of_stringText {s : String} (hc : c.rest = ofText (stringText s) ++ rest) :
    ∃ t after, readQuoted c.next = .ok (t, after) ∧ after.rest = rest := by
  rw [ofText_stringText_eq, List.cons_append, List.append_assoc] at hc
  have hnext : c.next.rest = encoded (s.toList.flatMap escapeChar) ++ 0x22 :: rest :=
    Cursor.rest_next hc
  have hfuel : s.toList.length < c.next.rest.length + 1 := by
    have hle := length_le_encoded s.toList
    rw [hnext, List.length_append]
    omega
  exact exists_readQuotedFrom isRaw_of_mem_nil hfuel hnext []

end Strings

section Scalars

/-- The text is read as a value, up to where it ends, with `depth` containers left to open. -/
def Legible (depth : Nat) (text : Bytes) : Prop := Yields (readValue depth) text fun _ ↦ True

theorem legible_of_scalar {b : UInt8} {others : Bytes} (hblank : Cursor.isBlank b = false)
    (hlist : b ≠ 0x5b) (hclose : b ≠ 0x5d) (hobject : b ≠ 0x7b)
    (h : ∀ c rest, c.rest = b :: (others ++ rest) → Ends rest →
      ∃ v after, readScalar c = .ok (v, after) ∧ after.rest = rest) (depth : Nat) :
    Legible depth (b :: others) := by
  refine ⟨⟨b, others, rfl, hblank, hclose⟩, fun c rest hc hrest ↦ ?_⟩
  obtain ⟨v, after, hread, hafter⟩ := h c rest hc hrest
  refine ⟨v, after, ?_, trivial, hafter⟩
  rw [List.cons_append] at hc
  unfold readValue
  simp only [Cursor.skipBlanks_of_rest hc hblank, Cursor.peek?_of_rest hc, Option.some.injEq,
    hlist, hobject, ↓reduceIte, hread]

theorem opensNumber_cases {b : UInt8} (h : b = 0x2d ∨ isDigit b = true) :
    Cursor.isBlank b = false ∧ b ≠ 0x5b ∧ b ≠ 0x5d ∧ b ≠ 0x7b ∧
      b.toNat ≠ 0x6e ∧ b.toNat ≠ 0x74 ∧ b.toNat ≠ 0x66 ∧ b.toNat ≠ 0x22 := by
  have hall := Bytes.forall_byte
    (p := fun b ↦ !(b == 0x2d || isDigit b) || (!Cursor.isBlank b && b != 0x5b && b != 0x5d &&
      b != 0x7b && b.toNat != 0x6e && b.toNat != 0x74 && b.toNat != 0x66 && b.toNat != 0x22))
    (by decide +kernel) b
  rcases h with rfl | h
  · decide
  · simpa [h, and_assoc] using hall

theorem legible_number {n : Number} (hn : n.Legible) (depth : Nat) :
    Legible depth (ofText n.text) := by
  obtain ⟨b, others, htext, hb⟩ := hn.opens
  obtain ⟨hblank, hlist, hclose, hobject, h1, h2, h3, h4⟩ := opensNumber_cases hb
  rw [htext]
  refine legible_of_scalar hblank hlist hclose hobject (fun c rest hc hrest ↦ ?_) depth
  have htexts : c.rest = ofText n.text ++ rest := by rw [hc, htext, List.cons_append]
  obtain ⟨n, after, hread, hafter⟩ := hn.exists_readSignedNumber htexts hrest
  refine ⟨.number n, after, ?_, hafter⟩
  rw [readScalar, Cursor.peek?_of_rest hc]
  dsimp only
  split
  · exact absurd ‹_› h1
  · exact absurd ‹_› h2
  · exact absurd ‹_› h3
  · exact absurd ‹_› h4
  · rw [if_pos hb, hread]
    rfl

theorem exists_readWord {word : Bytes} (hc : c.rest = word ++ rest) :
    ∃ after, c.readWord word = .ok after ∧ after.rest = rest := by
  induction word generalizing c with
  | nil => exact ⟨c, rfl, hc⟩
  | cons b word ih =>
    obtain ⟨after, hread, hafter⟩ := ih (Cursor.rest_next hc)
    refine ⟨after, ?_, hafter⟩
    rw [Cursor.readWord, Cursor.peek?_of_rest hc]
    simp only [↓reduceIte, hread]

theorem exists_readScalar_word {b : UInt8} {word : Bytes} {v : Value}
    (hscalar : ∀ c : Cursor, c.peek? = some b →
      readScalar c = (c.next.readWord word).map fun c ↦ (v, c))
    (hc : c.rest = b :: (word ++ rest)) :
    ∃ v after, readScalar c = .ok (v, after) ∧ after.rest = rest := by
  obtain ⟨after, hread, hafter⟩ := exists_readWord (Cursor.rest_next hc)
  refine ⟨v, after, ?_, hafter⟩
  rw [hscalar c (Cursor.peek?_of_rest hc), hread]
  rfl

theorem legible_null (depth : Nat) : Legible depth (ofText Value.null.text) := by
  refine legible_of_scalar (b := 0x6e) rfl (by decide) (by decide) (by decide) ?_ depth
  intro c rest hc _
  refine exists_readScalar_word (v := .null) (fun c h ↦ ?_) hc
  rw [readScalar, h]
  rfl

theorem legible_boolean (b : Bool) (depth : Nat) :
    Legible depth (ofText (Value.boolean b).text) := by
  cases b with
  | false =>
    refine legible_of_scalar (b := 0x66) rfl (by decide) (by decide) (by decide) ?_ depth
    intro c rest hc _
    refine exists_readScalar_word (v := .boolean false) (fun c h ↦ ?_) hc
    rw [readScalar, h]
    rfl
  | true =>
    refine legible_of_scalar (b := 0x74) rfl (by decide) (by decide) (by decide) ?_ depth
    intro c rest hc _
    refine exists_readScalar_word (v := .boolean true) (fun c h ↦ ?_) hc
    rw [readScalar, h]
    rfl

theorem legible_string (s : String) (depth : Nat) : Legible depth (ofText (stringText s)) := by
  have htext := ofText_stringText_eq s
  rw [htext]
  refine legible_of_scalar rfl (by decide) (by decide) (by decide) (fun c rest hc _ ↦ ?_) depth
  have hquoted : c.rest = ofText (stringText s) ++ rest := by
    rw [hc, htext]
    rfl
  obtain ⟨t, after, hread, hafter⟩ := exists_readQuoted_of_stringText hquoted
  refine ⟨.string t, after, ?_, hafter⟩
  rw [readScalar, Cursor.peek?_of_rest hc]
  change (readQuoted c.next).map _ = _
  rw [hread]
  rfl

end Scalars

section Containers

variable {depth fuel : Nat}

theorem legible_array {items : List Value} (h : ∀ v ∈ items, Legible depth (ofText v.text)) :
    Legible (depth + 1) (ofText (Value.array items).text) := by
  have hentries : ∀ e ∈ items.map fun v ↦ (ofText v.text, fun _ : Value ↦ True),
      Yields (readValue depth) e.1 e.2 := by
    intro e he
    obtain ⟨v, hv, rfl⟩ := List.mem_map.1 he
    exact h v hv
  rw [ofText_array]
  refine ⟨⟨_, _, rfl, rfl, by decide⟩, fun c rest hc _ ↦ ?_⟩
  rw [List.cons_append, List.append_assoc] at hc
  have hnext : c.next.rest =
      joined ((items.map fun v ↦ (ofText v.text, fun _ : Value ↦ True)).map (·.1)) ++
        0x5d :: rest := by
    rw [Cursor.rest_next hc, List.map_map]
    rfl
  obtain ⟨vs, after, hread, -, hafter⟩ := exists_readList hentries hnext
  refine ⟨.array vs, after, ?_, trivial, hafter⟩
  unfold readValue
  simp only [Cursor.skipBlanks_of_rest hc rfl, Cursor.peek?_of_rest hc, ↓reduceIte, hread]
  rfl

theorem exists_readMembers_eq {first : Bool} {d : Cursor} (hd : nextName? first c = .ok (true, d))
    {m : String × Value} (hm : Legible depth (ofText m.2.text))
    (hrest : d.rest = memberText m ++ rest) (he : Ends rest) (fuel : Nat)
    (members : Dictionary Value) :
    ∃ (after : Cursor) (others : Dictionary Value), after.rest = rest ∧
      readMembers (readValue depth) (fuel + 1) first c members =
        readMembers (readValue depth) fuel false after others := by
  rw [memberText, List.append_assoc] at hrest
  obtain ⟨name, named, hname, hnamed⟩ := exists_readQuoted_of_stringText hrest
  rw [List.cons_append] at hnamed
  have hcolon : readColon named = .ok named.next := by
    rw [readColon, Cursor.skipBlanks_of_rest hnamed rfl, Cursor.peek?_of_rest hnamed]
    rfl
  obtain ⟨v, after, hread, -, hafter⟩ := hm.reads named.next rest (Cursor.rest_next hnamed) he
  refine ⟨after, Dictionary.insert name v members, hafter, ?_⟩
  rw [readMembers, hd]
  simp only [hname, hcolon, hread]

theorem memberText_eq (m : String × Value) : ∃ others, memberText m = 0x22 :: others := by
  rw [memberText, ofText_stringText_eq]
  exact ⟨_, rfl⟩

theorem exists_readMembers_behind {members : List (String × Value)}
    (h : ∀ m ∈ members, Legible depth (ofText m.2.text)) (hfuel : members.length < fuel)
    (done : Dictionary Value) (hc : c.rest = behind (members.map memberText) ++ 0x7d :: rest) :
    ∃ vs after, readMembers (readValue depth) fuel false c done = .ok (vs, after) ∧
      after.rest = 0x7d :: rest := by
  induction members generalizing fuel c done with
  | nil =>
    obtain ⟨fuel, rfl⟩ := Nat.exists_eq_add_of_lt hfuel
    refine ⟨done, c, ?_, hc⟩
    rw [readMembers, nextName?_end false hc]
  | cons m members ih =>
    obtain ⟨fuel, rfl⟩ := Nat.exists_eq_add_of_lt hfuel
    rw [List.forall_mem_cons] at h
    have hrest :
        c.rest = 0x2c :: (memberText m ++ (behind (members.map memberText) ++ 0x7d :: rest)) := by
      rw [hc]
      simp [behind]
    obtain ⟨others, hquote⟩ := memberText_eq m
    have hnext : nextName? false c = .ok (true, c.next) := by
      rw [hquote, List.cons_append] at hrest
      exact nextName?_behind hrest
    obtain ⟨mid, seen, hmid, hstep⟩ := exists_readMembers_eq hnext h.1 (Cursor.rest_next hrest)
      (ends_behind _ (.inr rfl) rest) ((m :: members).length + fuel) done
    have hless : members.length < (m :: members).length + fuel := by
      rw [List.length_cons]
      omega
    obtain ⟨vs, after, hread, hafter⟩ := ih h.2 hless seen hmid
    exact ⟨vs, after, hstep.trans hread, hafter⟩

theorem exists_readMembers {members : List (String × Value)}
    (h : ∀ m ∈ members, Legible depth (ofText m.2.text)) (hfuel : members.length < fuel)
    (hc : c.rest = joined (members.map memberText) ++ 0x7d :: rest) :
    ∃ vs after, readMembers (readValue depth) fuel true c [] = .ok (vs, after) ∧
      after.rest = 0x7d :: rest := by
  obtain ⟨fuel, rfl⟩ := Nat.exists_eq_add_of_lt hfuel
  cases members with
  | nil =>
    refine ⟨[], c, ?_, hc⟩
    rw [readMembers, nextName?_end true hc]
  | cons m members =>
    rw [List.forall_mem_cons] at h
    have hrest : c.rest = memberText m ++ (behind (members.map memberText) ++ 0x7d :: rest) := by
      rw [hc, List.map_cons, joined, List.append_assoc]
    obtain ⟨others, hquote⟩ := memberText_eq m
    have hnext : nextName? true c = .ok (true, c) := by
      rw [hquote, List.cons_append] at hrest
      exact nextName?_first hrest
    obtain ⟨mid, seen, hmid, hstep⟩ := exists_readMembers_eq hnext h.1 hrest
      (ends_behind _ (.inr rfl) rest) ((m :: members).length + fuel) []
    have hless : members.length < (m :: members).length + fuel := by
      rw [List.length_cons]
      omega
    obtain ⟨vs, after, hread, hafter⟩ := exists_readMembers_behind h.2 hless seen hmid
    exact ⟨vs, after, hstep.trans hread, hafter⟩

theorem legible_object {members : List (String × Value)}
    (h : ∀ m ∈ members, Legible depth (ofText m.2.text)) :
    Legible (depth + 1) (ofText (Value.object members).text) := by
  rw [ofText_object]
  refine ⟨⟨_, _, rfl, rfl, by decide⟩, fun c rest hc _ ↦ ?_⟩
  rw [List.cons_append, List.append_assoc] at hc
  have hnext : c.next.rest = joined (members.map memberText) ++ 0x7d :: rest :=
    Cursor.rest_next hc
  have hfuel : members.length < c.next.rest.length + 1 := by
    have hle := length_le_joined (members.map memberText)
    rw [List.length_map] at hle
    rw [hnext, List.length_append, List.length_cons]
    omega
  obtain ⟨vs, after, hread, hafter⟩ := exists_readMembers h hfuel hnext
  refine ⟨.object vs, after.next, ?_, trivial, Cursor.rest_next hafter⟩
  unfold readValue
  rw [Cursor.skipBlanks_of_rest hc rfl]
  simp [Cursor.peek?_of_rest hc, readObject, hread, closeObject_of_rest hafter]

end Containers

section Values

/-- The values that are read again: with numbers in range, and at most `depth` containers around
one another. -/
inductive Value.Fits : Nat → Value → Prop
  | null {depth : Nat} : Fits depth .null
  | boolean {depth : Nat} (b : Bool) : Fits depth (.boolean b)
  | number {depth : Nat} {n : Number} (h : n.Legible) : Fits depth (.number n)
  | string {depth : Nat} (s : String) : Fits depth (.string s)
  | array {depth : Nat} {items : List Value} (h : ∀ v ∈ items, Fits depth v) :
    Fits (depth + 1) (.array items)
  | object {depth : Nat} {members : List (String × Value)} (h : ∀ m ∈ members, Fits depth m.2) :
    Fits (depth + 1) (.object members)

theorem Value.Fits.legible {depth : Nat} {v : Value} (h : v.Fits depth) :
    Legible depth (ofText v.text) := by
  induction h with
  | null => exact legible_null _
  | boolean b => exact legible_boolean b _
  | number h => exact legible_number h _
  | string s => exact legible_string s _
  | array _ ih => exact legible_array ih
  | object _ ih => exact legible_object ih

theorem Value.fits_ofMembers {depth : Nat} {members : List (String × Value)}
    (h : ∀ m ∈ members, Fits depth m.2) : Fits (depth + 1) (.ofMembers members) :=
  .object fun m hm ↦ h m (Dictionary.mem_of_mem_ofList hm)

theorem Value.fits_ofNat {depth n : Nat} (h : n ≤ maxSignificand) : Fits depth (.ofNat n) :=
  .number h

theorem Value.fits_ofBinary64 {depth : Nat} {x : Binary64} (h : x.WellFormed) :
    Fits depth (.ofBinary64 x) := by
  cases x with
  | finite negative m e => exact .number h
  | infinite negative => exact .null
  | nan => exact .null

/-- The text of a value is read as a value. -/
theorem Value.Fits.exists_ofBytes {v : Value} (h : v.Fits maxDepth) :
    ∃ w, Value.ofBytes (ofText v.text) = .ok w := by
  obtain ⟨w, after, hread, -, hafter⟩ :=
    h.legible.reads ⟨ofText v.text, 1, 0⟩ [] (List.append_nil _).symm nofun
  have hblank : after.skipBlanks.rest = [] := by
    rw [Cursor.skipBlanks, hafter]
    rfl
  refine ⟨w, ?_⟩
  rw [Value.ofBytes, hread, finish]
  simp only [hblank]
  rfl

end Values

end LocalHttp.Json
