import LocalHttp.Proofs.Numeral
import LocalHttp.Proofs.Resumption
import LocalHttp.Proofs.Target

namespace LocalHttp

open Incoming

namespace Field

def line (f : Field) : Bytes :=
  Bytes.ofText f.name ++ (colon ++ (Bytes.ofText f.value ++ lineBreak))

/-- A field that a header line can hold. -/
structure IsLine (f : Field) : Prop where
  noColon : ':' ∉ f.name.toList
  noReturn : '\r' ∉ f.name.toList
  noFeed : '\n' ∉ f.name.toList
  noBreak : ¬['\r', '\n'] <:+: f.value.toList

/-- The field without what pads its value in front. -/
def stripped (f : Field) : Field := ⟨f.name, String.ofList (f.value.toList.dropWhile isPadding)⟩

end Field

def isNamed (name : String) (f : Field) : Bool := f.name.toLower == name

/-- The length that header fields announce: that of the first `Content-Length`, or none. -/
def Announces (fields : List Field) (length : Nat) : Prop :=
  match fields.find? (isNamed "content-length") with
  | none => length = 0
  | some f => Text.IsUnsigned 64 (Text.trim f.value.toList) length

structure MessageText where
  line : StartLine
  /-- The header lines, with all that stands behind the colon as the value. -/
  lines : List Field
  body : Bytes

namespace MessageText

def bytes (t : MessageText) : Bytes :=
  t.line.first ++ (space ++ (t.line.second ++ (space ++ (t.line.third ++ (lineBreak ++
    (t.lines.flatMap Field.line ++ (lineBreak ++ t.body)))))))

/-- The delimiters are where they seem to be, and the body has the announced length. -/
structure WellFormed (t : MessageText) : Prop where
  first : 0x20 ∉ t.line.first
  second : 0x20 ∉ t.line.second
  third : ¬lineBreak <:+: t.line.third
  lines : ∀ f ∈ t.lines, f.IsLine
  body : Announces (t.lines.map Field.stripped) t.body.length

def raw (t : MessageText) : RawMessage := ⟨t.line, .ofList (t.lines.map Field.stripped), t.body⟩

end MessageText

namespace Incoming

variable {line : StartLine} {headers : Headers} {raw : RawMessage} {u rest : Bytes}

theorem announcedLength_eq_ok_iff {n : Nat} :
    announcedLength headers = .ok n ↔
      match headers.get? "content-length" with
      | none => n = 0
      | some f => Text.IsUnsigned 64 (Text.trim f.value.toList) n := by
  unfold announcedLength
  cases headers.get? "content-length" with
  | none => simp [eq_comm]
  | some f =>
    dsimp only
    rw [← Text.readUnsigned_eq_ok_iff]
    cases Text.readUnsigned 64 (Text.trim f.value.toList) <;> simp

theorem toLower_content_length : "content-length".toLower = "content-length" :=
  toLower_eq_iff.2 (by decide)

theorem announcedLength_ofList {fields : List Field} {n : Nat} :
    announcedLength (.ofList fields) = .ok n ↔ Announces fields n := by
  rw [announcedLength_eq_ok_iff, FieldTable.get?_ofList, toLower_content_length]
  rfl

theorem announces_fields_ofList {fields : List Field} {n : Nat} :
    Announces (FieldTable.ofList fields : Headers).fields n ↔ Announces fields n := by
  rw [← announcedLength_ofList, FieldTable.ofList_fields, announcedLength_ofList]

theorem readText_eq_ok_iff {bytes : Bytes} {s : String} :
    readText bytes = .ok s ↔ bytes = Bytes.ofText s := by
  rw [← Bytes.text?_eq_some_iff, readText]
  cases Bytes.text? bytes <;> simp

theorem headerField_eq_ok_iff {name value : Bytes} {f : Field} :
    headerField name value = .ok f ↔
      ∃ g : Field, name = Bytes.ofText g.name ∧ value = Bytes.ofText g.value ∧ g.stripped = f := by
  simp only [← readText_eq_ok_iff, headerField]
  constructor
  · intro h
    cases hn : readText name with
    | error e => rw [hn] at h; cases h
    | ok n =>
      cases hv : readText value with
      | error e => rw [hn, hv] at h; cases h
      | ok v =>
        rw [hn, hv] at h
        exact ⟨⟨n, v⟩, rfl, rfl, Except.ok.inj h⟩
  · rintro ⟨g, hn, hv, rfl⟩
    rw [hn, hv]
    rfl

theorem reading_token_iff {state next : Bytes → Incoming} {delimiter : Bytes}
    (hd : delimiter ≠ [])
    (hs : ∀ t b, step (state t) b = readToken b t delimiter state next) :
    reading (state []) u = .done raw rest ↔
      ∃ t v, u = t ++ (delimiter ++ v) ∧ ¬delimiter <:+: t ++ delimiter.dropLast ∧
        reading (next t) v = .done raw rest := by
  rw [reading_eq, hs, bare_readToken _ _ _ _ (unread_ofBytes u)]
  constructor
  · intro h
    cases hf : Bytes.find? delimiter u with
    | none => rw [hf] at h; cases h
    | some p =>
      obtain ⟨t, v, rfl, rfl, hn⟩ := Bytes.exists_of_find?_eq_some hd hf
      rw [hf] at h
      refine ⟨t, v, rfl, hn, ?_⟩
      simpa [unread_ofBytes] using h
  · rintro ⟨t, v, rfl, hn, h⟩
    rw [Bytes.find?_append_append v hn]
    simpa [unread_ofBytes] using h

theorem reading_body_iff {length : Nat} :
    reading (.body line headers length #[]) u = .done raw rest ↔
      ∃ body, u = body ++ rest ∧ body.length = length ∧ raw = ⟨line, headers, body⟩ := by
  rw [reading_eq, bare_step_body _ _ _ _ (unread_ofBytes u)]
  simp only [size_appendList, Array.size_empty, Nat.sub_zero, Nat.zero_add]
  constructor
  · intro h
    by_cases hl : (u.take length).length = length
    · rw [if_pos hl] at h
      simp only [Reading.done.injEq, unread_ofBytes] at h
      refine ⟨u.take length, ?_, hl, ?_⟩
      · rw [← h.2, List.take_append_drop]
      · rw [← h.1, Array.toList_appendList, List.nil_append]
    · rw [if_neg hl] at h
      cases h
  · rintro ⟨body, rfl, rfl, rfl⟩
    rw [List.take_left, List.drop_left, if_pos rfl]
    simp only [Array.toList_appendList, List.nil_append, unread_ofBytes]

theorem infix_append_return_iff {t : Bytes} :
    lineBreak <:+: t ++ lineBreak.dropLast ↔ lineBreak <:+: t :=
  Bytes.pair_infix_append_singleton_iff (by decide)

theorem infix_append_nil_iff {t : Bytes} {c : UInt8} :
    [c] <:+: t ++ [c].dropLast ↔ c ∈ t := by
  rw [List.dropLast_singleton, List.append_nil, Bytes.infix_singleton_iff]

theorem reading_headerValue_iff {name : Bytes} :
    reading (.headerValue line headers name []) u = .done raw rest ↔
      ∃ t v f, u = t ++ (lineBreak ++ v) ∧ ¬lineBreak <:+: t ∧ headerField name t = .ok f ∧
        reading (.headerName line (headers.insert f) []) v = .done raw rest := by
  rw [reading_eq, bare_step_headerValue _ _ _ _ (unread_ofBytes u)]
  simp only [List.nil_append]
  constructor
  · intro h
    cases hf : Bytes.find? lineBreak u with
    | none => rw [hf] at h; cases h
    | some p =>
      obtain ⟨t, v, rfl, rfl, hn⟩ := Bytes.exists_of_find?_eq_some (by decide) hf
      rw [infix_append_return_iff] at hn
      rw [hf] at h
      dsimp only at h
      rw [List.take_left, List.drop_left] at h
      cases hfield : headerField name t with
      | error cause => rw [hfield] at h; cases h
      | ok f =>
        rw [hfield] at h
        exact ⟨t, v, f, rfl, hn, hfield, h⟩
  · rintro ⟨t, v, f, rfl, hn, hfield, h⟩
    rw [Bytes.find?_append_append v (mt infix_append_return_iff.1 hn)]
    dsimp only
    rw [List.take_left, List.drop_left, hfield]
    exact h

theorem hasBreak_eq_false_iff {t : Bytes} :
    hasBreak t = false ↔ carriageReturn ∉ t ∧ lineFeed ∉ t := by
  simp [hasBreak]

theorem reading_readName_iff (hl : u.take 2 ≠ lineBreak) (hr : u.take 2 ≠ [carriageReturn]) :
    reading (.headerName line headers []) u = .done raw rest ↔
      ∃ t v, u = t ++ (colon ++ v) ∧ 0x3a ∉ t ∧ hasBreak t = false ∧
        reading (.headerValue line headers t []) v = .done raw rest := by
  rw [reading_eq, bare_step_headerName _ _ _ (unread_ofBytes u),
    bare_readName _ _ _ (unread_ofBytes u)]
  simp only [List.isEmpty_nil, Bool.true_and, beq_iff_eq, hl, hr, ↓reduceIte]
  constructor
  · intro h
    cases hf : Bytes.find? colon u with
    | none =>
      rw [hf] at h
      dsimp only at h
      cases hb : hasBreak u <;> rw [hb] at h <;> cases h
    | some p =>
      obtain ⟨t, v, rfl, rfl, hn⟩ := Bytes.exists_of_find?_eq_some (by decide) hf
      rw [colon, infix_append_nil_iff] at hn
      rw [hf] at h
      dsimp only at h
      rw [List.take_left, List.drop_left] at h
      cases hb : hasBreak t with
      | true => rw [hb] at h; cases h
      | false =>
        rw [hb] at h
        exact ⟨t, v, rfl, hn, hb, h⟩
  · rintro ⟨t, v, rfl, hn, hb, h⟩
    have hn' : ¬colon <:+: t ++ colon.dropLast := by rwa [colon, infix_append_nil_iff]
    rw [Bytes.find?_append_append v hn']
    dsimp only
    rw [List.take_left, List.drop_left, hb]
    exact h

theorem infix_ofText_iff {s : String} :
    lineBreak <:+: Bytes.ofText s ↔ ['\r', '\n'] <:+: s.toList := by
  have hb : lineBreak = [Bytes.asciiByte '\r', Bytes.asciiByte '\n'] := by decide
  rw [hb, Bytes.pair_infix_ofText_iff (by decide) (by decide)]

theorem isLine_iff {f : Field} :
    f.IsLine ↔ 0x3a ∉ Bytes.ofText f.name ∧ hasBreak (Bytes.ofText f.name) = false ∧
      ¬lineBreak <:+: Bytes.ofText f.value := by
  have hc : (0x3a : UInt8) = Bytes.asciiByte ':' := by decide
  have hr : carriageReturn = Bytes.asciiByte '\r' := by decide
  have hf : lineFeed = Bytes.asciiByte '\n' := by decide
  rw [infix_ofText_iff, hasBreak_eq_false_iff, hc, hr, hf,
    Bytes.asciiByte_mem_ofText_iff (by decide), Bytes.asciiByte_mem_ofText_iff (by decide),
    Bytes.asciiByte_mem_ofText_iff (by decide)]
  exact ⟨fun h ↦ ⟨h.1, ⟨h.2, h.3⟩, h.4⟩, fun h ↦ ⟨h.1, h.2.1.1, h.2.1.2, h.2.2⟩⟩

theorem take_two_line_ne {f : Field} (h : f.IsLine) (v : Bytes) :
    (f.line ++ v).take 2 ≠ lineBreak ∧ (f.line ++ v).take 2 ≠ [carriageReturn] := by
  have hb := (hasBreak_eq_false_iff.1 (isLine_iff.1 h).2.1).1
  have hne : ∀ c w, f.line ++ v = c :: w → c ≠ carriageReturn := by
    intro c w he
    unfold Field.line at he
    cases hn : Bytes.ofText f.name with
    | nil =>
      rw [hn] at he
      rw [← (List.cons.inj he).1]
      decide
    | cons d name =>
      rw [hn] at he hb
      rw [← (List.cons.inj he).1]
      exact fun hd ↦ hb (hd ▸ List.mem_cons_self)
  cases hl : f.line ++ v with
  | nil => exact ⟨by decide, by decide⟩
  | cons c w =>
    have hc := hne c w hl
    rw [List.take_succ_cons]
    exact ⟨fun he ↦ hc (List.cons.inj he).1, fun he ↦ hc (List.cons.inj he).1⟩

theorem reading_emptyLine_iff (v : Bytes) :
    reading (.headerName line headers []) (lineBreak ++ v) = .done raw rest ↔
      ∃ length, announcedLength headers = .ok length ∧
        reading (.body line headers length #[]) v = .done raw rest := by
  have hl : (lineBreak ++ v).take 2 = lineBreak := rfl
  rw [reading_eq, bare_step_headerName _ _ _ (unread_ofBytes _), hl,
    bare_endHeaders line headers (Buffer.unread_skip (.ofBytes (lineBreak ++ v)) 2)]
  simp only [List.isEmpty_nil, beq_self_eq_true, Bool.and_self, ↓reduceIte]
  cases announcedLength headers with
  | error cause => simp
  | ok length =>
    simp only [Except.ok.injEq, exists_eq_left']
    rfl

theorem reading_line_iff (hl : u.take 2 ≠ lineBreak) (hr : u.take 2 ≠ [carriageReturn]) :
    reading (.headerName line headers []) u = .done raw rest ↔
      ∃ (f : Field) (v : Bytes), u = f.line ++ v ∧ f.IsLine ∧
        reading (.headerName line (headers.insert f.stripped) []) v = .done raw rest := by
  rw [reading_readName_iff hl hr]
  simp only [reading_headerValue_iff, headerField_eq_ok_iff, isLine_iff]
  constructor
  · rintro ⟨_, _, rfl, hc, hb, _, v, _, rfl, hn, ⟨f, rfl, rfl, rfl⟩, h⟩
    refine ⟨f, v, ?_, ⟨hc, hb, hn⟩, h⟩
    simp only [Field.line, List.append_assoc]
  · rintro ⟨f, v, rfl, ⟨hc, hb, hn⟩, h⟩
    refine ⟨_, _, ?_, hc, hb, _, v, _, rfl, hn, ⟨f, rfl, rfl, rfl⟩, h⟩
    simp only [Field.line, List.append_assoc]

theorem reading_headerName_iff :
    reading (.headerName line headers []) u = .done raw rest ↔
      (∃ v length, u = lineBreak ++ v ∧ announcedLength headers = .ok length ∧
        reading (.body line headers length #[]) v = .done raw rest) ∨
      ∃ (f : Field) (v : Bytes), u = f.line ++ v ∧ f.IsLine ∧
        reading (.headerName line (headers.insert f.stripped) []) v = .done raw rest := by
  by_cases hl : u.take 2 = lineBreak
  · obtain ⟨v, rfl⟩ : ∃ v, u = lineBreak ++ v := ⟨u.drop 2, by rw [← hl, List.take_append_drop]⟩
    rw [or_iff_left, reading_emptyLine_iff]
    · constructor
      · rintro ⟨length, ha, h⟩
        exact ⟨v, length, rfl, ha, h⟩
      · rintro ⟨v', length, he, ha, h⟩
        rw [List.append_cancel_left he]
        exact ⟨length, ha, h⟩
    · rintro ⟨f, v', he, hf, -⟩
      exact (take_two_line_ne hf v').1 (he ▸ hl)
  · rw [or_iff_right]
    · by_cases hr : u.take 2 = [carriageReturn]
      · -- a carriage return with nothing behind it may yet be the empty line
        have hb : reading (.headerName line headers []) u =
            .blocked (.headerName line headers []) u := by
          rw [reading_eq, bare_step_headerName _ _ _ (unread_ofBytes u), hr]
          rfl
        rw [hb]
        constructor
        · intro h
          cases h
        · rintro ⟨f, v, rfl, hf, -⟩
          exact absurd hr (take_two_line_ne hf v).2
      · exact reading_line_iff hl hr
    · rintro ⟨v, length, rfl, -⟩
      exact hl rfl

theorem reading_headers_iff :
    reading (.headerName line headers []) u = .done raw rest ↔
      ∃ (lines : List Field) (body : Bytes),
        u = lines.flatMap Field.line ++ (lineBreak ++ (body ++ rest)) ∧
        (∀ f ∈ lines, f.IsLine) ∧
        announcedLength ((lines.map Field.stripped).foldl FieldTable.insert headers) =
          .ok body.length ∧
        raw = ⟨line, (lines.map Field.stripped).foldl FieldTable.insert headers, body⟩ := by
  constructor
  · intro h
    induction hn : u.length using Nat.strongRecOn generalizing u headers with
    | ind n ih =>
      rcases reading_headerName_iff.1 h with ⟨v, length, rfl, ha, hb⟩ | ⟨f, v, rfl, hf, hv⟩
      · obtain ⟨body, rfl, rfl, rfl⟩ := reading_body_iff.1 hb
        exact ⟨[], body, rfl, by simp, ha, rfl⟩
      · have hlt : v.length < n := by
          rw [← hn, List.length_append, Field.line]
          simp only [List.length_append, colon, List.length_cons]
          omega
        obtain ⟨lines, body, rfl, hl, ha, hr⟩ := ih _ hlt hv rfl
        refine ⟨f :: lines, body, ?_, List.forall_mem_cons.2 ⟨hf, hl⟩, ha, hr⟩
        rw [List.flatMap_cons, List.append_assoc]
  · rintro ⟨lines, body, rfl, hl, ha, rfl⟩
    induction lines generalizing headers with
    | nil =>
      refine reading_headerName_iff.2 (.inl ⟨_, body.length, rfl, ha, ?_⟩)
      exact reading_body_iff.2 ⟨body, rfl, rfl, rfl⟩
    | cons f lines ih =>
      rw [List.forall_mem_cons] at hl
      refine reading_headerName_iff.2 (.inr ⟨f, _, ?_, hl.1, ih hl.2 ha⟩)
      rw [List.flatMap_cons, List.append_assoc]

/-- The reader takes exactly the messages of the grammar. -/
theorem reading_fresh_iff {w : Bytes} :
    reading .fresh w = .done raw rest ↔
      ∃ t : MessageText, w = t.bytes ++ rest ∧ t.WellFormed ∧ raw = t.raw := by
  have hfirst := @reading_token_iff raw w rest first (fun t ↦ second t []) space (by decide)
    fun _ _ ↦ rfl
  have hsecond (a u : Bytes) := @reading_token_iff raw u rest (second a) (fun t ↦ third a t [])
    space (by decide) fun _ _ ↦ rfl
  have hthird (a b u : Bytes) := @reading_token_iff raw u rest (third a b)
    (fun t ↦ headerName ⟨a, b, t⟩ .empty []) lineBreak (by decide) fun _ _ ↦ rfl
  simp only [space, infix_append_nil_iff] at hfirst hsecond
  simp only [infix_append_return_iff] at hthird
  rw [fresh, hfirst]
  simp only [hsecond, hthird, reading_headers_iff]
  constructor
  · rintro ⟨a, _, rfl, ha, b, _, rfl, hb, c, _, rfl, hc, lines, body, rfl, hl, hlen, rfl⟩
    refine ⟨⟨⟨a, b, c⟩, lines, body⟩, ?_, ⟨ha, hb, hc, hl, announcedLength_ofList.1 hlen⟩, rfl⟩
    simp only [MessageText.bytes, space, List.append_assoc]
  · rintro ⟨⟨⟨a, b, c⟩, lines, body⟩, rfl, ⟨ha, hb, hc, hl, hlen⟩, rfl⟩
    refine ⟨a, _, ?_, ha, b, _, rfl, hb, c, _, rfl, hc, lines, body, rfl, hl,
      announcedLength_ofList.2 hlen, rfl⟩
    simp only [MessageText.bytes, space, List.append_assoc]

end Incoming

end LocalHttp
