import LocalHttp.Proofs.Grammar

namespace LocalHttp

open Incoming

/-- The parts of a request as they stand in its bytes. -/
structure RequestText where
  method : String
  target : String
  version : Bytes
  lines : List Field
  body : Bytes

namespace RequestText

def bytes (t : RequestText) : Bytes :=
  Bytes.ofText t.method ++ (space ++ (Bytes.ofText t.target ++ (space ++ (t.version ++ (lineBreak ++
    (t.lines.flatMap Field.line ++ (lineBreak ++ t.body)))))))

def fields (t : RequestText) : List Field := t.lines.map Field.stripped

structure WellFormed (t : RequestText) : Prop where
  method : ' ' ∉ t.method.toList
  target : ' ' ∉ t.target.toList
  version : ¬lineBreak <:+: t.version
  lines : ∀ f ∈ t.lines, f.IsLine
  body : Announces t.fields t.body.length

/-- The parts give this request. Every segment of the query has to be an argument. -/
structure Denotes (t : RequestText) (r : Request) : Prop where
  method : r.method = t.method
  resource : r.resource = String.ofList (Target.before '?' t.target.toList)
  args : ∃ fields : List Field,
    List.Forall₂ Target.Argument (Target.segments (Target.behind '?' t.target.toList)) fields ∧
      r.args.fields = fields.eraseDupsBy (FieldTable.sameName id)
  headers : r.headers.fields = t.fields.eraseDupsBy (FieldTable.sameName String.toLower)
  body : r.body = t.body
  contentType :
    r.contentType = ((t.fields.find? (isNamed "content-type")).map (·.value)).getD ""

end RequestText

theorem toLower_content_type : "content-type".toLower = "content-type" :=
  toLower_eq_iff.2 (by decide)

theorem toLower_Content_Type : "Content-Type".toLower = "content-type" :=
  toLower_eq_iff.2 (by decide)

theorem ofParts_contentType (m : RawMessage) (body : Bytes) :
    Message.ofParts body m.contentType m.headers = ⟨body, m.contentType, m.headers⟩ := by
  unfold Message.ofParts
  cases hg : m.headers.get? "content-type" with
  | none =>
    have he : m.contentType = "" := by rw [RawMessage.contentType, FieldTable.value?, hg]; rfl
    rw [he]
    rfl
  | some f =>
    have hc : m.headers.contains "Content-Type" = true := by
      rw [FieldTable.contains_congr (toLower_Content_Type.trans toLower_content_type.symm),
        FieldTable.contains, hg]
      rfl
    rw [FieldTable.add_of_contains hc, ite_self]

theorem contentType_ofList {m : RawMessage} {fields : List Field} (h : m.headers = .ofList fields) :
    m.contentType = ((fields.find? (isNamed "content-type")).map (·.value)).getD "" := by
  rw [RawMessage.contentType, FieldTable.value?, h, FieldTable.get?_ofList, toLower_content_type]
  rfl

theorem bind_eq_ok_iff {ε α β : Type} {x : Except ε α} {f : α → Except ε β} {b : β} :
    x >>= f = .ok b ↔ ∃ a, x = .ok a ∧ f a = .ok b := by
  cases x <;> simp [bind, Except.bind]

theorem map_eq_ok_iff {ε α β : Type} {x : Except ε α} {f : α → β} {b : β} :
    x.map f = .ok b ↔ ∃ a, x = .ok a ∧ f a = b := by
  cases x <;> simp [Except.map]

theorem Request.ofRaw_eq_ok_iff {m : RawMessage} {r : Request} :
    Request.ofRaw m = .ok r ↔
      m.line.first = Bytes.ofText r.method ∧
        (∃ target, m.line.second = Bytes.ofText target ∧
          Target.read target = .ok (r.resource, r.args)) ∧
        r.toMessage = ⟨m.body, m.contentType, m.headers⟩ := by
  simp only [← readText_eq_ok_iff, Request.ofRaw, bind_eq_ok_iff, Draft.ofTarget?, map_eq_ok_iff]
  constructor
  · rintro ⟨method, hf, target, hs, _, ⟨⟨resource, args⟩, ht, rfl⟩, h⟩
    obtain rfl := Except.ok.inj h
    exact ⟨hf, ⟨target, hs, ht⟩, ofParts_contentType m m.body⟩
  · rintro ⟨hf, ⟨target, hs, ht⟩, hm⟩
    refine ⟨r.method, hf, target, hs, _, ⟨_, ht, rfl⟩, ?_⟩
    obtain ⟨message, method, resource, args⟩ := r
    dsimp only at hm
    subst hm
    refine congrArg Except.ok ?_
    rw [Draft.toRequest, ofParts_contentType]

theorem Incoming.read_eq_message_iff {α : Type} {ofRaw : RawMessage → Except ReadFault α}
    {s : Incoming} {b : Buffer} {m : α} {rest : Bytes} :
    (∃ after, read ofRaw s b = (.message m, fresh, after) ∧ after.unread = rest) ↔
      ∃ raw, reading s b.unread = .done raw rest ∧ ofRaw raw = .ok m := by
  rw [← reading_run, read]
  cases run s b with
  | blocked after left => simp [Run.reading]
  | fault cause left => simp [Run.reading]
  | done raw left =>
    simp only [Run.reading, Reading.done.injEq]
    cases h : ofRaw raw with
    | error cause => simp [h]
    | ok message => simp [h, and_comm]

theorem space_mem_ofText_iff {s : String} : 0x20 ∈ Bytes.ofText s ↔ ' ' ∈ s.toList := by
  have hs : (0x20 : UInt8) = Bytes.asciiByte ' ' := by decide
  rw [hs, Bytes.asciiByte_mem_ofText_iff (by decide)]

namespace RequestText

def raw (t : RequestText) : MessageText where
  line := ⟨Bytes.ofText t.method, Bytes.ofText t.target, t.version⟩
  lines := t.lines
  body := t.body

theorem wellFormed_raw {t : RequestText} : t.raw.WellFormed ↔ t.WellFormed := by
  have hm (s : String) : 0x20 ∉ Bytes.ofText s ↔ ' ' ∉ s.toList := not_congr space_mem_ofText_iff
  constructor
  · exact fun h ↦ ⟨(hm _).1 h.first, (hm _).1 h.second, h.third, h.lines, h.body⟩
  · exact fun h ↦ ⟨(hm _).2 h.method, (hm _).2 h.target, h.version, h.lines, h.body⟩

theorem denotes_iff {t : RequestText} {r : Request} :
    t.Denotes r ↔
      r.method = t.method ∧ Target.read t.target = .ok (r.resource, r.args) ∧
        r.toMessage = ⟨t.body, t.raw.raw.contentType, .ofList t.fields⟩ := by
  have hc : t.raw.raw.contentType = _ := contentType_ofList rfl
  rw [Target.read_eq_ok_iff, hc]
  constructor
  · rintro ⟨hm, hr, ⟨fields, hf, ha⟩, hh, hb, ht⟩
    refine ⟨hm, ⟨hr, fields, hf, ?_⟩, ?_⟩
    · exact FieldTable.ext_fields ((FieldTable.fields_ofList fields).trans ha.symm)
    · have hl : r.headers = .ofList t.fields :=
        FieldTable.ext_fields (hh.trans (FieldTable.fields_ofList t.fields).symm)
      obtain ⟨⟨body, contentType, headers⟩, method, resource, args⟩ := r
      dsimp only at hb ht hl
      rw [hb, ht, hl]
      rfl
  · rintro ⟨hm, ⟨hr, fields, hf, ha⟩, h⟩
    refine ⟨hm, hr, ⟨fields, hf, ?_⟩, ?_, congrArg Message.body h, congrArg Message.contentType h⟩
    · rw [← ha, FieldTable.fields_ofList]
    · rw [congrArg Message.headers h, FieldTable.fields_ofList]

end RequestText

/-- A request, with what follows it, is read from exactly the bytes of parts that denote it. -/
theorem readRequest_iff_grammar (b : Buffer) (r : Request) (rest : Bytes) :
    (∃ after, readRequest .fresh b = (.message r, .fresh, after) ∧ after.unread = rest) ↔
      ∃ t : RequestText, b.unread = t.bytes ++ rest ∧ t.WellFormed ∧ t.Denotes r := by
  rw [readRequest, read_eq_message_iff]
  simp only [reading_fresh_iff, Request.ofRaw_eq_ok_iff, RequestText.denotes_iff,
    ← RequestText.wellFormed_raw]
  constructor
  · rintro ⟨_, ⟨⟨⟨_, _, version⟩, lines, body⟩, hb, hw, rfl⟩, rfl, ⟨target, rfl, ht⟩, hm⟩
    exact ⟨⟨r.method, target, version, lines, body⟩, hb, hw, rfl, ht, hm⟩
  · rintro ⟨t, hb, hw, hm, ht, h⟩
    exact ⟨t.raw.raw, ⟨t.raw, hb, hw, rfl⟩, congrArg Bytes.ofText hm.symm, ⟨t.target, rfl, ht⟩, h⟩

end LocalHttp
