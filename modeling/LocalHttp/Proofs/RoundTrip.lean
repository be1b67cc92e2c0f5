import LocalHttp.Message
import LocalHttp.Proofs.RequestGrammar
import LocalHttp.Proofs.Room
import LocalHttp.Proofs.TargetText

namespace LocalHttp

open Incoming

/-- A field that a header line carries as it is. -/
structure Field.Clean (f : Field) : Prop extends f.IsLine where
  unpadded : ∀ c ∈ f.value.toList.head?, isPadding c = false

namespace Field

def padded (f : Field) : Field := ⟨f.name, " " ++ f.value⟩

theorem encode_eq_line (f : Field) : f.encode = f.padded.line := by
  have hs : Bytes.ofText (f.name ++ ": " ++ f.value) =
      Bytes.ofText f.name ++ (colon ++ Bytes.ofText (" " ++ f.value)) := by
    rw [Bytes.ofText_append, Bytes.ofText_append, Bytes.ofText_append, List.append_assoc]
    refine congrArg _ ?_
    rw [← List.append_assoc]
    exact congrArg (· ++ _) (by decide)
  rw [Field.encode, hs, padded, line, List.append_assoc, List.append_assoc]
  rfl

theorem toList_space : " ".toList = [' '] := by decide

theorem stripped_padded (f : Field) : f.padded.stripped = f.stripped := by
  rw [stripped, padded, String.toList_append, toList_space, List.singleton_append,
    List.dropWhile_cons_of_pos (by decide), stripped]

theorem Clean.stripped {f : Field} (h : f.Clean) : f.stripped = f := by
  have hd : f.value.toList.dropWhile isPadding = f.value.toList := by
    have hu := h.unpadded
    cases hv : f.value.toList with
    | nil => rfl
    | cons c cs =>
      rw [hv] at hu
      exact List.dropWhile_cons_of_neg (by simp [hu c rfl])
  refine Field.mk_eq_iff.2 ⟨rfl, ?_⟩
  rw [hd, String.ofList_toList]

theorem IsLine.padded {f : Field} (h : f.IsLine) : f.padded.IsLine := by
  refine ⟨h.noColon, h.noReturn, h.noFeed, ?_⟩
  rw [Field.padded, String.toList_append, toList_space, List.singleton_append,
    List.infix_cons_iff, not_or]
  refine ⟨fun hp ↦ ?_, h.noBreak⟩
  exact absurd (List.cons_prefix_cons.1 hp).1 (by decide)

end Field

/-- The header lines are read one by one, and what they are then read to say of the length of the
body is right. -/
structure Message.Legible (m : Message) : Prop where
  fields : ∀ f ∈ m.headers.fields, f.IsLine
  length : Announces (m.headers.fields.map Field.stripped) m.body.length

/-- The headers can be sent, and what they say of the length of the body is right. -/
structure Message.Clean (m : Message) : Prop where
  fields : ∀ f ∈ m.headers.fields, f.Clean
  length : Announces m.headers.fields m.body.length

namespace Message

def namedType (m : Message) : String := (m.headers.value? "Content-Type").getD ""

def lines (m : Message) : List Field := m.headers.fields.map Field.padded

theorem encode_eq (m : Message) :
    m.encode = m.lines.flatMap Field.line ++ (lineBreak ++ m.body) := by
  rw [Message.encode, lines, List.flatMap_map, List.append_assoc]
  refine congrArg₂ _ ?_ rfl
  exact congrArg (List.flatMap · _) (funext Field.encode_eq_line)

variable {m : Message}

def stripped (m : Message) : Message :=
  { m with headers := .ofList (m.headers.fields.map Field.stripped) }

theorem stripped_lines (m : Message) :
    m.lines.map Field.stripped = m.headers.fields.map Field.stripped := by
  rw [lines, List.map_map]
  exact List.map_congr_left fun f _ ↦ f.stripped_padded

theorem Legible.reading_encode (h : m.Legible) (line : StartLine) (hf : 0x20 ∉ line.first)
    (hs : 0x20 ∉ line.second) (ht : ¬lineBreak <:+: line.third) (rest : Bytes) :
    reading .fresh (line.first ++ (space ++ (line.second ++ (space ++ (line.third ++ (lineBreak ++
      (m.encode ++ rest))))))) = .done ⟨line, m.stripped.headers, m.body⟩ rest := by
  have hl : ∀ f ∈ m.lines, f.IsLine := by
    intro f hm
    obtain ⟨g, hg, rfl⟩ := List.mem_map.1 hm
    exact (h.fields g hg).padded
  refine reading_fresh_iff.2 ⟨⟨line, m.lines, m.body⟩, ?_, ⟨hf, hs, ht, hl, ?_⟩, ?_⟩
  · rw [encode_eq]
    simp only [MessageText.bytes, List.append_assoc]
  · rw [stripped_lines]
    exact h.length
  · rw [MessageText.raw, stripped_lines]
    rfl

theorem Clean.map_stripped (h : m.Clean) :
    m.headers.fields.map Field.stripped = m.headers.fields := by
  refine (List.map_congr_left fun f hf ↦ (h.fields f hf).stripped).trans ?_
  exact List.map_id _

theorem Clean.legible (h : m.Clean) : m.Legible := by
  refine ⟨fun f hf ↦ (h.fields f hf).toIsLine, ?_⟩
  rw [h.map_stripped]
  exact h.length

theorem Clean.stripped (h : m.Clean) : m.stripped = m := by
  rw [Message.stripped, h.map_stripped, FieldTable.ofList_fields]

theorem contentType_eq (m : Message) (line : StartLine) :
    RawMessage.contentType ⟨line, m.headers, m.body⟩ = m.namedType := by
  rw [RawMessage.contentType, namedType, FieldTable.value?, FieldTable.value?, FieldTable.get?,
    FieldTable.get?, toLower_Content_Type, toLower_content_type]

theorem withContentLength_of_announces (h : Announces m.headers.fields m.body.length) :
    m.withContentLength = m := by
  unfold Message.withContentLength
  cases hb : m.body with
  | nil => rfl
  | cons b body =>
    have hk : "Content-Length".toLower = "content-length" := toLower_eq_iff.2 (by decide)
    unfold Announces at h
    have hc : m.headers.contains "Content-Length" = true := by
      cases hf : m.headers.fields.find? (isNamed "content-length") with
      | none => rw [hf, hb] at h; cases h
      | some f =>
        rw [FieldTable.contains, FieldTable.get?, hk]
        exact congrArg Option.isSome hf
    rw [Message.addHeader, FieldTable.add_of_contains hc]
    rfl

theorem Legible.announces (h : m.Legible) : Announces m.stripped.headers.fields m.body.length :=
  announces_fields_ofList.2 h.length

end Message

structure Request.Clean (r : Request) : Prop where
  message : r.toMessage.Clean
  method : ' ' ∉ r.method.toList
  resource : ' ' ∉ r.resource.toList
  query : '?' ∉ r.resource.toList

structure Response.Legible (r : Response) : Prop where
  message : r.toMessage.Legible
  reason : ¬['\r', '\n'] <:+: r.reason.toList

structure Response.Clean (r : Response) : Prop where
  message : r.toMessage.Clean
  reason : ¬['\r', '\n'] <:+: r.reason.toList

theorem ofText_space : Bytes.ofText " " = space := by decide

theorem space_not_mem_ofText {s : String} (h : ' ' ∉ s.toList) : 0x20 ∉ Bytes.ofText s :=
  mt space_mem_ofText_iff.1 h

namespace Request

/-- The request as it is read: its content type is what the headers say. -/
def received (r : Request) : Request := { r with contentType := r.namedType }

theorem encode_append (r : Request) (rest : Bytes) :
    r.encode ++ rest =
      Bytes.ofText r.method ++ (space ++ (Bytes.ofText r.target ++ (space ++
        (Bytes.ofText version ++ (lineBreak ++ (r.toMessage.encode ++ rest)))))) := by
  rw [Request.encode]
  simp only [Bytes.ofText_append, ofText_space, List.append_assoc]
  rfl

theorem Clean.exists_reading {r : Request} (h : r.Clean) (rest : Bytes) :
    ∃ raw, reading .fresh (r.encode ++ rest) = .done raw rest ∧ ofRaw raw = .ok r.received := by
  have ht : ' ' ∉ r.target.toList := by
    rw [target, String.toList_append, List.mem_append]
    rintro (hr | hq)
    · exact h.resource hr
    · exact Target.space_not_mem_queryText _ hq
  have hv : ¬lineBreak <:+: Bytes.ofText version := by
    rw [infix_ofText_iff]
    exact noBreak_of_not_mem (by decide)
  have hr : Target.read r.target = .ok (r.resource, r.args) := Target.read_queryText h.query
  let line : StartLine := ⟨Bytes.ofText r.method, Bytes.ofText r.target, Bytes.ofText version⟩
  refine ⟨⟨line, r.headers, r.body⟩, ?_, ofRaw_eq_ok_iff.2 ⟨rfl, ⟨r.target, rfl, hr⟩, ?_⟩⟩
  · have hl := h.message.legible.reading_encode line (space_not_mem_ofText h.method)
      (space_not_mem_ofText ht) hv rest
    rw [h.message.stripped] at hl
    rw [encode_append]
    exact hl
  · rw [Message.contentType_eq]
    rfl

end Request

namespace Response

/-- The response as it is read: the reason is the one that was sent. -/
def received (r : Response) : Response :=
  { r with givenReason := some r.reason, contentType := r.namedType }

theorem encode_append (r : Response) (rest : Bytes) :
    r.encode ++ rest =
      Bytes.ofText version ++ (space ++ (Bytes.ofText r.status.text ++ (space ++
        (Bytes.ofText r.reason ++ (lineBreak ++ (r.toMessage.encode ++ rest)))))) := by
  rw [Response.encode]
  simp only [Bytes.ofText_append, ofText_space, List.append_assoc]
  rfl

theorem ofText_status (s : Status) : Status.ofText s.text = .ok s := by
  have hu : Text.IsUnsigned 16 (Nat.repr s.code.toNat).toList s.code.toNat :=
    Text.isUnsigned_repr s.code.toNat_lt
  rw [Status.ofText, Status.text, Text.trim_repr, Text.readUnsigned_eq_ok_iff.2 hu]
  dsimp only
  rw [Nat.toUInt16_eq, UInt16.ofNat_toNat]

def stripped (r : Response) : Response := { r with toMessage := r.toMessage.stripped }

theorem Legible.exists_reading {r : Response} (h : r.Legible) (rest : Bytes) :
    ∃ raw, reading .fresh (r.encode ++ rest) = .done raw rest ∧
      ofRaw raw = .ok r.stripped.received := by
  have hv : ' ' ∉ version.toList := by decide
  have hs : ' ' ∉ r.status.text.toList := by
    intro hm
    exact absurd (Text.isDigit_of_mem_repr hm) (by decide)
  let line : StartLine := ⟨Bytes.ofText version, Bytes.ofText r.status.text, Bytes.ofText r.reason⟩
  refine ⟨⟨line, r.stripped.headers, r.body⟩, ?_, ?_⟩
  · rw [encode_append]
    exact h.message.reading_encode line (space_not_mem_ofText hv) (space_not_mem_ofText hs)
      (mt infix_ofText_iff.1 h.reason) rest
  · simp only [ofRaw, bind_eq_ok_iff]
    refine ⟨r.status.text, readText_eq_ok_iff.2 rfl, r.status, ofText_status r.status, r.reason,
      readText_eq_ok_iff.2 rfl, ?_⟩
    refine congrArg Except.ok ?_
    have hm : (⟨r.body, r.stripped.namedType, r.stripped.headers⟩ : Message).withContentLength =
        ⟨r.body, r.stripped.namedType, r.stripped.headers⟩ :=
      Message.withContentLength_of_announces h.message.announces
    have hc : RawMessage.contentType ⟨line, r.stripped.headers, r.body⟩ = r.stripped.namedType :=
      Message.contentType_eq r.stripped.toMessage line
    rw [Draft.toResponse, ofParts_contentType, hc, hm]
    rfl

theorem Clean.exists_reading {r : Response} (h : r.Clean) (rest : Bytes) :
    ∃ raw, reading .fresh (r.encode ++ rest) = .done raw rest ∧ ofRaw raw = .ok r.received := by
  have hl : r.Legible := ⟨h.message.legible, h.reason⟩
  have hs : r.stripped = r := by
    rw [stripped, h.message.stripped]
  have he := hl.exists_reading rest
  rwa [hs] at he

end Response

namespace Feed

variable {α β : Type} {ofRaw : RawMessage → Except ReadFault α}

theorem gather_flatMap {encode : β → Bytes} {received : β → α} {sent : List β}
    (h : ∀ m ∈ sent, ∀ rest, ∃ raw, reading .fresh (encode m ++ rest) = .done raw rest ∧
      ofRaw raw = .ok (received m)) :
    gather ofRaw .fresh (sent.flatMap encode) = ⟨sent.map received, .ok (.fresh, [])⟩ := by
  induction sent with
  | nil =>
    rw [List.flatMap_nil, gather_eq, show reading .fresh [] = _ from settled_fresh 0]
    rfl
  | cons m sent ih =>
    rw [List.forall_mem_cons] at h
    obtain ⟨raw, hr, ho⟩ := h.1 (sent.flatMap encode)
    rw [List.flatMap_cons, gather_eq, hr]
    dsimp only
    rw [ho, ih h.2]
    rfl

/-- Clean requests, or responses, that are written one after another and fed in any pieces that fit
are read back one by one, and nothing is left. -/
theorem encoded_messages_read_back (requests : List Request) (responses : List Response)
    (hq : ∀ r ∈ requests, r.Clean) (hs : ∀ r ∈ responses, r.Clean) (capacity : Nat)
    (pieces : List Bytes) :
    (pieces.flatten = requests.flatMap Request.encode →
      fits Request.ofRaw (fresh capacity) pieces = true →
        (feedAll Request.ofRaw (fresh capacity) pieces).map contents =
          ⟨requests.map Request.received, .ok (.fresh, [])⟩) ∧
    (pieces.flatten = responses.flatMap Response.encode →
      fits Response.ofRaw (fresh capacity) pieces = true →
        (feedAll Response.ofRaw (fresh capacity) pieces).map contents =
          ⟨responses.map Response.received, .ok (.fresh, [])⟩) := by
  constructor
  · intro hp hf
    rw [feedAll_fresh _ hf, hp]
    exact gather_flatMap fun r hr ↦ (hq r hr).exists_reading
  · intro hp hf
    rw [feedAll_fresh _ hf, hp]
    exact gather_flatMap fun r hr ↦ (hs r hr).exists_reading

def knock : Request where
  method := "PUT"
  resource := "/door"
  args := ⟨[⟨"who", "a&b"⟩], List.pairwise_singleton _ _⟩
  headers := ⟨[⟨"Content-Length", "2"⟩], List.pairwise_singleton _ _⟩
  body := [0x0d, 0x0a]
  contentType := ""

theorem clean_knock : knock.Clean where
  message := by
    have hf : knock.headers.fields.find? (isNamed "content-length") =
        some ⟨"Content-Length", "2"⟩ :=
      List.find?_cons_of_pos (beq_iff_eq.2 (toLower_eq_iff.2 (by decide)))
    have hv : "2".toList = ['2'] := by decide
    have ht : Text.trim ['2'] = ['2'] := by decide
    refine ⟨List.forall_mem_singleton.2 ⟨⟨by decide, by decide, by decide, ?_⟩, ?_⟩, ?_⟩
    · rw [hv]
      exact fun h ↦ absurd h.length_le (by decide)
    · rw [hv]
      intro c hc
      obtain rfl := Option.some.inj hc
      decide
    · have hlen : knock.body.length = 2 := rfl
      rw [Announces, hf, hlen]
      dsimp only
      rw [hv, ht]
      exact ⟨['2'], .inl rfl, by decide, List.forall_mem_singleton.2 rfl, rfl, by decide⟩
  method := by decide
  resource := by decide
  query := by decide

def look : Request where
  method := "GET"
  resource := "/door"
  args := .empty
  headers := .empty
  body := []
  contentType := ""

theorem clean_look : look.Clean where
  message := ⟨nofun, rfl⟩
  method := by decide
  resource := by decide
  query := by decide

def opened : Response := { knock with status := .ok, givenReason := none }

def quiet : Response := { look with status := ⟨204⟩, givenReason := some "" }

theorem clean_opened : opened.Clean := ⟨clean_knock.message, by decide⟩

theorem clean_quiet : quiet.Clean := ⟨clean_look.message, by decide⟩

def thirds (first second : Nat) (bytes : Bytes) : List Bytes :=
  [bytes.take first, (bytes.drop first).take second, (bytes.drop first).drop second]

theorem flatten_thirds (first second : Nat) (bytes : Bytes) :
    (thirds first second bytes).flatten = bytes := by
  simp only [thirds, List.flatten_cons, List.flatten_nil, List.append_nil, List.take_append_drop]

/-- Two requests and two responses, cut inside the first of them and across their border. -/
theorem encoded_messages_read_back_cut :
    (∀ r ∈ [knock, look], r.Clean) ∧ (∀ r ∈ [opened, quiet], r.Clean) ∧
      fits Request.ofRaw (fresh 40) (thirds 27 30 ([knock, look].flatMap Request.encode)) =
        true ∧
      fits Response.ofRaw (fresh 40)
        (thirds 27 20 ([opened, quiet].flatMap Response.encode)) = true ∧
      (feedAll Request.ofRaw (fresh 40)
          (thirds 27 30 ([knock, look].flatMap Request.encode))).map contents =
        ⟨[knock.received, look.received], .ok (.fresh, [])⟩ ∧
      (feedAll Response.ofRaw (fresh 40)
          (thirds 27 20 ([opened, quiet].flatMap Response.encode))).map contents =
        ⟨[opened.received, quiet.received], .ok (.fresh, [])⟩ := by
  have hq : ∀ r ∈ [knock, look], r.Clean :=
    List.forall_mem_cons.2 ⟨clean_knock, List.forall_mem_singleton.2 clean_look⟩
  have hs : ∀ r ∈ [opened, quiet], r.Clean :=
    List.forall_mem_cons.2 ⟨clean_opened, List.forall_mem_singleton.2 clean_quiet⟩
  have hlq : ∀ piece ∈ thirds 27 30 ([knock, look].flatMap Request.encode),
      piece.length < 40 := by decide
  have hls : ∀ piece ∈ thirds 27 20 ([opened, quiet].flatMap Response.encode),
      piece.length < 40 := by decide +kernel
  have hfq := fits_of_length_lt Request.ofRaw (roomy_fresh 40) hlq
  have hfs := fits_of_length_lt Response.ofRaw (roomy_fresh 40) hls
  refine ⟨hq, hs, hfq, hfs, ?_, ?_⟩
  · exact (encoded_messages_read_back _ _ hq hs 40 _).1 (flatten_thirds 27 30 _) hfq
  · exact (encoded_messages_read_back _ _ hq hs 40 _).2 (flatten_thirds 27 20 _) hfs

end Feed

end LocalHttp
