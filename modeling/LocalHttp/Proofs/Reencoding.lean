import LocalHttp.Proofs.RoundTrip

namespace LocalHttp

open Incoming

theorem Field.IsLine.clean_stripped {f : Field} (h : f.IsLine) : f.stripped.Clean := by
  have hs : f.stripped.value.toList = f.value.toList.dropWhile isPadding := String.toList_ofList
  refine ⟨⟨h.noColon, h.noReturn, h.noFeed, fun hi ↦ h.noBreak ?_⟩, fun c hc ↦ ?_⟩
  · rw [hs] at hi
    exact hi.trans (List.dropWhile_suffix isPadding).isInfix
  · have hd := List.head?_dropWhile_not isPadding f.value.toList
    rw [hs] at hc
    rwa [show (f.value.toList.dropWhile isPadding).head? = some c from hc] at hd

/-- The headers that are read, with the body that they announce, can be sent as they are. -/
theorem MessageText.WellFormed.clean {t : MessageText} (h : t.WellFormed) (contentType : String) :
    (⟨t.body, contentType, t.raw.headers⟩ : Message).Clean := by
  refine ⟨fun f hf ↦ ?_, announces_fields_ofList.2 h.body⟩
  obtain ⟨g, hg, rfl⟩ := List.mem_map.1 (FieldTable.mem_of_mem_fields_ofList hf)
  exact (h.lines g hg).clean_stripped

theorem Incoming.exists_reading_of_read {α : Type} {ofRaw : RawMessage → Except ReadFault α}
    {s : Incoming} {b : Buffer} {m : α} (h : (read ofRaw s b).1 = .message m) :
    ∃ raw rest, reading s b.unread = .done raw rest ∧ ofRaw raw = .ok m := by
  rw [read] at h
  have hr := reading_run s b
  cases hrun : run s b with
  | blocked after left => rw [hrun] at h; cases h
  | fault cause left => rw [hrun] at h; cases h
  | done raw left =>
    rw [hrun] at h hr
    dsimp only at h
    cases hm : ofRaw raw with
    | error cause => rw [hm] at h; cases h
    | ok message =>
      rw [hm] at h
      cases h
      exact ⟨raw, left.unread, hr.symm, hm⟩

namespace Request

theorem clean_of_ofRaw {t : MessageText} {r : Request} (ht : t.WellFormed)
    (h : ofRaw t.raw = .ok r) : r.Clean := by
  obtain ⟨hm, ⟨target, hs, hr⟩, hp⟩ := ofRaw_eq_ok_iff.1 h
  have hspace : ' ' ∉ target.toList := mt space_mem_ofText_iff.2 (hs ▸ ht.second)
  have hres : r.resource.toList = target.toList.takeWhile (· ≠ '?') := by
    rw [(Target.read_eq_ok_iff.1 hr).1, String.toList_ofList, Target.before]
  refine ⟨hp ▸ ht.clean _, mt space_mem_ofText_iff.2 (hm ▸ ht.first), fun hc ↦ ?_, fun hc ↦ ?_⟩
  · rw [hres] at hc
    exact hspace (List.takeWhile_subset _ hc)
  · rw [hres] at hc
    exact absurd rfl (of_decide_eq_true (List.all_eq_true.1 List.all_takeWhile '?' hc))

theorem received_of_ofRaw {raw : RawMessage} {r : Request} (h : ofRaw raw = .ok r) :
    r.received = r := by
  obtain ⟨message, method, resource, args⟩ := r
  obtain ⟨-, -, rfl⟩ : _ ∧ _ ∧ message = _ := ofRaw_eq_ok_iff.1 h
  exact congrArg (fun contentType ↦ Request.mk ⟨_, contentType, _⟩ method resource args)
    (Message.contentType_eq ⟨raw.body, raw.contentType, raw.headers⟩ raw.line).symm

end Request

namespace Response

theorem ofRaw_eq {t : MessageText} {r : Response}
    (ht : Announces (t.lines.map Field.stripped) t.body.length) (h : ofRaw t.raw = .ok r) :
    r.toMessage = ⟨t.body, t.raw.contentType, t.raw.headers⟩ ∧
      ∃ reason, t.line.third = Bytes.ofText reason ∧ r.givenReason = some reason := by
  simp only [ofRaw, bind_eq_ok_iff, readText_eq_ok_iff] at h
  obtain ⟨code, -, status, -, reason, hr, h⟩ := h
  obtain rfl := Except.ok.inj h
  refine ⟨?_, reason, hr, rfl⟩
  rw [Draft.toResponse, ofParts_contentType]
  exact Message.withContentLength_of_announces (m := ⟨t.body, t.raw.contentType, t.raw.headers⟩)
    (announces_fields_ofList.2 ht)

theorem clean_of_ofRaw {t : MessageText} {r : Response} (ht : t.WellFormed)
    (h : ofRaw t.raw = .ok r) : r.Clean := by
  obtain ⟨hm, reason, hr, hg⟩ := ofRaw_eq ht.body h
  refine ⟨hm ▸ ht.clean _, ?_⟩
  have hreason : r.reason = reason := by rw [Response.reason, hg]; rfl
  rw [hreason, ← infix_ofText_iff, ← hr]
  exact ht.third

theorem received_of_ofRaw {t : MessageText} {r : Response} (ht : t.WellFormed)
    (h : ofRaw t.raw = .ok r) : r.received = r := by
  obtain ⟨hm, reason, -, hg⟩ := ofRaw_eq ht.body h
  obtain ⟨message, status, givenReason⟩ := r
  obtain rfl : message = _ := hm
  obtain rfl : givenReason = _ := hg
  exact congrArg (fun contentType ↦ Response.mk ⟨_, contentType, _⟩ status (some reason))
    (Message.contentType_eq ⟨t.body, t.raw.contentType, t.raw.headers⟩ t.line).symm

end Response

/-- What a message that was accepted is written as is read as the same message, and nothing of it
is taken for a part of what follows. -/
theorem accepted_messages_read_as_themselves (b c : Buffer) (rest : Bytes) :
    (∀ r : Request, (readRequest .fresh b).1 = .message r → c.unread = r.encode ++ rest →
      ∃ after, readRequest .fresh c = (.message r, .fresh, after) ∧ after.unread = rest) ∧
    (∀ r : Response, (readResponse .fresh b).1 = .message r → c.unread = r.encode ++ rest →
      ∃ after, readResponse .fresh c = (.message r, .fresh, after) ∧ after.unread = rest) := by
  constructor <;> intro r hb hc
  · obtain ⟨_, _, hread, hr⟩ := exists_reading_of_read hb
    obtain ⟨t, -, ht, rfl⟩ := reading_fresh_iff.1 hread
    obtain ⟨raw, hraw, ho⟩ := (Request.clean_of_ofRaw ht hr).exists_reading rest
    rw [Request.received_of_ofRaw hr] at ho
    exact read_eq_message_iff.2 ⟨raw, hc ▸ hraw, ho⟩
  · obtain ⟨_, _, hread, hr⟩ := exists_reading_of_read hb
    obtain ⟨t, -, ht, rfl⟩ := reading_fresh_iff.1 hread
    obtain ⟨raw, hraw, ho⟩ := (Response.clean_of_ofRaw ht hr).exists_reading rest
    rw [Response.received_of_ofRaw ht hr] at ho
    exact read_eq_message_iff.2 ⟨raw, hc ▸ hraw, ho⟩

def oddRequest : Bytes := Bytes.ofText "P\r /?&%3f H\r\n: \ty\r\r\n\r\nG"

def odd : Request where
  method := "P\r"
  resource := "/"
  args := ⟨[⟨"?", ""⟩], List.pairwise_singleton _ _⟩
  headers := ⟨[⟨"", "y\r"⟩], List.pairwise_singleton _ _⟩
  body := []
  contentType := ""

def oddResponse : Bytes := Bytes.ofText " +07  a\rb\r\n: \ty\r\r\n\r\nG"

def oddAnswer : Response where
  status := ⟨7⟩
  givenReason := some " a\rb"
  headers := ⟨[⟨"", "y\r"⟩], List.pairwise_singleton _ _⟩
  body := []
  contentType := ""

theorem accepted_messages_read_as_themselves_odd :
    (readRequest .fresh (.ofBytes oddRequest)).1 = .message odd ∧
      (readResponse .fresh (.ofBytes oddResponse)).1 = .message oddAnswer ∧
      (∃ after, readRequest .fresh (.ofBytes (odd.encode ++ oddResponse)) =
        (.message odd, .fresh, after) ∧ after.unread = oddResponse) ∧
      ∃ after, readResponse .fresh (.ofBytes (oddAnswer.encode ++ oddResponse)) =
        (.message oddAnswer, .fresh, after) ∧ after.unread = oddResponse := by
  have hq : (readRequest .fresh (.ofBytes oddRequest)).1 = .message odd := by decide +kernel
  have hs : (readResponse .fresh (.ofBytes oddResponse)).1 = .message oddAnswer := by
    decide +kernel
  refine ⟨hq, hs, ?_, ?_⟩
  · exact (accepted_messages_read_as_themselves _ _ oddResponse).1 odd hq rfl
  · exact (accepted_messages_read_as_themselves _ _ oddResponse).2 oddAnswer hs rfl

end LocalHttp
