import LocalHttp.Call
import LocalHttp.Proofs.RoundTrip

namespace LocalHttp

open Incoming

theorem toLower_Content_Length : "Content-Length".toLower = "content-length" :=
  toLower_eq_iff.2 (by decide)

theorem toLower_ne_length {name : String}
    (h : name.toList.map Char.toLower ≠ "content-length".toList) :
    name.toLower ≠ "Content-Length".toLower := by
  rw [toLower_Content_Length]
  exact mt toLower_eq_iff.1 h

theorem announces_iff {t : Headers} {n : Nat} :
    Announces t.fields n ↔
      match t.get? "Content-Length" with
      | none => n = 0
      | some f => Text.IsUnsigned 64 (Text.trim f.value.toList) n := by
  rw [FieldTable.get?, toLower_Content_Length]
  rfl

theorem announces_add {t : Headers} {name value : String} {n : Nat}
    (h : name.toLower ≠ "Content-Length".toLower) :
    Announces (t.add name value).fields n ↔ Announces t.fields n := by
  have hg : (t.add name value).get? "Content-Length" = t.get? "Content-Length" := by
    rw [FieldTable.add, FieldTable.get?_insert, if_neg h, Option.or_none]
  rw [announces_iff, announces_iff, hg]

theorem mem_fields_add {t : Headers} {name value : String} {f : Field}
    (h : f ∈ (t.add name value).fields) : f ∈ t.fields ∨ f = ⟨name, value⟩ := by
  rw [FieldTable.add, FieldTable.fields_insert] at h
  split at h
  · exact .inl h
  · simpa using h

theorem Field.clean_mk {name value : String} (hc : ':' ∉ name.toList) (hr : '\r' ∉ name.toList)
    (hf : '\n' ∉ name.toList) (hb : ¬['\r', '\n'] <:+: value.toList)
    (hu : ∀ c ∈ value.toList.head?, isPadding c = false) : (⟨name, value⟩ : Field).Clean :=
  ⟨⟨hc, hr, hf, hb⟩, hu⟩

theorem Field.clean_of_unpadded {name value : String} (hc : ':' ∉ name.toList)
    (hr : '\r' ∉ name.toList) (hf : '\n' ∉ name.toList)
    (h : value.toList.any isPadding = false) : (⟨name, value⟩ : Field).Clean := by
  have hall := List.any_eq_false.1 h
  refine Field.clean_mk hc hr hf (noBreak_of_not_mem fun hm ↦ ?_) fun c hm ↦ ?_
  · exact hall '\r' hm (by decide)
  · exact eq_false_of_ne_true (hall c (List.mem_of_mem_head? hm))

theorem isPadding_of_isDigit {c : Char} (h : c.isDigit = true) : isPadding c = false := by
  refine eq_false_of_ne_true fun hp ↦ ?_
  simp only [isPadding, Bool.or_eq_true, beq_iff_eq] at hp
  rcases hp with (((rfl | rfl) | rfl) | rfl) | rfl <;> exact absurd h (by decide)

theorem clean_length (n : Nat) : (⟨"Content-Length", Nat.repr n⟩ : Field).Clean := by
  refine Field.clean_of_unpadded (by decide) (by decide) (by decide) (List.any_eq_false.2 ?_)
  intro c hc
  rw [isPadding_of_isDigit (Text.isDigit_of_mem_repr hc)]
  exact Bool.false_ne_true

namespace Message

/-- The headers can be sent, and a length among them is that of the body. -/
structure Sendable (m : Message) : Prop where
  fields : ∀ f ∈ m.headers.fields, f.Clean
  length : m.headers.contains "Content-Length" = true →
    Announces m.headers.fields m.body.length

variable {m : Message} {name value : String}

theorem Clean.sendable (h : m.Clean) : m.Sendable := ⟨h.fields, fun _ ↦ h.length⟩

theorem fields_addHeader {P : Field → Prop} (h : ∀ f ∈ m.headers.fields, P f)
    (hf : P ⟨name, value⟩) : ∀ f ∈ (m.addHeader name value).headers.fields, P f := by
  intro f hm
  rcases mem_fields_add hm with ht | rfl
  · exact h f ht
  · exact hf

theorem Clean.addHeader (h : m.Clean) (hf : (⟨name, value⟩ : Field).Clean)
    (hn : name.toLower ≠ "Content-Length".toLower) : (m.addHeader name value).Clean :=
  ⟨fields_addHeader h.fields hf, (announces_add hn).2 h.length⟩

theorem Sendable.addHeader (h : m.Sendable) (hf : (⟨name, value⟩ : Field).Clean)
    (hn : name.toLower ≠ "Content-Length".toLower) : (m.addHeader name value).Sendable := by
  refine ⟨fields_addHeader h.fields hf, fun hc ↦ (announces_add hn).2 (h.length ?_)⟩
  have hi := FieldTable.contains_insert m.headers ⟨name, value⟩ ⟨"Content-Length", ""⟩
  have hs : FieldTable.sameName String.toLower ⟨"Content-Length", ""⟩ ⟨name, value⟩ = false :=
    beq_eq_false_iff_ne.2 (Ne.symm hn)
  rw [hs, Bool.or_false] at hi
  exact hi ▸ hc

theorem Sendable.withContentLength (h : m.Sendable) (hb : m.body.length < Nat.pow 2 64) :
    m.withContentLength.Clean := by
  by_cases hc : m.headers.contains "Content-Length" = true
  · rw [withContentLength_of_announces (h.length hc)]
    exact ⟨h.fields, h.length hc⟩
  · have hg : m.headers.get? "Content-Length" = none := by
      rwa [FieldTable.contains, Option.not_isSome_iff_eq_none] at hc
    rw [Message.withContentLength]
    split
    · rename_i he
      refine ⟨h.fields, announces_iff.2 ?_⟩
      rw [hg]
      exact List.length_eq_zero_iff.2 (List.isEmpty_iff.1 he)
    · refine ⟨fields_addHeader h.fields (clean_length _), announces_iff.2 ?_⟩
      rw [Message.addHeader, FieldTable.add, FieldTable.get?_insert, hg, if_pos rfl]
      change Text.IsUnsigned 64 (Text.trim (Nat.repr m.body.length).toList) m.body.length
      rw [Text.trim_repr]
      exact Text.isUnsigned_repr hb

end Message

structure Request.Sendable (r : Request) : Prop where
  message : r.toMessage.Sendable
  method : ' ' ∉ r.method.toList
  resource : ' ' ∉ r.resource.toList
  query : '?' ∉ r.resource.toList

structure Response.Sendable (r : Response) : Prop where
  message : r.toMessage.Sendable
  reason : ¬['\r', '\n'] <:+: r.reason.toList

theorem Request.Sendable.complete {r : Request} {host : String} (h : r.Sendable)
    (hh : (⟨"Host", host⟩ : Field).Clean) (hb : r.body.length < Nat.pow 2 64) :
    (Call.complete host r).Clean := by
  have hn := toLower_ne_length (by decide : "Host".toList.map Char.toLower ≠ _)
  exact ⟨(h.message.addHeader hh hn).withContentLength hb, h.method, h.resource, h.query⟩

theorem mem_intercalate {words : List String}
    (h : ∀ word ∈ words, ∀ c ∈ word.toList, c.isAlpha = true) :
    (∀ c ∈ (", ".intercalate words).toList, c.isAlpha = true ∨ c = ',' ∨ c = ' ') ∧
      ∀ c ∈ (", ".intercalate words).toList.head?, c.isAlpha = true ∨ c = ',' := by
  have hs : ", ".toList = [',', ' '] := by decide
  induction words with
  | nil => exact ⟨nofun, nofun⟩
  | cons word words ih =>
    rw [List.forall_mem_cons] at h
    cases words with
    | nil =>
      rw [String.intercalate_singleton]
      exact ⟨fun c hc ↦ .inl (h.1 c hc), fun c hc ↦ .inl (h.1 c (List.mem_of_mem_head? hc))⟩
    | cons other words =>
      obtain ⟨hall, -⟩ := ih h.2
      rw [String.intercalate_cons_cons, String.toList_append, String.toList_append, hs]
      constructor
      · intro c hc
        simp only [List.append_assoc, List.mem_append, List.mem_cons, List.not_mem_nil,
          or_false] at hc
        rcases hc with hw | hp | hr
        · exact .inl (h.1 c hw)
        · exact .inr hp
        · exact hall c hr
      · intro c hc
        cases hw : word.toList with
        | nil =>
          rw [hw] at hc
          exact .inr (Option.some.inj hc).symm
        | cons d ds =>
          rw [hw] at hc
          obtain rfl : d = c := Option.some.inj hc
          exact .inl (h.1 d (hw ▸ List.mem_cons_self))

theorem clean_allow {words : List String}
    (h : ∀ word ∈ words, ∀ c ∈ word.toList, c.isAlpha = true) :
    (⟨"Allow", ", ".intercalate words⟩ : Field).Clean := by
  obtain ⟨hall, hhead⟩ := mem_intercalate h
  refine Field.clean_mk (by decide) (by decide) (by decide) (noBreak_of_not_mem fun hm ↦ ?_)
    fun c hc ↦ ?_
  · rcases hall '\r' hm with ha | ha | ha
    all_goals exact absurd ha (by decide)
  · rcases hhead c hc with ha | rfl
    · refine eq_false_of_ne_true fun hp ↦ ?_
      simp only [isPadding, Bool.or_eq_true, beq_iff_eq] at hp
      rcases hp with (((rfl | rfl) | rfl) | rfl) | rfl <;> exact absurd ha (by decide)
    · decide

def Stateless {σ : Type} (handler : Handler σ) : Prop :=
  ∀ request s s', (handler request s).1 = (handler request s').1

/-- The response is short enough to be sent, and if it is the handler's own, its parts can be. -/
structure Outcome.Sendable (o : Outcome) : Prop where
  fits : o.toResponse.body.length < Nat.pow 2 64
  own : ∀ r, o = .response r → r.Sendable

theorem Message.sendable_empty (body : Bytes) (contentType : String) :
    (⟨body, contentType, .empty⟩ : Message).Sendable :=
  ⟨nofun, fun h ↦ absurd (show false = true from h) Bool.false_ne_true⟩

theorem Message.sendable_ofParts (body : Bytes) {contentType : String}
    (hf : (⟨"Content-Type", contentType⟩ : Field).Clean) :
    (Message.ofParts body contentType .empty).Sendable := by
  have hn := toLower_ne_length (by decide : "Content-Type".toList.map Char.toLower ≠ _)
  cases he : contentType.isEmpty with
  | true =>
    rw [Message.ofParts, if_pos he]
    exact Message.sendable_empty body contentType
  | false =>
    rw [Message.ofParts, if_neg (ne_true_of_eq_false he)]
    exact (Message.sendable_empty body contentType).addHeader hf hn

theorem Response.sendable_empty {status : Status}
    (h : ¬['\r', '\n'] <:+: (status.phrase?.getD "Unknown").toList) :
    (Response.empty status).Sendable :=
  ⟨Message.sendable_empty [] "", h⟩

theorem Message.body_withContentLength (m : Message) : m.withContentLength.body = m.body := by
  unfold withContentLength
  split <;> rfl

theorem Response.Draft.body_toResponse (d : Draft) : d.toResponse.body = d.body :=
  Message.body_withContentLength _

theorem Response.body_plainText (status : Status) (text : String) :
    (Response.plainText status text).body = Bytes.ofText text :=
  Draft.body_toResponse _

theorem Response.sendable_ofBody {status : Status} {body : Bytes} {contentType : String}
    (hf : (⟨"Content-Type", contentType⟩ : Field).Clean) (hb : body.length < Nat.pow 2 64)
    (h : ¬['\r', '\n'] <:+: (status.phrase?.getD "Unknown").toList) :
    { status := status, body := body, contentType := contentType : Draft }.toResponse.Sendable :=
  ⟨((Message.sendable_ofParts body hf).withContentLength hb).sendable, h⟩

theorem Response.sendable_plainText {status : Status} {text : String}
    (hb : (Bytes.ofText text).length < Nat.pow 2 64)
    (h : ¬['\r', '\n'] <:+: (status.phrase?.getD "Unknown").toList) :
    (Response.plainText status text).Sendable :=
  sendable_ofBody (Field.clean_of_unpadded (by decide) (by decide) (by decide) (by decide)) hb h

theorem Response.sendable_methodNotAllowed {words : List String}
    (h : ∀ word ∈ words, ∀ c ∈ word.toList, c.isAlpha = true) :
    (Response.methodNotAllowed words).Sendable := by
  have hn := toLower_ne_length (by decide : "Allow".toList.map Char.toLower ≠ _)
  have hr : (methodNotAllowed words).reason = "Method Not Allowed" := rfl
  refine ⟨(Message.sendable_empty [] "").addHeader (clean_allow h) hn, ?_⟩
  rw [hr]
  exact noBreak_of_not_mem (by decide)

theorem Outcome.Sendable.toResponse {o : Outcome} (h : o.Sendable) :
    o.toResponse.Sendable := by
  have hb := h.fits
  cases o with
  | response r => exact h.own r rfl
  | failure message =>
    rw [Outcome.toResponse, Response.internalError, Response.body_plainText] at hb
    exact Response.sendable_plainText hb (noBreak_of_not_mem (by decide))
  | panic message =>
    rw [Outcome.toResponse, Response.internalError, Response.body_plainText] at hb
    exact Response.sendable_plainText hb (noBreak_of_not_mem (by decide))

namespace Service

variable {σ : Type} {s : Service σ} {request : Request}

/-- What the handlers answer depends on nothing but the request. -/
def Pure (s : Service σ) : Prop :=
  ∀ route ∈ s.routes.table, ∀ entry ∈ route.2, Stateless entry.2

/-- Methods are words, the name of the server can be sent, and handlers do not share anything. -/
structure Orderly (s : Service σ) : Prop where
  stateless : s.Pure
  methods : ∀ route ∈ s.routes.table, ∀ entry ∈ route.2, ∀ c ∈ entry.1.toList, c.isAlpha = true
  server : ∀ server, s.serverHeader = some server → (⟨"Server", server⟩ : Field).Clean

/-- The handler that the routes have for a request, if any, comes to something that can be sent. -/
def Serves (s : Service σ) (request : Request) : Prop :=
  ∀ handler, s.routes.find request.resource request.method = .handler handler →
    ∀ state, (handler request state).1.Sendable

theorem mem_of_find_handler {resource method : String} {handler : Handler σ}
    (h : s.routes.find resource method = .handler handler) :
    ∃ route ∈ s.routes.table, ∃ entry ∈ route.2, entry.2 = handler := by
  unfold Routes.find at h
  split at h
  · cases h
  · rename_i methods hm
    split at h
    · rename_i found hf
      cases h
      obtain ⟨route, hr, rfl⟩ := Dictionary.mem_of_get? hm
      exact ⟨route, hr, Dictionary.mem_of_get? hf⟩
    · cases h

theorem mem_of_find_methods {resource method : String} {words : List String}
    (h : s.routes.find resource method = .methodNotAllowed words) :
    ∃ route ∈ s.routes.table, route.2.keys = words := by
  unfold Routes.find at h
  split at h
  · cases h
  · rename_i methods hm
    split at h
    · cases h
    · cases h
      obtain ⟨route, hr, rfl⟩ := Dictionary.mem_of_get? hm
      exact ⟨route, hr, rfl⟩

theorem Pure.dispatch_eq (h : s.Pure) (request : Request) (state other : σ) :
    (s.dispatch request state).1 = (s.dispatch request other).1 := by
  have hrespond : (s.respond request state).1 = (s.respond request other).1 := by
    unfold respond
    cases hf : s.routes.find request.resource request.method with
    | handler handler =>
      obtain ⟨route, hr, entry, he, rfl⟩ := mem_of_find_handler hf
      exact congrArg Outcome.toResponse (h route hr entry he request state other)
    | _ => rfl
  exact congrArg s.decorate hrespond

theorem Orderly.sendable_respond (h : s.Orderly) (hr : s.Serves request) (state : σ) :
    (s.respond request state).1.Sendable ∧
      (s.respond request state).1.body.length < Nat.pow 2 64 := by
  have hz : ([] : Bytes).length < Nat.pow 2 64 := by decide
  unfold respond
  cases hf : s.routes.find request.resource request.method with
  | notFound => exact ⟨Response.sendable_empty (noBreak_of_not_mem (by decide)), hz⟩
  | methodNotAllowed words =>
    obtain ⟨route, hm, rfl⟩ := mem_of_find_methods hf
    refine ⟨Response.sendable_methodNotAllowed fun word hw ↦ ?_, hz⟩
    obtain ⟨entry, he, rfl⟩ := List.mem_map.1 hw
    exact h.methods route hm entry he
  | handler handler =>
    have ho := hr handler hf state
    exact ⟨ho.toResponse, ho.fits⟩

theorem clean_close : (⟨"Connection", "close"⟩ : Field).Clean :=
  Field.clean_of_unpadded (by decide) (by decide) (by decide) (by decide)

theorem clean_framework : (⟨"X-Framework", frameworkId⟩ : Field).Clean := by
  refine Field.clean_mk (by decide) (by decide) (by decide)
    (noBreak_of_not_mem (by decide)) fun c hm ↦ ?_
  obtain rfl := Option.some.inj hm
  decide

theorem clean_decorate
    (h : ∀ server, s.serverHeader = some server → (⟨"Server", server⟩ : Field).Clean)
    {r : Response} (hr : r.Sendable) (hb : r.body.length < Nat.pow 2 64) :
    (s.decorate r).Clean := by
  have hs := toLower_ne_length (by decide : "Server".toList.map Char.toLower ≠ _)
  have hc := toLower_ne_length (by decide : "Connection".toList.map Char.toLower ≠ _)
  have hx := toLower_ne_length (by decide : "X-Framework".toList.map Char.toLower ≠ _)
  have hm := hr.message.withContentLength hb
  unfold decorate
  cases hv : s.serverHeader with
  | none => exact ⟨(hm.addHeader clean_close hc).addHeader clean_framework hx, hr.reason⟩
  | some server =>
    have hserver := hm.addHeader (h server hv) hs
    exact ⟨(hserver.addHeader clean_close hc).addHeader clean_framework hx, hr.reason⟩

theorem body_decorate (s : Service σ) (r : Response) : (s.decorate r).body = r.body := by
  have hb : r.withContentLength.body = r.body := Message.body_withContentLength r.toMessage
  unfold decorate
  cases s.serverHeader <;> exact hb

/-- Whatever becomes of a request, the answer can be sent and read back. -/
theorem Orderly.clean_dispatch (h : s.Orderly) (hr : s.Serves request) (state : σ) :
    (s.dispatch request state).1.Clean := by
  obtain ⟨hs, hb⟩ := h.sendable_respond hr state
  exact clean_decorate h.server hs hb

end Service

end LocalHttp
