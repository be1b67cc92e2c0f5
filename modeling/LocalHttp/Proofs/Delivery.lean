import LocalHttp.Proofs.Dispatch
import LocalHttp.Proofs.Progress
import LocalHttp.Proofs.Routing

namespace LocalHttp

open Incoming

variable {σ : Type} {service : Service σ}

/-- What is dispatched for a request is the answer to its bytes, as the lines of it are read. -/
theorem Service.Orderly.answers (h : service.Orderly) {request : Request} (hq : request.Clean)
    {state : σ} {reply : Response} (hd : (service.dispatch request.received state).1 = reply)
    (hr : reply.Legible) : service.Answers request.encode reply.encode reply.stripped.received := by
  obtain ⟨raw, hraw, ho⟩ := hq.exists_reading []
  obtain ⟨answer, hanswer, hread⟩ := hr.exists_reading []
  rw [List.append_nil] at hraw hanswer
  refine ⟨⟨raw, request.received, hraw, ho, fun other ↦ ?_⟩, answer, hanswer, hread⟩
  rw [h.stateless.dispatch_eq request.received other state, hd]

def Response.Agrees (r other : Response) : Prop :=
  r.status = other.status ∧ r.reason = other.reason ∧ r.body = other.body ∧
    r.headers = other.headers

theorem Response.agrees_received (r : Response) : r.received.Agrees r := ⟨rfl, rfl, rfl, rfl⟩

namespace Exchange

theorem open_start (request : Request) (answered : Bytes) {acceptances : List Acceptance}
    (ha : ∀ errno, .fault errno ∉ acceptances) :
    (start request acceptances).Open request.encode answered := by
  obtain ⟨sent, unsent, left, call, happ, -, hsend, hso, hun, hasks⟩ :=
    exists_sent (Socket.heard_fresh { acceptances := acceptances }) ⟨request.encode⟩ ha
  have hcall : Call.start { line := { acceptances := acceptances } } request = call := hsend
  have hs : start request acceptances = ⟨call, { socket := {} }, sent, []⟩ := by
    rw [start, hcall, hso]
    rfl
  rw [hs]
  refine .inl ⟨rfl, rfl, hasks, [], Socket.heard_fresh {}, ?_⟩
  rw [hun]
  exact happ

theorem Fair.exists_response {request : Request} {acceptances : List Acceptance}
    {schedule : Nat → Turn σ} (hf : (start request acceptances).Fair service schedule)
    (ha : ∀ errno, .fault errno ∉ acceptances) (hs : service.Orderly) (hq : request.Clean)
    {state : σ} {reply : Response} (hd : (service.dispatch request.received state).1 = reply)
    (hr : reply.Legible) :
    ∃ n, (∀ m < n, ((start request acceptances).run service schedule m).call.result? = none) ∧
      ∀ m ≥ n, ((start request acceptances).run service schedule m).call.result? =
        some (.ok reply.stripped.received) :=
  hf.exists_result (open_start request reply.encode ha) (hs.answers hq hd hr)

/-- Whatever the system calls can move at a time and report while none of them fails, a client that
has sent a request gets the response that is dispatched for it, with the parts that it has there.
The request is the completed one as the server has it, with the content type that its headers
name. -/
theorem dispatched_response_arrives (service : Service σ) (hs : service.Orderly) (host : String)
    (hh : (⟨"Host", host⟩ : Field).Clean) (request : Request) (hq : request.Sendable)
    (hb : request.body.length < Nat.pow 2 64)
    (hr : service.Serves (Call.complete host request).received)
    (acceptances : List Acceptance) (ha : ∀ errno, .fault errno ∉ acceptances)
    (schedule : Nat → Turn σ)
    (hf : (start (Call.complete host request) acceptances).Fair service schedule) (state : σ) :
    ∃ n response,
      (∀ m < n, ((start (Call.complete host request) acceptances).run service schedule
        m).call.result? = none) ∧
      (∀ m ≥ n, ((start (Call.complete host request) acceptances).run service schedule
        m).call.result? = some (.ok response)) ∧
      response.Agrees (service.dispatch (Call.complete host request).received state).1 := by
  have hc := hs.clean_dispatch hr state
  obtain ⟨n, hbefore, hafter⟩ :=
    hf.exists_response ha hs (hq.complete hh hb) rfl ⟨hc.message.legible, hc.reason⟩
  rw [Response.stripped, hc.message.stripped] at hafter
  exact ⟨n, _, hbefore, hafter, Response.agrees_received _⟩

def doorkeeper (handler : Handler Unit) : Service Unit :=
  ⟨⟨[("/door", [("PUT", handler)])]⟩, none⟩

variable {handler : Handler Unit} {request : Request}

theorem orderly_doorkeeper (h : Stateless handler) : (doorkeeper handler).Orderly where
  stateless := by
    intro route hr entry he
    obtain rfl := List.mem_singleton.1 hr
    obtain rfl := List.mem_singleton.1 he
    exact h
  methods := by
    intro route hr entry he
    obtain rfl := List.mem_singleton.1 hr
    obtain rfl := List.mem_singleton.1 he
    have hw : "PUT".toList.all Char.isAlpha = true := by decide
    exact List.all_eq_true.1 hw
  server := nofun

theorem dispatch_doorkeeper (hr : request.resource = "/door") (hm : request.method = "PUT") :
    ((doorkeeper handler).dispatch request ()).1 =
      (doorkeeper handler).decorate (handler request ()).1.toResponse := by
  have hf : (doorkeeper handler).routes.handler? request.resource request.method =
      some handler := by
    rw [hr, hm, Routes.handler?, Routes.methods?, Routes.routeKey_eq (by decide),
      Routes.methodKey_eq (by decide)]
    rfl
  rw [Service.dispatch_of_handler hf]

theorem serves_doorkeeper (h : ∀ state, (handler request state).1.Sendable) :
    (doorkeeper handler).Serves request := by
  intro found hf
  obtain ⟨route, hr, entry, he, rfl⟩ := Service.mem_of_find_handler hf
  obtain rfl := List.mem_singleton.1 hr
  obtain rfl := List.mem_singleton.1 he
  exact h

theorem sendable_plainText {text : String} (h : (Bytes.ofText text).length < Nat.pow 2 64) :
    (Outcome.response (.plainText .ok text)).Sendable := by
  refine ⟨?_, fun r hr ↦ ?_⟩
  · rwa [Outcome.toResponse, Response.body_plainText]
  · obtain rfl := Outcome.response.inj hr
    exact Response.sendable_plainText h (noBreak_of_not_mem (by decide))

def welcome : Handler Unit := fun _ s ↦ (.response (.plainText .ok "come in"), s)

theorem clean_host : (⟨"Host", "house"⟩ : Field).Clean :=
  Field.clean_of_unpadded (by decide) (by decide) (by decide) (by decide)

theorem sendable_knock : Feed.knock.Sendable :=
  ⟨Feed.clean_knock.message.sendable, Feed.clean_knock.method, Feed.clean_knock.resource,
    Feed.clean_knock.query⟩

theorem dispatched_response_arrives_at_door :
    (doorkeeper welcome).Orderly ∧ (⟨"Host", "house"⟩ : Field).Clean ∧ Feed.knock.Sendable ∧
      Feed.knock.body.length < Nat.pow 2 64 ∧
      (doorkeeper welcome).Serves (Call.complete "house" Feed.knock).received ∧
      (∀ errno, Acceptance.fault errno ∉ ([.room 7] : List Acceptance)) ∧
      (start (Call.complete "house" Feed.knock) [.room 7]).Fair (doorkeeper welcome)
        (eager (doorkeeper welcome) (start (Call.complete "house" Feed.knock) [.room 7]) ()) ∧
      ∃ n response,
        (∀ m < n, ((start (Call.complete "house" Feed.knock) [.room 7]).run (doorkeeper welcome)
          (eager (doorkeeper welcome) (start (Call.complete "house" Feed.knock) [.room 7]) ())
            m).call.result? = none) ∧
        (∀ m ≥ n, ((start (Call.complete "house" Feed.knock) [.room 7]).run (doorkeeper welcome)
          (eager (doorkeeper welcome) (start (Call.complete "house" Feed.knock) [.room 7]) ())
            m).call.result? = some (.ok response)) ∧
        response.Agrees
          ((doorkeeper welcome).dispatch (Call.complete "house" Feed.knock).received ()).1 := by
  have hs : (doorkeeper welcome).Orderly := orderly_doorkeeper fun _ _ _ ↦ rfl
  have hb : Feed.knock.body.length < Nat.pow 2 64 := by decide
  have hr : (doorkeeper welcome).Serves (Call.complete "house" Feed.knock).received :=
    serves_doorkeeper fun _ ↦ sendable_plainText (by decide +kernel)
  have ha : ∀ errno, Acceptance.fault errno ∉ ([.room 7] : List Acceptance) :=
    fun errno hm ↦ nomatch List.mem_singleton.1 hm
  have hf := fair_eager (doorkeeper welcome) (start (Call.complete "house" Feed.knock) [.room 7]) ()
  refine ⟨hs, clean_host, sendable_knock, hb, hr, ha, hf, ?_⟩
  exact dispatched_response_arrives _ hs "house" clean_host Feed.knock sendable_knock hb hr _ ha _
    hf ()

def typist : Handler Unit := fun r s ↦ (.response (.plainText .ok r.contentType), s)

theorem body_typist (hr : request.resource = "/door") (hm : request.method = "PUT") :
    ((doorkeeper typist).dispatch request ()).1.body = Bytes.ofText request.contentType := by
  rw [dispatch_doorkeeper hr hm, Service.body_decorate]
  exact Response.body_plainText .ok request.contentType

def mistyped : Request where
  method := "PUT"
  resource := "/door"
  args := .empty
  headers := ⟨[⟨"Content-Type", "text/plain"⟩], List.pairwise_singleton _ _⟩
  body := []
  contentType := "text/html"

theorem sendable_mistyped : mistyped.Sendable where
  message := by
    refine ⟨List.forall_mem_singleton.2 (Field.clean_of_unpadded ?_ ?_ ?_ ?_), fun _ ↦ ?_⟩
    · decide
    · decide
    · decide
    · decide
    · have hf : mistyped.headers.fields.find? (isNamed "content-length") = none := by
        refine List.find?_cons_of_neg ?_
        exact mt eq_of_beq (mt toLower_eq_iff.1 (by decide))
      rw [Announces, hf]
      rfl
  method := by decide
  resource := by decide
  query := by decide

theorem namedType_mistyped : (Call.complete "house" mistyped).namedType = "text/plain" := by
  have hg : mistyped.headers.get? "Content-Type" = some ⟨"Content-Type", "text/plain"⟩ := by
    rw [FieldTable.get?]
    exact List.find?_cons_of_pos (beq_self_eq_true _)
  have hc : (Call.complete "house" mistyped).headers.get? "Content-Type" =
      some ⟨"Content-Type", "text/plain"⟩ := by
    refine (FieldTable.get?_insert _ ⟨"Host", "house"⟩ "Content-Type").trans ?_
    rw [hg]
    rfl
  rw [Message.namedType, FieldTable.value?, hc]
  rfl

def padded : Response where
  status := .ok
  givenReason := none
  headers := ⟨[⟨"X", " x"⟩], List.pairwise_singleton _ _⟩
  body := []
  contentType := ""

def padder : Handler Unit := fun _ s ↦ (.response padded, s)

theorem legible_padded : ((doorkeeper padder).decorate padded).Legible := by
  have hx : "X".toLower ≠ "content-length" := mt toLower_eq_iff.1 (by decide)
  have hline : (⟨"X", " x"⟩ : Field).IsLine :=
    ⟨by decide, by decide, by decide, noBreak_of_not_mem (by decide)⟩
  have hp : ∀ f ∈ padded.headers.fields, f.IsLine ∧ f.name.toLower ≠ "content-length" :=
    List.forall_mem_singleton.2 ⟨hline, hx⟩
  have hc : "Connection".toLower ≠ "content-length" := mt toLower_eq_iff.1 (by decide)
  have hf : "X-Framework".toLower ≠ "content-length" := mt toLower_eq_iff.1 (by decide)
  have hclose := Message.fields_addHeader (m := padded.toMessage) hp
    (⟨Service.clean_close.toIsLine, hc⟩ : (⟨"Connection", "close"⟩ : Field).IsLine ∧ _)
  have hall : ∀ f ∈ ((doorkeeper padder).decorate padded).headers.fields,
      f.IsLine ∧ f.name.toLower ≠ "content-length" :=
    Message.fields_addHeader hclose ⟨Service.clean_framework.toIsLine, hf⟩
  refine ⟨⟨fun f hm ↦ (hall f hm).1, ?_⟩, noBreak_of_not_mem (by decide)⟩
  have hn : (((doorkeeper padder).decorate padded).headers.fields.map Field.stripped).find?
      (isNamed "content-length") = none := by
    refine List.find?_eq_none.2 fun f hm ↦ ?_
    obtain ⟨g, hg, rfl⟩ := List.mem_map.1 hm
    simpa [isNamed, Field.stripped] using (hall g hg).2
  rw [Announces, hn]
  rfl

theorem exists_fields_padded : ∃ more,
    ((doorkeeper padder).decorate padded).headers.fields = ⟨"X", " x"⟩ :: more := by
  have hp (t : Headers) (name value : String) : t.fields <+: (t.add name value).fields := by
    rw [FieldTable.add, FieldTable.fields_insert]
    split
    · exact List.prefix_refl _
    · exact List.prefix_append _ _
  obtain ⟨more, hm⟩ := (hp padded.headers "Connection" "close").trans
    (hp _ "X-Framework" frameworkId)
  exact ⟨more, hm.symm⟩

theorem headers_stripped_padded :
    ((doorkeeper padder).decorate padded).stripped.headers ≠
      ((doorkeeper padder).decorate padded).headers := by
  intro he
  obtain ⟨more, hm⟩ := exists_fields_padded
  have hs : Field.stripped ⟨"X", " x"⟩ = ⟨"X", "x"⟩ := by decide
  have hg := congrArg (fun t : Headers ↦ t.get? "X") he
  have hl : ((doorkeeper padder).decorate padded).stripped.headers.get? "X" =
      some ⟨"X", "x"⟩ := by
    refine (FieldTable.get?_ofList _ "X").trans ?_
    rw [show Response.toMessage _ = _ from rfl, hm, List.map_cons, hs]
    exact List.find?_cons_of_pos (beq_self_eq_true _)
  have hr : ((doorkeeper padder).decorate padded).headers.get? "X" = some ⟨"X", " x"⟩ := by
    rw [FieldTable.get?, hm]
    exact List.find?_cons_of_pos (beq_self_eq_true _)
  rw [hl, hr] at hg
  exact absurd (congrArg Field.value (Option.some.inj hg)) (by decide)

/-- What the client gets is neither what would be dispatched for the request as the client has it
nor what was dispatched: the content type of a request is read from its headers, and padding is
dropped. -/
theorem response_other_than_dispatched :
    ((doorkeeper typist).Orderly ∧ mistyped.Sendable ∧
      (start (Call.complete "house" mistyped) []).Fair (doorkeeper typist)
        (eager (doorkeeper typist) (start (Call.complete "house" mistyped) []) ()) ∧
      ∃ n response, ((start (Call.complete "house" mistyped) []).run (doorkeeper typist)
        (eager (doorkeeper typist) (start (Call.complete "house" mistyped) []) ())
          n).call.result? = some (.ok response) ∧
        response.body ≠
          ((doorkeeper typist).dispatch (Call.complete "house" mistyped) ()).1.body) ∧
    (doorkeeper padder).Orderly ∧ Feed.knock.Sendable ∧
      (start (Call.complete "house" Feed.knock) []).Fair (doorkeeper padder)
        (eager (doorkeeper padder) (start (Call.complete "house" Feed.knock) []) ()) ∧
      ∃ n response, ((start (Call.complete "house" Feed.knock) []).run (doorkeeper padder)
        (eager (doorkeeper padder) (start (Call.complete "house" Feed.knock) []) ())
          n).call.result? = some (.ok response) ∧
        response.headers ≠
          ((doorkeeper padder).dispatch (Call.complete "house" Feed.knock) ()).1.headers := by
  have ha : ∀ errno, Acceptance.fault errno ∉ ([] : List Acceptance) := fun _ ↦ nofun
  have htypist : (doorkeeper typist).Orderly := orderly_doorkeeper fun _ _ _ ↦ rfl
  have hpadder : (doorkeeper padder).Orderly := orderly_doorkeeper fun _ _ _ ↦ rfl
  have hmistyped := sendable_mistyped
  have hb : mistyped.body.length < Nat.pow 2 64 := by decide
  have hf := fair_eager (doorkeeper typist) (start (Call.complete "house" mistyped) []) ()
  have hf' := fair_eager (doorkeeper padder) (start (Call.complete "house" Feed.knock) []) ()
  refine ⟨⟨htypist, hmistyped, hf, ?_⟩, hpadder, sendable_knock, hf', ?_⟩
  · have hr : (doorkeeper typist).Serves (Call.complete "house" mistyped).received := by
      refine serves_doorkeeper fun _ ↦ sendable_plainText ?_
      rw [Request.received, namedType_mistyped]
      decide +kernel
    -- this answer arrives unchanged, so what differs is what has been dispatched
    have hc := htypist.clean_dispatch hr ()
    obtain ⟨n, -, hafter⟩ := hf.exists_response ha htypist (hmistyped.complete clean_host hb) rfl
      ⟨hc.message.legible, hc.reason⟩
    refine ⟨n, _, hafter n (Nat.le_refl n), fun he ↦ ?_⟩
    have hseen : (Call.complete "house" mistyped).received.contentType = "text/plain" :=
      namedType_mistyped
    have hown : (Call.complete "house" mistyped).contentType = "text/html" := rfl
    have he := (body_typist rfl rfl).symm.trans (he.trans (body_typist rfl rfl))
    rw [hseen, hown] at he
    have ht := congrArg Bytes.text? he
    rw [Bytes.text?_ofText, Bytes.text?_ofText] at ht
    exact absurd (Option.some.inj ht) (by decide)
  · have hk := sendable_knock.complete clean_host (by decide)
    have hd : ((doorkeeper padder).dispatch (Call.complete "house" Feed.knock).received ()).1 =
        (doorkeeper padder).decorate padded := dispatch_doorkeeper rfl rfl
    obtain ⟨n, -, hafter⟩ := hf'.exists_response ha hpadder hk hd legible_padded
    refine ⟨n, _, hafter n (Nat.le_refl n), ?_⟩
    have hown : ((doorkeeper padder).dispatch (Call.complete "house" Feed.knock) ()).1 =
        (doorkeeper padder).decorate padded := dispatch_doorkeeper rfl rfl
    rw [hown]
    exact headers_stripped_padded

end Exchange

end LocalHttp
