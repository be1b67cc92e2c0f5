import LocalHttp.Proofs.Decoration
import LocalHttp.Proofs.Lines

namespace LocalHttp

open Incoming

variable {σ : Type}

/-- One call for a connection: what was reported of it, what its reads and writes will meet, and the
state that the handlers share at that time. -/
structure Visit (σ : Type) where
  readiness : Readiness
  arrivals : List Arrival := []
  acceptances : List Acceptance := []
  state : σ

namespace Connection

def Phase.rank : Phase → Nat
  | .reading => 0
  | .writing _ => 1
  | .closed => 2

def facing (c : Connection) (v : Visit σ) : Connection :=
  { c with socket := { c.socket with line :=
    { c.socket.line with arrivals := v.arrivals, acceptances := v.acceptances } } }

def requested? (c : Connection) : Option Request :=
  match c.readRequest.1 with
  | .request request => some request
  | _ => none

def dispatches? (c : Connection) (r : Readiness) : Option Request :=
  if r.error then none
  else if c.isReading && (r.readable || r.hungUp) then c.requested?
  else none

theorem snd_serve (c : Connection) (service : Service σ) (state : σ) :
    (c.serve service state).2 =
      (c.requested?.map fun request ↦ (service.dispatch request state).2).getD state := by
  unfold serve requested?
  rcases c.readRequest with ⟨_ | _ | _, after⟩ <;> rfl

theorem snd_handle (c : Connection) (service : Service σ) (state : σ) (r : Readiness) :
    (c.handle service state r).2 =
      ((c.dispatches? r).map fun request ↦ (service.dispatch request state).2).getD state := by
  unfold handle dispatches?
  cases r.error with
  | true => rfl
  | false =>
    cases c.isReading && (r.readable || r.hungUp) with
    | true => exact snd_serve c service state
    | false => cases r.writable <;> rfl

theorem handle_cases (c : Connection) (service : Service σ) (state : σ) (r : Readiness) :
    ∃ mid,
      ((c.handle service state r).1 = mid ∨
        (c.handle service state r).1 = mid.close ∧ (r.hungUp = true ∨ r.error = true)) ∧
      (mid = c ∧ c.dispatches? r = none ∨ mid = c.flush ∧ c.dispatches? r = none ∨
        c.isReading = true ∧ mid = (c.serve service state).1 ∧
          c.dispatches? r = c.requested?) := by
  unfold handle dispatches?
  cases r.error with
  | true => exact ⟨c, .inr ⟨rfl, .inr rfl⟩, .inl ⟨rfl, rfl⟩⟩
  | false =>
    have hend (mid : Connection) :
        (if (r.hungUp && !mid.isClosed) = true then mid.close else mid) = mid ∨
        (if (r.hungUp && !mid.isClosed) = true then mid.close else mid) = mid.close ∧
          (r.hungUp = true ∨ false = true) := by
      split
      · rename_i h
        exact .inr ⟨rfl, .inl (Bool.and_eq_true_iff.1 h).1⟩
      · exact .inl rfl
    cases hr : c.isReading && (r.readable || r.hungUp) with
    | true =>
      have hc : c.isReading = true := (Bool.and_eq_true_iff.1 hr).1
      exact ⟨(c.serve service state).1, hend _, .inr (.inr ⟨hc, rfl, rfl⟩)⟩
    | false =>
      cases r.writable with
      | true => exact ⟨c.flush, hend _, .inr (.inl ⟨rfl, rfl⟩)⟩
      | false => exact ⟨c, hend _, .inl ⟨rfl, rfl⟩⟩

theorem rank_le_flush (c : Connection) : c.phase.rank ≤ c.flush.phase.rank := by
  unfold flush
  split
  · rename_i hc
    rw [hc]
    split
    · exact Nat.le_succ 1
    · exact Nat.le_refl 1
    · exact Nat.le_succ 1
  · exact Nat.le_refl _

theorem isReading_iff {c : Connection} : c.isReading = true ↔ c.phase = .reading := by
  unfold isReading
  cases c.phase <;> simp

theorem rank_le_handle (c : Connection) (service : Service σ) (state : σ) (r : Readiness) :
    c.phase.rank ≤ (c.handle service state r).1.phase.rank := by
  obtain ⟨mid, hend, hmid⟩ := c.handle_cases service state r
  have hle : c.phase.rank ≤ mid.phase.rank := by
    rcases hmid with ⟨rfl, -⟩ | ⟨rfl, -⟩ | ⟨hr, -, -⟩
    · exact Nat.le_refl _
    · exact c.rank_le_flush
    · rw [isReading_iff.1 hr]
      exact Nat.zero_le _
  have hclose : mid.phase.rank ≤ mid.close.phase.rank := by
    cases hp : mid.phase with
    | reading => exact Nat.zero_le 2
    | writing outgoing => exact Nat.le_succ 1
    | closed => exact Nat.le_refl 2
  rcases hend with h | ⟨h, -⟩
  · rw [h]
    exact hle
  · rw [h]
    exact Nat.le_trans hle hclose

end Connection

/-- What a connection has gone through: the bytes that came, what its reads and writes met, and the
requests that were handed to the handlers, each with the state that these shared. -/
structure Life (σ : Type) where
  connection : Connection := { socket := {} }
  received : Bytes := []
  reads : List Arrival := []
  writes : List Acceptance := []
  dispatched : List (Request × σ) := []

namespace Life

def accepted (l : Life σ) : Bytes := l.connection.socket.line.accepted

/-- The first request in what came, or why it has none; nothing while neither is there. -/
def first? (l : Life σ) : Option (Except ReadFault Request) :=
  (reading .fresh l.received).result Request.ofRaw

/-- The life up to a point in a visit at which the connection is the given one. -/
def upTo (l : Life σ) (v : Visit σ) (request? : Option Request) (c : Connection) : Life σ where
  connection := c
  received := l.received ++ (bytesOf v.arrivals).take
    (pendingBytes v.arrivals - pendingBytes c.socket.line.arrivals)
  reads := l.reads ++ v.arrivals.take (v.arrivals.length - c.socket.line.arrivals.length)
  writes := l.writes ++
    v.acceptances.take (v.acceptances.length - c.socket.line.acceptances.length)
  dispatched := l.dispatched ++ request?.toList.map (·, v.state)

def next (service : Service σ) (l : Life σ) (v : Visit σ) : Life σ :=
  let c := l.connection.facing v
  l.upTo v (c.dispatches? v.readiness) (c.handle service v.state v.readiness).1

def run (service : Service σ) (visits : List (Visit σ)) : Life σ := visits.foldl (next service) {}

/-- The response that a connection is owed: what the handlers answer to its request, or, completed
as theirs are, a 400 that says what is wrong with the request or a 500 that says why it could not be
read. That a read has failed decides it only while the bytes that have been parsed hold no request
and no fault; what the failed read brought is not parsed. -/
inductive Answer (service : Service σ) (l : Life σ) : Response → Prop
  | request {request : Request} {state : σ} :
    l.first? = some (.ok request) → l.dispatched = [(request, state)] →
      Answer service l (service.dispatch request state).1
  | refused {cause : ReadFault} {refusal reply : Response} :
    l.first? = some (.error cause) → l.dispatched = [] → refusal.ShowsText 400 cause.message →
    service.Completes refusal reply →
      Answer service l reply
  | failed {parsed unparsed kept : Bytes} {errno : Errno} {failure reply : Response} :
    l.received = parsed ++ unparsed → reading .fresh parsed = .blocked l.connection.incoming kept →
    l.connection.socket.buffer.unread = kept ++ unparsed → [.fault errno] <:+ l.reads →
    l.dispatched = [] →
    failure.ShowsText 500 (TransportFault.socket .read (.system errno)).message →
    service.Completes failure reply →
      Answer service l reply

/-- The connection was cut off: the other end or the system gave up, or a write failed. -/
def Cut (visits : List (Visit σ)) (l : Life σ) : Prop :=
  (∃ v ∈ visits, v.readiness.hungUp = true ∨ v.readiness.error = true) ∨
    ∃ errno, .fault errno ∈ l.writes

structure Left (visits : List (Visit σ)) (l : Life σ) : Prop where
  first? : l.first? = none
  peerClosed : l.connection.socket.peerClosed = true
  met : ∃ v ∈ visits, .endOfFile ∈ v.arrivals

/-- Where a connection stands after these visits. -/
inductive Stage (service : Service σ) (visits : List (Visit σ)) (l : Life σ) : Prop
  | reading : l.connection.phase = .reading → l.connection.socket.isOpen = true →
    l.connection.socket.peerClosed = false → l.accepted = [] → l.dispatched = [] →
    reading .fresh l.received = .blocked l.connection.incoming l.connection.socket.buffer.unread →
      Stage service visits l
  | writing {outgoing : Outgoing} {reply : Response} : l.connection.phase = .writing outgoing →
    l.connection.socket.isOpen = true → l.Answer service reply →
    reply.encode = l.accepted ++ outgoing.unsent →
      Stage service visits l
  | unanswered : l.connection.phase = .closed → l.accepted = [] → l.dispatched = [] →
    l.Cut visits ∨ l.Left visits →
      Stage service visits l
  | answered {reply : Response} : l.connection.phase = .closed → l.Answer service reply →
    l.accepted <+: reply.encode → l.Cut visits ∨ l.accepted = reply.encode →
      Stage service visits l

variable {service : Service σ} {l : Life σ} {visits : List (Visit σ)}

theorem Answer.congr {reply : Response} {other : Life σ} (h : l.Answer service reply)
    (hr : other.received = l.received) (hm : other.reads = l.reads)
    (hd : other.dispatched = l.dispatched)
    (hi : other.connection.incoming = l.connection.incoming)
    (hu : other.connection.socket.buffer = l.connection.socket.buffer) :
    other.Answer service reply := by
  have hf : other.first? = l.first? := by
    rw [first?, first?, hr]
  cases h with
  | request hq ho => exact .request (hf.trans hq) (hd.trans ho)
  | refused hq ho ht hc => exact .refused (hf.trans hq) (hd.trans ho) ht hc
  | failed hp hb hk he ho ht hc =>
    rw [← hi] at hb
    rw [← hu] at hk
    rw [← hm] at he
    exact .failed (hr.trans hp) hb hk he (hd.trans ho) ht hc

theorem Cut.mono {more : List (Visit σ)} (h : l.Cut visits) : l.Cut (visits ++ more) :=
  h.imp_left fun ⟨v, hv, hr⟩ ↦ ⟨v, List.mem_append_left more hv, hr⟩

theorem Left.mono {more : List (Visit σ)} (h : l.Left visits) : l.Left (visits ++ more) := by
  obtain ⟨v, hv, he⟩ := h.met
  exact ⟨h.first?, h.peerClosed, v, List.mem_append_left more hv, he⟩

theorem Stage.mono {more : List (Visit σ)} (h : l.Stage service visits) :
    l.Stage service (visits ++ more) := by
  cases h with
  | reading hp ho hc ha hd hr => exact .reading hp ho hc ha hd hr
  | writing hp ho ha he => exact .writing hp ho ha he
  | unanswered hp ha hd hw => exact .unanswered hp ha hd (hw.imp Cut.mono Left.mono)
  | answered hp ha hb hw => exact .answered hp ha hb (hw.imp_left Cut.mono)

theorem upTo_facing (l : Life σ) (v : Visit σ) :
    l.upTo v none (l.connection.facing v) = { l with connection := l.connection.facing v } := by
  simp [upTo, Connection.facing]

theorem Stage.facing (h : l.Stage service visits) (v : Visit σ) :
    (l.upTo v none (l.connection.facing v)).Stage service visits := by
  rw [upTo_facing]
  cases h with
  | reading hp ho hc ha hd hr => exact .reading hp ho hc ha hd hr
  | writing hp ho ha he => exact .writing hp ho (ha.congr rfl rfl rfl rfl rfl) he
  | unanswered hp ha hd hw => exact .unanswered hp ha hd (hw.imp_right fun h ↦ ⟨h.1, h.2, h.3⟩)
  | answered hp ha hb hw => exact .answered hp (ha.congr rfl rfl rfl rfl rfl) hb hw

theorem Stage.close (h : l.Stage service visits) (hc : l.Cut visits) :
    ({ l with connection := l.connection.close } : Life σ).Stage service visits := by
  cases h with
  | reading _ _ _ ha hd _ => exact .unanswered rfl ha hd (.inl hc)
  | writing _ _ ha he =>
    refine .answered rfl (ha.congr rfl rfl rfl rfl rfl) ?_ (.inl hc)
    rw [he]
    exact List.prefix_append _ _
  | unanswered _ ha hd hw => exact .unanswered rfl ha hd (hw.imp_right fun h ↦ ⟨h.1, h.2, h.3⟩)
  | answered _ ha hb hw => exact .answered rfl (ha.congr rfl rfl rfl rfl rfl) hb hw

theorem Stage.flush {v : Visit σ} {request? : Option Request} {c : Connection}
    (h : (l.upTo v request? c).Stage service visits)
    (hv : c.socket.line.acceptances = v.acceptances) :
    (l.upTo v request? c.flush).Stage service visits := by
  cases hp : c.phase with
  | reading =>
    have hf : c.flush = c := by
      rw [Connection.flush, hp]
    rwa [hf]
  | closed =>
    have hf : c.flush = c := by
      rw [Connection.flush, hp]
    rwa [hf]
  | writing outgoing =>
    obtain ⟨o, reply, hpo, ho, ha, he⟩ : ∃ o reply, c.phase = .writing o ∧
        c.socket.isOpen = true ∧ (l.upTo v request? c).Answer service reply ∧
        reply.encode = c.socket.line.accepted ++ o.unsent := by
      cases h with
      | writing hpo ho ha he => exact ⟨_, _, hpo, ho, ha, he⟩
      | reading hr => cases hp.symm.trans hr
      | unanswered hr => cases hp.symm.trans hr
      | answered hr => cases hp.symm.trans hr
    obtain ⟨sent, unsent, left, hs, hl, ⟨hf, hw⟩ | hf⟩ := Connection.exists_gave_flush hpo ho
    · rw [hf]
      have hall : reply.encode = c.socket.line.accepted ++ sent ++ unsent := by
        rw [he, hs, List.append_assoc]
      refine .answered rfl (ha.congr rfl rfl rfl rfl rfl) ⟨unsent, hall.symm⟩ ?_
      rcases hw with rfl | ⟨errno, hw⟩
      · rw [List.append_nil] at hall
        exact .inr hall.symm
      · rw [hv] at hw
        have hmet := (suffix_take_of_suffix hw).mem List.mem_cons_self
        exact .inl (.inr ⟨errno, List.mem_append_right _ hmet⟩)
    · rw [hf]
      refine .writing rfl ho (ha.congr rfl rfl rfl rfl rfl) ?_
      rw [he, hs, ← List.append_assoc]
      rfl

theorem Stage.respond {v : Visit σ} {request? : Option Request} {c : Connection} {reply : Response}
    (h : (l.upTo v request? c).Answer service reply) (ho : c.socket.isOpen = true)
    (ha : c.socket.line.accepted = []) (hv : c.socket.line.acceptances = v.acceptances) :
    (l.upTo v request? (c.respond reply)).Stage service visits := by
  refine Stage.flush (.writing rfl ho (h.congr rfl rfl rfl rfl rfl) ?_) hv
  rw [accepted, upTo, ha]
  rfl

theorem received_upTo {v : Visit σ} {c : Connection} {taken : Bytes}
    (h : Consumes taken v.arrivals c.socket.line.arrivals) (request? : Option Request) :
    (l.upTo v request? c).received = l.received ++ taken := by
  rw [upTo, h.take_bytesOf]

theorem Stage.serve {v : Visit σ} (h : l.Stage service visits)
    (hr : (l.connection.facing v).isReading = true) :
    (l.upTo v (l.connection.facing v).requested?
      ((l.connection.facing v).serve service v.state).1).Stage service (visits ++ [v]) := by
  have hp := Connection.isReading_iff.1 hr
  cases h with
  | writing hw => cases hp.symm.trans hw
  | unanswered hc => cases hp.symm.trans hc
  | answered hc => cases hp.symm.trans hc
  | reading _ ho hc ha hd hread =>
    have hopen : (l.connection.facing v).socket.isOpen = true := ho
    have hblocked : Incoming.reading .fresh l.received = .blocked
      (l.connection.facing v).incoming (l.connection.facing v).socket.buffer.unread := hread
    obtain ⟨taken, ht, hfinds⟩ := Socket.exists_finds_drain_behind Request.ofRaw hopen hblocked
    unfold Connection.requested? Connection.serve Connection.readRequest
    generalize (l.connection.facing v).socket.drain Request.ofRaw
      (l.connection.facing v).incoming = result at hfinds ht
    -- whatever is dispatched, these are the bytes that have come
    have hcame (request? : Option Request) {c : Connection} (hl : c.socket.line = result.2.2.line) :
        (l.upTo v request? c).received = l.received ++ taken :=
      received_upTo (hl ▸ ht.arrivals) request?
    have hfirst (request? : Option Request) {c : Connection}
        (hl : c.socket.line = result.2.2.line) : (l.upTo v request? c).first? =
          (Incoming.reading .fresh (l.received ++ taken)).result Request.ofRaw := by
      rw [first?, hcame request? hl]
    have haccepted : result.2.2.line.accepted = [] := ht.accepted.trans ha
    have hnone : l.dispatched ++ [] = [] := (List.append_nil _).trans hd
    cases hfinds with
    | @dry after s hb =>
      dsimp only
      cases hclosed : s.peerClosed with
      | true =>
        have hmet : .endOfFile ∈ v.arrivals := by
          refine (ht.peerClosed hclosed).resolve_left fun hopen ↦ ?_
          cases hc.symm.trans hopen
        refine .unanswered rfl haccepted hnone (.inr ⟨?_, hclosed, v, by simp, hmet⟩)
        exact (hfirst none rfl).trans (congrArg _ hb)
      | false =>
        refine .reading hp ht.isOpen hclosed haccepted hnone ?_
        exact (congrArg _ (hcame none rfl)).trans hb
    | @message request s hm =>
      refine Stage.respond (.request ((hfirst (some request) rfl).trans hm) ?_) ht.isOpen haccepted
        ht.acceptances
      exact congrArg (· ++ [(request, v.state)]) hd
    | @fault cause s hm =>
      exact Stage.respond (.refused ((hfirst none rfl).trans hm) hnone
        (Response.showsText_plainText .badRequest _) (service.completes_decorate _))
        ht.isOpen haccepted ht.acceptances
    | @failed parsed unparsed kept after s errno htaken hb hk he =>
      have hmet : [.fault errno] <:+ l.reads ++
          v.arrivals.take (v.arrivals.length - s.line.arrivals.length) :=
        (suffix_take_of_suffix he).trans (List.suffix_append _ _)
      exact Stage.respond (.failed ((hcame none rfl).trans htaken) hb hk hmet hnone
        (Response.showsText_plainText .internalServerError _) (service.completes_decorate _))
        ht.isOpen haccepted ht.acceptances

theorem Stage.next (h : l.Stage service visits) (v : Visit σ) :
    (l.next service v).Stage service (visits ++ [v]) := by
  obtain ⟨mid, hend, hmid⟩ :=
    (l.connection.facing v).handle_cases service v.state v.readiness
  have hs : (l.upTo v ((l.connection.facing v).dispatches? v.readiness) mid).Stage service
      (visits ++ [v]) := by
    rcases hmid with ⟨rfl, hd⟩ | ⟨rfl, hd⟩ | ⟨hr, rfl, hd⟩
    · rw [hd]
      exact (h.facing v).mono
    · rw [hd]
      exact (h.facing v).mono.flush rfl
    · rw [hd]
      exact h.serve hr
  rw [Life.next]
  rcases hend with he | ⟨he, hcut⟩
  · rw [he]
    exact hs
  · rw [he]
    exact hs.close (.inl ⟨v, by simp, hcut⟩)

theorem stage_foldl (h : l.Stage service visits) (more : List (Visit σ)) :
    (more.foldl (next service) l).Stage service (visits ++ more) := by
  induction more generalizing l visits with
  | nil =>
    rw [List.append_nil]
    exact h
  | cons v more ih =>
    rw [List.append_cons]
    exact ih (h.next v)

theorem stage_run (service : Service σ) (visits : List (Visit σ)) :
    (run service visits).Stage service visits :=
  have hfresh : ({} : Life σ).Stage service [] :=
    .reading rfl rfl rfl rfl rfl (Feed.settled_fresh 0)
  stage_foldl hfresh visits

theorem Stage.accepted_prefix_next (h : l.Stage service visits) (v : Visit σ) :
    l.accepted <+: (l.next service v).accepted := by
  obtain ⟨mid, hend, hmid⟩ :=
    (l.connection.facing v).handle_cases service v.state v.readiness
  have hm : l.accepted <+: mid.socket.line.accepted := by
    cases h with
    | reading _ _ _ ha =>
      rw [ha]
      exact List.nil_prefix
    | @writing outgoing _ hp ho =>
      have hp : (l.connection.facing v).phase = .writing outgoing := hp
      rcases hmid with ⟨rfl, -⟩ | ⟨rfl, -⟩ | ⟨hr, -⟩
      · exact List.prefix_refl _
      · obtain ⟨sent, unsent, left, -, -, ⟨hf, -⟩ | hf⟩ := Connection.exists_gave_flush hp ho
        · rw [hf]
          exact List.prefix_append _ _
        · rw [hf]
          exact List.prefix_append _ _
      · cases hp.symm.trans (Connection.isReading_iff.1 hr)
    | unanswered hp ha =>
      rw [ha]
      exact List.nil_prefix
    | answered hp =>
      have hp : (l.connection.facing v).phase = .closed := hp
      rcases hmid with ⟨rfl, -⟩ | ⟨rfl, -⟩ | ⟨hr, -⟩
      · exact List.prefix_refl _
      · rw [Connection.flush, hp]
        exact List.prefix_refl _
      · cases hp.symm.trans (Connection.isReading_iff.1 hr)
  have hlast : mid.socket.line.accepted = (l.next service v).accepted := by
    rw [Life.next]
    rcases hend with he | ⟨he, -⟩
    · rw [he]
      rfl
    · rw [he]
      rfl
  rw [← hlast]
  exact hm

theorem run_append (service : Service σ) (visits more : List (Visit σ)) :
    (run service visits).connection.phase.rank ≤
        (run service (visits ++ more)).connection.phase.rank ∧
      (run service visits).accepted <+: (run service (visits ++ more)).accepted := by
  induction more generalizing visits with
  | nil =>
    rw [List.append_nil]
    exact ⟨Nat.le_refl _, List.prefix_refl _⟩
  | cons v more ih =>
    obtain ⟨hrank, haccepted⟩ := ih (visits ++ [v])
    rw [← List.append_cons] at hrank haccepted
    have hn : run service (visits ++ [v]) = (run service visits).next service v := by
      rw [run, List.foldl_append]
      rfl
    rw [hn] at hrank haccepted
    have hstep : (run service visits).connection.phase.rank ≤
        ((run service visits).next service v).connection.phase.rank :=
      ((run service visits).connection.facing v).rank_le_handle service v.state v.readiness
    exact ⟨Nat.le_trans hstep hrank,
      ((stage_run service visits).accepted_prefix_next v).trans haccepted⟩

theorem Stage.length_dispatched_le (h : l.Stage service visits) : l.dispatched.length ≤ 1 := by
  have hanswer {reply : Response} (ha : l.Answer service reply) : l.dispatched.length ≤ 1 := by
    cases ha with
    | request _ hd => exact Nat.le_of_eq (congrArg List.length hd)
    | refused _ hd => exact Nat.le_trans (Nat.le_of_eq (congrArg List.length hd)) (Nat.zero_le 1)
    | failed _ _ _ _ hd =>
      exact Nat.le_trans (Nat.le_of_eq (congrArg List.length hd)) (Nat.zero_le 1)
  cases h with
  | reading _ _ _ _ hd => simp [hd]
  | writing _ _ ha => exact hanswer ha
  | unanswered _ _ hd => simp [hd]
  | answered _ ha => exact hanswer ha

theorem Stage.accepted_prefix (h : l.Stage service visits) :
    l.accepted = [] ∨ ∃ reply, l.Answer service reply ∧ l.accepted <+: reply.encode := by
  cases h with
  | reading _ _ _ ha => exact .inl ha
  | @writing _ reply _ _ ha he =>
    refine .inr ⟨reply, ha, ?_⟩
    rw [he]
    exact List.prefix_append _ _
  | unanswered _ ha => exact .inl ha
  | @answered reply _ ha hb => exact .inr ⟨reply, ha, hb⟩

theorem Stage.done_of_isClosed (h : l.Stage service visits) (hcut : ¬l.Cut visits)
    (hc : l.connection.isClosed = true) :
    (∃ reply, l.Answer service reply ∧ l.accepted = reply.encode) ∨
      l.Left visits ∧ l.accepted = [] := by
  have hopen (hp : l.connection.phase ≠ .closed) (ho : l.connection.socket.isOpen = true) :
      False := by
    unfold Connection.isClosed at hc
    split at hc
    · exact hp ‹_›
    · rw [ho] at hc
      cases hc
  cases h with
  | reading hp ho => exact (hopen (by simp [hp]) ho).elim
  | writing hp ho => exact (hopen (by simp [hp]) ho).elim
  | unanswered _ ha _ hw => exact .inr ⟨hw.resolve_left hcut, ha⟩
  | @answered reply _ ha _ hw => exact .inl ⟨reply, ha, hw.resolve_left hcut⟩

/-- Whatever is reported of a connection and whatever its reads and writes meet, it goes from
reading over writing to closed, hands at most one request to the handlers, and is sent the beginning
of one response, which the received bytes decide. Unless it is cut off, it is closed only when all
of that has been sent, or when the peer has ended before there was a request. -/
theorem connection_sends_one_response (service : Service σ) (visits : List (Visit σ)) :
    (∀ more : List (Visit σ),
      (run service visits).connection.phase.rank ≤
          (run service (visits ++ more)).connection.phase.rank ∧
        (run service visits).accepted <+: (run service (visits ++ more)).accepted) ∧
    ((run service visits).dispatched.length ≤ 1 ∧
      ∀ v : Visit σ,
        (((run service visits).connection.facing v).handle service v.state v.readiness).2 =
          ((((run service visits).connection.facing v).dispatches? v.readiness).map
            fun request ↦ (service.dispatch request v.state).2).getD v.state) ∧
    ((run service visits).accepted = [] ∨
      ∃ reply, (run service visits).Answer service reply ∧
        (run service visits).accepted <+: reply.encode) ∧
    ((∀ v ∈ visits, v.readiness.hungUp = false ∧ v.readiness.error = false) →
      (∀ errno, .fault errno ∉ (run service visits).writes) →
      (run service visits).connection.isClosed = true →
        (∃ reply, (run service visits).Answer service reply ∧
          (run service visits).accepted = reply.encode) ∨
        (run service visits).Left visits ∧ (run service visits).accepted = []) := by
  have hstage := stage_run service visits
  refine ⟨run_append service visits, ⟨hstage.length_dispatched_le, fun v ↦ ?_⟩,
    hstage.accepted_prefix, fun hcalm hwrites hc ↦ ?_⟩
  · exact ((run service visits).connection.facing v).snd_handle service v.state v.readiness
  · refine hstage.done_of_isClosed ?_ hc
    rintro (⟨v, hv, hr⟩ | ⟨errno, he⟩)
    · obtain ⟨hh, he⟩ := hcalm v hv
      rw [hh, he] at hr
      simp at hr
    · exact hwrites errno he

def inParts : List (Visit Unit) :=
  [{ readiness := { readable := true }, arrivals := [.data [0x41, 0x20, 0x42], .wouldBlock],
     state := () },
   { readiness := { readable := true }, arrivals := [.data [0x20, 0x43, 0x0d, 0x0a, 0x0d, 0x0a]],
     acceptances := [.room 5, .wouldBlock], state := () },
   { readiness := { writable := true }, acceptances := [.interrupted, .room 100], state := () }]

theorem connection_sends_one_response_in_parts :
    (∀ v ∈ inParts, v.readiness.hungUp = false ∧ v.readiness.error = false) ∧
      (∀ errno, .fault errno ∉ (run ⟨⟨[]⟩, none⟩ inParts).writes) ∧
      (run ⟨⟨[]⟩, none⟩ inParts).connection.isClosed = true ∧
      ((∃ reply, (run ⟨⟨[]⟩, none⟩ inParts).Answer ⟨⟨[]⟩, none⟩ reply ∧
          (run ⟨⟨[]⟩, none⟩ inParts).accepted = reply.encode) ∨
        (run ⟨⟨[]⟩, none⟩ inParts).Left inParts ∧ (run ⟨⟨[]⟩, none⟩ inParts).accepted = []) := by
  have hcalm : ∀ v ∈ inParts, v.readiness.hungUp = false ∧ v.readiness.error = false := by decide
  have hw : (run ⟨⟨[]⟩, none⟩ inParts).writes =
      [.room 5, .wouldBlock, .interrupted, .room 100] := by decide +kernel
  have hwrites : ∀ errno, .fault errno ∉ (run ⟨⟨[]⟩, none⟩ inParts).writes := by
    rw [hw]
    simp
  have hc : (run ⟨⟨[]⟩, none⟩ inParts).connection.isClosed = true := by decide +kernel
  exact ⟨hcalm, hwrites, hc,
    (connection_sends_one_response ⟨⟨[]⟩, none⟩ inParts).2.2.2 hcalm hwrites hc⟩

end Life

end LocalHttp
