import LocalHttp.Server

namespace LocalHttp

variable {σ : Type}

def Client.report (status : Descriptor → Readiness) (c : Client) : Readiness :=
  (status c.descriptor).restrict c.connection.interest

def Client.accepted (arrived : Descriptor × Line) : Client where
  descriptor := arrived.1
  connection := { socket := { line := arrived.2 } }

namespace Server

def live (clients : List Client) : List Client := clients.filter fun c ↦ !c.connection.isClosed

def gone (clients : List Client) : List Client := clients.filter fun c ↦ c.connection.isClosed

/-- Every client is handled with the report on its own descriptor, one after the other. -/
def handleEach (service : Service σ) (status : Descriptor → Readiness) :
    σ → List Client → List Client × σ
  | state, [] => ([], state)
  | state, c :: rest =>
    let (connection, state) := c.connection.handle service state (c.report status)
    let (rest, state) := handleEach service status state rest
    ({ c with connection := connection } :: rest, state)

def arriving : List Accepted → List (Descriptor × Line)
  | .connection descriptor line :: rest => (descriptor, line) :: arriving rest
  | _ => []

def acceptFails : List Accepted → Bool
  | .connection _ _ :: rest => acceptFails rest
  | .fault _ :: _ => true
  | _ => false

theorem readinessAt_length (before after : List Readiness) (r : Readiness) :
    readinessAt (before ++ r :: after) before.length = r := by
  simp [readinessAt]

theorem handleAll_append (service : Service σ) (status : Descriptor → Readiness)
    (before after : List Readiness) (state : σ) (clients : List Client) :
    handleAll service (before ++ clients.map (Client.report status) ++ after) before.length state
      clients = handleEach service status state clients := by
  induction clients generalizing before state with
  | nil => rfl
  | cons c rest ih =>
    have hat : readinessAt (before ++ (c :: rest).map (Client.report status) ++ after)
        before.length = c.report status := by
      rw [List.map_cons, List.append_assoc, List.cons_append]
      exact readinessAt_length _ _ _
    have hnext (state : σ) := ih (before ++ [c.report status]) state
    simp only [List.length_append, List.length_singleton, List.append_assoc,
      List.cons_append, List.nil_append] at hnext
    rw [handleAll, handleEach, hat]
    simp only [List.map_cons, List.append_assoc, List.cons_append, hnext]

theorem report_register (w : Watch Descriptor) (descriptor : Descriptor) (interest : Interest)
    (status : Descriptor → Readiness) :
    (w.register descriptor interest).report status =
      w.report status ++ [(status descriptor).restrict interest] := by
  rw [Watch.report, Watch.register, List.map_append]
  rfl

theorem report_foldl_register (clients : List Client) (w : Watch Descriptor)
    (status : Descriptor → Readiness) :
    (clients.foldl (fun w c ↦ w.register c.descriptor c.connection.interest) w).report status =
      w.report status ++ clients.map (Client.report status) := by
  induction clients generalizing w with
  | nil => exact (List.append_nil _).symm
  | cons c rest ih =>
    rw [List.foldl_cons, ih, report_register, List.append_assoc]
    rfl

theorem report_watch (s : Server σ) (status : Descriptor → Readiness) :
    s.watch.report status =
      s.clients.map (Client.report status) ++
        ((if s.backoff.paused then [] else [(status s.listener).restrict .readable]) ++
          [(status s.control).restrict .readable]) := by
  have hclients := report_foldl_register s.clients {} status
  unfold watch
  cases s.backoff.paused with
  | true =>
    rw [report_register]
    exact congrArg (· ++ _) hclients
  | false =>
    rw [report_register, if_neg Bool.false_ne_true, report_register, hclients, List.append_assoc]
    rfl

theorem readable_at_listener (s : Server σ) (status : Descriptor → Readiness) :
    (s.listenerPosition?.any fun p ↦ (readinessAt (s.watch.report status) p).readable) =
      (!s.backoff.paused && (status s.listener).readable) := by
  rw [report_watch, listenerPosition?]
  cases s.backoff.paused with
  | true => rfl
  | false =>
    have hlength : (s.clients.map (Client.report status)).length = s.clients.length :=
      List.length_map _
    simp only [Bool.false_eq_true, ↓reduceIte, Option.any_some, List.cons_append, List.nil_append]
    rw [← hlength, readinessAt_length]
    simp [Readiness.restrict]

theorem acceptAll_eq (s : Server σ) (accepts : List Accepted) :
    ∃ failing, s.acceptAll accepts =
      { s with
        clients := s.clients ++ (arriving accepts).map Client.accepted
        backoff := { failing := failing, paused := s.backoff.paused || acceptFails accepts } } := by
  induction accepts generalizing s with
  | nil => exact ⟨false, by simp [acceptAll, arriving, acceptFails]⟩
  | cons accepted rest ih =>
    cases accepted with
    | connection descriptor line =>
      obtain ⟨failing, h⟩ := ih
        { s with clients := s.clients ++ [.accepted (descriptor, line)]
                 backoff := { s.backoff with failing := false } }
      refine ⟨failing, h.trans ?_⟩
      simp [arriving, acceptFails]
    | none => exact ⟨false, by simp [acceptAll, arriving, acceptFails]⟩
    | fault errno => exact ⟨true, by simp [acceptAll, arriving, acceptFails]⟩

theorem takeControl_eq (s : Server σ) (r : Readiness) :
    ∃ socket, (s.takeControl r).2 = { s with controlSocket := socket } := by
  unfold takeControl
  split
  · split
    · exact ⟨_, rfl⟩
    · exact ⟨_, rfl⟩
  · exact ⟨s.controlSocket, rfl⟩

def listens (s : Server σ) (status : Descriptor → Readiness) : Bool :=
  !s.backoff.paused && (status s.listener).readable

def newcomers (s : Server σ) (status : Descriptor → Readiness) (accepts : List Accepted) :
    List (Descriptor × Line) := if s.listens status then arriving accepts else []

/-- What a round that goes on comes to, `present` being the clients before any is removed. -/
structure Goes (s : Server σ) (status : Descriptor → Readiness) (accepts : List Accepted)
    (r : Round σ) : Prop where
  clients : r.server.clients = live ((handleEach s.service status s.state s.clients).1 ++
    (s.newcomers status accepts).map Client.accepted)
  closed : r.closed = gone ((handleEach s.service status s.state s.clients).1 ++
    (s.newcomers status accepts).map Client.accepted)
  state : r.server.state = (handleEach s.service status s.state s.clients).2
  service : r.server.service = s.service
  listener : r.server.listener = s.listener
  paused : r.server.backoff.paused = (s.listens status && acceptFails accepts)

theorem handleAll_watch (s : Server σ) (status : Descriptor → Readiness) :
    handleAll s.service (s.watch.report status) 0 s.state s.clients =
      handleEach s.service status s.state s.clients := by
  rw [report_watch]
  exact handleAll_append s.service status [] _ s.state s.clients

theorem goes_serveRound (s : Server σ) (status : Descriptor → Readiness) (accepts : List Accepted)
    (socket : Socket) :
    s.Goes status accepts
      (serveRound
        { s with backoff := { s.backoff with paused := false }, controlSocket := socket }
        (s.watch.report status) accepts (s.listens status)) := by
  have hhandled := s.handleAll_watch status
  unfold serveRound
  cases hl : s.listens status with
  | true =>
    obtain ⟨failing, ha⟩ := acceptAll_eq
      { s with backoff := { s.backoff with paused := false }, controlSocket := socket } accepts
    simp only [↓reduceIte, ha, List.drop_left, hhandled]
    constructor <;> simp [live, gone, newcomers, hl]
  | false =>
    simp only [Bool.false_eq_true, ↓reduceIte, List.drop_length, hhandled]
    constructor <;> simp [live, gone, newcomers, hl]

/-- In a round that goes on, every client is handled with its own report, whether the listener is
watched or not. -/
theorem goes_round (s : Server σ) (events : Events) (h : (s.round events).ended = none) :
    ∃ status, events.status = .ok status ∧ s.Goes status events.accepts (s.round events) := by
  unfold round at h ⊢
  cases hs : events.status with
  | error errno =>
    rw [hs] at h
    cases h
  | ok status =>
    refine ⟨status, rfl, ?_⟩
    rw [hs] at h
    dsimp only at h ⊢
    obtain ⟨socket, hc⟩ := takeControl_eq
      { s with backoff := { s.backoff with paused := false } }
      (readinessAt (s.watch.report status) s.controlPosition)
    have hg := s.goes_serveRound status events.accepts socket
    rw [readable_at_listener]
    split at h
    · cases h
    · cases h
    · rename_i mid hm
      rw [hm] at hc
      rw [show mid = _ from hc]
      exact hg

end Server

end LocalHttp
