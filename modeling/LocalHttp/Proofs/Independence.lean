import LocalHttp.Proofs.Dispatch
import LocalHttp.Proofs.Round

namespace LocalHttp

variable {σ : Type}

/-- An accepted connection and the calls that were made for it, each with what was reported to it
and the state that the handlers shared. -/
structure Track (σ : Type) where
  descriptor : Descriptor
  line : Line
  calls : List (Readiness × σ) := []

namespace Track

def accepted (arrived : Descriptor × Line) : Track σ where
  descriptor := arrived.1
  line := arrived.2

def origin (t : Track σ) : Descriptor × Line := (t.descriptor, t.line)

def connection (service : Service σ) (t : Track σ) : Connection :=
  t.calls.foldl (fun c call ↦ (c.handle service call.2 call.1).1) { socket := { line := t.line } }

def client (service : Service σ) (t : Track σ) : Client := ⟨t.descriptor, t.connection service⟩

/-- The calls in which there was something to report. -/
def reports (t : Track σ) : List Readiness := (t.calls.map (·.1)).filter fun r ↦ !r.isNone

/-- One round for all: a connection that is not closed gets one call, with the report on its own
descriptor. -/
def callEach (service : Service σ) (status : Descriptor → Readiness) :
    σ → List (Track σ) → List (Track σ) × σ
  | state, [] => ([], state)
  | state, t :: rest =>
    if (t.connection service).isClosed then
      let (rest, after) := callEach service status state rest
      (t :: rest, after)
    else
      let r := (t.client service).report status
      let (rest, after) :=
        callEach service status ((t.connection service).handle service state r).2 rest
      ({ t with calls := t.calls ++ [(r, state)] } :: rest, after)

theorem origins_callEach (service : Service σ) (status : Descriptor → Readiness) (state : σ)
    (tracks : List (Track σ)) :
    (callEach service status state tracks).1.map origin = tracks.map origin := by
  induction tracks generalizing state with
  | nil => rfl
  | cons t rest ih =>
    rw [callEach]
    split
    · exact congrArg (t.origin :: ·) (ih state)
    · exact congrArg (t.origin :: ·) (ih _)

end Track

/-- What a server has gone through: the connections in the order in which it accepted them, the
state that the handlers share, and whether the listener sits out the next round. -/
structure History (σ : Type) where
  tracks : List (Track σ) := []
  state : σ
  paused : Bool

namespace History

def next (service : Service σ) (listener : Descriptor) (h : History σ) (events : Events) :
    History σ :=
  match events.status with
  | .error _ => h
  | .ok status =>
    let called := Track.callEach service status h.state h.tracks
    let listens := !h.paused && (status listener).readable
    { tracks := called.1 ++
        if listens then (Server.arriving events.accepts).map Track.accepted else []
      state := called.2
      paused := listens && Server.acceptFails events.accepts }

def clients (service : Service σ) (h : History σ) : List Client :=
  h.tracks.map (Track.client service)

end History

namespace Server

def history (s : Server σ) (events : List Events) : History σ :=
  events.foldl (History.next s.service s.listener) { state := s.state, paused := s.backoff.paused }

def acceptedIn (s : Server σ) : List Events → List (Descriptor × Line)
  | [] => []
  | events :: rest =>
    (match events.status with
      | .ok status => s.newcomers status events.accepts
      | .error _ => []) ++ (s.round events).server.acceptedIn rest

def closedIn (s : Server σ) : List Events → List Client
  | [] => []
  | events :: rest => (s.round events).closed ++ (s.round events).server.closedIn rest

structure Follows (s : Server σ) (h : History σ) : Prop where
  clients : s.clients = live (h.clients s.service)
  state : s.state = h.state
  paused : s.backoff.paused = h.paused

theorem connection_called (t : Track σ) (service : Service σ) (r : Readiness) (state : σ) :
    ({ t with calls := t.calls ++ [(r, state)] } : Track σ).connection service =
      ((t.connection service).handle service state r).1 := by
  rw [Track.connection, List.foldl_append]
  rfl

theorem live_cons_of_open {c : Client} (clients : List Client) (h : c.connection.isClosed = false) :
    live (c :: clients) = c :: live clients := List.filter_cons_of_pos (by simp [h])

theorem live_cons_of_closed {c : Client} (clients : List Client)
    (h : c.connection.isClosed = true) : live (c :: clients) = live clients :=
  List.filter_cons_of_neg (by simp [h])

theorem gone_cons_of_open {c : Client} (clients : List Client) (h : c.connection.isClosed = false) :
    gone (c :: clients) = gone clients := List.filter_cons_of_neg (by simp [h])

theorem gone_cons_of_closed {c : Client} (clients : List Client)
    (h : c.connection.isClosed = true) : gone (c :: clients) = c :: gone clients :=
  List.filter_cons_of_pos h

theorem live_cons_congr (c : Client) {a b : List Client} (h : live a = live b) :
    live (c :: a) = live (c :: b) := by
  unfold live at h ⊢
  rw [List.filter_cons, List.filter_cons, h]

theorem gone_cons_perm (c : Client) {all before now : List Client}
    (h : (gone all).Perm (gone before ++ gone now)) :
    (gone (c :: all)).Perm (gone before ++ gone (c :: now)) := by
  cases hc : c.connection.isClosed with
  | true =>
    rw [gone_cons_of_closed _ hc, gone_cons_of_closed _ hc]
    exact (h.cons c).trans List.perm_middle.symm
  | false =>
    rw [gone_cons_of_open _ hc, gone_cons_of_open _ hc]
    exact h

/-- Handling the clients that are there is calling the tracks that are open. -/
theorem handleEach_live (service : Service σ) (status : Descriptor → Readiness) (state : σ)
    (tracks : List (Track σ)) :
    live (handleEach service status state (live (tracks.map (Track.client service)))).1 =
        live ((Track.callEach service status state tracks).1.map (Track.client service)) ∧
      (gone ((Track.callEach service status state tracks).1.map (Track.client service))).Perm
        (gone (tracks.map (Track.client service)) ++
          gone (handleEach service status state (live (tracks.map (Track.client service)))).1) ∧
      (handleEach service status state (live (tracks.map (Track.client service)))).2 =
        (Track.callEach service status state tracks).2 := by
  induction tracks generalizing state with
  | nil => exact ⟨rfl, .refl [], rfl⟩
  | cons t rest ih =>
    rw [Track.callEach, List.map_cons]
    cases hc : (t.connection service).isClosed with
    | true =>
      obtain ⟨hlive, hgone, hstate⟩ := ih state
      rw [if_pos rfl, live_cons_of_closed _ hc, gone_cons_of_closed _ hc, List.map_cons,
        live_cons_of_closed _ hc, gone_cons_of_closed _ hc]
      exact ⟨hlive, hgone.cons _, hstate⟩
    | false =>
      obtain ⟨hlive, hgone, hstate⟩ := ih ((t.connection service).handle service state
        ((t.client service).report status)).2
      have hcalled : (({ t with calls := t.calls ++ [((t.client service).report status, state)] } :
          Track σ).client service) =
            { t.client service with
              connection := ((t.connection service).handle service state
                ((t.client service).report status)).1 } := by
        rw [Track.client, connection_called]
        rfl
      rw [if_neg Bool.false_ne_true, live_cons_of_open _ hc, gone_cons_of_open _ hc, handleEach]
      dsimp only
      rw [List.map_cons, hcalled]
      exact ⟨live_cons_congr _ hlive, gone_cons_perm _ hgone, hstate⟩

theorem live_append (a b : List Client) : live (a ++ b) = live a ++ live b := List.filter_append a b

theorem gone_append (a b : List Client) : gone (a ++ b) = gone a ++ gone b := List.filter_append a b

theorem map_client_accepted (service : Service σ) (arrived : List (Descriptor × Line)) :
    (arrived.map Track.accepted).map (Track.client service) = arrived.map Client.accepted := by
  rw [List.map_map]
  rfl

theorem Follows.round {s : Server σ} {h : History σ} (hf : s.Follows h) {events : Events}
    (hgo : (s.round events).ended = none) :
    (s.round events).server.Follows (h.next s.service s.listener events) ∧
      (gone ((h.next s.service s.listener events).clients s.service)).Perm
        (gone (h.clients s.service) ++ (s.round events).closed) ∧
      (∀ rest, (h.next s.service s.listener events).tracks.map Track.origin ++
          (s.round events).server.acceptedIn rest =
        h.tracks.map Track.origin ++ s.acceptedIn (events :: rest)) ∧
      (s.round events).server.service = s.service ∧
      (s.round events).server.listener = s.listener := by
  obtain ⟨status, hs, hg⟩ := s.goes_round events hgo
  have hnext : h.next s.service s.listener events =
      { tracks := (Track.callEach s.service status h.state h.tracks).1 ++
          (s.newcomers status events.accepts).map Track.accepted
        state := (Track.callEach s.service status h.state h.tracks).2
        paused := s.listens status && acceptFails events.accepts } := by
    rw [History.next, hs, newcomers, listens, hf.paused]
    dsimp only
    split <;> rfl
  obtain ⟨hlive, hgone, hstate⟩ := handleEach_live s.service status h.state h.tracks
  -- closed connections keep their tracks, but are handled no more
  have hhandled : handleEach s.service status s.state s.clients =
      handleEach s.service status h.state (live (h.tracks.map (Track.client s.service))) := by
    rw [hf.clients, hf.state]
    rfl
  have hclients : (h.next s.service s.listener events).clients s.service =
      (Track.callEach s.service status h.state h.tracks).1.map (Track.client s.service) ++
        (s.newcomers status events.accepts).map Client.accepted := by
    rw [hnext, History.clients, List.map_append, map_client_accepted]
  refine ⟨⟨?_, ?_, ?_⟩, ?_, fun rest ↦ ?_, hg.service, hg.listener⟩
  · rw [hg.service, hg.clients, hhandled, hclients, live_append, live_append, hlive]
  · rw [hg.state, hhandled, hnext]
    exact hstate
  · rw [hg.paused, hnext]
  · rw [hclients, hg.closed, hhandled, gone_append, gone_append, ← List.append_assoc]
    exact hgone.append_right _
  · have horigins : ((s.newcomers status events.accepts).map Track.accepted).map Track.origin =
        s.newcomers status events.accepts :=
      (List.map_map (g := Track.origin (σ := σ))).trans (List.map_id _)
    rw [hnext, acceptedIn, hs, List.map_append, Track.origins_callEach, horigins, List.append_assoc]

theorem Follows.run {s after : Server σ} {h : History σ} (hf : s.Follows h) {events : List Events}
    (hr : s.run events = .inl after) :
    after.Follows (events.foldl (History.next s.service s.listener) h) ∧
      (gone ((events.foldl (History.next s.service s.listener) h).clients s.service)).Perm
        (gone (h.clients s.service) ++ s.closedIn events) ∧
      (events.foldl (History.next s.service s.listener) h).tracks.map Track.origin =
        h.tracks.map Track.origin ++ s.acceptedIn events ∧
      after.service = s.service := by
  induction events generalizing s h with
  | nil =>
    obtain rfl : s = after := Sum.inl.inj hr
    rw [closedIn, acceptedIn, List.append_nil, List.append_nil]
    exact ⟨hf, .refl _, rfl, rfl⟩
  | cons first rest ih =>
    rw [Server.run] at hr
    cases he : (s.round first).ended with
    | some result =>
      rw [he] at hr
      cases hr
    | none =>
      rw [he] at hr
      obtain ⟨hnext, hperm, hcame, hservice, hlistener⟩ := hf.round he
      obtain ⟨hafter, hlater, horigins, hsame⟩ := ih hnext hr
      rw [hservice, hlistener] at hafter hlater horigins
      refine ⟨hafter, hlater.trans ?_, horigins.trans (hcame rest), hsame.trans hservice⟩
      rw [closedIn, ← List.append_assoc]
      exact hperm.append_right _

end Server

namespace Connection

theorem handle_of_isNone (c : Connection) (service : Service σ) (state : σ) {r : Readiness}
    (h : r.isNone = true) : (c.handle service state r).1 = c := by
  obtain ⟨readable, writable, hungUp, error⟩ := r
  simp only [Readiness.isNone, Bool.not_eq_true', Bool.or_eq_false_iff] at h
  obtain ⟨⟨⟨rfl, rfl⟩, rfl⟩, rfl⟩ := h
  simp [handle]

theorem serve_congr {service : Service σ} (hp : service.Pure) (c : Connection) (state other : σ) :
    (c.serve service state).1 = (c.serve service other).1 := by
  unfold serve
  rcases c.readRequest with ⟨_ | request | _, after⟩
  · rfl
  · exact congrArg after.respond (hp.dispatch_eq request state other)
  · rfl

/-- With handlers whose answers depend on nothing but the request, a call makes the same of a
connection whatever the handlers share. -/
theorem handle_congr {service : Service σ} (hp : service.Pure) (c : Connection) (state other : σ)
    (r : Readiness) : (c.handle service state r).1 = (c.handle service other r).1 := by
  have hs := c.serve_congr hp state other
  unfold handle
  cases r.error with
  | true => rfl
  | false =>
    cases c.isReading && (r.readable || r.hungUp) with
    | true =>
      exact congrArg
        (fun mid : Connection ↦ if (r.hungUp && !mid.isClosed) = true then mid.close else mid) hs
    | false => cases r.writable <;> rfl

end Connection

namespace Track

theorem foldl_handle_filter (service : Service σ) (c : Connection) (calls : List (Readiness × σ)) :
    calls.foldl (fun c call ↦ (c.handle service call.2 call.1).1) c =
      (calls.filter fun call ↦ !call.1.isNone).foldl
        (fun c call ↦ (c.handle service call.2 call.1).1) c := by
  induction calls generalizing c with
  | nil => rfl
  | cons call rest ih =>
    cases hn : call.1.isNone with
    | true =>
      rw [List.filter_cons_of_neg (by simp [hn]), List.foldl_cons, c.handle_of_isNone _ _ hn]
      exact ih c
    | false =>
      rw [List.filter_cons_of_pos (by simp [hn]), List.foldl_cons, List.foldl_cons]
      exact ih _

theorem foldl_handle_congr {service : Service σ} (hp : service.Pure) (c : Connection)
    {calls others : List (Readiness × σ)} (h : calls.map (·.1) = others.map (·.1)) :
    calls.foldl (fun c call ↦ (c.handle service call.2 call.1).1) c =
      others.foldl (fun c call ↦ (c.handle service call.2 call.1).1) c := by
  induction calls generalizing c others with
  | nil =>
    obtain rfl : others = [] := List.map_eq_nil_iff.1 h.symm
    rfl
  | cons call rest ih =>
    cases others with
    | nil => cases h
    | cons other others =>
      obtain ⟨hr, hrest⟩ := List.cons.inj h
      have hr : call.1 = other.1 := hr
      rw [List.foldl_cons, List.foldl_cons, c.handle_congr hp call.2 other.2, hr]
      exact ih _ hrest

theorem connection_congr {service : Service σ} (hp : service.Pure) {t other : Track σ}
    (hl : t.line = other.line) (hr : t.reports = other.reports) :
    t.connection service = other.connection service := by
  rw [reports, reports, List.filter_map, List.filter_map] at hr
  rw [connection, connection, foldl_handle_filter, foldl_handle_filter service _ other.calls, hl]
  exact foldl_handle_congr hp _ hr

end Track

namespace Server

/-- At the head of every round a server has exactly the connections that it has accepted and that
are not closed, in the order in which it accepted them; each has had one call in every round since,
with what was reported of its own descriptor, and nothing else. So it is in a round that goes on:
who is there is handled once, and who comes waits for the next one. With handlers whose answers
depend on nothing but the request, runs in which a connection has the same line and gets the same
reports make the same of it, whatever the others do. -/
theorem connections_are_independent (s : Server σ) (hs : s.clients = []) (events : List Events)
    (after : Server σ) (hr : s.run events = .inl after) :
    after.clients = live ((s.history events).clients s.service) ∧
      (s.closedIn events).Perm (gone ((s.history events).clients s.service)) ∧
      (s.history events).tracks.map Track.origin = s.acceptedIn events ∧
      after.state = (s.history events).state ∧
      (∀ coming : Events, (after.round coming).ended = none →
        ∃ status, coming.status = .ok status ∧
          after.Goes status coming.accepts (after.round coming)) ∧
      (s.service.Pure → ∀ (other : Server σ) (others : List Events) (last : Server σ),
        other.service = s.service → other.clients = [] → other.run others = .inl last →
        ∀ t ∈ (s.history events).tracks, ∀ u ∈ (other.history others).tracks,
          t.line = u.line → t.reports = u.reports →
            (t.client s.service).connection = (u.client s.service).connection) := by
  have hstart : s.Follows { state := s.state, paused := s.backoff.paused } := ⟨hs, rfl, rfl⟩
  obtain ⟨hafter, hperm, horigins, hservice⟩ := hstart.run hr
  refine ⟨?_, hperm.symm, horigins, hafter.state, after.goes_round, ?_⟩
  · rw [hafter.clients, hservice]
    rfl
  · intro hp other others last _ _ _ t _ u _ hl hreports
    exact Track.connection_congr hp hl hreports

def counting : Handler Nat := fun _ asked ↦ (.response (.plainText .ok "yes"), asked + 1)

def bystander : Server Nat where
  service := ⟨⟨[("b", [("A", counting)])]⟩, none⟩
  state := 0
  path := ""
  listener := 0
  control := 1
  controlSocket := {}

theorem pure_bystander : bystander.service.Pure := by
  intro route hr entry he
  obtain rfl := List.mem_singleton.1 hr
  obtain rfl := List.mem_singleton.1 he
  exact fun _ _ _ ↦ rfl

def asking : Line where
  arrivals := [.data [0x41, 0x20, 0x42, 0x20, 0x43, 0x0d, 0x0a, 0x0d, 0x0a]]
  acceptances := [.room 200]

def crowd : List Events :=
  [{ status := .ok fun d ↦ { readable := d == 0 },
     accepts := [.connection 3 asking, .connection 4 asking, .connection 5 {}, .none] },
   { status := .ok fun d ↦ { readable := d == 3 || d == 4, error := d == 5 }, accepts := [] }]

def alone : List Events :=
  [{ status := .ok fun d ↦ { readable := d == 0 }, accepts := [.connection 9 asking] },
   { status := .ok fun _ ↦ {}, accepts := [] },
   { status := .ok fun d ↦ { readable := d == 9 }, accepts := [] }]

theorem connections_are_independent_in_crowd :
    bystander.clients = [] ∧ bystander.service.Pure ∧
      ∃ after last, bystander.run crowd = .inl after ∧ bystander.run alone = .inl last ∧
        after.state = 2 ∧ last.state = 1 ∧
        after.clients = live ((bystander.history crowd).clients bystander.service) ∧
        ∃ t ∈ (bystander.history crowd).tracks, ∃ u ∈ (bystander.history alone).tracks,
          t.descriptor = 4 ∧ u.descriptor = 9 ∧ t.line = u.line ∧ t.reports = u.reports ∧
            (t.client bystander.service).connection = (u.client bystander.service).connection := by
  obtain ⟨after, hafter⟩ := Sum.isLeft_iff.1 (by decide +kernel : (bystander.run crowd).isLeft)
  obtain ⟨last, hlast⟩ := Sum.isLeft_iff.1 (by decide +kernel : (bystander.run alone).isLeft)
  have hcrowd : 1 < (bystander.history crowd).tracks.length := by decide +kernel
  have halone : 0 < (bystander.history alone).tracks.length := by decide +kernel
  have hreports : ((bystander.history crowd).tracks.get ⟨1, hcrowd⟩).reports =
      ((bystander.history alone).tracks.get ⟨0, halone⟩).reports := by decide +kernel +revert
  obtain ⟨hclients, -, -, hstate, -, hboth⟩ :=
    connections_are_independent bystander rfl crowd after hafter
  obtain ⟨-, -, -, hlaststate, -⟩ := connections_are_independent bystander rfl alone last hlast
  have hasked : (bystander.history crowd).state = 2 := by decide +kernel
  have haskedAlone : (bystander.history alone).state = 1 := by decide +kernel
  exact ⟨rfl, pure_bystander, after, last, hafter, hlast, hstate.trans hasked,
    hlaststate.trans haskedAlone, hclients, _, List.get_mem _ _, _, List.get_mem _ _,
    by decide +kernel +revert, by decide +kernel +revert, rfl, hreports,
    hboth pure_bystander bystander alone last rfl rfl hlast _ (List.get_mem _ _) _
      (List.get_mem _ _) rfl hreports⟩

end Server

end LocalHttp
