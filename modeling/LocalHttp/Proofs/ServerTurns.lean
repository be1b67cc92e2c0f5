import LocalHttp.Proofs.Exchange

namespace LocalHttp.Exchange

open Incoming

variable {σ : Type} {service : Service σ} {x : Exchange} {t : Turn σ} {asked answered : Bytes}
  {response : Response}

theorem handle_of_calm (service : Service σ) {r : Readiness} (he : r.error = false)
    (hh : r.hungUp = false) (c : Connection) (state : σ) :
    c.handle service state r =
      if c.isReading && r.readable then c.serve service state
      else if r.writable then (c.flush, state)
      else (c, state) := by
  rw [Connection.handle, he, hh]
  simp only [Bool.false_eq_true, ↓reduceIte, Bool.or_false, Bool.false_and]

theorem hungUp_server (ha : x.Allows t) (hp : t.party = .server) (hr : x.call.result? = none) :
    t.readiness.hungUp = false := by
  refine eq_false_of_ne_true fun hu ↦ ?_
  have he := (ha.hungUp hu).1
  rw [hp, Ended, hr] at he
  cases he

theorem Replies.exists_flushed {c : Connection} (h : Replies c)
    (ha : ∀ errno, .fault errno ∉ c.socket.line.acceptances)
    (hl : c.socket.line.accepted = []) :
    ∃ sent, c.unsent = sent ++ c.flush.unsent ∧
      (c.unsent ≠ [] → takes c.socket.line.acceptances = true → sent ≠ []) ∧
      c.flush.socket.line.accepted = sent ∧
      c.flush.socket.line.arrivals = c.socket.line.arrivals ∧ Replies c.flush := by
  cases hc : c.phase with
  | reading =>
    unfold Replies at h
    rw [hc] at h
    exact h.elim
  | closed =>
    have hf : c.flush = c := by
      rw [Connection.flush, hc]
    have hu : c.unsent = [] := by
      rw [Connection.unsent, hc]
    rw [hf]
    exact ⟨[], rfl, fun hne ↦ absurd hu hne, hl, rfl, h⟩
  | writing outgoing =>
    have ho : c.socket.isOpen = true := by
      unfold Replies at h
      rwa [hc] at h
    have hu : c.unsent = outgoing.unsent := by
      rw [Connection.unsent, hc]
    obtain ⟨sent, unsent, left, happ, hp, hf⟩ := Connection.exists_flush hc ho ha
    rw [hf, hu]
    by_cases he : unsent = []
    · rw [if_pos he]
      exact ⟨sent, happ.trans (congrArg _ he), hp, congrArg (· ++ sent) hl, rfl, trivial⟩
    · rw [if_neg he]
      exact ⟨sent, happ, hp, congrArg (· ++ sent) hl, rfl, ho⟩

theorem Answering.next_server (h : x.Answering answered) (hp : t.party = .server)
    (ha : x.Allows t) (length : Nat) :
    (x.next service t).Answering answered ∧ Goes length t x (x.next service t) := by
  obtain ⟨socket, incoming, got, hk, hheard, hw⟩ := h.heard
  -- a client that waits for its response has not hung up
  have hup : t.readiness.hungUp = false := by
    refine hungUp_server ha hp ?_
    rw [hk]
    rfl
  let watched : Connection :=
    { x.connection with socket := { x.connection.socket with line := t.line } }
  have hreplies : Replies watched := h.connection
  have hcalm := handle_of_calm service ha.error hup watched t.state
  rw [hreplies.isReading, Bool.false_and, if_neg Bool.false_ne_true] at hcalm
  obtain ⟨sent, connection, hc, hu, ho, hsent, hafter⟩ : ∃ sent connection,
      (watched.handle service t.state t.readiness).1 = connection ∧
      x.connection.unsent = sent ++ connection.unsent ∧
      (x.connection.unsent ≠ [] → t.readiness.writable = true → takes t.acceptances = true →
        sent ≠ []) ∧
      connection.socket.line.accepted = sent ∧ Replies connection := by
    rw [hcalm]
    split
    · obtain ⟨sent, hu, ho, hsent, -, hafter⟩ := hreplies.exists_flushed ha.writes rfl
      exact ⟨sent, _, rfl, hu, fun hne _ ↦ ho hne, hsent, hafter⟩
    · rename_i hwritable
      exact ⟨[], _, rfl, rfl, fun _ hr ↦ absurd hr hwritable, rfl, hreplies⟩
  have hn : x.next service t = ⟨x.call, connection, [], x.toClient ++ sent⟩ := by
    rw [next_of_server hp hc, h.toServer, List.drop_nil, hsent]
  rw [hn]
  refine ⟨⟨rfl, hafter, socket, incoming, got, hk, hheard, ?_⟩, goes_of_moved sent ?_ ?_ ?_ ?_⟩
  · rw [hw, hu]
    simp only [List.append_assoc]
  · simp only [left, hu, h.toServer, h.connection.isReading, hafter.isReading, List.length_append]
    omega
  · exact fun _ ↦ hafter.isReading.trans h.connection.isReading.symm
  · rintro rfl way
    cases way with
    | requestOut => rfl
    | requestIn => exact h.toServer.symm
    | responseOut => exact hu.symm
    | responseIn => exact List.append_nil _
  · intro way hne hf
    rcases hf.of_server hp with ⟨rfl, -⟩ | ⟨rfl, hwritable, htakes⟩
    · exact absurd h.toServer hne
    · exact ho hne hwritable htakes

theorem Asking.next_idle (h : x.Asking asked) (hp : t.party = .server) (ha : x.Allows t)
    (hr : ¬t.readiness.readable = true) (length : Nat) :
    (x.next service t).Asking asked ∧ Goes length t x (x.next service t) := by
  obtain ⟨got, hheard, hw⟩ := h.heard
  let watched : Connection :=
    { x.connection with socket := { x.connection.socket with line := t.line } }
  have hflush : watched.flush = watched := by
    rw [Connection.flush, show watched.phase = .reading from h.phase]
  have hc : (watched.handle service t.state t.readiness).1 = watched := by
    rw [handle_of_calm service ha.error (hungUp_server ha hp h.result?), Bool.and_eq_false_imp.2,
      if_neg Bool.false_ne_true, hflush]
    · split <;> rfl
    · exact fun _ ↦ eq_false_of_ne_true hr
  have hn : x.next service t = ⟨x.call, watched, x.toServer, x.toClient⟩ := by
    have htaken : t.taken watched.socket = 0 := Nat.sub_self _
    have haccepted : watched.socket.line.accepted = [] := rfl
    rw [next_of_server hp hc, htaken, haccepted, List.drop_zero, List.append_nil]
  rw [hn]
  refine ⟨⟨h.phase, h.toClient, h.call, got, hheard.withLine _, hw⟩, goes_of_moved [] ?_ ?_ ?_ ?_⟩
  · exact Nat.le_refl _
  · exact fun _ ↦ rfl
  · rintro - way
    cases way <;> rfl
  · intro way hne hf
    rcases hf.of_server hp with ⟨rfl, hreadable, -⟩ | ⟨rfl, -⟩
    · exact absurd hreadable hr
    · exact absurd h.unsent hne

theorem serve_of_dry {c : Connection} {after : Incoming} {socket : Socket} (state : σ)
    (hd : c.socket.drain Request.ofRaw c.incoming = (.dry, after, socket))
    (hp : socket.peerClosed = false) :
    c.serve service state = ({ c with socket := socket, incoming := after }, state) := by
  rw [Connection.serve, Connection.readRequest, hd]
  dsimp only
  rw [hp]
  rfl

theorem serve_of_message {c : Connection} {after : Incoming} {socket : Socket} {request : Request}
    (state : σ) (hd : c.socket.drain Request.ofRaw c.incoming = (.message request, after, socket)) :
    (c.serve service state).1 =
      ({ c with socket := socket, incoming := after } : Connection).respond
        (service.dispatch request state).1 := by
  rw [Connection.serve, Connection.readRequest, hd]

/-- A server that has not got all of a request takes what has come of it; with its last byte it
begins to reply. -/
theorem Asking.exists_next_reading (h : x.Asking asked)
    (hs : service.Answers asked answered response) (hp : t.party = .server) (ha : x.Allows t)
    (hr : t.readiness.readable = true) :
    ∃ got taken later connection sent, asked = got ++ (x.toServer ++ x.call.unsent) ∧
      x.toServer = taken ++ later ∧ (brings t.arrivals = true → taken ≠ []) ∧
      x.next service t = ⟨x.call, connection, later, sent⟩ ∧
      (connection.phase = .reading ∧ sent = [] ∧
          connection.socket.Heard (got ++ taken) connection.incoming ∨
        taken ≠ [] ∧ later = [] ∧ x.call.unsent = [] ∧ Replies connection ∧
          answered = sent ++ connection.unsent) := by
  obtain ⟨got, hheard, hw⟩ := h.heard
  obtain ⟨raw, request, hraw, hm, hdispatch⟩ := hs.request
  have hreads := ha.reads
  rw [hp] at hreads
  let watched : Connection :=
    { x.connection with socket := { x.connection.socket with line := t.line } }
  have hreading : watched.isReading = true := h.isReading
  have hcalm := handle_of_calm service ha.error (hungUp_server ha hp h.result?) watched t.state
  rw [hreading, Bool.true_and, if_pos hr] at hcalm
  obtain ⟨taken, later, after, socket, hl, ht, hb, hd⟩ :=
    Socket.Heard.drain (hheard.withLine t.line) hreads (hw ▸ hraw) hm
      (fun hz ↦ absurd hz (by rw [Ended, h.result?]; decide))
  have hl : x.toServer = taken ++ later := hl
  have htaken := Turn.taken_eq ht
  rcases hd with ⟨hd, hrest, -⟩ | ⟨hd, rfl, hu⟩
  · let connection : Connection := { x.connection with socket := socket, incoming := after }
    have hc : (watched.handle service t.state t.readiness).1 = connection := by
      rw [hcalm, serve_of_dry t.state hd hrest.peerOpen]
    have hn : x.next service t = ⟨x.call, connection, later, []⟩ := by
      have haccepted : connection.socket.line.accepted = [] := ht.accepted
      rw [next_of_server hp hc, htaken, haccepted, List.append_nil, hl, List.drop_left, h.toClient]
    exact ⟨got, taken, later, connection, [], hw, hl, hb, hn, .inl ⟨h.phase, rfl, hrest⟩⟩
  · -- the reply begins in the same turn, with what the line takes of it
    let begun : Connection :=
      { x.connection with socket := socket, incoming := .fresh, phase := .writing ⟨answered⟩ }
    have hopen : Replies begun := ht.isOpen
    have hacceptances : begun.socket.line.acceptances = t.acceptances := ht.acceptances
    obtain ⟨sent, hun, -, hsent, harrivals, hreplies⟩ :=
      hopen.exists_flushed (hacceptances ▸ ha.writes) ht.accepted
    have hc : (watched.handle service t.state t.readiness).1 = begun.flush := by
      rw [hcalm, serve_of_message t.state hd, Connection.respond, hdispatch]
    have hn : x.next service t = ⟨x.call, begun.flush, [], sent⟩ := by
      have htaken : t.taken begun.flush.socket = taken.length := by
        rw [← htaken, Turn.taken, Turn.taken, harrivals]
      rw [next_of_server hp hc, htaken, hsent, hl, List.drop_left, h.toClient, List.nil_append]
    have hne : taken ≠ [] := by
      rintro rfl
      rw [hw, hl, hu, List.append_nil, List.append_nil, List.append_nil, hheard.reads] at hraw
      cases hraw
    exact ⟨got, taken, [], _, sent, hw, hl, hb, hn, .inr ⟨hne, rfl, hu, hreplies, hun⟩⟩

theorem Asking.next_reading (h : x.Asking asked) (hs : service.Answers asked answered response)
    (hp : t.party = .server) (ha : x.Allows t) (hr : t.readiness.readable = true) :
    ((x.next service t).Asking asked ∨ (x.next service t).Answering answered) ∧
      Goes answered.length t x (x.next service t) := by
  obtain ⟨got, taken, later, connection, sent, hw, hl, hb, hn, hd⟩ :=
    h.exists_next_reading hs hp ha hr
  have hmoved : ∀ way, x.pending way ≠ [] → t.Offers way → taken ≠ [] := by
    intro way hne hf
    rcases hf.of_server hp with ⟨rfl, -, hbrings⟩ | ⟨rfl, -⟩
    · exact hb hbrings
    · exact absurd h.unsent hne
  rw [hn]
  rcases hd with ⟨hphase, rfl, hheard⟩ | ⟨hne, rfl, hu, hreplies, hun⟩
  · have hunsent : connection.unsent = x.connection.unsent := by
      rw [h.unsent, Connection.unsent, hphase]
    have hreading : connection.isReading = x.connection.isReading := by
      rw [h.isReading, Connection.isReading, hphase]
    refine ⟨.inl ⟨hphase, rfl, h.call, got ++ taken, hheard, ?_⟩,
      goes_of_moved taken ?_ (fun _ ↦ hreading) ?_ hmoved⟩
    · rw [hw, hl]
      simp only [List.append_assoc]
    · simp only [left, hl, hunsent, hreading, h.toClient, List.length_append]
      omega
    · rintro rfl way
      cases way with
      | requestOut => rfl
      | requestIn => exact hl.symm
      | responseOut => exact hunsent
      | responseIn => exact h.toClient.symm
  · obtain ⟨socket, incoming, hk, hwaiting⟩ := h.call.receiving hu
    refine ⟨.inr ⟨rfl, hreplies, socket, incoming, [], hk, hwaiting, hun⟩,
      goes_of_moved taken ?_ (fun he ↦ absurd he hne) (fun he ↦ absurd he hne) hmoved⟩
    have hlength := congrArg List.length hun
    rw [List.length_append] at hlength
    rw [left, left, hu, hl, h.toClient, h.isReading, hreplies.isReading, if_pos rfl,
      if_neg Bool.false_ne_true]
    simp only [List.length_append]
    omega

end LocalHttp.Exchange
