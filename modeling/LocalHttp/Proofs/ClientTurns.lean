import LocalHttp.Proofs.Exchange

namespace LocalHttp.Exchange

open Incoming

variable {σ : Type} {service : Service σ} {x : Exchange} {t : Turn σ} {asked answered : Bytes}
  {response : Response}

theorem exists_sent {socket : Socket} (hs : socket.Heard [] .fresh) (outgoing : Outgoing)
    (ha : ∀ errno, .fault errno ∉ socket.line.acceptances) :
    ∃ sent unsent left call, outgoing.unsent = sent ++ unsent ∧
      (outgoing.unsent ≠ [] → takes socket.line.acceptances = true → sent ≠ []) ∧
      Call.send socket outgoing = call ∧ call.socket = socket.gave sent left ∧
      call.unsent = unsent ∧ Asks call := by
  obtain ⟨sent, unsent, left, happ, ho, hsend⟩ := Call.exists_send outgoing hs.isOpen ha
  by_cases hu : unsent = []
  · rw [if_pos hu] at hsend
    exact ⟨sent, unsent, left, _, happ, ho, hsend, rfl, hu.symm, hs.withLine _⟩
  · rw [if_neg hu] at hsend
    exact ⟨sent, unsent, left, _, happ, ho, hsend, rfl, rfl, hs.withLine _, hu⟩

theorem Asking.next_sending (h : x.Asking asked) {socket : Socket} {outgoing : Outgoing}
    (hk : x.call = .sending socket outgoing) (hp : t.party = .client) (ha : x.Allows t)
    (length : Nat) : (x.next service t).Asking asked ∧ Goes length t x (x.next service t) := by
  have hc := h.call
  rw [hk] at hc
  obtain ⟨got, hh, hw⟩ := h.heard
  -- a server that still reads has not hung up
  have hup : t.readiness.hungUp = false := by
    refine eq_false_of_ne_true fun hu ↦ ?_
    have he := (ha.hungUp hu).1
    rw [hp, Ended, h.isClosed] at he
    cases he
  obtain ⟨sent, unsent, rest, call, happ, ho, hsend, hso, hun, hasks⟩ :=
    exists_sent (hc.1.withLine t.line) outgoing ha.writes
  have hwake : (x.call.withSocket { x.call.socket with line := t.line }).wake t.readiness =
      call := by
    rw [hk, Call.withSocket, Call.wake, hup, ha.error, ← hsend]
    rfl
  have hx : x.call.unsent = sent ++ call.unsent := by
    rw [hk, hun]
    exact happ
  have hn : x.next service t = ⟨call, x.connection, x.toServer ++ sent, []⟩ := by
    rw [next_of_client hp hwake, hso, h.toClient, List.drop_nil]
    rfl
  rw [hn]
  refine ⟨⟨h.phase, rfl, hasks, got, hh, ?_⟩, goes_of_moved sent ?_ ?_ ?_ ?_⟩
  · rw [hw, hx, List.append_assoc]
  · simp only [left, hx, h.toClient, List.length_append]
    omega
  · exact fun _ ↦ rfl
  · rintro rfl way
    cases way with
    | requestOut => exact hx.symm
    | requestIn => exact List.append_nil _
    | responseOut => rfl
    | responseIn => exact h.toClient.symm
  · intro way hw hf
    rcases hf.of_client hp with ⟨rfl, ht⟩ | ⟨rfl, -⟩
    · exact ho hc.2 ht
    · exact absurd h.toClient hw

/-- A client that waits for the response takes what has come of it. -/
theorem exists_next_receiving (service : Service σ) {socket : Socket} {incoming : Incoming}
    {got future : Bytes} {raw : RawMessage} (hk : x.call = .receiving socket incoming)
    (hs : socket.Heard got incoming)
    (hw : reading .fresh (got ++ (x.toClient ++ future)) = .done raw [])
    (hm : Response.ofRaw raw = .ok response) (hf : x.connection.isClosed = true → future = [])
    (hp : t.party = .client) (ha : x.Allows t) :
    ∃ taken later call, x.toClient = taken ++ later ∧
      (brings t.arrivals = true → taken ≠ []) ∧
      x.next service t = ⟨call, x.connection, x.toServer, later⟩ ∧
      (call.result? = some (.ok response) ∨
        ∃ socket after, call = .receiving socket after ∧ socket.Heard (got ++ taken) after) := by
  have hreads := ha.reads
  have hhup := ha.hungUp
  rw [hp] at hreads hhup
  obtain ⟨taken, later, after, rest, hl, ht, hb, hd⟩ :=
    Socket.Heard.drain (hs.withLine t.line) hreads hw hm hf
  have hl : x.toClient = taken ++ later := hl
  have hn (call : Call) (hr : call.socket = rest)
      (hc : Call.receive { socket with line := t.line } incoming t.readiness = call) :
      x.next service t = ⟨call, x.connection, x.toServer, later⟩ := by
    have hwake : (x.call.withSocket { x.call.socket with line := t.line }).wake t.readiness =
        call := by
      rw [hk]
      exact hc
    have haccepted : rest.line.accepted = [] := ht.accepted
    rw [next_of_client hp hwake, hr, haccepted, List.append_nil, Turn.taken_eq ht, hl,
      List.drop_left]
  rcases hd with ⟨hd, hheard, hz⟩ | ⟨hd, -, -⟩
  · -- a server that has hung up has sent all, and with all of it the response would be complete
    have hup : t.readiness.hungUp = false := by
      refine eq_false_of_ne_true fun hu ↦ ?_
      obtain ⟨hclosed, hpause, hall⟩ := hhup hu
      have hlater : later = [] := by
        have hlength := congrArg List.length hl
        have hpending : pendingBytes rest.line.arrivals + taken.length =
            pendingBytes t.arrivals := ht.pending
        have hwaiting : pendingBytes t.arrivals = x.toClient.length := hall
        have hzero := hz hpause
        rw [List.length_append] at hlength
        refine List.length_eq_zero_iff.1 ?_
        omega
      rw [hl, hlater, hf hclosed, List.append_nil, List.append_nil, hheard.reads] at hw
      cases hw
    refine ⟨taken, later, _, hl, hb, hn (.receiving rest after) rfl ?_,
      .inr ⟨rest, after, rfl, hheard⟩⟩
    rw [Call.receive, hd]
    dsimp only
    rw [hheard.peerOpen, hup, ha.error]
    rfl
  · refine ⟨taken, later, _, hl, hb, hn (.done rest (.ok response)) rfl ?_, .inl rfl⟩
    rw [Call.receive, hd]

theorem Asking.next_receiving (h : x.Asking asked) (hs : service.Answers asked answered response)
    {socket : Socket} {incoming : Incoming} (hk : x.call = .receiving socket incoming)
    (hp : t.party = .client) (ha : x.Allows t) (length : Nat) :
    (x.next service t).Answered response ∨
      (x.next service t).Asking asked ∧ Goes length t x (x.next service t) := by
  have hc := h.call
  rw [hk] at hc
  obtain ⟨got, hh, hw⟩ := h.heard
  obtain ⟨raw, hraw, hm⟩ := hs.response
  have hwhole : reading .fresh ([] ++ (x.toClient ++ answered)) = .done raw [] := by
    rw [h.toClient]
    exact hraw
  obtain ⟨taken, later, call, hl, hb, hn, hd⟩ :=
    exists_next_receiving service hk hc hwhole hm
      (fun hz ↦ absurd hz (by rw [h.isClosed]; decide)) hp ha
  rw [h.toClient, eq_comm, List.append_eq_nil_iff] at hl
  obtain ⟨rfl, rfl⟩ := hl
  rw [hn]
  rcases hd with hr | ⟨rest, after, rfl, hheard⟩
  · exact .inl hr
  · have hu : x.call.unsent = [] := by
      rw [hk]
      rfl
    rw [hu] at hw
    refine .inr ⟨⟨h.phase, rfl, hheard, got, hh, hw⟩, goes_of_moved [] ?_ ?_ ?_ ?_⟩
    · rw [left, left, hu, h.toClient]
      exact Nat.le_refl _
    · exact fun _ ↦ rfl
    · rintro - way
      cases way with
      | requestOut => exact hu.symm
      | requestIn => rfl
      | responseOut => rfl
      | responseIn => exact h.toClient.symm
    · intro way hne hf
      rcases hf.of_client hp with ⟨rfl, -⟩ | ⟨rfl, -⟩
      · exact absurd hu hne
      · exact absurd h.toClient hne

theorem Answering.next_client (h : x.Answering answered)
    (hs : service.Answers asked answered response) (hp : t.party = .client) (ha : x.Allows t)
    (length : Nat) :
    (x.next service t).Answered response ∨
      (x.next service t).Answering answered ∧ Goes length t x (x.next service t) := by
  obtain ⟨socket, incoming, got, hk, hheard, hw⟩ := h.heard
  obtain ⟨raw, hraw, hm⟩ := hs.response
  obtain ⟨taken, later, call, hl, hb, hn, hd⟩ :=
    exists_next_receiving service hk hheard (hw ▸ hraw) hm
      h.connection.unsent_of_isClosed hp ha
  rw [hn]
  rcases hd with hr | ⟨rest, after, rfl, hrest⟩
  · exact .inl hr
  · have hu : x.call.unsent = [] := by
      rw [hk]
      rfl
    refine .inr ⟨⟨h.toServer, h.connection, rest, after, got ++ taken, rfl, hrest, ?_⟩,
      goes_of_moved taken ?_ ?_ ?_ ?_⟩
    · rw [hw, hl]
      simp only [List.append_assoc]
    · rw [left, left, hu, hl, List.length_append]
      simp only [Call.unsent]
      omega
    · exact fun _ ↦ rfl
    · rintro rfl way
      cases way with
      | requestOut => exact hu.symm
      | requestIn => rfl
      | responseOut => rfl
      | responseIn => exact hl.symm
    · intro way hne hf
      rcases hf.of_client hp with ⟨rfl, -⟩ | ⟨rfl, hbrings⟩
      · exact absurd hu hne
      · exact hb hbrings

end LocalHttp.Exchange
