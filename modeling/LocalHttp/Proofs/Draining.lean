import LocalHttp.Call
import LocalHttp.Connection
import LocalHttp.Proofs.Room
import LocalHttp.Proofs.Transfer

namespace LocalHttp

variable {ended : Prop} {waiting : Bytes}

namespace Socket

/-- What reading on a socket took of the bytes that waited, and what it left of them. Nothing but
the buffer and the line of arrivals is touched. -/
structure Takes (ended : Prop) (taken later : Bytes) (s after : Socket) : Prop where
  arrives : Arrives ended later after.line.arrivals
  pending : pendingBytes after.line.arrivals + taken.length = pendingBytes s.line.arrivals
  acceptances : after.line.acceptances = s.line.acceptances
  accepted : after.line.accepted = s.line.accepted
  isOpen : after.isOpen = true
  capacity : after.buffer.capacity = s.buffer.capacity
  peerClosed : after.peerClosed = true → s.peerClosed = true ∨ ended ∧ later = []
  paused : .wouldBlock ∈ after.line.arrivals → .wouldBlock ∈ s.line.arrivals

theorem Takes.trans {taken more later last : Bytes} {s mid after : Socket}
    (h : s.Takes ended taken later mid) (h' : mid.Takes ended more last after)
    (hl : later = more ++ last) : s.Takes ended (taken ++ more) last after where
  arrives := h'.arrives
  pending := by
    have h1 := h.pending
    have h2 := h'.pending
    rw [List.length_append]
    omega
  acceptances := h'.acceptances.trans h.acceptances
  accepted := h'.accepted.trans h.accepted
  isOpen := h'.isOpen
  capacity := h'.capacity.trans h.capacity
  peerClosed hp := by
    rcases h'.peerClosed hp with hm | he
    · refine (h.peerClosed hm).imp_right fun ⟨he, hz⟩ ↦ ⟨he, ?_⟩
      rw [hl] at hz
      exact (List.append_eq_nil_iff.1 hz).2
    · exact .inr he
  paused hb := h.paused (h'.paused hb)

theorem Takes.withBuffer {taken later : Bytes} {s after : Socket} {b : Buffer}
    (h : s.Takes ended taken later after) (hb : b.capacity = after.buffer.capacity) :
    s.Takes ended taken later { after with buffer := b } :=
  ⟨h.arrives, h.pending, h.acceptances, h.accepted, h.isOpen, hb.trans h.capacity, h.peerClosed,
    h.paused⟩

theorem exists_takes_read {s : Socket} (ho : s.isOpen = true)
    (ha : Arrives ended waiting s.line.arrivals) :
    ∃ taken later after, waiting = taken ++ later ∧ s.read = (.ok taken.length, after) ∧
      s.Takes ended taken later after ∧ after.buffer.unread = s.buffer.unread ++ taken ∧
      (s.buffer.free ≠ [] → brings s.line.arrivals = true → taken ≠ []) ∧
      (s.buffer.free ≠ [] → .wouldBlock ∉ s.line.arrivals → taken = [] →
        pendingBytes after.line.arrivals = 0) := by
  obtain ⟨taken, later, hw, ht, hc⟩ := exists_takes_receive ha s.buffer 0
  have hp := pendingBytes_receive s.buffer 0 s.line.arrivals
  rw [Nat.zero_add] at hc
  let r := receive s.buffer 0 s.line.arrivals
  let after : Socket :=
    { s with line := { s.line with arrivals := r.rest }, buffer := r.buffer,
             peerClosed := s.peerClosed || r.sawEnd }
  refine ⟨taken, later, after, hw, ?_, ⟨ht.arrives, ?_, rfl, rfl, ho, ht.capacity, ?_,
    wouldBlock_mem_of_receive⟩, ht.unread, ?_, ?_⟩
  · rw [read, if_pos ho]
    dsimp only
    rw [ht.noFault, hc]
  · rwa [hc] at hp
  · intro hs
    exact (Bool.or_eq_true_iff.1 hs).imp_right ht.sawEnd
  · intro hf hb he
    have hlt := lt_count_receive 0 hf hb
    rw [hc, he] at hlt
    exact absurd hlt (Nat.lt_irrefl 0)
  · intro hf hn he
    refine pendingBytes_of_count_receive hf ha hn ?_
    rw [hc, he]
    rfl

open Incoming

structure Awaits (state : Incoming) (s : Socket) : Prop where
  isOpen : s.isOpen = true
  roomy : (⟨state, s.buffer⟩ : Feed).Roomy
  capacity : 2 ≤ s.buffer.capacity

theorem Awaits.free_ne_nil {state : Incoming} {s : Socket} (h : s.Awaits state) :
    s.buffer.free ≠ [] := by
  have hr := h.roomy.writable
  have hc := h.capacity
  dsimp only at hr
  refine List.length_pos_iff.1 ?_
  unfold Buffer.writable at hr
  omega

theorem awaits_fresh (line : Line) : ({ line := line } : Socket).Awaits .fresh := by
  have hc : 2 ≤ Buffer.defaultCapacity := by decide
  refine ⟨rfl, Feed.roomy_fresh Buffer.defaultCapacity, ?_⟩
  exact (Buffer.capacity_ofCapacity Buffer.defaultCapacity).symm ▸ hc

variable {α : Type} (ofRaw : RawMessage → Except ReadFault α)

inductive Tells (paused : Prop) : Reading → Drained α × Incoming × Socket → Prop
  | dry {after : Incoming} {rest : Bytes} {s : Socket} : s.Awaits after → s.buffer.unread = rest →
    (¬paused → pendingBytes s.line.arrivals = 0) →
      Tells paused (.blocked after rest) (.dry, after, s)
  | message {raw : RawMessage} {message : α} {rest : Bytes} {s : Socket} : ofRaw raw = .ok message →
    s.buffer.unread = rest → Tells paused (.done raw rest) (.message message, .fresh, s)
  | refused {raw : RawMessage} {cause : ReadFault} {rest : Bytes} {s : Socket} :
    ofRaw raw = .error cause → s.buffer.unread = rest →
      Tells paused (.done raw rest) (.fault cause, .fresh, s)
  | fault {cause : ReadFault} {s : Socket} : Tells paused (.fault cause) (.fault cause, .fresh, s)

theorem Tells.mono {paused more : Prop} {r : Reading} {result : Drained α × Incoming × Socket}
    (h : Tells ofRaw paused r result) (hp : paused → more) : Tells ofRaw more r result := by
  cases h with
  | dry ha hu hz => exact .dry ha hu fun hn ↦ hz fun hm ↦ hn (hp hm)
  | message hm hu => exact .message hm hu
  | refused hm hu => exact .refused hm hu
  | fault => exact .fault

theorem drain_of_read {state : Incoming} {s after : Socket} {count : Nat}
    (h : s.read = (.ok count, after)) :
    drain ofRaw state s =
      match Incoming.read ofRaw state after.buffer with
      | (.message m, state, b) => (.message m, state, { after with buffer := b })
      | (.fault cause, state, b) => (.fault cause, state, { after with buffer := b })
      | (.incomplete, state, b) =>
        if count = 0 then (.dry, state, { after with buffer := b })
        else drain ofRaw state { after with buffer := b } := by
  rw [drain]
  split
  · rename_i hr
    rw [h] at hr
    cases hr
  · rename_i hr
    rw [h] at hr
    cases hr
    rfl

/-- Draining takes bytes off the line in their order and reads them as if they had come at once. -/
theorem exists_takes_drain {state : Incoming} {s : Socket} (hs : s.Awaits state)
    (ha : Arrives ended waiting s.line.arrivals) :
    ∃ taken later, waiting = taken ++ later ∧
      s.Takes ended taken later (drain ofRaw state s).2.2 ∧
      (brings s.line.arrivals = true → taken ≠ []) ∧
      Tells ofRaw (.wouldBlock ∈ s.line.arrivals) (reading state (s.buffer.unread ++ taken))
        (drain ofRaw state s) := by
  -- a read that brings something leaves fewer bytes to be read
  induction hn : pendingBytes s.line.arrivals using Nat.strongRecOn
    generalizing waiting state s with
  | ind n ih =>
    obtain ⟨taken, later, mid, hw, hr, ht, hu, hb, hz⟩ := exists_takes_read hs.isOpen ha
    have hread := reading_run state mid.buffer
    have hcap := capacity_run state mid.buffer
    rw [drain_of_read ofRaw hr, Incoming.read]
    rw [hu] at hread
    cases hrun : run state mid.buffer with
    | blocked after rest =>
      rw [hrun] at hread hcap
      obtain ⟨hroom, hcapacity⟩ := Feed.roomy_of_run_blocked hs.roomy.sound hrun
      have hawaits : ({ mid with buffer := rest.realign } : Socket).Awaits after :=
        ⟨ht.isOpen, hroom, by rw [hcapacity, ht.capacity]; exact hs.capacity⟩
      have hmid : s.Takes ended taken later { mid with buffer := rest.realign } :=
        ht.withBuffer hcapacity
      dsimp only
      split
      · rename_i hc
        have he : taken = [] := List.length_eq_zero_iff.1 hc
        refine ⟨taken, later, hw, hmid, hb hs.free_ne_nil, ?_⟩
        rw [← hread]
        exact .dry hawaits (Buffer.unread_realign rest) fun hp ↦ hz hs.free_ne_nil hp he
      · rename_i hc
        have hp := ht.pending
        have hlt : pendingBytes mid.line.arrivals < n := by omega
        obtain ⟨more, last, hl, hm, -, htell⟩ := ih _ hlt hawaits ht.arrives rfl
        refine ⟨taken ++ more, last, ?_, hmid.trans hm hl, ?_, ?_⟩
        · rw [hw, hl, List.append_assoc]
        · intro _ he
          exact hc (by rw [(List.append_eq_nil_iff.1 he).1, List.length_nil])
        · -- what later reads bring is read where this one has blocked
          rw [← List.append_assoc, reading_append_of_blocked more hread.symm]
          rw [Buffer.unread_realign] at htell
          exact htell.mono ofRaw hmid.paused
    | fault cause rest =>
      rw [hrun] at hread hcap
      refine ⟨taken, later, hw, ht.withBuffer hcap, hb hs.free_ne_nil, ?_⟩
      rw [← hread]
      exact .fault
    | done raw rest =>
      rw [hrun] at hread hcap
      dsimp only
      cases hm : ofRaw raw with
      | error cause =>
        refine ⟨taken, later, hw, ht.withBuffer hcap, hb hs.free_ne_nil, ?_⟩
        rw [← hread]
        exact .refused hm rfl
      | ok message =>
        refine ⟨taken, later, hw, ht.withBuffer hcap, hb hs.free_ne_nil, ?_⟩
        rw [← hread]
        exact .message hm rfl

structure Heard (got : Bytes) (state : Incoming) (s : Socket) : Prop extends s.Awaits state where
  peerOpen : s.peerClosed = false
  reads : reading .fresh got = .blocked state s.buffer.unread

theorem heard_fresh (line : Line) : ({ line := line } : Socket).Heard [] .fresh :=
  ⟨awaits_fresh line, rfl, Feed.settled_fresh 0⟩

theorem Heard.withLine {got : Bytes} {state : Incoming} {s : Socket} (h : s.Heard got state)
    (line : Line) : ({ s with line := line } : Socket).Heard got state :=
  ⟨⟨h.isOpen, h.roomy, h.capacity⟩, h.peerOpen, h.reads⟩

variable {ofRaw} {state : Incoming} {s : Socket} {got future : Bytes} {raw : RawMessage}

/-- Reading on in a message: it is understood when its last byte has been taken, and until then
nothing else happens. -/
theorem Heard.drain (hs : s.Heard got state) (ha : Arrives ended waiting s.line.arrivals)
    (hw : reading .fresh (got ++ (waiting ++ future)) = .done raw []) {message : α}
    (hm : ofRaw raw = .ok message) (hf : ended → future = []) :
    ∃ taken later after socket, waiting = taken ++ later ∧ s.Takes ended taken later socket ∧
      (brings s.line.arrivals = true → taken ≠ []) ∧
      (s.drain ofRaw state = (.dry, after, socket) ∧ socket.Heard (got ++ taken) after ∧
          (.wouldBlock ∉ s.line.arrivals → pendingBytes socket.line.arrivals = 0) ∨
        s.drain ofRaw state = (.message message, .fresh, socket) ∧ later = [] ∧ future = []) := by
  obtain ⟨taken, later, rfl, ht, hb, htell⟩ := exists_takes_drain ofRaw hs.toAwaits ha
  have happ := reading_append_of_blocked taken hs.reads
  have hwhole : reading .fresh (got ++ taken ++ (later ++ future)) = .done raw [] := by
    rw [← hw]
    simp only [List.append_assoc]
  generalize hd : s.drain ofRaw state = result at htell ht
  rw [← happ] at htell
  generalize hr : reading .fresh (got ++ taken) = r at htell
  cases htell with
  | @dry after rest socket hawaits hu hz =>
    refine ⟨taken, later, after, socket, rfl, ht, hb, .inl ⟨rfl, ⟨hawaits, ?_, ?_⟩, hz⟩⟩
    · refine eq_false_of_ne_true fun hp ↦ ?_
      rcases ht.peerClosed hp with hc | ⟨he, hl⟩
      · rw [hs.peerOpen] at hc
        cases hc
      · rw [hl, hf he, List.append_nil, List.append_nil, hr] at hwhole
        cases hwhole
    · rw [hr, hu]
  | @message other found rest socket ho hu =>
    rw [reading_append_of_done _ hr] at hwhole
    obtain ⟨rfl, hl⟩ := Reading.done.inj hwhole
    have hlf := List.append_eq_nil_iff.1 (List.append_eq_nil_iff.1 hl).2
    obtain rfl : found = message := Except.ok.inj (ho.symm.trans hm)
    exact ⟨taken, later, .fresh, socket, rfl, ht, hb, .inr ⟨rfl, hlf.1, hlf.2⟩⟩
  | refused ho hu =>
    rw [reading_append_of_done _ hr] at hwhole
    obtain ⟨rfl, -⟩ := Reading.done.inj hwhole
    rw [hm] at ho
    cases ho
  | fault =>
    rw [reading_append_of_fault _ hr] at hwhole
    cases hwhole

end Socket

def Socket.gave (s : Socket) (sent : Bytes) (left : List Acceptance) : Socket :=
  { s with line := { s.line with acceptances := left, accepted := s.line.accepted ++ sent } }

theorem Outgoing.exists_flush (o : Outgoing) {s : Socket} (ho : s.isOpen = true)
    (ha : ∀ errno, .fault errno ∉ s.line.acceptances) :
    ∃ sent unsent left, o.unsent = sent ++ unsent ∧
      (o.unsent ≠ [] → takes s.line.acceptances = true → sent ≠ []) ∧
      o.flush s = (.ok unsent.isEmpty, ⟨unsent⟩, s.gave sent left) := by
  by_cases hd : o.unsent = []
  · obtain ⟨unsent⟩ := o
    obtain rfl : unsent = [] := hd
    refine ⟨[], [], s.line.acceptances, rfl, fun h ↦ absurd rfl h, ?_⟩
    rw [Socket.gave, List.append_nil]
    rfl
  · let t := transmit [] o.unsent s.line.acceptances
    have happ : t.sent ++ t.unsent = o.unsent := sent_append_unsent [] o.unsent s.line.acceptances
    refine ⟨t.sent, t.unsent, t.rest, happ.symm, fun _ ht he ↦ ?_, ?_⟩
    · have hlt := length_unsent_lt hd [] ht
      have hlen := congrArg List.length happ
      rw [he, List.nil_append] at hlen
      exact absurd hlen (Nat.ne_of_lt hlt)
    · rw [Outgoing.flush, if_neg (by simpa [Outgoing.isDone] using hd), Socket.write, if_pos ho]
      dsimp only
      rw [fault_transmit ha]
      rfl

theorem Call.exists_send (o : Outgoing) {s : Socket} (ho : s.isOpen = true)
    (ha : ∀ errno, .fault errno ∉ s.line.acceptances) :
    ∃ sent unsent left, o.unsent = sent ++ unsent ∧
      (o.unsent ≠ [] → takes s.line.acceptances = true → sent ≠ []) ∧
      Call.send s o =
        if unsent = [] then .receiving (s.gave sent left) .fresh
        else .sending (s.gave sent left) ⟨unsent⟩ := by
  obtain ⟨sent, unsent, left, happ, hp, hf⟩ := o.exists_flush ho ha
  refine ⟨sent, unsent, left, happ, hp, ?_⟩
  rw [Call.send, hf]
  cases unsent <;> rfl

theorem Connection.exists_flush {c : Connection} {o : Outgoing} (hc : c.phase = .writing o)
    (ho : c.socket.isOpen = true) (ha : ∀ errno, .fault errno ∉ c.socket.line.acceptances) :
    ∃ sent unsent left, o.unsent = sent ++ unsent ∧
      (o.unsent ≠ [] → takes c.socket.line.acceptances = true → sent ≠ []) ∧
      c.flush =
        if unsent = [] then { c with socket := c.socket.gave sent left }.close
        else { c with socket := c.socket.gave sent left, phase := .writing ⟨unsent⟩ } := by
  obtain ⟨sent, unsent, left, happ, hp, hf⟩ := o.exists_flush ho ha
  refine ⟨sent, unsent, left, happ, hp, ?_⟩
  rw [Connection.flush, hc]
  dsimp only
  rw [hf]
  cases unsent <;> rfl

end LocalHttp
