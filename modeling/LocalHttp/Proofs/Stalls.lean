import LocalHttp.Proofs.Answers
import LocalHttp.Proofs.Stops

namespace LocalHttp

open Incoming

theorem prefix_singleton {α : Type} {a : α} {l : List α} (h : l <+: [a]) : l = [] ∨ l = [a] := by
  cases l with
  | nil => exact .inl rfl
  | cons b l =>
    obtain ⟨rfl, hl⟩ := List.cons_prefix_cons.1 h
    rw [List.prefix_nil.1 hl]
    exact .inr rfl

namespace Incoming

variable {α : Type} {ofRaw : RawMessage → Except ReadFault α} {state after : Incoming}
  {b rest : Buffer}

inductive Reachable (ofRaw : RawMessage → Except ReadFault α) : Incoming → Prop
  | fresh : Reachable ofRaw .fresh
  | read {state : Incoming} (b : Buffer) : Reachable ofRaw state →
    Reachable ofRaw (read ofRaw state b).2.1

theorem sound_read (hs : state.Sound) (b : Buffer) : (read ofRaw state b).2.1.Sound := by
  have hread := reading_run state b
  unfold Incoming.read
  split <;> rename_i hr
  · rw [hr] at hread
    exact (blocked_reading hs hread.symm).2
  · trivial
  · split <;> trivial

theorem Reachable.sound (h : Reachable ofRaw state) : state.Sound := by
  induction h with
  | fresh => trivial
  | read b _ ih => exact sound_read ih b

/-- What an incomplete message leaves of the buffer is all of it, but for a carriage return. -/
theorem room_of_incomplete (hs : state.Sound)
    (h : read ofRaw state b = (.incomplete, after, rest)) :
    rest.readPosition = 0 ∧ (rest.unread = [] ∨ rest.unread = [carriageReturn]) ∧
      rest.capacity = b.capacity ∧ rest.capacity ≤ rest.writable + 1 := by
  unfold Incoming.read at h
  split at h <;> rename_i left hr
  · cases h
    have hread := reading_run state b
    rw [hr] at hread
    obtain ⟨hroom, hcapacity⟩ := Feed.roomy_of_run_blocked hs hr
    refine ⟨List.length_eq_zero_iff.2 (Buffer.spent_realign left), ?_, hcapacity, hroom.writable⟩
    rw [Buffer.unread_realign]
    exact prefix_singleton (blocked_reading hs hread.symm).1
  · cases h
  · split at h <;> cases h

end Incoming

theorem Outgoing.exists_flush_eq (o : Outgoing) (s : Socket) :
    ∃ acceptances accepted, (o.flush s).2.2 =
      { s with line := { s.line with acceptances := acceptances, accepted := accepted } } := by
  have hself : s = { s with line := { s.line with acceptances := s.line.acceptances,
                                                  accepted := s.line.accepted } } := rfl
  unfold Outgoing.flush Socket.write
  split
  · exact ⟨_, _, hself⟩
  · split <;> rename_i hw <;> split at hw
    · dsimp only at hw
      split at hw <;> cases hw
      exact ⟨_, _, rfl⟩
    · cases hw
      exact ⟨_, _, hself⟩
    · dsimp only at hw
      split at hw <;> cases hw
      exact ⟨_, _, rfl⟩
    · cases hw

namespace Connection

def Event.isPending : Event → Bool
  | .pending => true
  | _ => false

/-- A connection as it has been accepted. -/
def accepted (line : Line) : Connection := { socket := { line := line } }

inductive Reachable (line : Line) : Connection → Prop
  | accepted : Reachable line (accepted line)
  | readRequest {c : Connection} : Reachable line c → Reachable line c.readRequest.2
  | respond {c : Connection} (r : Response) : Reachable line c → Reachable line (c.respond r)
  | flush {c : Connection} : Reachable line c → Reachable line c.flush
  | close {c : Connection} : Reachable line c → Reachable line c.close

structure Regular (c : Connection) : Prop where
  sound : c.incoming.Sound
  capacity : c.socket.buffer.capacity = Buffer.defaultCapacity
  knowsEnd : c.socket.KnowsEnd
  closed : c.phase = .closed → c.socket.isOpen = false

theorem regular_accepted (line : Line) : (accepted line).Regular :=
  ⟨trivial, Buffer.capacity_ofCapacity _, nofun, nofun⟩

variable {c after : Connection}

theorem Regular.listens (h : c.Regular) (ho : c.socket.isOpen = true) :
    c.socket.Listens c.incoming :=
  ⟨ho, h.sound, h.capacity ▸ by decide⟩

theorem Regular.close (h : c.Regular) : c.close.Regular :=
  ⟨h.sound, h.capacity, h.knowsEnd, fun _ ↦ rfl⟩

theorem Regular.flush (h : c.Regular) : c.flush.Regular := by
  unfold Connection.flush
  split
  · rename_i outgoing hphase
    obtain ⟨acceptances, accepted, hs⟩ := outgoing.exists_flush_eq c.socket
    split <;> rename_i hf <;> rw [hf] at hs <;> dsimp only at hs <;> rw [hs]
    · exact Regular.close ⟨h.sound, h.capacity, h.knowsEnd, h.closed⟩
    · exact ⟨h.sound, h.capacity, h.knowsEnd, nofun⟩
    · exact Regular.close ⟨h.sound, h.capacity, h.knowsEnd, h.closed⟩
  · exact h

theorem Regular.respond (h : c.Regular) (r : Response) : (c.respond r).Regular :=
  Regular.flush ⟨h.sound, h.capacity, h.knowsEnd, nofun⟩

theorem readRequest_of_not_open (ho : c.socket.isOpen = false) :
    c.readRequest =
      (.fault (.internalError (TransportFault.socket .read .notConnected).message), c) := by
  have hr : c.socket.read = (.error (.socket .read .notConnected), c.socket) := by
    rw [Socket.read, if_neg (by simp [ho])]
  rw [Connection.readRequest, Socket.drain_of_read_error Request.ofRaw hr]

theorem Regular.readRequest (h : c.Regular) : c.readRequest.2.Regular := by
  cases ho : c.socket.isOpen with
  | false =>
    rw [readRequest_of_not_open ho]
    exact h
  | true =>
    obtain ⟨taken, -, hrests, hcap, hknows⟩ :=
      Socket.exists_rests_drain Request.ofRaw (h.listens ho)
    have hsound := hrests.sound
    have hopen : c.phase ≠ .closed := fun hp ↦ by rw [h.closed hp] at ho; cases ho
    rw [h.capacity] at hcap
    unfold Connection.readRequest
    split <;> rename_i hd <;> rw [hd] at hsound hcap hknows
    · exact ⟨hsound, hcap, hknows h.knowsEnd, fun hp ↦ absurd hp hopen⟩
    · exact ⟨hsound, hcap, hknows h.knowsEnd, fun hp ↦ absurd hp hopen⟩
    · exact ⟨hsound, hcap, hknows h.knowsEnd, fun hp ↦ absurd hp hopen⟩
    · have hregular : ({ c with socket := _, incoming := _ } : Connection).Regular :=
        ⟨hsound, hcap, hknows h.knowsEnd, fun hp ↦ absurd hp hopen⟩
      dsimp only
      split
      · exact hregular.close
      · exact hregular

theorem Reachable.regular {line : Line} (h : Reachable line c) : c.Regular := by
  induction h with
  | accepted => exact regular_accepted line
  | readRequest _ ih => exact ih.readRequest
  | respond r _ ih => exact ih.respond r
  | flush _ ih => exact ih.flush
  | close _ ih => exact ih.close

/-- Why a call has nothing to tell: either the line had no more for now, and the connection waits;
or the line has ended, and the connection is closed. -/
inductive Pends (c after : Connection) : Prop
  | paused : after.isClosed = false →
    Pauses c.socket.line.arrivals after.socket.line.arrivals → Pends c after
  | ended : after.isClosed = true → AtEnd after.socket.line.arrivals → Pends c after

theorem Regular.pends (h : c.Regular) (hroom : c.socket.buffer.free ≠ [])
    (hp : c.readRequest = (.pending, after)) :
    c.Pends after ∧ after.socket.buffer.free ≠ [] := by
  cases ho : c.socket.isOpen with
  | false =>
    rw [readRequest_of_not_open ho] at hp
    cases hp
  | true =>
    obtain ⟨taken, -, hrests, -, hknows⟩ :=
      Socket.exists_rests_drain Request.ofRaw (h.listens ho)
    have hopen : c.phase ≠ .closed := fun hc ↦ by rw [h.closed hc] at ho; cases ho
    have hknows := hknows h.knowsEnd
    unfold Connection.readRequest at hp
    generalize c.socket.drain Request.ofRaw c.incoming = result at hrests hknows hp
    split at hp
    · cases hp
    · cases hp
    · cases hp
    · obtain ⟨ha, -, hpause⟩ := hrests.of_dry hroom
      dsimp only at hp
      split at hp <;> rename_i hc <;> cases hp
      · exact ⟨.ended rfl (hknows hc), ha.free_ne_nil⟩
      · refine ⟨.paused ?_ (hpause.resolve_left hc), ha.free_ne_nil⟩
        unfold isClosed
        split
        · exact absurd ‹_› hopen
        · exact congrArg not ha.isOpen

/-- Reads again after every wait, as long as there is nothing to tell, up to a number of waits. -/
def await : Nat → Connection → Event × Connection
  | 0, c => c.readRequest
  | waits + 1, c =>
    match c.readRequest with
    | (.pending, c) => c.await waits
    | told => told

structure Expects (request : Request) (got : Bytes) (c : Connection) : Prop where
  awaits : c.socket.Awaits c.incoming
  reads : reading .fresh got = .blocked c.incoming c.socket.buffer.unread
  knowsEnd : c.socket.KnowsEnd
  calm : ∀ errno, .fault errno ∉ c.socket.line.arrivals
  ahead : (reading .fresh (got ++ delivered c.socket.line.arrivals)).result Request.ofRaw =
    some (.ok request)

theorem Expects.eq_of_found {request : Request} {got taken : Bytes}
    {found : Except ReadFault Request} {rest : List Arrival} (h : c.Expects request got)
    (hd : delivered c.socket.line.arrivals = taken ++ delivered rest)
    (hf : (reading .fresh (got ++ taken)).result Request.ofRaw = some found) :
    found = .ok request := by
  have ha := h.ahead
  rw [hd, ← List.append_assoc, result_append _ hf] at ha
  exact Option.some.inj ha

theorem Expects.ne_of_blocked {request : Request} {got taken left : Bytes} {state : Incoming}
    (h : c.Expects request got) (hb : reading .fresh (got ++ taken) = .blocked state left) :
    delivered c.socket.line.arrivals ≠ taken := by
  intro hd
  have ha := h.ahead
  rw [hd, hb] at ha
  cases ha

theorem Expects.exists_readRequest {request : Request} {got : Bytes} (h : c.Expects request got) :
    c.readRequest.1 = .request request ∨
      ∃ taken after, c.readRequest = (.pending, after) ∧ after.Expects request (got ++ taken) ∧
        after.socket.line.arrivals.count .wouldBlock <
          c.socket.line.arrivals.count .wouldBlock := by
  obtain ⟨taken, ht, hfinds, hrests, hknows⟩ :=
    Socket.exists_drain_behind Request.ofRaw h.awaits h.reads
  have hknows := hknows h.knowsEnd
  unfold Connection.readRequest
  generalize c.socket.drain Request.ofRaw c.incoming = result at ht hfinds hrests hknows
  cases hfinds with
  | @dry state socket hb =>
    have hne := h.ne_of_blocked hb
    obtain ⟨ha, hd, hp⟩ := hrests.of_dry h.awaits.free_ne_nil
    -- bytes of the request are still to come, so what stopped the reads can only be a pause
    have hmore : delivered socket.line.arrivals ≠ [] := fun hn ↦
      hne (by rw [hd, hn, List.append_nil])
    have hopen : socket.peerClosed ≠ true := fun hc ↦ hmore (hknows hc).delivered_eq
    have hpause : .wouldBlock :: socket.line.arrivals <:+ c.socket.line.arrivals :=
      (hp.resolve_left hopen).resolve_left fun hn ↦ hmore (by rw [hn]; rfl)
    have hcalm : ∀ errno, .fault errno ∉ socket.line.arrivals := fun errno hm ↦
      h.calm errno (hpause.mem (List.mem_cons_of_mem _ hm))
    have hafter : ({ c with socket := socket, incoming := state } : Connection).Expects request
        (got ++ taken) := by
      refine ⟨ha, hb, hknows, hcalm, ?_⟩
      rw [List.append_assoc, ← hd]
      exact h.ahead
    refine .inr ⟨taken, _, ?_, hafter, ?_⟩
    · dsimp only
      rw [if_neg hopen]
    · have hcount := hpause.sublist.count_le Arrival.wouldBlock
      rwa [List.count_cons_self] at hcount
  | message hf =>
    cases hrests with
    | message hd =>
      have he := h.eq_of_found hd hf
      exact .inl (congrArg Event.request (Except.ok.inj he))
  | fault hf =>
    cases hrests with
    | fault hd => cases h.eq_of_found hd hf
  | failed _ _ _ hf => exact absurd (hf.mem List.mem_cons_self) (h.calm _)

theorem Expects.await {request : Request} {got : Bytes} {waits : Nat} (h : c.Expects request got)
    (hle : c.socket.line.arrivals.count .wouldBlock ≤ waits) :
    (c.await waits).1 = .request request := by
  induction waits generalizing c got with
  | zero =>
    rcases h.exists_readRequest with he | ⟨_, after, _, _, hlt⟩
    · exact he
    · omega
  | succ waits ih =>
    rcases h.exists_readRequest with he | ⟨taken, after, he, hnext, hlt⟩
    · cases hr : c.readRequest with
      | mk event after =>
        rw [hr] at he
        cases he
        rw [Connection.await, hr]
    · rw [Connection.await, he]
      exact ih hnext (by omega)

theorem expects_accepted {line : Line} {request : Request}
    (hcalm : ∀ errno, .fault errno ∉ line.arrivals)
    (h : (Incoming.readRequest .fresh (.ofBytes (delivered line.arrivals))).1 = .message request) :
    (accepted line).Expects request [] := by
  have hheard := Socket.heard_fresh line
  exact ⟨hheard.toAwaits, hheard.reads, nofun, hcalm, result_of_message h⟩

/-- A buffer of fixed size does not hold up reading: whatever it has been given, a reader that is
blocked leaves all of it to be written but for a carriage return. So a connection whose buffer has
room, as it has when it is accepted and as long as calls have nothing to tell, goes on waiting only
when the line has no more for now, and is given up only when the line has ended; and a request of
any length comes through, once for each pause at the latest. -/
theorem fixed_buffer_never_stalls :
    (∀ {α : Type} (ofRaw : RawMessage → Except ReadFault α) (state after : Incoming)
        (b rest : Buffer), Incoming.Reachable ofRaw state →
      Incoming.read ofRaw state b = (.incomplete, after, rest) →
        rest.readPosition = 0 ∧ (rest.unread = [] ∨ rest.unread = [carriageReturn]) ∧
          rest.capacity = b.capacity ∧ rest.capacity ≤ rest.writable + 1) ∧
    (∀ line, (accepted line).socket.buffer.free ≠ [] ∧
      ∀ c after, Reachable line c → c.socket.buffer.free ≠ [] →
        c.readRequest = (.pending, after) → c.Pends after ∧ after.socket.buffer.free ≠ []) ∧
    (∀ line request, (∀ errno, .fault errno ∉ line.arrivals) →
      (Incoming.readRequest .fresh (.ofBytes (delivered line.arrivals))).1 = .message request →
        ((accepted line).await (line.arrivals.count .wouldBlock)).1 = .request request) := by
  refine ⟨fun ofRaw state after b rest hs h ↦ room_of_incomplete hs.sound h,
    fun line ↦ ⟨(Socket.awaits_fresh line).free_ne_nil, fun c after hc hroom hp ↦ ?_⟩,
    fun line request hcalm h ↦ (expects_accepted hcalm h).await (Nat.le_refl _)⟩
  exact hc.regular.pends hroom hp

def longLine : Line where
  arrivals := [.data (Bytes.ofText "GET / " ++ List.replicate 4200 0x76), .wouldBlock,
    .data (Bytes.ofText "\r\n\r\n"), .endOfFile]

theorem fixed_buffer_never_stalls_longLine :
    (∀ errno, .fault errno ∉ longLine.arrivals) ∧
      (Incoming.readRequest .fresh (.ofBytes (delivered longLine.arrivals))).1 =
        .message Call.glance ∧
      ((accepted longLine).await 1).1 = .request Call.glance := by
  have hcalm : ∀ errno, .fault errno ∉ longLine.arrivals := by
    simp [longLine, -List.reduceReplicate]
  have hread : (Incoming.readRequest .fresh (.ofBytes (delivered longLine.arrivals))).1 =
      .message Call.glance := by decide +kernel
  have hcount : longLine.arrivals.count .wouldBlock = 1 := rfl
  exact ⟨hcalm, hread, hcount ▸ fixed_buffer_never_stalls.2.2 longLine Call.glance hcalm hread⟩

def pipelined : Line where
  arrivals := [.data (Bytes.ofText "GET /1 v\r\n\r\nGET /2 " ++ List.replicate 4200 0x76 ++
    Bytes.ofText "\r\n\r\n")]

/-- Behind a request that has been told of, a call can have nothing to tell because the buffer is
full: the line has more at once, and has not ended. -/
theorem pending_behind_full_buffer :
    Reachable pipelined (accepted pipelined).readRequest.2 ∧
      ∃ after, (accepted pipelined).readRequest.2.readRequest = (.pending, after) ∧
        after.isClosed = false ∧ ¬(accepted pipelined).readRequest.2.Pends after := by
  have h : (accepted pipelined).readRequest.2.readRequest.1.isPending = true ∧
      (accepted pipelined).readRequest.2.readRequest.2.isClosed = false ∧
      (accepted pipelined).readRequest.2.readRequest.2.socket.line.arrivals ≠ [] ∧
      .wouldBlock ∉ (accepted pipelined).readRequest.2.socket.line.arrivals := by decide +kernel
  obtain ⟨hpending, hopen, hmore, hnone⟩ := h
  refine ⟨.readRequest .accepted, _, ?_, hopen, ?_⟩
  · cases hr : (accepted pipelined).readRequest.2.readRequest with
    | mk event after =>
      rw [hr] at hpending
      cases event with
      | pending => rfl
      | request request => cases hpending
      | fault response => cases hpending
  · intro hp
    cases hp with
    | paused _ hpause => exact hpause.elim hmore fun hs ↦ hnone (hs.mem List.mem_cons_self)
    | ended hc _ =>
      rw [hopen] at hc
      cases hc

end Connection

end LocalHttp
