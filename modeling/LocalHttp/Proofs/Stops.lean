import LocalHttp.Proofs.Lines

namespace LocalHttp

def delivered : List Arrival → Bytes
  | .data bytes :: rest => bytes ++ delivered rest
  | .wouldBlock :: rest | .interrupted :: rest => delivered rest
  | _ => []

/-- Reads that left `rest` were last told to wait. A line with nothing left tells them so too. -/
def Pauses (arrivals rest : List Arrival) : Prop := rest = [] ∨ .wouldBlock :: rest <:+ arrivals

def AtEnd (arrivals : List Arrival) : Prop := ∃ later, arrivals = .endOfFile :: later

theorem AtEnd.delivered_eq {arrivals : List Arrival} (h : AtEnd arrivals) :
    delivered arrivals = [] := by
  obtain ⟨later, rfl⟩ := h
  rfl

theorem Pauses.cons {arrivals rest : List Arrival} (a : Arrival) (h : Pauses arrivals rest) :
    Pauses (a :: arrivals) rest := h.imp_right fun h ↦ h.trans (List.suffix_cons a arrivals)

theorem Consumes.pauses {taken : Bytes} {arrivals mid rest : List Arrival}
    (h : Consumes taken arrivals mid) (hp : Pauses mid rest) : Pauses arrivals rest :=
  hp.imp_right (h.ahead .wouldBlock rest (fun _ ↦ nofun))

structure Received.Stops (b : Buffer) (taken : Bytes) (arrivals : List Arrival) (r : Received) :
    Prop where
  split : r.fault = none → delivered arrivals = taken ++ delivered r.rest
  failed : ∀ errno, r.fault = some errno → delivered arrivals = taken
  idle : r.fault = none → b.free ≠ [] → taken = [] → Pauses arrivals r.rest ∨ r.sawEnd = true
  atEnd : r.sawEnd = true → AtEnd r.rest

theorem Received.Stops.behind {b : Buffer} {block taken : Bytes} {rest : List Arrival}
    {r : Received} (h : r.Stops (b.write block) taken rest) :
    r.Stops b (block ++ taken) (.data block :: rest) where
  split hf := by rw [delivered, h.split hf, List.append_assoc]
  failed errno hf := by rw [delivered, h.failed errno hf]
  idle hf hb ht := by
    obtain ⟨rfl, rfl⟩ := List.append_eq_nil_iff.1 ht
    have hw : b.write [] = b := by
      simp [Buffer.write]
    exact (h.idle hf (hw.symm ▸ hb) rfl).imp_left (Pauses.cons _)
  atEnd := h.atEnd

theorem exists_stops_receive (b : Buffer) (count : Nat) (arrivals : List Arrival) :
    ∃ taken, (receive b count arrivals).buffer.unread = b.unread ++ taken ∧
      (receive b count arrivals).Stops b taken arrivals := by
  have hnil := (List.append_nil b.unread).symm
  induction arrivals generalizing b count with
  | nil => exact ⟨[], hnil, fun _ ↦ rfl, not_failed, fun _ _ _ ↦ .inl (.inl rfl), not_ended⟩
  | cons a rest ih =>
    unfold receive
    split
    · rename_i hb
      refine ⟨[], hnil, fun _ ↦ rfl, not_failed, fun _ hne _ ↦ ?_, not_ended⟩
      exact absurd (List.isEmpty_iff.1 hb) hne
    · rename_i hb
      cases a with
      | data block =>
        dsimp only
        split
        · rename_i hd
          have hle : block.length ≤ b.writable := List.drop_eq_nil_iff.1 hd
          obtain ⟨taken, hu, hs⟩ := ih (b.write block) (count + block.length)
            (List.append_nil _).symm
          rw [Buffer.unread_write, List.take_of_length_le hle, List.append_assoc] at hu
          exact ⟨block ++ taken, hu, hs.behind⟩
        · -- the block fills the buffer, and a part of it stays on the line
          rename_i hd
          refine ⟨block.take b.writable, Buffer.unread_write b block, fun _ ↦ ?_, not_failed,
            fun _ hne ht ↦ ?_, not_ended⟩
          · rw [delivered, delivered, ← List.append_assoc, List.take_append_drop]
          · rcases List.take_eq_nil_iff.1 ht with hw | he
            · exact absurd (List.length_eq_zero_iff.1 hw) hne
            · exact absurd (by rw [he, List.drop_nil]) hd
      | endOfFile =>
        exact ⟨[], hnil, fun _ ↦ rfl, not_failed, fun _ _ _ ↦ .inr rfl, fun _ ↦ ⟨rest, rfl⟩⟩
      | wouldBlock =>
        exact ⟨[], hnil, fun _ ↦ rfl, not_failed, fun _ _ _ ↦ .inl (.inr (List.suffix_refl _)),
          not_ended⟩
      | interrupted =>
        obtain ⟨taken, hu, hs⟩ := ih b count hnil
        exact ⟨taken, hu, hs.split, hs.failed,
          fun hf hb ht ↦ (hs.idle hf hb ht).imp_left (Pauses.cons _), hs.atEnd⟩
      | fault errno => exact ⟨[], hnil, nofun, fun _ _ ↦ rfl, nofun, not_ended⟩

theorem capacity_receive (b : Buffer) (count : Nat) (arrivals : List Arrival) :
    (receive b count arrivals).buffer.capacity = b.capacity := by
  induction arrivals generalizing b count with
  | nil => rfl
  | cons a rest ih =>
    unfold receive
    split
    · rfl
    · cases a with
      | data block =>
        dsimp only
        split
        · exact (ih _ _).trans (Buffer.capacity_write b block)
        · exact Buffer.capacity_write b block
      | interrupted => exact ih b count
      | _ => rfl

theorem AtEnd.receive {arrivals : List Arrival} (h : AtEnd arrivals) (b : Buffer) (count : Nat) :
    AtEnd (receive b count arrivals).rest := by
  obtain ⟨later, rfl⟩ := h
  unfold LocalHttp.receive
  split <;> exact ⟨later, rfl⟩

namespace Socket

structure Listens (state : Incoming) (s : Socket) : Prop where
  isOpen : s.isOpen = true
  sound : state.Sound
  capacity : 2 ≤ s.buffer.capacity

theorem Awaits.listens {state : Incoming} {s : Socket} (h : s.Awaits state) : s.Listens state :=
  ⟨h.isOpen, h.roomy.sound, h.capacity⟩

def KnowsEnd (s : Socket) : Prop := s.peerClosed = true → AtEnd s.line.arrivals

structure Stops (taken : Bytes) (s after : Socket) : Prop extends s.Reads taken after where
  unread : after.buffer.unread = s.buffer.unread ++ taken
  capacity : after.buffer.capacity = s.buffer.capacity
  knowsEnd : s.KnowsEnd → after.KnowsEnd

theorem exists_stops_read {s : Socket} (ho : s.isOpen = true) :
    ∃ taken after, s.Stops taken after ∧
      (s.read = (.ok taken.length, after) ∧
          delivered s.line.arrivals = taken ++ delivered after.line.arrivals ∧
          (s.buffer.free ≠ [] → taken = [] →
            Pauses s.line.arrivals after.line.arrivals ∨
              after.peerClosed = true ∧ AtEnd after.line.arrivals) ∨
        ∃ errno, s.read = (.error (.socket .read (.system errno)), after) ∧
          .fault errno :: after.line.arrivals <:+ s.line.arrivals ∧
          delivered s.line.arrivals = taken) := by
  obtain ⟨taken, ht, hu, hc, hf, he⟩ := exists_consumes_receive s.buffer 0 s.line.arrivals
  obtain ⟨other, hother, hstops⟩ := exists_stops_receive s.buffer 0 s.line.arrivals
  obtain rfl : other = taken := List.append_cancel_left (hother.symm.trans hu)
  rw [Nat.zero_add] at hc
  let r := receive s.buffer 0 s.line.arrivals
  let after : Socket :=
    { s with line := { s.line with arrivals := r.rest }, buffer := r.buffer,
             peerClosed := s.peerClosed || r.sawEnd }
  have hp : after.peerClosed = true → s.peerClosed = true ∨ .endOfFile ∈ s.line.arrivals :=
    fun hp ↦ (Bool.or_eq_true_iff.1 hp).imp_right he
  have hknows : s.KnowsEnd → after.KnowsEnd := fun hs hp ↦
    (Bool.or_eq_true_iff.1 hp).elim (fun h ↦ (hs h).receive _ _) hstops.atEnd
  refine ⟨other, after, ⟨⟨ht, rfl, rfl, ho, hp⟩, hu, capacity_receive _ _ _, hknows⟩, ?_⟩
  rw [read, if_pos ho]
  dsimp only
  cases hfault : (receive s.buffer 0 s.line.arrivals).fault with
  | none =>
    refine .inl ⟨by rw [hc], hstops.split hfault, fun hb ht ↦ ?_⟩
    refine (hstops.idle hfault hb ht).imp_right fun hsaw ↦ ⟨?_, hstops.atEnd hsaw⟩
    exact Bool.or_eq_true_iff.2 (.inr hsaw)
  | some errno => exact .inr ⟨errno, rfl, hf errno hfault, hstops.failed errno hfault⟩

open Incoming

variable {α : Type} (ofRaw : RawMessage → Except ReadFault α)

/-- Where draining that took these bytes leaves the line. -/
inductive Rests (s : Socket) (taken : Bytes) : Drained α × Incoming × Socket → Prop
  | full {after : Incoming} {socket : Socket} : s.buffer.free = [] → socket.Awaits after →
    Rests s taken (.dry, after, socket)
  | paused {after : Incoming} {socket : Socket} : socket.Awaits after →
    Pauses s.line.arrivals socket.line.arrivals →
    delivered s.line.arrivals = taken ++ delivered socket.line.arrivals →
    Rests s taken (.dry, after, socket)
  | ended {after : Incoming} {socket : Socket} : socket.Awaits after → socket.peerClosed = true →
    AtEnd socket.line.arrivals → delivered s.line.arrivals = taken →
    Rests s taken (.dry, after, socket)
  | message {message : α} {socket : Socket} :
    delivered s.line.arrivals = taken ++ delivered socket.line.arrivals →
    Rests s taken (.message message, .fresh, socket)
  | fault {cause : ReadFault} {socket : Socket} :
    delivered s.line.arrivals = taken ++ delivered socket.line.arrivals →
    Rests s taken (.fault cause, .fresh, socket)
  | failed {fault : TransportFault} {after : Incoming} {socket : Socket} : after.Sound →
    delivered s.line.arrivals = taken → Rests s taken (.failed fault, after, socket)

variable {ofRaw} in
theorem Rests.sound {s : Socket} {taken : Bytes} {result : Drained α × Incoming × Socket}
    (h : s.Rests taken result) : result.2.1.Sound := by
  cases h with
  | full _ ha | paused ha | ended ha => exact ha.roomy.sound
  | message | fault => trivial
  | failed hs => exact hs

theorem Rests.of_dry {s socket : Socket} {taken : Bytes} {after : Incoming}
    (h : s.Rests (α := α) taken (.dry, after, socket)) (hroom : s.buffer.free ≠ []) :
    socket.Awaits after ∧
      delivered s.line.arrivals = taken ++ delivered socket.line.arrivals ∧
      (socket.peerClosed = true ∨ Pauses s.line.arrivals socket.line.arrivals) := by
  cases h with
  | full hf => exact absurd hf hroom
  | paused ha hp hd => exact ⟨ha, hd, .inr hp⟩
  | ended ha hc he hd =>
    refine ⟨ha, ?_, .inl hc⟩
    rw [hd, he.delivered_eq, List.append_nil]

theorem Rests.behind {s mid : Socket} {taken more : Bytes}
    {result : Drained α × Incoming × Socket} (ht : s.Reads taken mid)
    (hd : delivered s.line.arrivals = taken ++ delivered mid.line.arrivals)
    (hroom : mid.buffer.free ≠ []) (h : mid.Rests more result) :
    s.Rests (taken ++ more) result := by
  cases h with
  | full hf => exact absurd hf hroom
  | paused ha hp hm => exact .paused ha (ht.arrivals.pauses hp) (by rw [hd, hm, List.append_assoc])
  | ended ha hp he hm => exact .ended ha hp he (by rw [hd, hm])
  | message hm => exact .message (by rw [hd, hm, List.append_assoc])
  | fault hm => exact .fault (by rw [hd, hm, List.append_assoc])
  | failed hs hm => exact .failed hs (by rw [hd, hm])

theorem exists_rests_drain {state : Incoming} {s : Socket} (hs : s.Listens state) :
    ∃ taken, s.Reads taken (drain ofRaw state s).2.2 ∧ s.Rests taken (drain ofRaw state s) ∧
      (drain ofRaw state s).2.2.buffer.capacity = s.buffer.capacity ∧
      (s.KnowsEnd → (drain ofRaw state s).2.2.KnowsEnd) := by
  -- a read that brings something leaves fewer bytes to be read
  induction hn : pendingBytes s.line.arrivals using Nat.strongRecOn generalizing state s with
  | ind n ih =>
    obtain ⟨taken, mid, ht, ⟨hr, hd, hidle⟩ | ⟨errno, hr, hf, hd⟩⟩ := exists_stops_read hs.isOpen
    · have hcap := (capacity_run state mid.buffer).trans ht.capacity
      rw [drain_of_read ofRaw hr, Incoming.read]
      cases hrun : run state mid.buffer with
      | blocked after rest =>
        rw [hrun] at hcap
        obtain ⟨hroom, hcapacity⟩ := Feed.roomy_of_run_blocked hs.sound hrun
        rw [ht.capacity] at hcapacity
        have hawaits : ({ mid with buffer := rest.realign } : Socket).Awaits after :=
          ⟨ht.isOpen, hroom, by rw [hcapacity]; exact hs.capacity⟩
        dsimp only
        split
        · rename_i hc
          have hnil := List.length_eq_zero_iff.1 hc
          refine ⟨taken, ht.toReads.withBuffer _, ?_, hcapacity, ht.knowsEnd⟩
          by_cases hroom : s.buffer.free = []
          · exact .full hroom hawaits
          · rcases hidle hroom hnil with hp | ⟨hp, he⟩
            · exact .paused hawaits hp hd
            · refine .ended hawaits hp he ?_
              rw [hd, he.delivered_eq, List.append_nil]
        · rename_i hc
          have hlt : pendingBytes mid.line.arrivals < n := by
            have hp := pendingBytes_read hr
            omega
          obtain ⟨more, hm, hrests, hcap', hknows⟩ := ih _ hlt hawaits.listens rfl
          have hmid := ht.toReads.withBuffer rest.realign
          exact ⟨taken ++ more, hmid.trans hm, hrests.behind hmid hd hawaits.free_ne_nil,
            hcap'.trans hcapacity, fun hk ↦ hknows (ht.knowsEnd hk)⟩
      | fault cause rest =>
        rw [hrun] at hcap
        exact ⟨taken, ht.toReads.withBuffer rest, .fault hd, hcap, ht.knowsEnd⟩
      | done raw rest =>
        rw [hrun] at hcap
        dsimp only
        cases ofRaw raw with
        | error cause => exact ⟨taken, ht.toReads.withBuffer rest, .fault hd, hcap, ht.knowsEnd⟩
        | ok message => exact ⟨taken, ht.toReads.withBuffer rest, .message hd, hcap, ht.knowsEnd⟩
    · rw [drain_of_read_error ofRaw hr]
      exact ⟨taken, ht.toReads, .failed hs.sound hd, ht.capacity, ht.knowsEnd⟩

/-- Draining behind what has come before, with what it finds and where it stops. -/
theorem exists_drain_behind {state : Incoming} {s : Socket} {got : Bytes}
    (hs : s.Awaits state) (hgot : reading .fresh got = .blocked state s.buffer.unread) :
    ∃ taken, s.Reads taken (drain ofRaw state s).2.2 ∧
      Finds ofRaw .fresh [] (got ++ taken) s.line.arrivals (drain ofRaw state s) ∧
      s.Rests taken (drain ofRaw state s) ∧
      (s.KnowsEnd → (drain ofRaw state s).2.2.KnowsEnd) := by
  obtain ⟨taken, ht, hfinds⟩ := exists_finds_drain_behind ofRaw hs.isOpen hgot
  obtain ⟨other, ho, hrests, -, hknows⟩ := exists_rests_drain ofRaw hs.listens
  obtain rfl : other = taken := ho.arrivals.take_bytesOf.symm.trans ht.arrivals.take_bytesOf
  exact ⟨other, ht, hfinds, hrests, hknows⟩

end Socket

end LocalHttp
