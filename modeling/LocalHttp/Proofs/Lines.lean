import LocalHttp.Proofs.Draining

namespace LocalHttp

def bytesOf : List Arrival → Bytes
  | [] => []
  | .data bytes :: rest => bytes ++ bytesOf rest
  | _ :: rest => bytesOf rest

theorem length_bytesOf (arrivals : List Arrival) :
    (bytesOf arrivals).length = pendingBytes arrivals := by
  induction arrivals with
  | nil => rfl
  | cons a rest ih =>
    cases a with
    | data bytes => rw [bytesOf, List.length_append, ih, pendingBytes]
    | _ => exact ih

/-- How reads leave a line. Only a block of bytes can be met in part. -/
structure Consumes (taken : Bytes) (arrivals rest : List Arrival) : Prop where
  bytes : bytesOf arrivals = taken ++ bytesOf rest
  ahead : ∀ a later, (∀ block, a ≠ .data block) → a :: later <:+ rest → a :: later <:+ arrivals

theorem consumes_nil (arrivals : List Arrival) : Consumes [] arrivals arrivals :=
  ⟨rfl, fun _ _ _ h ↦ h⟩

theorem Consumes.cons {taken : Bytes} {arrivals rest : List Arrival} (a : Arrival)
    (h : Consumes taken arrivals rest) : Consumes (bytesOf [a] ++ taken) (a :: arrivals) rest where
  bytes := by
    cases a with
    | data block => rw [bytesOf, bytesOf, bytesOf, h.bytes, List.append_nil, List.append_assoc]
    | _ => exact h.bytes
  ahead b later hb hs := (h.ahead b later hb hs).trans (List.suffix_cons a arrivals)

theorem Consumes.trans {taken more : Bytes} {arrivals mid rest : List Arrival}
    (h : Consumes taken arrivals mid) (h' : Consumes more mid rest) :
    Consumes (taken ++ more) arrivals rest where
  bytes := by
    rw [h.bytes, h'.bytes, List.append_assoc]
  ahead a later ha hs := h.ahead a later ha (h'.ahead a later ha hs)

theorem Consumes.take_bytesOf {taken : Bytes} {arrivals rest : List Arrival}
    (h : Consumes taken arrivals rest) :
    (bytesOf arrivals).take (pendingBytes arrivals - pendingBytes rest) = taken := by
  rw [← length_bytesOf, ← length_bytesOf, h.bytes, List.length_append, Nat.add_sub_cancel,
    List.take_left]

theorem not_failed {P : Errno → Prop} : ∀ errno, none = some errno → P errno := nofun

theorem not_ended {P : Prop} : false = true → P := nofun

/-- A run of reads, whatever it meets, takes the bytes in their order. -/
theorem exists_consumes_receive (b : Buffer) (count : Nat) (arrivals : List Arrival) :
    ∃ taken, Consumes taken arrivals (receive b count arrivals).rest ∧
      (receive b count arrivals).buffer.unread = b.unread ++ taken ∧
      (receive b count arrivals).count = count + taken.length ∧
      (∀ errno, (receive b count arrivals).fault = some errno →
        .fault errno :: (receive b count arrivals).rest <:+ arrivals) ∧
      ((receive b count arrivals).sawEnd = true → .endOfFile ∈ arrivals) := by
  induction arrivals generalizing b count with
  | nil => exact ⟨[], consumes_nil _, (List.append_nil _).symm, rfl, not_failed, not_ended⟩
  | cons a rest ih =>
    unfold receive
    split
    · exact ⟨[], consumes_nil _, (List.append_nil _).symm, rfl, not_failed, not_ended⟩
    · cases a with
      | data block =>
        dsimp only
        split
        · rename_i hd
          have hle : block.length ≤ b.writable := List.drop_eq_nil_iff.1 hd
          obtain ⟨taken, ht, hu, hc, hf, he⟩ := ih (b.write block) (count + block.length)
          rw [Buffer.unread_write, List.take_of_length_le hle, List.append_assoc] at hu
          have hcons := ht.cons (.data block)
          rw [bytesOf, bytesOf, List.append_nil] at hcons
          refine ⟨block ++ taken, hcons, hu, ?_, fun errno h ↦ ?_, fun h ↦ ?_⟩
          · rw [hc, List.length_append, Nat.add_assoc]
          · exact (hf errno h).trans (List.suffix_cons _ _)
          · exact List.mem_cons_of_mem _ (he h)
        · rename_i hd
          have hlt : b.writable < block.length := by
            simpa using mt List.drop_eq_nil_iff.2 hd
          refine ⟨block.take b.writable, ⟨?_, fun a later ha hs ↦ ?_⟩, Buffer.unread_write b block,
            ?_, not_failed, not_ended⟩
          · rw [bytesOf, bytesOf, ← List.append_assoc, List.take_append_drop]
          · rcases List.suffix_cons_iff.1 hs with h | h
            · exact absurd (List.cons.inj h).1 (ha _)
            · exact h.trans (List.suffix_cons _ _)
          · rw [List.length_take, Nat.min_eq_left (Nat.le_of_lt hlt)]
      | endOfFile =>
        exact ⟨[], consumes_nil _, (List.append_nil _).symm, rfl, not_failed,
          fun _ ↦ List.mem_cons_self⟩
      | wouldBlock =>
        have hcut := (consumes_nil rest).cons .wouldBlock
        exact ⟨[], hcut, (List.append_nil _).symm, rfl, not_failed, not_ended⟩
      | interrupted =>
        obtain ⟨taken, ht, hu, hc, hf, he⟩ := ih b count
        exact ⟨taken, ht.cons .interrupted, hu, hc,
          fun errno h ↦ (hf errno h).trans (List.suffix_cons _ _),
          fun h ↦ List.mem_cons_of_mem _ (he h)⟩
      | fault errno =>
        have hcut := (consumes_nil rest).cons (.fault errno)
        refine ⟨[], hcut, (List.append_nil _).symm, rfl, ?_, not_ended⟩
        intro other h
        obtain rfl := Option.some.inj h
        exact List.suffix_refl _

theorem suffix_transmit (sent data : Bytes) (acceptances : List Acceptance) :
    (transmit sent data acceptances).rest <:+ acceptances ∧
      ∀ errno, (transmit sent data acceptances).fault = some errno →
        .fault errno :: (transmit sent data acceptances).rest <:+ acceptances := by
  induction acceptances generalizing sent data with
  | nil => exact ⟨List.suffix_refl _, not_failed⟩
  | cons a rest ih =>
    have hcons := List.suffix_cons a rest
    unfold transmit
    split
    · exact ⟨List.suffix_refl _, not_failed⟩
    · cases a with
      | room count =>
        cases count with
        | zero => exact ⟨hcons, not_failed⟩
        | succ count =>
          obtain ⟨hr, hf⟩ := ih (sent ++ data.take (count + 1)) (data.drop (count + 1))
          exact ⟨hr.trans hcons, fun errno h ↦ (hf errno h).trans hcons⟩
      | wouldBlock => exact ⟨hcons, not_failed⟩
      | interrupted =>
        obtain ⟨hr, hf⟩ := ih sent data
        exact ⟨hr.trans hcons, fun errno h ↦ (hf errno h).trans hcons⟩
      | fault errno =>
        refine ⟨hcons, fun other h ↦ ?_⟩
        obtain rfl := Option.some.inj h
        exact List.suffix_refl _

theorem suffix_take_of_suffix {α : Type} {a : α} {rest all : List α} (h : a :: rest <:+ all) :
    [a] <:+ all.take (all.length - rest.length) := by
  obtain ⟨before, rfl⟩ := h
  have hl : (before ++ a :: rest).length - rest.length = (before ++ [a]).length := by
    simp only [List.length_append, List.length_cons, List.length_nil]
    omega
  have happ : before ++ a :: rest = before ++ [a] ++ rest := List.append_cons before a rest
  rw [hl, happ, List.take_left]
  exact List.suffix_append _ _

namespace Socket

structure Reads (taken : Bytes) (s after : Socket) : Prop where
  arrivals : Consumes taken s.line.arrivals after.line.arrivals
  acceptances : after.line.acceptances = s.line.acceptances
  accepted : after.line.accepted = s.line.accepted
  isOpen : after.isOpen = true
  peerClosed : after.peerClosed = true → s.peerClosed = true ∨ .endOfFile ∈ s.line.arrivals

theorem Reads.trans {taken more : Bytes} {s mid after : Socket} (h : s.Reads taken mid)
    (h' : mid.Reads more after) : s.Reads (taken ++ more) after where
  arrivals := h.arrivals.trans h'.arrivals
  acceptances := h'.acceptances.trans h.acceptances
  accepted := h'.accepted.trans h.accepted
  isOpen := h'.isOpen
  peerClosed hp := by
    rcases h'.peerClosed hp with hm | he
    · exact h.peerClosed hm
    · obtain ⟨before, later, hs⟩ := List.append_of_mem he
      have ha := h.arrivals.ahead .endOfFile later (fun _ ↦ nofun) (hs ▸ List.suffix_append _ _)
      exact .inr (ha.mem List.mem_cons_self)

theorem Reads.withBuffer {taken : Bytes} {s after : Socket} (h : s.Reads taken after)
    (b : Buffer) : s.Reads taken { after with buffer := b } :=
  ⟨h.arrivals, h.acceptances, h.accepted, h.isOpen, h.peerClosed⟩

theorem exists_reads_read {s : Socket} (ho : s.isOpen = true) :
    ∃ taken after, s.Reads taken after ∧ after.buffer.unread = s.buffer.unread ++ taken ∧
      (s.read = (.ok taken.length, after) ∨
        ∃ errno, s.read = (.error (.socket .read (.system errno)), after) ∧
          .fault errno :: after.line.arrivals <:+ s.line.arrivals) := by
  obtain ⟨taken, ht, hu, hc, hf, he⟩ := exists_consumes_receive s.buffer 0 s.line.arrivals
  rw [Nat.zero_add] at hc
  let r := receive s.buffer 0 s.line.arrivals
  let after : Socket :=
    { s with line := { s.line with arrivals := r.rest }, buffer := r.buffer,
             peerClosed := s.peerClosed || r.sawEnd }
  have hp : after.peerClosed = true → s.peerClosed = true ∨ .endOfFile ∈ s.line.arrivals :=
    fun hp ↦ (Bool.or_eq_true_iff.1 hp).imp_right he
  refine ⟨taken, after, ⟨ht, rfl, rfl, ho, hp⟩, hu, ?_⟩
  rw [read, if_pos ho]
  dsimp only
  cases hfault : (receive s.buffer 0 s.line.arrivals).fault with
  | none => exact .inl (by rw [hc])
  | some errno => exact .inr ⟨errno, rfl, hf errno hfault⟩

end Socket

def Incoming.Reading.result {α : Type} (ofRaw : RawMessage → Except ReadFault α) :
    Incoming.Reading → Option (Except ReadFault α)
  | .blocked _ _ => none
  | .done raw _ => some (ofRaw raw)
  | .fault cause => some (.error cause)

namespace Socket

open Incoming

variable {α : Type} (ofRaw : RawMessage → Except ReadFault α)

/-- What draining finds in the bytes `taken` that it takes behind those that the buffer held. A
read that fails leaves what it has brought to nobody. -/
inductive Finds (state : Incoming) (held taken : Bytes) (arrivals : List Arrival) :
    Drained α × Incoming × Socket → Prop
  | dry {after : Incoming} {s : Socket} :
    reading state (held ++ taken) = .blocked after s.buffer.unread →
      Finds state held taken arrivals (.dry, after, s)
  | message {message : α} {s : Socket} :
    (reading state (held ++ taken)).result ofRaw = some (.ok message) →
      Finds state held taken arrivals (.message message, .fresh, s)
  | fault {cause : ReadFault} {s : Socket} :
    (reading state (held ++ taken)).result ofRaw = some (.error cause) →
      Finds state held taken arrivals (.fault cause, .fresh, s)
  | failed {parsed unparsed kept : Bytes} {after : Incoming} {s : Socket} {errno : Errno} :
    taken = parsed ++ unparsed → reading state (held ++ parsed) = .blocked after kept →
      s.buffer.unread = kept ++ unparsed → .fault errno :: s.line.arrivals <:+ arrivals →
        Finds state held taken arrivals (.failed (.socket .read (.system errno)), after, s)

theorem drain_of_read_error {state : Incoming} {s after : Socket} {fault : TransportFault}
    (h : s.read = (.error fault, after)) : drain ofRaw state s = (.failed fault, state, after) := by
  rw [drain]
  split
  · rename_i hr
    rw [h] at hr
    cases hr
    rfl
  · rename_i hr
    rw [h] at hr
    cases hr

theorem Finds.after_blocked {state after : Incoming} {held taken more kept : Bytes}
    {arrivals mid : List Arrival} {result : Drained α × Incoming × Socket}
    (hb : reading state (held ++ taken) = .blocked after kept)
    (ha : ∀ errno later, .fault errno :: later <:+ mid → .fault errno :: later <:+ arrivals)
    (h : Finds ofRaw after kept more mid result) :
    Finds ofRaw state held (taken ++ more) arrivals result := by
  have happ (v : Bytes) : reading state (held ++ (taken ++ v)) = reading after (kept ++ v) := by
    rw [← List.append_assoc]
    exact reading_append_of_blocked v hb
  cases h with
  | dry hr => exact .dry ((happ more).trans hr)
  | message hr => exact .message ((happ more).symm ▸ hr)
  | fault hr => exact .fault ((happ more).symm ▸ hr)
  | @failed parsed unparsed _ _ _ _ ht hr hu hf =>
    have hall : taken ++ more = taken ++ parsed ++ unparsed := by
      rw [ht, List.append_assoc]
    exact .failed hall ((happ parsed).trans hr) hu (ha _ _ hf)

theorem exists_finds_drain {state : Incoming} {s : Socket} (ho : s.isOpen = true)
    (hs : reading state s.buffer.unread = .blocked state s.buffer.unread) :
    ∃ taken, s.Reads taken (drain ofRaw state s).2.2 ∧
      Finds ofRaw state s.buffer.unread taken s.line.arrivals (drain ofRaw state s) := by
  -- a read that brings something leaves fewer bytes to be read
  induction hn : pendingBytes s.line.arrivals using Nat.strongRecOn generalizing state s with
  | ind n ih =>
    obtain ⟨taken, mid, ht, hu, hr | ⟨errno, hr, hf⟩⟩ := exists_reads_read ho
    · have hread := reading_run state mid.buffer
      rw [drain_of_read ofRaw hr, Incoming.read]
      rw [hu] at hread
      cases hrun : run state mid.buffer with
      | blocked after rest =>
        rw [hrun] at hread
        have hmid := ht.withBuffer rest.realign
        have hb : reading state (s.buffer.unread ++ taken) =
            .blocked after rest.realign.unread := by
          rw [Buffer.unread_realign]
          exact hread.symm
        dsimp only
        split
        · exact ⟨taken, hmid, .dry hb⟩
        · rename_i hc
          have hlt : pendingBytes mid.line.arrivals < n := by
            have hp := pendingBytes_read hr
            omega
          obtain ⟨more, hm, hfinds⟩ := ih _ hlt hmid.isOpen (reading_of_blocked hb) rfl
          refine ⟨taken ++ more, hmid.trans hm, hfinds.after_blocked ofRaw hb ?_⟩
          exact fun errno later ↦ ht.arrivals.ahead (.fault errno) later fun _ h ↦ by cases h
      | fault cause rest =>
        rw [hrun] at hread
        refine ⟨taken, ht.withBuffer rest, .fault ?_⟩
        rw [← hread]
        rfl
      | done raw rest =>
        rw [hrun] at hread
        have hres : (reading state (s.buffer.unread ++ taken)).result ofRaw = some (ofRaw raw) := by
          rw [← hread]
          rfl
        dsimp only
        cases hm : ofRaw raw with
        | error cause => exact ⟨taken, ht.withBuffer rest, .fault (hm ▸ hres)⟩
        | ok message => exact ⟨taken, ht.withBuffer rest, .message (hm ▸ hres)⟩
    · rw [drain_of_read_error ofRaw hr]
      have hnone : reading state (s.buffer.unread ++ []) = .blocked state s.buffer.unread := by
        rwa [List.append_nil]
      exact ⟨taken, ht, .failed rfl hnone hu hf⟩

/-- Draining behind what has come before finds the first message in all that has come. -/
theorem exists_finds_drain_behind {state : Incoming} {s : Socket} {got : Bytes}
    (ho : s.isOpen = true) (hs : reading .fresh got = .blocked state s.buffer.unread) :
    ∃ taken, s.Reads taken (drain ofRaw state s).2.2 ∧
      Finds ofRaw .fresh [] (got ++ taken) s.line.arrivals (drain ofRaw state s) := by
  obtain ⟨taken, ht, hfinds⟩ := exists_finds_drain ofRaw ho (reading_of_blocked hs)
  exact ⟨taken, ht, hfinds.after_blocked ofRaw hs fun _ _ h ↦ h⟩

end Socket

theorem Connection.exists_gave_flush {c : Connection} {o : Outgoing} (hc : c.phase = .writing o)
    (ho : c.socket.isOpen = true) :
    ∃ sent unsent left, o.unsent = sent ++ unsent ∧ left <:+ c.socket.line.acceptances ∧
      (c.flush = { c with socket := c.socket.gave sent left }.close ∧
          (unsent = [] ∨ ∃ errno, .fault errno :: left <:+ c.socket.line.acceptances) ∨
        c.flush = { c with socket := c.socket.gave sent left, phase := .writing ⟨unsent⟩ }) := by
  by_cases hd : o.unsent = []
  · refine ⟨[], [], c.socket.line.acceptances, hd, List.suffix_refl _, .inl ⟨?_, .inl rfl⟩⟩
    rw [flush, hc, Socket.gave, List.append_nil]
    dsimp only
    rw [Outgoing.flush, if_pos (by simpa [Outgoing.isDone] using hd)]
  · let t := transmit [] o.unsent c.socket.line.acceptances
    have happ : t.sent ++ t.unsent = o.unsent := sent_append_unsent [] o.unsent _
    obtain ⟨hr, hf⟩ := suffix_transmit [] o.unsent c.socket.line.acceptances
    refine ⟨t.sent, t.unsent, t.rest, happ.symm, hr, ?_⟩
    rw [flush, hc]
    dsimp only
    rw [Outgoing.flush, if_neg (by simpa [Outgoing.isDone] using hd), Socket.write, if_pos ho]
    dsimp only
    cases hfault : (transmit [] o.unsent c.socket.line.acceptances).fault with
    | some errno => exact .inl ⟨rfl, .inr ⟨errno, hf errno hfault⟩⟩
    | none =>
      dsimp only
      cases hu : (transmit [] o.unsent c.socket.line.acceptances).unsent with
      | nil => exact .inl ⟨rfl, .inl rfl⟩
      | cons byte unsent => exact .inr rfl

end LocalHttp
