import LocalHttp.Proofs.Lines

namespace LocalHttp

open Incoming

/-- A script of reads that brings these bytes and, behind them, the end. -/
structure Delivers (w : Bytes) (arrivals : List Arrival) : Prop where
  arrives : Arrives True w arrivals
  ends : .endOfFile ∈ arrivals

theorem Delivers.length_eq {w : Bytes} {arrivals : List Arrival} (h : Delivers w arrivals) :
    pendingBytes arrivals = w.length := by
  obtain ⟨ha, he⟩ := h
  induction arrivals generalizing w with
  | nil => cases he
  | cons a rest ih =>
    cases a with
    | data block =>
      obtain ⟨⟨later, rfl⟩, hr⟩ := ha
      rw [List.drop_left] at hr
      cases he with
      | tail _ he => rw [pendingBytes, ih hr he, List.length_append]
    | endOfFile =>
      have hp := pendingBytes_le_of_arrives ha
      obtain ⟨⟨-, rfl⟩, -⟩ := ha
      exact Nat.le_zero.1 hp
    | wouldBlock =>
      cases he with
      | tail _ he => exact ih ha he
    | interrupted =>
      cases he with
      | tail _ he => exact ih ha he
    | fault errno => exact ha.elim

theorem pauses_receive {arrivals : List Arrival} (he : .endOfFile ∈ arrivals) (b : Buffer)
    (count : Nat) : .endOfFile ∈ (receive b count arrivals).rest ∧
      (receive b count arrivals).rest.count .wouldBlock ≤ arrivals.count .wouldBlock := by
  induction arrivals generalizing b count with
  | nil => cases he
  | cons a rest ih =>
    have hle := List.count_le_count_cons (a := Arrival.wouldBlock) (b := a) (l := rest)
    unfold receive
    split
    · exact ⟨he, Nat.le_refl _⟩
    · cases a with
      | data block =>
        have he : .endOfFile ∈ rest := List.mem_of_ne_of_mem (fun h ↦ by cases h) he
        dsimp only
        split
        · exact (ih he _ _).imp_right fun h ↦ Nat.le_trans h hle
        · exact ⟨List.mem_cons_of_mem _ he, Nat.le_refl _⟩
      | endOfFile => exact ⟨he, Nat.le_refl _⟩
      | wouldBlock => exact ⟨List.mem_of_ne_of_mem (fun h ↦ by cases h) he, hle⟩
      | interrupted =>
        have he : .endOfFile ∈ rest := List.mem_of_ne_of_mem (fun h ↦ by cases h) he
        exact (ih he _ _).imp_right fun h ↦ Nat.le_trans h hle
      | fault errno => exact ⟨List.mem_of_ne_of_mem (fun h ↦ by cases h) he, hle⟩

theorem idle_receive {ended : Prop} {waiting : Bytes} {arrivals : List Arrival} {b : Buffer}
    {count : Nat} (ha : Arrives ended waiting arrivals) (he : .endOfFile ∈ arrivals)
    (hb : b.free ≠ []) (h : (receive b count arrivals).count = count) :
    (receive b count arrivals).sawEnd = true ∨
      (receive b count arrivals).rest.count .wouldBlock < arrivals.count .wouldBlock := by
  induction arrivals generalizing waiting with
  | nil => cases he
  | cons a rest ih =>
    unfold receive at h ⊢
    rw [if_neg (by simpa using hb)] at h ⊢
    cases a with
    | data block =>
      have hrest : .endOfFile ∈ rest := List.mem_of_ne_of_mem (fun h ↦ by cases h) he
      cases block with
      | nil =>
        have hw : b.write [] = b := by
          simp [Buffer.write]
        simp only [List.drop_nil, List.length_nil, Nat.add_zero, hw] at h ⊢
        exact ih ha.2 hrest h
      | cons byte block =>
        have hlt : count < (receive b count (.data (byte :: block) :: rest)).count :=
          lt_count_receive count hb rfl
        unfold receive at hlt
        rw [if_neg (by simpa using hb)] at hlt
        omega
    | endOfFile => exact .inl rfl
    | wouldBlock => exact .inr (by simp)
    | interrupted =>
      rw [List.count_cons_of_ne (by simp)]
      exact ih ha (List.mem_of_ne_of_mem (fun h ↦ by cases h) he) h
    | fault errno => exact ha.elim

namespace Socket

variable {α : Type} (ofRaw : RawMessage → Except ReadFault α)

theorem read_eq_ok {s after : Socket} {count : Nat} (h : s.read = (.ok count, after)) :
    count = (receive s.buffer 0 s.line.arrivals).count ∧
      after.line.arrivals = (receive s.buffer 0 s.line.arrivals).rest ∧
      after.peerClosed = (s.peerClosed || (receive s.buffer 0 s.line.arrivals).sawEnd) := by
  unfold read at h
  split at h
  · dsimp only at h
    split at h
    · obtain ⟨hc, rfl⟩ := Prod.mk.inj h
      exact ⟨(Except.ok.inj hc).symm, rfl, rfl⟩
    · cases (Prod.mk.inj h).1
  · cases (Prod.mk.inj h).1

structure Idles (s : Socket) (result : Drained α × Incoming × Socket) : Prop where
  ends : .endOfFile ∈ result.2.2.line.arrivals
  pauses : result.2.2.line.arrivals.count .wouldBlock ≤ s.line.arrivals.count .wouldBlock
  dry : result.1 = .dry → result.2.2.peerClosed = true ∨
    result.2.2.line.arrivals.count .wouldBlock < s.line.arrivals.count .wouldBlock

theorem idles_drain {ended : Prop} {waiting : Bytes} {state : Incoming} {s : Socket}
    (hs : s.Awaits state) (ha : Arrives ended waiting s.line.arrivals)
    (he : .endOfFile ∈ s.line.arrivals) : s.Idles (drain ofRaw state s) := by
  -- a read that brings something leaves fewer bytes to be read
  induction hn : pendingBytes s.line.arrivals using Nat.strongRecOn
    generalizing waiting state s with
  | ind n ih =>
    obtain ⟨taken, later, mid, hw, hr, ht, hu, -, -⟩ := exists_takes_read hs.isOpen ha
    have hcap := capacity_run state mid.buffer
    have hmid : .endOfFile ∈ mid.line.arrivals ∧
        mid.line.arrivals.count .wouldBlock ≤ s.line.arrivals.count .wouldBlock ∧
        (taken = [] → mid.peerClosed = true ∨
          mid.line.arrivals.count .wouldBlock < s.line.arrivals.count .wouldBlock) := by
      obtain ⟨hcount, hrest, hclosed⟩ := read_eq_ok hr
      obtain ⟨hends, hpauses⟩ := pauses_receive he s.buffer 0
      rw [← hrest] at hends hpauses
      refine ⟨hends, hpauses, fun ht ↦ ?_⟩
      have hidle := idle_receive ha he hs.free_ne_nil (by rw [← hcount, ht, List.length_nil])
      rw [← hrest] at hidle
      exact hidle.imp_left fun hsaw ↦ by rw [hclosed, hsaw, Bool.or_true]
    rw [drain_of_read ofRaw hr, Incoming.read]
    cases hrun : run state mid.buffer with
    | blocked after rest =>
      rw [hrun] at hcap
      obtain ⟨hroom, hcapacity⟩ := Feed.roomy_of_run_blocked hs.roomy.sound hrun
      dsimp only
      split
      · rename_i hc
        exact ⟨hmid.1, hmid.2.1, fun _ ↦ hmid.2.2 (List.length_eq_zero_iff.1 hc)⟩
      · rename_i hc
        have hawaits : ({ mid with buffer := rest.realign } : Socket).Awaits after :=
          ⟨ht.isOpen, hroom, by rw [hcapacity, ht.capacity]; exact hs.capacity⟩
        have hp := ht.pending
        have hlt : pendingBytes mid.line.arrivals < n := by omega
        obtain ⟨hends, hpauses, hdry⟩ := ih _ hlt hawaits ht.arrives hmid.1 rfl
        refine ⟨hends, Nat.le_trans hpauses hmid.2.1, fun hd ↦ ?_⟩
        exact (hdry hd).imp_right fun h ↦ Nat.lt_of_lt_of_le h hmid.2.1
    | fault cause rest => exact ⟨hmid.1, hmid.2.1, fun h ↦ by cases h⟩
    | done raw rest =>
      dsimp only
      cases ofRaw raw with
      | error cause => exact ⟨hmid.1, hmid.2.1, fun h ↦ by cases h⟩
      | ok message => exact ⟨hmid.1, hmid.2.1, fun h ↦ by cases h⟩

end Socket

theorem outcome_read {α : Type} (ofRaw : RawMessage → Except ReadFault α) (s : Incoming)
    (w : Bytes) : (Incoming.read ofRaw s (.ofBytes w)).1 =
      match (reading s w).result ofRaw with
      | none => .incomplete
      | some (.ok message) => .message message
      | some (.error cause) => .fault cause := by
  rw [reading, Incoming.read]
  cases run s (.ofBytes w) with
  | blocked after rest => rfl
  | fault cause rest => rfl
  | done raw rest =>
    dsimp only [Run.reading, Reading.result]
    cases ofRaw raw <;> rfl

theorem result_of_message {α : Type} {ofRaw : RawMessage → Except ReadFault α} {s : Incoming}
    {w : Bytes} {message : α} (h : (Incoming.read ofRaw s (.ofBytes w)).1 = .message message) :
    (reading s w).result ofRaw = some (.ok message) := by
  rw [outcome_read] at h
  cases hr : (reading s w).result ofRaw with
  | none => rw [hr] at h; cases h
  | some found =>
    rw [hr] at h
    cases found with
    | error cause => cases h
    | ok other => rw [Outcome.message.inj h]

theorem result_append {α : Type} {ofRaw : RawMessage → Except ReadFault α} {s : Incoming}
    {w : Bytes} {found : Except ReadFault α} (v : Bytes)
    (h : (reading s w).result ofRaw = some found) :
    (reading s (w ++ v)).result ofRaw = some found := by
  cases hr : reading s w with
  | blocked after rest =>
    rw [hr] at h
    cases h
  | done raw rest =>
    rw [hr] at h
    rw [reading_append_of_done v hr]
    exact h
  | fault cause =>
    rw [hr] at h
    rw [reading_append_of_fault v hr]
    exact h

namespace Call

/-- What a client answers to these bytes with the end behind them, read in one piece. -/
def answer (w : Bytes) : Except ClientFault Response :=
  match (readResponse .fresh (.ofBytes w)).1 with
  | .message response => .ok response
  | .fault cause => .error (.malformed cause)
  | .incomplete => .error .peerClosed

/-- Bytes that hold a complete response or what cannot become one. -/
def Decides (w : Bytes) : Prop := (readResponse .fresh (.ofBytes w)).1 ≠ .incomplete

theorem answer_eq (w : Bytes) : answer w =
    match (reading .fresh w).result Response.ofRaw with
    | none => .error .peerClosed
    | some (.ok response) => .ok response
    | some (.error cause) => .error (.malformed cause) := by
  rw [answer, readResponse, outcome_read]
  cases (reading .fresh w).result Response.ofRaw with
  | none => rfl
  | some found => cases found <;> rfl

theorem decides_iff (w : Bytes) :
    Decides w ↔ (reading .fresh w).result Response.ofRaw ≠ none := by
  rw [Decides, readResponse, outcome_read]
  cases (reading .fresh w).result Response.ofRaw with
  | none => exact ⟨fun h ↦ absurd rfl h, fun h ↦ absurd rfl h⟩
  | some found => cases found <;> exact ⟨fun _ ↦ nofun, fun _ ↦ nofun⟩

/-- A call that waits, when `taken` has been read and `later` is still to come. -/
structure Waits (taken later : Bytes) (s : Socket) (state : Incoming) : Prop where
  heard : s.Heard taken state
  delivers : Delivers later s.line.arrivals

structure Ends (taken later : Bytes) (c : Call) : Prop where
  result : c.result? = some (answer (taken ++ later))
  delivers : Delivers later c.socket.line.arrivals
  decided : Decides taken ∨ later = []

theorem ends_of_ok {taken later : Bytes} {socket : Socket} {response : Response}
    (h : (reading .fresh taken).result Response.ofRaw = some (.ok response))
    (hd : Delivers later socket.line.arrivals) :
    Ends taken later (.done socket (.ok response)) where
  result := by rw [answer_eq, result_append later h, result?]
  delivers := hd
  decided := .inl ((decides_iff taken).2 (by rw [h]; nofun))

theorem ends_of_error {taken later : Bytes} {socket : Socket} {cause : ReadFault}
    (h : (reading .fresh taken).result Response.ofRaw = some (.error cause))
    (hd : Delivers later socket.line.arrivals) :
    Ends taken later (.done socket (.error (.malformed cause))) where
  result := by rw [answer_eq, result_append later h, result?]
  delivers := hd
  decided := .inl ((decides_iff taken).2 (by rw [h]; nofun))

theorem ends_of_incomplete {taken : Bytes} {socket : Socket}
    (h : (reading .fresh taken).result Response.ofRaw = none)
    (hd : Delivers [] socket.line.arrivals) :
    Ends taken [] (.done socket (.error .peerClosed)) where
  result := by rw [answer_eq, List.append_nil, h, result?]
  delivers := hd
  decided := .inr rfl

theorem Waits.wake {taken later : Bytes} {s : Socket} {state : Incoming} {r : Readiness}
    (h : Waits taken later s state)
    (hr : r.hungUp = true ∨ r.error = true → .wouldBlock ∉ s.line.arrivals) :
    ∃ more rest, later = more ++ rest ∧
      (Ends (taken ++ more) rest ((Call.receiving s state).wake r) ∨
        ∃ socket after, (Call.receiving s state).wake r = .receiving socket after ∧
          Waits (taken ++ more) rest socket after ∧
          socket.line.arrivals.count .wouldBlock < s.line.arrivals.count .wouldBlock) := by
  obtain ⟨more, rest, hl, ht, -, htell⟩ :=
    Socket.exists_takes_drain Response.ofRaw h.heard.toAwaits h.delivers.arrives
  obtain ⟨hends, -, hdry⟩ :=
    Socket.idles_drain Response.ofRaw h.heard.toAwaits h.delivers.arrives h.delivers.ends
  have happ := reading_append_of_blocked more h.heard.reads
  have hdelivers : Delivers rest (s.drain Response.ofRaw state).2.2.line.arrivals :=
    ⟨ht.arrives, hends⟩
  refine ⟨more, rest, hl, ?_⟩
  rw [Call.wake, receive]
  generalize s.drain Response.ofRaw state = result at htell ht hdry hdelivers
  rw [← happ] at htell
  generalize hread : reading .fresh (taken ++ more) = reads at htell
  cases htell with
  | @dry after left socket hawaits hu hz =>
    have hnone : (reading .fresh (taken ++ more)).result Response.ofRaw = none := by
      rw [hread]
      rfl
    -- the end is only met behind the last byte, and a hang-up lets nothing else stop these reads
    have hlast : (socket.peerClosed || r.hungUp || r.error) = true → rest = [] := by
      intro hover
      rw [Bool.or_assoc, Bool.or_eq_true_iff] at hover
      rcases hover with hclosed | hover
      · rcases ht.peerClosed hclosed with hp | ⟨-, hrest⟩
        · rw [h.heard.peerOpen] at hp
          cases hp
        · exact hrest
      · refine List.length_eq_zero_iff.1 ?_
        rw [← hdelivers.length_eq]
        exact hz (hr (Bool.or_eq_true_iff.1 hover))
    dsimp only
    cases hover : socket.peerClosed || r.hungUp || r.error with
    | true =>
      obtain rfl := hlast hover
      exact .inl (ends_of_incomplete hnone hdelivers)
    | false =>
      obtain ⟨⟨hclosed, -⟩, -⟩ :
          (socket.peerClosed = false ∧ r.hungUp = false) ∧ r.error = false := by
        simpa using hover
      refine .inr ⟨socket, after, rfl, ⟨⟨hawaits, hclosed, ?_⟩, hdelivers⟩, ?_⟩
      · rw [hread, hu]
      · refine (hdry rfl).resolve_left fun hp ↦ ?_
        rw [hclosed] at hp
        cases hp
  | @message other found left socket ho hu =>
    refine .inl (ends_of_ok ?_ hdelivers)
    rw [hread]
    exact congrArg some ho
  | @refused other cause left socket ho hu =>
    refine .inl (ends_of_error ?_ hdelivers)
    rw [hread]
    exact congrArg some ho
  | fault =>
    refine .inl (ends_of_error ?_ hdelivers)
    rw [hread]
    rfl

/-- What is reported at each wait for a response. A hang-up is only reported when all that is left
can be read without a pause. -/
def Polls (c : Call) : List Readiness → Prop
  | [] => True
  | r :: rest =>
    (c.result? = none → r.hungUp = true ∨ r.error = true →
      .wouldBlock ∉ c.socket.line.arrivals) ∧ (c.wake r).Polls rest

theorem foldl_wake_done {c : Call} {result : Except ClientFault Response}
    (h : c.result? = some result) (waits : List Readiness) : waits.foldl wake c = c := by
  cases c with
  | done socket found =>
    induction waits with
    | nil => rfl
    | cons r rest ih => exact ih
  | sending socket outgoing => cases h
  | receiving socket state => cases h

theorem Waits.foldl_wake {taken later : Bytes} {s : Socket} {state : Incoming}
    (h : Waits taken later s state) {waits : List Readiness}
    (hp : (Call.receiving s state).Polls waits) :
    ∃ more rest, later = more ++ rest ∧
      (Ends (taken ++ more) rest (waits.foldl Call.wake (.receiving s state)) ∨
        ∃ socket after, waits.foldl Call.wake (.receiving s state) = .receiving socket after ∧
          Waits (taken ++ more) rest socket after ∧
          socket.line.arrivals.count .wouldBlock + waits.length ≤
            s.line.arrivals.count .wouldBlock) := by
  induction waits generalizing taken later s state with
  | nil =>
    refine ⟨[], later, rfl, .inr ⟨s, state, rfl, ?_, Nat.le_refl _⟩⟩
    rw [List.append_nil]
    exact h
  | cons r waits ih =>
    obtain ⟨more, rest, rfl, hends | ⟨socket, after, hwake, hwaits, hlt⟩⟩ := h.wake (hp.1 rfl)
    · refine ⟨more, rest, rfl, .inl ?_⟩
      rw [List.foldl_cons, foldl_wake_done hends.result]
      exact hends
    · have hpolls := hp.2
      rw [hwake] at hpolls
      obtain ⟨again, last, rfl, hcases⟩ := ih hwaits hpolls
      rw [List.foldl_cons, hwake]
      refine ⟨more ++ again, last, (List.append_assoc _ _ _).symm, ?_⟩
      rw [← List.append_assoc taken]
      refine hcases.imp_right fun ⟨socket', after', hfold, hw, hle⟩ ↦
        ⟨socket', after', hfold, hw, ?_⟩
      rw [List.length_cons]
      omega

/-- The states in which a call can be from its start until its request has been written. -/
inductive Sends (line : Line) (request : Request) : Call → Prop
  | start : Sends line request (start { line := line } request)
  | wake {socket : Socket} {outgoing : Outgoing} (h : Sends line request (.sending socket outgoing))
    (r : Readiness) : Sends line request ((Call.sending socket outgoing).wake r)

structure Unread (line : Line) (s : Socket) : Prop where
  eq : s = { line := s.line }
  arrivals : s.line.arrivals = line.arrivals

theorem Unread.write {line : Line} {s : Socket} (h : Unread line s) (data : Bytes) :
    Unread line (s.write data).2 := by
  rw [h.eq, Socket.write, if_pos rfl]
  dsimp only
  cases (transmit [] data s.line.acceptances).fault <;> exact ⟨rfl, h.arrivals⟩

theorem Unread.flush {line : Line} {s : Socket} (h : Unread line s) (outgoing : Outgoing) :
    Unread line (outgoing.flush s).2.2 := by
  have hw := h.write outgoing.unsent
  unfold Outgoing.flush
  split
  · exact h
  · split <;> rename_i he <;> rw [he] at hw <;> exact hw

def Silent (line : Line) : Call → Prop
  | .sending socket _ => Unread line socket
  | .receiving socket state => Unread line socket ∧ state = .fresh
  | .done _ _ => True

theorem Unread.send {line : Line} {s : Socket} (h : Unread line s) (outgoing : Outgoing) :
    Silent line (send s outgoing) := by
  have hf := h.flush outgoing
  unfold Call.send
  split <;> rename_i he <;> rw [he] at hf
  · trivial
  · exact ⟨hf, rfl⟩
  · exact hf

theorem Sends.silent {line : Line} {request : Request} {c : Call} (h : Sends line request c) :
    Silent line c := by
  induction h with
  | start => exact Unread.send ⟨rfl, rfl⟩ _
  | @wake socket outgoing _ r ih =>
    rw [Call.wake]
    split
    · trivial
    · exact Unread.send ih outgoing

theorem Sends.waits {line : Line} {request : Request} {w : Bytes} {s : Socket} {state : Incoming}
    (h : Sends line request (.receiving s state)) (hd : Delivers w line.arrivals) :
    Waits [] w s state := by
  obtain ⟨⟨heq, harrivals⟩, rfl⟩ := h.silent
  refine ⟨?_, harrivals ▸ hd⟩
  rw [heq]
  exact Socket.heard_fresh s.line

/-- The answer of a client whose request has been written, whatever its reads and its waits meet on
the way: it is what the bytes of the peer say in one piece. The call ends only when the bytes that
it has read decide this, or are all there are; while it waits they do not, and it has not seen their
end; and every wait without an answer has used up one of the pauses. -/
theorem answer_depends_on_bytes {line : Line} {request : Request} {w : Bytes} {s : Socket}
    {state : Incoming} (hs : Sends line request (.receiving s state))
    (hd : Delivers w line.arrivals) {waits : List Readiness}
    (hp : (Call.receiving s state).Polls waits) :
    ∃ taken later, w = taken ++ later ∧
      Delivers later (waits.foldl wake (.receiving s state)).socket.line.arrivals ∧
      (∀ result, (waits.foldl wake (.receiving s state)).result? = some result →
        result = answer w ∧ (Decides taken ∨ later = [])) ∧
      ((waits.foldl wake (.receiving s state)).result? = none →
        ¬Decides taken ∧ (waits.foldl wake (.receiving s state)).socket.peerClosed = false ∧
          waits.length ≤ line.arrivals.count .wouldBlock) ∧
      (line.arrivals.count .wouldBlock < waits.length →
        (waits.foldl wake (.receiving s state)).result? = some (answer w)) := by
  have hunread := hs.silent.1.arrivals
  obtain ⟨taken, later, rfl, hcases⟩ := (hs.waits hd).foldl_wake hp
  refine ⟨taken, later, rfl, ?_⟩
  rcases hcases with hends | ⟨socket, after, hwake, hwaits, hle⟩
  · refine ⟨hends.delivers, fun result h ↦ ?_, fun h ↦ ?_, fun _ ↦ hends.result⟩
    · rw [hends.result] at h
      exact ⟨(Option.some.inj h).symm, hends.decided⟩
    · rw [hends.result] at h
      cases h
  · rw [hwake]
    rw [hunread] at hle
    have hblocked : reading .fresh taken = .blocked after socket.buffer.unread :=
      hwaits.heard.reads
    have hnone : (reading .fresh taken).result Response.ofRaw = none := by
      rw [hblocked]
      rfl
    refine ⟨hwaits.delivers, nofun, fun _ ↦ ⟨?_, hwaits.heard.peerOpen, by omega⟩,
      fun h ↦ by omega⟩
    rw [decides_iff]
    exact fun h ↦ h hnone

def glance : Request where
  method := "GET"
  resource := "/"
  args := .empty
  headers := .empty
  body := []
  contentType := ""

def haltingLine : Line where
  arrivals := [.wouldBlock, .data (Bytes.ofText "HTTP/1.1 200 O"), .interrupted, .wouldBlock,
    .data (Bytes.ofText "K\r\n\r\nHTTP"), .endOfFile]
  acceptances := [.interrupted, .room 100]

theorem answer_depends_on_bytes_halting :
    ∃ s, Sends haltingLine glance (.receiving s .fresh) ∧
      Delivers (Bytes.ofText "HTTP/1.1 200 OK\r\n\r\nHTTP") haltingLine.arrivals ∧
      (Call.receiving s .fresh).Polls (List.replicate 3 { readable := true }) ∧
      ((List.replicate 3 { readable := true }).foldl wake (.receiving s .fresh)).result? =
        some (answer (Bytes.ofText "HTTP/1.1 200 OK\r\n\r\nHTTP")) := by
  have hstart : start { line := haltingLine } glance =
      .receiving (start { line := haltingLine } glance).socket .fresh := by
    rfl
  have hsends : Sends haltingLine glance (start { line := haltingLine } glance) := Sends.start
  rw [hstart] at hsends
  have hd : Delivers (Bytes.ofText "HTTP/1.1 200 OK\r\n\r\nHTTP") haltingLine.arrivals :=
    ⟨⟨by decide +kernel, by decide +kernel, ⟨trivial, by decide +kernel⟩, trivial⟩,
      by simp [haltingLine]⟩
  have hcalm (c : Call) : c.Polls (List.replicate 3 { readable := true }) :=
    ⟨fun _ h ↦ by simp at h, fun _ h ↦ by simp at h, fun _ h ↦ by simp at h, trivial⟩
  obtain ⟨-, -, -, -, -, -, hanswer⟩ := answer_depends_on_bytes hsends hd (hcalm _)
  exact ⟨_, hsends, hd, hcalm _, hanswer (by decide +kernel)⟩

end Call

end LocalHttp
