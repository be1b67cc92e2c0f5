import LocalHttp.Proofs.Answers
import LocalHttp.Proofs.Stops

namespace LocalHttp

open Incoming

def Quiet : List Arrival → Prop
  | .data _ :: rest | .interrupted :: rest => Quiet rest
  | .fault _ :: _ => False
  | _ => True

/-- Between bytes and a failure behind them there is always a pause. -/
def Apart : List Arrival → Prop
  | [] => True
  | .data _ :: rest => Quiet rest ∧ Apart rest
  | _ :: rest => Apart rest

theorem noFault_of_quiet {arrivals : List Arrival} (h : Quiet arrivals) (b : Buffer)
    (count : Nat) : (receive b count arrivals).fault = none := by
  induction arrivals generalizing b count with
  | nil => rfl
  | cons a rest ih =>
    unfold receive
    split
    · rfl
    · cases a with
      | data block =>
        dsimp only
        split
        · exact ih h _ _
        · rfl
      | interrupted => exact ih h b count
      | fault errno => exact h.elim
      | _ => rfl

theorem Apart.receive {arrivals : List Arrival} (h : Apart arrivals) (b : Buffer) (count : Nat) :
    Apart (receive b count arrivals).rest ∧
      ∀ errno, (receive b count arrivals).fault = some errno →
        (receive b count arrivals).count = count := by
  induction arrivals generalizing b count with
  | nil => exact ⟨trivial, not_failed⟩
  | cons a rest ih =>
    unfold LocalHttp.receive
    split
    · exact ⟨h, not_failed⟩
    · cases a with
      | data block =>
        dsimp only
        split
        · refine ⟨(ih h.2 _ _).1, fun errno hf ↦ ?_⟩
          rw [noFault_of_quiet h.1] at hf
          cases hf
        · exact ⟨h, not_failed⟩
      | endOfFile => exact ⟨h, not_failed⟩
      | wouldBlock => exact ⟨h, not_failed⟩
      | interrupted => exact ih h b count
      | fault errno => exact ⟨h, fun _ _ ↦ rfl⟩

namespace Socket

theorem apart_read {s after : Socket} {result : Except TransportFault Nat}
    (h : Apart s.line.arrivals) (hr : s.read = (result, after)) :
    Apart after.line.arrivals ∧ ∀ fault, result = .error fault →
      pendingBytes after.line.arrivals = pendingBytes s.line.arrivals := by
  have hpending := pendingBytes_receive s.buffer 0 s.line.arrivals
  obtain ⟨hrest, hcount⟩ := h.receive s.buffer 0
  unfold Socket.read at hr
  split at hr
  · dsimp only at hr
    split at hr <;> rename_i hf <;> cases hr
    · exact ⟨hrest, nofun⟩
    · rw [hcount _ hf] at hpending
      exact ⟨hrest, fun _ _ ↦ hpending⟩
  · cases hr
    exact ⟨h, fun _ _ ↦ rfl⟩

variable {α : Type} (ofRaw : RawMessage → Except ReadFault α)

theorem exists_drain_apart {state : Incoming} {s : Socket} (ho : s.isOpen = true)
    (hs : reading state s.buffer.unread = .blocked state s.buffer.unread)
    (ha : Apart s.line.arrivals) :
    ∃ taken, s.Reads taken (drain ofRaw state s).2.2 ∧
      Apart (drain ofRaw state s).2.2.line.arrivals ∧
      ∀ fault, (drain ofRaw state s).1 = .failed fault →
        (reading state (s.buffer.unread ++ taken)).result ofRaw = none := by
  -- a read that brings something leaves fewer bytes to be read
  induction hn : pendingBytes s.line.arrivals using Nat.strongRecOn generalizing state s with
  | ind n ih =>
    obtain ⟨taken, mid, ht, hu, hr | ⟨errno, hr, -⟩⟩ := exists_reads_read ho
    · have hmid := (apart_read ha hr).1
      have hread := reading_run state mid.buffer
      rw [drain_of_read ofRaw hr, Incoming.read]
      rw [hu] at hread
      cases hrun : run state mid.buffer with
      | blocked after rest =>
        rw [hrun] at hread
        have hb : reading state (s.buffer.unread ++ taken) =
            .blocked after rest.realign.unread := by
          rw [Buffer.unread_realign]
          exact hread.symm
        dsimp only
        split
        · exact ⟨taken, ht.withBuffer rest.realign, hmid, fun _ hf ↦ by cases hf⟩
        · rename_i hc
          have hlt : pendingBytes mid.line.arrivals < n := by
            have hp := pendingBytes_read hr
            omega
          have hnext := ht.withBuffer rest.realign
          obtain ⟨more, hm, hlast, hfailed⟩ :=
            ih _ hlt hnext.isOpen (reading_of_blocked hb) hmid rfl
          refine ⟨taken ++ more, hnext.trans hm, hlast, fun fault hf ↦ ?_⟩
          rw [← List.append_assoc, reading_append_of_blocked more hb]
          exact hfailed fault hf
      | fault cause rest => exact ⟨taken, ht.withBuffer rest, hmid, fun _ hf ↦ by cases hf⟩
      | done raw rest =>
        dsimp only
        cases ofRaw raw with
        | error cause => exact ⟨taken, ht.withBuffer rest, hmid, fun _ hf ↦ by cases hf⟩
        | ok message => exact ⟨taken, ht.withBuffer rest, hmid, fun _ hf ↦ by cases hf⟩
    · obtain ⟨hmid, hsame⟩ := apart_read ha hr
      have hnil : taken = [] := by
        have hbytes := congrArg List.length ht.arrivals.bytes
        rw [List.length_append, length_bytesOf, length_bytesOf, hsame _ rfl] at hbytes
        exact List.length_eq_zero_iff.1 (by omega)
      rw [drain_of_read_error ofRaw hr]
      refine ⟨taken, ht, hmid, fun _ _ ↦ ?_⟩
      rw [hnil, List.append_nil, hs]
      rfl

theorem Heard.drain_apart {got more : Bytes} {state : Incoming} {s : Socket}
    (h : s.Heard got state) (ha : Apart s.line.arrivals)
    (ht : s.Reads more (s.drain ofRaw state).2.2) :
    Apart (s.drain ofRaw state).2.2.line.arrivals ∧
      ∀ fault, (s.drain ofRaw state).1 = .failed fault →
        (reading .fresh (got ++ more)).result ofRaw = none := by
  obtain ⟨other, ho, hrest, hfailed⟩ :=
    exists_drain_apart ofRaw h.isOpen (reading_of_blocked h.reads) ha
  obtain rfl : other = more := ho.arrivals.take_bytesOf.symm.trans ht.arrivals.take_bytesOf
  refine ⟨hrest, fun fault hf ↦ ?_⟩
  rw [reading_append_of_blocked other h.reads]
  exact hfailed fault hf

end Socket

namespace Call

/-- The bytes that a call has read of a line. -/
def got (line : Line) (c : Call) : Bytes :=
  (bytesOf line.arrivals).take (pendingBytes line.arrivals - pendingBytes c.socket.line.arrivals)

/-- A read failed behind bytes that it had brought itself. What had come before them does not make
a response, and they are left unread. -/
structure Loses (line : Line) (c : Call) (parsed unparsed : Bytes) (errno : Errno) : Prop where
  result : c.result? = some (.error (.transport (.socket .read (.system errno))))
  failed : .fault errno :: c.socket.line.arrivals <:+ line.arrivals
  got : c.got line = parsed ++ unparsed
  incomplete : ¬Decides parsed
  unread : unparsed <:+ c.socket.buffer.unread

inductive Stands (line : Line) (waits : List Readiness) (got : Bytes) : Call → Prop
  | receiving {s : Socket} {state : Incoming} : s.Heard got state →
    delivered line.arrivals = got ++ delivered s.line.arrivals →
    s.line.arrivals = [] ∨
      s.line.arrivals.count .wouldBlock + waits.length ≤ line.arrivals.count .wouldBlock →
    Stands line waits got (.receiving s state)
  | answered {s : Socket} {response : Response} :
    (reading .fresh got).result Response.ofRaw = some (.ok response) →
    got <+: delivered line.arrivals → Stands line waits got (.done s (.ok response))
  | malformed {s : Socket} {cause : ReadFault} :
    (reading .fresh got).result Response.ofRaw = some (.error cause) →
    got <+: delivered line.arrivals → Stands line waits got (.done s (.error (.malformed cause)))
  | failed {s : Socket} {parsed unparsed : Bytes} {errno : Errno} : got = parsed ++ unparsed →
    (reading .fresh parsed).result Response.ofRaw = none → unparsed <:+ s.buffer.unread →
    .fault errno :: s.line.arrivals <:+ line.arrivals → delivered line.arrivals = got →
    (Apart line.arrivals → (reading .fresh got).result Response.ofRaw = none) →
    Stands line waits got (.done s (.error (.transport (.socket .read (.system errno)))))
  | closed {s : Socket} : (reading .fresh got).result Response.ofRaw = none →
    (∃ r ∈ waits, r.hungUp = true ∨ r.error = true) ∨ delivered line.arrivals = got →
    Stands line waits got (.done s (.error .peerClosed))

structure Follows (line : Line) (waits : List Readiness) (got : Bytes) (c : Call) : Prop where
  consumes : Consumes got line.arrivals c.socket.line.arrivals
  apart : Apart line.arrivals → Apart c.socket.line.arrivals
  stands : Stands line waits got c

theorem Stands.mono {line : Line} {waits : List Readiness} {got : Bytes} {c : Call} (r : Readiness)
    (h : Stands line waits got c) (hc : c.result? ≠ none) : Stands line (waits ++ [r]) got c := by
  cases h with
  | receiving => exact absurd rfl hc
  | answered hr hp => exact .answered hr hp
  | malformed hr hp => exact .malformed hr hp
  | failed hg hr hu hf hd ha => exact .failed hg hr hu hf hd ha
  | closed hr hd =>
    refine .closed hr (hd.imp_left fun ⟨other, hm, ho⟩ ↦ ⟨other, ?_, ho⟩)
    exact List.mem_append_left _ hm

theorem Follows.receive {line : Line} {waits : List Readiness} {got : Bytes} {s : Socket}
    {state : Incoming} (h : Follows line waits got (.receiving s state)) (r : Readiness) :
    ∃ more, Follows line (waits ++ [r]) (got ++ more) (receive s state r) := by
  obtain ⟨hconsumes, hapart, hstands⟩ := h
  cases hstands with
  | receiving hheard hd hcount =>
    obtain ⟨more, ht, hfinds, hrests, hknows⟩ :=
      Socket.exists_drain_behind Response.ofRaw hheard.toAwaits hheard.reads
    have hknows := hknows fun hc ↦ by rw [hheard.peerOpen] at hc; cases hc
    have hlast (ha : Apart line.arrivals) := hheard.drain_apart Response.ofRaw (hapart ha) ht
    have hread := hconsumes.trans ht.arrivals
    refine ⟨more, ?_⟩
    unfold Call.receive
    generalize s.drain Response.ofRaw state = result at ht hfinds hrests hknows hlast hread
    cases hfinds with
    | @dry after socket hb =>
      rw [List.nil_append] at hb
      have hnone : (reading .fresh (got ++ more)).result Response.ofRaw = none := by
        rw [hb]
        rfl
      obtain ⟨hawaits, hmore, hpause⟩ := hrests.of_dry hheard.free_ne_nil
      rw [hmore, ← List.append_assoc] at hd
      dsimp only
      -- nothing is complete yet: the call gives up, or this wait has used up a pause
      cases hover : socket.peerClosed || r.hungUp || r.error with
      | true =>
        rw [Bool.or_assoc, Bool.or_eq_true_iff] at hover
        refine ⟨hread, fun ha ↦ (hlast ha).1, .closed hnone ?_⟩
        rcases hover with hc | hh
        · rw [(hknows hc).delivered_eq, List.append_nil] at hd
          exact .inr hd
        · exact .inl ⟨r, by simp, Bool.or_eq_true_iff.1 hh⟩
      | false =>
        obtain ⟨⟨hopen, -⟩, -⟩ :
            (socket.peerClosed = false ∧ r.hungUp = false) ∧ r.error = false := by
          simpa using hover
        refine ⟨hread, fun ha ↦ (hlast ha).1, .receiving ⟨hawaits, hopen, hb⟩ hd ?_⟩
        have hp := hpause.resolve_left fun hc ↦ by rw [hopen] at hc; cases hc
        refine hp.imp_right fun hs ↦ ?_
        have hle := hs.sublist.count_le Arrival.wouldBlock
        rw [List.count_cons_self] at hle
        rw [List.length_append, List.length_singleton]
        rcases hcount with hnil | hcount
        · rw [hnil] at hle
          cases hle
        · omega
    | message hr =>
      cases hrests with
      | message hm =>
        refine ⟨hread, fun ha ↦ (hlast ha).1, .answered hr ?_⟩
        rw [hd, hm, ← List.append_assoc]
        exact List.prefix_append _ _
    | fault hr =>
      cases hrests with
      | fault hm =>
        refine ⟨hread, fun ha ↦ (hlast ha).1, .malformed hr ?_⟩
        rw [hd, hm, ← List.append_assoc]
        exact List.prefix_append _ _
    | failed hg hb hu hf =>
      cases hrests with
      | failed _ hm =>
        refine ⟨hread, fun ha ↦ (hlast ha).1, .failed hg ?_ ?_ ?_ ?_ ?_⟩
        · rw [List.nil_append] at hb
          rw [hb]
          rfl
        · rw [hu]
          exact List.suffix_append _ _
        · exact hconsumes.ahead _ _ (fun _ ↦ nofun) hf
        · rw [hd, hm]
        · exact fun ha ↦ (hlast ha).2 _ rfl

theorem Follows.wake {line : Line} {waits : List Readiness} {got : Bytes} {c : Call}
    (h : Follows line waits got c) (r : Readiness) :
    ∃ more, Follows line (waits ++ [r]) (got ++ more) (c.wake r) := by
  cases c with
  | sending socket outgoing => cases h.stands
  | receiving socket state => exact h.receive r
  | done socket result =>
    refine ⟨[], ?_⟩
    rw [List.append_nil]
    exact ⟨h.consumes, h.apart, h.stands.mono r nofun⟩

theorem Follows.foldl {line : Line} {before : List Readiness} {got : Bytes} {c : Call}
    (h : Follows line before got c) (waits : List Readiness) :
    ∃ all, Follows line (before ++ waits) all (waits.foldl Call.wake c) := by
  induction waits generalizing before got c with
  | nil => exact ⟨got, by rwa [List.append_nil]⟩
  | cons r waits ih =>
    obtain ⟨more, hnext⟩ := h.wake r
    rw [List.append_cons]
    exact ih hnext

theorem Sends.follows {line : Line} {request : Request} {s : Socket} {state : Incoming}
    (h : Sends line request (.receiving s state)) : Follows line [] [] (.receiving s state) := by
  obtain ⟨⟨heq, harrivals⟩, rfl⟩ := h.silent
  have hheard : s.Heard [] .fresh := heq ▸ Socket.heard_fresh s.line
  refine ⟨harrivals ▸ consumes_nil s.line.arrivals, fun ha ↦ harrivals ▸ ha,
    .receiving hheard ?_ (.inr ?_)⟩
  · rw [harrivals, List.nil_append]
  · rw [harrivals]
    exact Nat.le_refl _

theorem Follows.got_eq {line : Line} {waits : List Readiness} {got : Bytes} {c : Call}
    (h : Follows line waits got c) : c.got line = got := h.consumes.take_bytesOf

theorem Follows.answers {line : Line} {waits : List Readiness} {got : Bytes} {c : Call}
    {response : Response} (h : Follows line waits got c)
    (hr : (reading .fresh got).result Response.ofRaw = some (.ok response)) :
    c.result? = some (.ok response) ∨
      ¬Apart line.arrivals ∧ ∃ parsed unparsed errno, c.Loses line parsed unparsed errno := by
  have hgot := h.got_eq
  cases h.stands with
  | receiving hheard =>
    rw [hheard.reads] at hr
    cases hr
  | answered hfound =>
    rw [hfound] at hr
    obtain rfl := Except.ok.inj (Option.some.inj hr)
    exact .inl rfl
  | malformed hfound =>
    rw [hfound] at hr
    cases hr
  | @failed socket parsed unparsed errno hg hnone hu hf _ ha =>
    refine .inr ⟨fun hapart ↦ ?_, parsed, unparsed, errno, rfl, hf, hgot.trans hg, ?_, hu⟩
    · rw [ha hapart] at hr
      cases hr
    · rw [decides_iff, hnone]
      exact fun hn ↦ hn rfl
  | closed hnone =>
    rw [hnone] at hr
    cases hr

theorem Follows.reads {line : Line} {waits : List Readiness} {got : Bytes} {c : Call}
    {found : Except ReadFault Response} (h : Follows line waits got c)
    (hcalm : ∀ r ∈ waits, r.hungUp = false ∧ r.error = false)
    (hwaits : line.arrivals.count .wouldBlock < waits.length)
    (hr : (reading .fresh (delivered line.arrivals)).result Response.ofRaw = some found) :
    (reading .fresh got).result Response.ofRaw = some found := by
  have hprefix {other : Except ReadFault Response} (hp : got <+: delivered line.arrivals)
      (ho : (reading .fresh got).result Response.ofRaw = some other) :
      (reading .fresh got).result Response.ofRaw = some found := by
    obtain ⟨later, hl⟩ := hp
    rw [← hl, result_append later ho] at hr
    rw [ho, hr]
  cases h.stands with
  | @receiving s state hheard hd hcount =>
    rcases hcount with hnil | hcount
    · have hall : delivered line.arrivals = got := by
        rw [hd, hnil]
        exact List.append_nil got
      rwa [hall] at hr
    · omega
  | answered ho hp => exact hprefix hp ho
  | malformed ho hp => exact hprefix hp ho
  | failed _ _ _ _ hd => rwa [hd] at hr
  | closed _ hover =>
    rcases hover with ⟨r, hm, hr⟩ | hd
    · rw [(hcalm r hm).1, (hcalm r hm).2] at hr
      simp at hr
    · rwa [hd] at hr

/-- A response that has arrived is not lost to an end, to a hang-up, or to a read that fails after
it: the client answers with it as soon as it has been read, and it is read before as many waits as
the line has pauses, and one more, are over. It is lost to one thing, a read that fails in the run
that brings its last bytes; so never on a line that pauses between bytes and a failure. -/
theorem response_is_lost_only_with_its_read {line : Line} {request : Request} {s : Socket}
    {state : Incoming} (hs : Sends line request (.receiving s state)) (waits : List Readiness)
    (response : Response) :
    ((readResponse .fresh (.ofBytes ((waits.foldl wake (.receiving s state)).got line))).1 =
        .message response →
      (waits.foldl wake (.receiving s state)).result? = some (.ok response) ∨
        ¬Apart line.arrivals ∧ ∃ parsed unparsed errno,
          (waits.foldl wake (.receiving s state)).Loses line parsed unparsed errno) ∧
    ((∀ r ∈ waits, r.hungUp = false ∧ r.error = false) →
      line.arrivals.count .wouldBlock < waits.length →
      (readResponse .fresh (.ofBytes (delivered line.arrivals))).1 = .message response →
        (waits.foldl wake (.receiving s state)).result? = some (.ok response) ∨
          ¬Apart line.arrivals ∧ ∃ parsed unparsed errno,
            (waits.foldl wake (.receiving s state)).Loses line parsed unparsed errno) := by
  obtain ⟨got, hfollows⟩ := hs.follows.foldl waits
  rw [List.nil_append] at hfollows
  refine ⟨fun h ↦ ?_, fun hcalm hwaits h ↦ ?_⟩
  · rw [hfollows.got_eq] at h
    exact hfollows.answers (result_of_message h)
  · exact hfollows.answers (hfollows.reads hcalm hwaits (result_of_message h))

def okay : Response := { status := .ok, reason := some "OK" : Response.Draft }.toResponse

def resetLine : Line where
  arrivals := [.data (Bytes.ofText "HTTP/1.1 200 O"), .wouldBlock, .data (Bytes.ofText "K\r\n\r\n"),
    .wouldBlock, .fault .connectionReset]
  acceptances := [.room 100]

theorem response_is_lost_only_with_its_read_resetLine :
    ∃ s, Sends resetLine glance (.receiving s .fresh) ∧ Apart resetLine.arrivals ∧
      (readResponse .fresh (.ofBytes (delivered resetLine.arrivals))).1 = .message okay ∧
      ((List.replicate 3 { readable := true }).foldl wake (.receiving s .fresh)).result? =
        some (.ok okay) := by
  have hstart : start { line := resetLine } glance =
      .receiving (start { line := resetLine } glance).socket .fresh := by
    rfl
  have hsends : Sends resetLine glance (start { line := resetLine } glance) := Sends.start
  rw [hstart] at hsends
  have hapart : Apart resetLine.arrivals := ⟨trivial, trivial, trivial⟩
  have hread : (readResponse .fresh (.ofBytes (delivered resetLine.arrivals))).1 =
      .message okay := by decide +kernel
  have hanswer := (response_is_lost_only_with_its_read hsends
    (List.replicate 3 { readable := true }) okay).2 (by decide) (by decide +kernel) hread
  exact ⟨_, hsends, hapart, hread, hanswer.resolve_right fun h ↦ h.1 hapart⟩

/-- A response with a failure straight behind it, as when the peer closes a connection on which
something is still unread. -/
def abruptLine : Line where
  arrivals := [.data (Bytes.ofText "HTTP/1.1 200 OK\r\n\r\n"), .fault .connectionReset]
  acceptances := [.room 100]

theorem response_is_lost_to_failure_behind_it :
    ∃ s, Sends abruptLine glance (.receiving s .fresh) ∧
      (readResponse .fresh (.ofBytes (delivered abruptLine.arrivals))).1 = .message okay ∧
      ((Call.receiving s .fresh).wake { readable := true }).result? =
        some (.error (.transport (.socket .read (.system .connectionReset)))) := by
  have hstart : start { line := abruptLine } glance =
      .receiving (start { line := abruptLine } glance).socket .fresh := by
    rfl
  have hsends : Sends abruptLine glance (start { line := abruptLine } glance) := Sends.start
  rw [hstart] at hsends
  refine ⟨_, hsends, by decide +kernel, ?_⟩
  generalize hs : (start { line := abruptLine } glance).socket = s
  have hfault : (LocalHttp.receive s.buffer 0 s.line.arrivals).fault =
      some .connectionReset := hs ▸ by decide +kernel
  have hopen : s.isOpen = true := hs ▸ by decide +kernel
  have hread : ∃ after, s.read = (.error (.socket .read (.system .connectionReset)), after) := by
    rw [Socket.read, if_pos hopen]
    dsimp only
    rw [hfault]
    exact ⟨_, rfl⟩
  obtain ⟨after, hread⟩ := hread
  rw [wake, receive, Socket.drain_of_read_error Response.ofRaw hread]
  rfl

end Call

end LocalHttp
