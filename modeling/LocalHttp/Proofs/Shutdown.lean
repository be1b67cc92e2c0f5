import LocalHttp.Proofs.Closing
import LocalHttp.Proofs.Commands
import LocalHttp.Proofs.Independence
import LocalHttp.Proofs.Lines

namespace LocalHttp

namespace Readiness

theorem restrict_readable (r : Readiness) : (r.restrict .readable).readable = r.readable :=
  Bool.and_true _

theorem restrict_hungUp (r : Readiness) (interest : Interest) :
    (r.restrict interest).hungUp = r.hungUp := rfl

end Readiness

namespace Control

theorem lossyText_eq_stop_iff {token : Bytes} :
    Bytes.lossyText token = stop ↔ token = Bytes.ofText stop :=
  Bytes.lossyText_eq_iff (by simp [stop])

theorem Cuts.append {held more left after : Bytes} {tokens new : List Bytes}
    (h : Cuts held tokens left) (h' : Cuts (left ++ more) new after) :
    Cuts (held ++ more) (tokens ++ new) after where
  tokens_plain t ht := (List.mem_append.1 ht).elim (h.tokens_plain t) (h'.tokens_plain t)
  left_plain := h'.left_plain
  held_eq := by
    rw [h.held_eq, List.append_assoc, h'.held_eq, List.flatMap_append, List.append_assoc]

structure Heard (line : Line) (got : Bytes) (tokens : List Bytes) (s : Socket) : Prop where
  isOpen : s.isOpen = true
  consumes : Consumes got line.arrivals s.line.arrivals
  cuts : Cuts got tokens s.buffer.unread

theorem heard_new (line : Line) : Heard line [] [] { line := line } :=
  ⟨rfl, consumes_nil _, nofun, nofun, rfl⟩

theorem Heard.drain {line : Line} {got : Bytes} {tokens : List Bytes} {s after : Socket}
    {commands : List String} (h : Heard line got tokens s)
    (hd : Control.drain s = (.ok commands, after)) :
    ∃ more new, commands = new.map Bytes.lossyText ∧
      Heard line (got ++ more) (tokens ++ new) after := by
  obtain ⟨more, mid, ht, hu, hr | ⟨errno, hr, -⟩⟩ := Socket.exists_reads_read h.isOpen
  · obtain ⟨new, hcut, hmap, -⟩ := exists_cuts_takeCommands mid.buffer
    rw [Control.drain, hr] at hd
    cases hd
    refine ⟨more, new, hmap, ht.isOpen, h.consumes.trans ht.arrivals, h.cuts.append ?_⟩
    dsimp only
    rw [Buffer.unread_realign, ← hu]
    exact hcut
  · rw [Control.drain, hr] at hd
    cases hd

theorem stop_mem_iff {new : List Bytes} :
    stop ∈ new.map Bytes.lossyText ↔ Bytes.ofText stop ∈ new := by
  simp only [List.mem_map, lossyText_eq_stop_iff, exists_eq_right]

end Control

namespace Server

variable {σ : Type} {s : Server σ} {events : Events}

theorem readinessAt_control (s : Server σ) (status : Descriptor → Readiness) :
    readinessAt (s.watch.report status) s.controlPosition =
      (status s.control).restrict .readable := by
  have hlength : (s.clients.map (Client.report status)).length = s.clients.length :=
    List.length_map _
  rw [report_watch, controlPosition]
  cases s.backoff.paused with
  | true =>
    rw [if_pos rfl, if_pos rfl, List.nil_append, Nat.add_zero, ← hlength]
    exact readinessAt_length _ [] _
  | false =>
    rw [if_neg Bool.false_ne_true, if_neg Bool.false_ne_true, ← List.append_assoc, ← hlength,
      ← List.length_singleton, ← List.length_append]
    exact readinessAt_length _ [] _

def Calls (s : Server σ) (status : Descriptor → Readiness) : Prop :=
  (status s.control).readable = true ∨ (status s.control).hungUp = true

/-- What makes a round end the loop, and the result then. -/
inductive Ends (s : Server σ) (events : Events) : Except ServerFault Unit → Prop
  | poll {errno : Errno} : events.status = .error errno →
    Ends s events (.error (.transport (.poll (.system errno))))
  | drain {status : Descriptor → Readiness} {fault : TransportFault} :
    events.status = .ok status → s.Calls status →
    (Control.drain s.controlSocket).1 = .error fault → Ends s events (.error (.transport fault))
  | stop {status : Descriptor → Readiness} {commands : List String} :
    events.status = .ok status → s.Calls status →
    (Control.drain s.controlSocket).1 = .ok commands → Control.stop ∈ commands →
    Ends s events (.ok ())
  | hangUp {status : Descriptor → Readiness} {commands : List String} :
    events.status = .ok status → (status s.control).hungUp = true →
    (status s.control).readable = false →
    (Control.drain s.controlSocket).1 = .ok commands → Ends s events (.ok ())

theorem Ends.unique {result other : Except ServerFault Unit} (h : s.Ends events result)
    (h' : s.Ends events other) : result = other := by
  cases h <;> cases h' <;> simp_all

theorem not_ends_of_not_calls {status : Descriptor → Readiness} (hs : events.status = .ok status)
    (hcalls : ¬s.Calls status) (result : Except ServerFault Unit) : ¬s.Ends events result := by
  rintro (h | ⟨h, hc, -⟩ | ⟨h, hc, -⟩ | ⟨h, hhung, -⟩)
  · cases hs.symm.trans h
  all_goals obtain rfl := Except.ok.inj (hs.symm.trans h)
  · exact hcalls hc
  · exact hcalls hc
  · exact hcalls (.inr hhung)

theorem not_ends_of_drain {status : Descriptor → Readiness} {commands : List String}
    (hs : events.status = .ok status) (hd : (Control.drain s.controlSocket).1 = .ok commands)
    (hstop : Control.stop ∉ commands)
    (hhung : ((status s.control).hungUp && !(status s.control).readable) = false)
    (result : Except ServerFault Unit) : ¬s.Ends events result := by
  rintro (h | ⟨h, -, hf⟩ | ⟨h, -, hf, hm⟩ | ⟨h, hu, hn, -⟩)
  · cases hs.symm.trans h
  all_goals obtain rfl := Except.ok.inj (hs.symm.trans h)
  · cases hd.symm.trans hf
  · obtain rfl := Except.ok.inj (hd.symm.trans hf)
    exact hstop hm
  · rw [hu, hn] at hhung
    cases hhung

inductive Looks (s : Server σ) : Socket → Prop
  | nothing : Looks s s.controlSocket
  | drained {commands : List String} {socket : Socket} :
    Control.drain s.controlSocket = (.ok commands, socket) → Control.stop ∉ commands →
    Looks s socket

def begun (s : Server σ) (socket : Socket) : Server σ :=
  { s with backoff := { s.backoff with paused := false }, controlSocket := socket }

/-- What a round comes to. One that ends the loop has looked at the control pipe and has done
nothing else. -/
inductive ComesTo (s : Server σ) (events : Events) : Round σ → Prop
  | ends {result : Except ServerFault Unit} {socket : Socket} : s.Ends events result →
    ComesTo s events { server := s.begun socket, ended := some result }
  | goes {status : Descriptor → Readiness} {socket : Socket} : events.status = .ok status →
    (∀ result, ¬s.Ends events result) → s.Looks socket →
    ComesTo s events
      ((s.begun socket).serveRound (s.watch.report status) events.accepts (s.listens status))

theorem comesTo_round (s : Server σ) (events : Events) : s.ComesTo events (s.round events) := by
  unfold round
  cases hs : events.status with
  | error errno => exact .ends (.poll hs)
  | ok status =>
    dsimp only
    rw [readinessAt_control, readable_at_listener, takeControl]
    dsimp only
    rw [Readiness.restrict_readable, Readiness.restrict_hungUp]
    cases hcalls : (status s.control).readable || (status s.control).hungUp with
    | false =>
      have hquiet : ¬s.Calls status := by
        rw [Calls, ← Bool.or_eq_true_iff, hcalls]
        exact Bool.false_ne_true
      exact .goes hs (not_ends_of_not_calls hs hquiet) .nothing
    | true =>
      have hc : s.Calls status := Bool.or_eq_true_iff.1 hcalls
      rw [if_pos rfl]
      rcases hd : Control.drain s.controlSocket with ⟨fault | commands, socket⟩
      · exact .ends (.drain hs hc (congrArg Prod.fst hd))
      · have hfirst := congrArg Prod.fst hd
        dsimp only
        cases hstop : commands.contains Control.stop with
        | true => exact .ends (.stop hs hc hfirst (List.contains_iff_mem.1 hstop))
        | false =>
          have hno : Control.stop ∉ commands := by simpa using hstop
          rw [Bool.false_or]
          cases hhung : (status s.control).hungUp && !(status s.control).readable with
          | true =>
            rw [Bool.and_eq_true, Bool.not_eq_true'] at hhung
            exact .ends (.hangUp hs hhung.1 hhung.2 hfirst)
          | false => exact .goes hs (not_ends_of_drain hs hfirst hno hhung) (.drained hd hno)

theorem ended_iff {result : Except ServerFault Unit} :
    (s.round events).ended = some result ↔ s.Ends events result := by
  generalize hr : s.round events = r
  rcases hr ▸ s.comesTo_round events with h | ⟨-, hgo, -⟩
  · rw [Option.some_inj]
    exact ⟨fun he ↦ he ▸ h, h.unique⟩
  · exact ⟨nofun, fun h ↦ absurd h (hgo result)⟩

theorem depart_round {result : Except ServerFault Unit} (h : s.Ends events result) :
    (s.round events).server.depart result = s.depart result := by
  generalize hr : s.round events = r
  rcases hr ▸ s.comesTo_round events with - | ⟨-, hgo, -⟩
  · rfl
  · exact absurd h (hgo result)

structure Stays (s after : Server σ) : Prop where
  path : after.path = s.path
  listener : after.listener = s.listener
  control : after.control = s.control
  looks : s.Looks after.controlSocket

theorem stays_serveRound (s : Server σ) {socket : Socket} (h : s.Looks socket)
    (report : List Readiness) (accepts : List Accepted) (ready : Bool) :
    s.Stays ((s.begun socket).serveRound report accepts ready).server := by
  unfold serveRound
  cases ready with
  | true =>
    obtain ⟨failing, ha⟩ := acceptAll_eq (s.begun socket) accepts
    rw [if_pos rfl, ha]
    exact ⟨rfl, rfl, rfl, h⟩
  | false => exact ⟨rfl, rfl, rfl, h⟩

theorem stays_round (h : (s.round events).ended = none) : s.Stays (s.round events).server := by
  generalize hr : s.round events = r at h ⊢
  rcases hr ▸ s.comesTo_round events with - | ⟨-, -, hlooks⟩
  · cases h
  · exact s.stays_serveRound hlooks _ _ _

theorem run_cons_of_ends {result : Except ServerFault Unit} (h : s.Ends events result)
    (later : List Events) : s.run (events :: later) = .inr (s.depart result) := by
  rw [run, ended_iff.2 h, ← depart_round h]

theorem run_cons_of_goes (h : (s.round events).ended = none) (later : List Events) :
    s.run (events :: later) = (s.round events).server.run later := by
  rw [run, h]

theorem exists_ends_of_run {s : Server σ} {events : List Events} {d : Departure σ}
    (hr : s.run events = .inr d) :
    ∃ before last rest mid, events = before ++ last :: rest ∧ s.run before = .inl mid ∧
      mid.Ends last d.result ∧ d = mid.depart d.result := by
  induction events generalizing s with
  | nil => cases hr
  | cons first rest ih =>
    cases he : (s.round first).ended with
    | some result =>
      have h := ended_iff.1 he
      obtain rfl := Sum.inr.inj ((run_cons_of_ends h rest).symm.trans hr)
      exact ⟨[], first, rest, s, rfl, rfl, h, rfl⟩
    | none =>
      rw [run_cons_of_goes he] at hr
      obtain ⟨before, last, later, mid, rfl, hrun, h⟩ := ih hr
      exact ⟨first :: before, last, later, mid, rfl, (run_cons_of_goes he before).trans hrun, h⟩

/-- What a server that serves on has heard through its control pipe, and what it keeps. -/
structure Serves (s : Server σ) (line : Line) (got : Bytes) (tokens : List Bytes)
    (mid : Server σ) : Prop where
  path : mid.path = s.path
  listener : mid.listener = s.listener
  control : mid.control = s.control
  heard : Control.Heard line got tokens mid.controlSocket
  goesOn : Bytes.ofText Control.stop ∉ tokens

theorem Serves.round {line : Line} {got : Bytes} {tokens : List Bytes} {mid : Server σ}
    (h : s.Serves line got tokens mid) (hgo : (mid.round events).ended = none) :
    ∃ got tokens, s.Serves line got tokens (mid.round events).server := by
  obtain ⟨hpath, hlistener, hcontrol, hlooks⟩ := mid.stays_round hgo
  generalize hs : (mid.round events).server.controlSocket = socket at hlooks
  cases hlooks with
  | nothing =>
    exact ⟨got, tokens, hpath.trans h.path, hlistener.trans h.listener, hcontrol.trans h.control,
      hs ▸ h.heard, h.goesOn⟩
  | drained hd hno =>
    obtain ⟨more, new, rfl, hheard⟩ := h.heard.drain hd
    rw [Control.stop_mem_iff] at hno
    exact ⟨got ++ more, tokens ++ new, hpath.trans h.path, hlistener.trans h.listener,
      hcontrol.trans h.control, hs ▸ hheard, List.not_mem_append h.goesOn hno⟩

theorem Serves.run {line : Line} {got : Bytes} {tokens : List Bytes} {mid after : Server σ}
    (h : s.Serves line got tokens mid) {events : List Events} (hr : mid.run events = .inl after) :
    ∃ got tokens, s.Serves line got tokens after := by
  induction events generalizing mid got tokens with
  | nil =>
    obtain rfl := Sum.inl.inj hr
    exact ⟨got, tokens, h⟩
  | cons first rest ih =>
    cases he : (mid.round first).ended with
    | some result =>
      rw [run_cons_of_ends (ended_iff.1 he)] at hr
      cases hr
    | none =>
      rw [run_cons_of_goes he] at hr
      obtain ⟨got, tokens, h⟩ := h.round he
      exact ih h hr

/-- Why a loop has ended. Of all that comes through the control pipe, only the whole command does
it: not what was heard before, and not a part of it. -/
structure Reason (s mid : Server σ) (line : Line) (last : Events) (result : Except ServerFault Unit)
    (got : Bytes) (tokens : List Bytes) : Prop where
  ends : mid.Ends last result
  serves : s.Serves line got tokens mid
  drained : ∀ commands after, Control.drain mid.controlSocket = (.ok commands, after) →
    ∃ more new, commands = new.map Bytes.lossyText ∧
      Control.Heard line (got ++ more) (tokens ++ new) after ∧
      (Control.stop ∈ commands ↔ Bytes.ofText Control.stop ∈ new)

/-- What the round does that ends a loop: whoever waits to be accepted, whatever the handlers would
do and whatever would come later, nothing is taken from any connection and no state changes. -/
structure Idles (mid : Server σ) (last : Events) (d : Departure σ) : Prop where
  same : ∀ service accepts later,
    { mid with service := service }.run ({ last with accepts := accepts } :: later) = .inr d
  state : d.state = mid.state
  lines : d.clients.map (fun c ↦ (c.descriptor, c.connection.socket.line)) =
    mid.clients.map fun c ↦ (c.descriptor, c.connection.socket.line)

/-- What is left of a server: all connections that it ever had are closed, and so are, wherever it
was, its own descriptors; its path is gone, if it can be removed. -/
structure Cleared (s : Server σ) (before : List Events) (d : Departure σ) : Prop where
  isClosed : ∀ c ∈ s.closedIn before ++ d.clients, c.connection.isClosed = true
  all : ((s.closedIn before ++ d.clients).map Client.descriptor).Perm
    ((s.acceptedIn before).map Prod.fst)
  live : live d.clients = []
  network : ∀ n : Network,
    (∀ e ∈ d.clients.map Client.descriptor ++ [s.listener, s.control],
      ((Machine.afterDeparture n d).get e).isOpen = false) ∧
    ((Machine.afterDeparture n d).files.exists? (FileTree.names s.path) = false ∨
      ∃ errno, n.files.remove (FileTree.names s.path) = .error errno ∧
        (Machine.afterDeparture n d).files = n.files)

theorem Serves.reason {line : Line} {got : Bytes} {tokens : List Bytes} {mid : Server σ}
    {last : Events} {result : Except ServerFault Unit} (h : s.Serves line got tokens mid)
    (he : mid.Ends last result) : s.Reason mid line last result got tokens where
  ends := he
  serves := h
  drained commands after hd := by
    obtain ⟨more, new, rfl, hheard⟩ := h.heard.drain hd
    exact ⟨more, new, rfl, hheard, Control.stop_mem_iff⟩

theorem Ends.congr {result : Except ServerFault Unit} (h : s.Ends events result)
    (service : Service σ) (accepts : List Accepted) :
    Ends { s with service := service } { events with accepts := accepts } result := by
  cases h with
  | poll hs => exact .poll hs
  | drain hs hc hd => exact .drain hs hc hd
  | stop hs hc hd hm => exact .stop hs hc hd hm
  | hangUp hs hu hn hd => exact .hangUp hs hu hn hd

theorem Ends.idles {mid : Server σ} {last : Events} {result : Except ServerFault Unit}
    (h : mid.Ends last result) : mid.Idles last (mid.depart result) where
  same service accepts later := run_cons_of_ends (h.congr service accepts) later
  state := rfl
  lines := List.map_map

theorem gone_live_perm (clients : List Client) : (gone clients ++ live clients).Perm clients :=
  List.filter_append_perm _ clients

theorem descriptors_clients (service : Service σ) (h : History σ) :
    (h.clients service).map Client.descriptor = (h.tracks.map Track.origin).map Prod.fst := by
  rw [History.clients, List.map_map, List.map_map]
  rfl

theorem exists_history {before : List Events} {mid : Server σ} (hs : s.clients = [])
    (hr : s.run before = .inl mid) :
    ∃ h : History σ, h.tracks.map Track.origin = s.acceptedIn before ∧
      (s.closedIn before).Perm (gone (h.clients s.service)) ∧
      mid.clients = live (h.clients s.service) := by
  have hstart : s.Follows { state := s.state, paused := s.backoff.paused } := ⟨hs, rfl, rfl⟩
  obtain ⟨hafter, hperm, horigins, hservice⟩ := hstart.run hr
  exact ⟨_, horigins, hperm.symm, hservice ▸ hafter.clients⟩

theorem isClosed_of_mem_depart {mid : Server σ} {result : Except ServerFault Unit} {c : Client}
    (hc : c ∈ (mid.depart result).clients) : c.connection.isClosed = true := by
  obtain ⟨mine, -, rfl⟩ := List.mem_map.1 hc
  rfl

theorem descriptors_depart (mid : Server σ) (result : Except ServerFault Unit) :
    (mid.depart result).clients.map Client.descriptor = mid.clients.map Client.descriptor :=
  List.map_map

theorem Serves.cleared {before : List Events} {mid : Server σ} {line : Line} {got : Bytes}
    {tokens : List Bytes} (h : s.Serves line got tokens mid) (hs : s.clients = [])
    (hr : s.run before = .inl mid) (result : Except ServerFault Unit) :
    s.Cleared before (mid.depart result) := by
  obtain ⟨history, horigins, hperm, hclients⟩ := exists_history hs hr
  refine ⟨fun c hc ↦ ?_, ?_, ?_, fun n ↦ ?_⟩
  · rcases List.mem_append.1 hc with hc | hc
    · exact (List.mem_filter.1 (hperm.subset hc)).2
    · exact isClosed_of_mem_depart hc
  · rw [List.map_append, descriptors_depart, ← List.map_append, hclients, ← horigins,
      ← descriptors_clients s.service]
    exact ((hperm.append_right _).trans (gone_live_perm _)).map _
  · exact List.filter_eq_nil_iff.2 fun c hc ↦ by simp [isClosed_of_mem_depart hc]
  · rw [descriptors_depart, ← h.listener, ← h.control, ← h.path]
    exact Machine.closed_afterDeparture n (mid.depart result)

/-- A loop ends because the system calls for its descriptors or for its control pipe have failed,
because nobody is left at the other end of this pipe, or because the whole command to stop has come
through it; and of that round, as of all that would come after it, no connection sees anything but
that it is closed. -/
theorem loop_ends_for_good (s : Server σ) (line : Line) (hc : s.controlSocket = { line := line })
    (hs : s.clients = []) (events : List Events) (d : Departure σ) (hr : s.run events = .inr d) :
    ∃ before last rest mid got tokens, events = before ++ last :: rest ∧
      s.run before = .inl mid ∧ s.Reason mid line last d.result got tokens ∧
      mid.Idles last d ∧ s.Cleared before d := by
  obtain ⟨before, last, rest, mid, rfl, hrun, hends, hd⟩ := exists_ends_of_run hr
  have hstart : s.Serves line [] [] s :=
    ⟨rfl, rfl, rfl, hc ▸ Control.heard_new line, List.not_mem_nil⟩
  obtain ⟨got, tokens, hserves⟩ := hstart.run hrun
  refine ⟨before, last, rest, mid, got, tokens, rfl, hrun, hserves.reason hends, ?_, ?_⟩
  · rw [hd]
    exact hends.idles
  · rw [hd]
    exact hserves.cleared hs hrun _

def halting : Line where
  arrivals := [.data [0x67, 0x6f, 0x00, 0x00, 0x73, 0x74], .wouldBlock, .data [0x6f, 0x70, 0x00]]

def halted : Server Nat := { bystander with controlSocket := { line := halting } }

def rush : List Events :=
  [{ status := .ok fun d ↦ { readable := d ≤ 1 }, accepts := [.connection 3 asking, .none] },
   { status := .ok fun _ ↦ { readable := true }, accepts := [.connection 4 asking, .none] }]

theorem loop_ends_for_good_in_rush :
    halted.controlSocket = { line := halting } ∧ halted.clients = [] ∧
      ∃ d, halted.run rush = .inr d ∧ d.clients.map Client.descriptor = [3] ∧
        ∃ before last rest mid got tokens, rush = before ++ last :: rest ∧
          halted.run before = .inl mid ∧ halted.Reason mid halting last d.result got tokens ∧
          mid.Idles last d ∧ halted.Cleared before d := by
  have hr : (halted.run rush).getRight?.map (fun d ↦ d.clients.map Client.descriptor) =
      some [3] := by
    decide +kernel
  obtain ⟨d, hd, hclients⟩ := Option.map_eq_some_iff.1 hr
  have hrun := Sum.getRight?_eq_some_iff.1 hd
  exact ⟨rfl, rfl, d, hrun, hclients, loop_ends_for_good halted halting rfl rfl rush d hrun⟩

end Server

end LocalHttp
