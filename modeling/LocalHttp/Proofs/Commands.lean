import LocalHttp.Proofs.Draining
import LocalHttp.Proofs.Utf8
import LocalHttp.Socket

namespace LocalHttp.Control

structure Posting where
  command : String
  acceptances : List Acceptance

/-- A command that can be told from its neighbours, of any length. -/
def NulFree (command : String) : Prop := '\x00' ∉ command.toList

/-- Whether the receiver's buffer has room for a command and its NUL. -/
def Fits (command : String) : Prop := (Bytes.ofText command).length ≤ 4095

instance (command : String) : Decidable (NulFree command) := inferInstanceAs (Decidable (¬_))

instance (command : String) : Decidable (Fits command) := inferInstanceAs (Decidable (_ ≤ _))

structure Plain (command : String) : Prop where
  noNul : NulFree command
  short : Fits command

namespace Posting

def call (p : Posting) : Except TransportFault Unit × Socket :=
  send { line := { acceptances := p.acceptances } } p.command

def bytes (p : Posting) : Bytes := p.call.2.line.accepted

structure Sends (P : String → Prop) (p : Posting) : Prop where
  kind : P p.command
  ok : p.call.1 = .ok ()

theorem bytes_eq {p : Posting} (hok : p.call.1 = .ok ()) : p.bytes = frame p.command := by
  have hsplit := sent_append_unsent [] (frame p.command) p.acceptances
  unfold bytes
  unfold call send Socket.write at hok ⊢
  rw [if_pos rfl] at hok ⊢
  dsimp only at hok ⊢
  cases hf : (transmit [] (frame p.command) p.acceptances).fault with
  | some errno =>
    rw [hf] at hok
    cases hok
  | none =>
    cases hu : (transmit [] (frame p.command) p.acceptances).unsent with
    | nil =>
      rw [hu, List.append_nil] at hsplit
      exact hsplit
    | cons byte rest =>
      rw [hf, hu] at hok
      cases hok

end Posting

inductive Happening
  | post (posting : Posting)
  | read (arrival : Arrival)

def posts : List Happening → List Posting
  | [] => []
  | .post p :: rest => p :: posts rest
  | .read _ :: rest => posts rest

def arrivals : List Happening → List Arrival
  | [] => []
  | .post _ :: rest => arrivals rest
  | .read a :: rest => a :: arrivals rest

/-- What the reads of a drain can meet in a pipe, while calls on the sending end succeed with
commands of the kind `P`: any positive number of the bytes in it, the end only where none can come
any more, and a pause only where there are none, or behind some that this drain has taken, as the
rest of a command may not have got there yet. -/
def Meets (P : String → Prop) (taking : Bool) : Bytes → List Happening → Prop
  | pipe, [] => taking = true ∨ pipe = []
  | pipe, .post p :: rest => p.Sends P ∧ Meets P taking (pipe ++ p.bytes) rest
  | pipe, .read (.data block) :: rest =>
    (block ≠ [] ∧ block <+: pipe) ∧ Meets P true (pipe.drop block.length) rest
  | pipe, .read .wouldBlock :: rest => (taking = true ∨ pipe = []) ∧ Meets P taking pipe rest
  | pipe, .read .endOfFile :: rest => (pipe = [] ∧ posts rest = []) ∧ Meets P taking pipe rest
  | pipe, .read .interrupted :: rest => Meets P taking pipe rest
  | _, .read (.fault _) :: _ => False

/-- A channel with the bytes that are in the pipe, the commands that have been sent so far, and the
lists that the drains have returned so far. -/
structure Channel where
  receiver : Socket := {}
  pipe : Bytes := []
  sent : List String := []
  drained : List (List String) := []

inductive Event
  | post (posting : Posting)
  | drain (happenings : List Happening)

namespace Channel

def post (c : Channel) (p : Posting) : Channel :=
  { c with pipe := c.pipe ++ p.bytes, sent := c.sent ++ [p.command] }

def drain (c : Channel) (happenings : List Happening) : Except TransportFault Channel :=
  let posted := (posts happenings).foldl post c
  let line := { c.receiver.line with arrivals := arrivals happenings }
  match Control.drain { c.receiver with line := line } with
  | (.error fault, _) => .error fault
  | (.ok commands, after) =>
    let count := pendingBytes (arrivals happenings) - pendingBytes after.line.arrivals
    .ok { posted with
      receiver := after
      pipe := posted.pipe.drop count
      drained := posted.drained ++ [commands] }

def step (c : Channel) : Event → Except TransportFault Channel
  | .post p => .ok (c.post p)
  | .drain happenings => c.drain happenings

def run (c : Channel) (events : List Event) : Except TransportFault Channel := events.foldlM step c

/-- Posts and drains of which each can happen where those before it have led to. -/
def Course (P : String → Prop) (c : Channel) : List Event → Prop
  | [] => True
  | .post p :: rest => p.Sends P ∧ (c.post p).Course P rest
  | .drain happenings :: rest =>
    Meets P false c.pipe happenings ∧ ∀ next, c.drain happenings = .ok next → next.Course P rest

end Channel

structure Cuts (held : Bytes) (tokens : List Bytes) (left : Bytes) : Prop where
  tokens_plain : ∀ t ∈ tokens, 0 ∉ t
  left_plain : 0 ∉ left
  held_eq : held = tokens.flatMap (· ++ [0]) ++ left

theorem Cuts.length_lt {held left : Bytes} {tokens : List Bytes} (h : Cuts held tokens left)
    {t : Bytes} (ht : t ∈ tokens) : t.length < held.length := by
  obtain ⟨front, behind, rfl⟩ := List.append_of_mem ht
  rw [h.held_eq]
  simp only [List.flatMap_append, List.flatMap_cons, List.length_append, List.length_singleton]
  omega

theorem takeToken_nul_found {b rest : Buffer} {token : Bytes}
    (h : b.takeToken [0] = (token, true, rest)) :
    0 ∉ token ∧ b.unread = token ++ 0 :: rest.unread := by
  unfold Buffer.takeToken Buffer.takeUntil Buffer.find? at h
  cases hf : Bytes.find? [0] b.unread with
  | none =>
    rw [hf] at h
    cases h
  | some p =>
    rw [hf] at h
    obtain ⟨t, later, hu, rfl, hin⟩ := Bytes.exists_of_find?_eq_some (by simp) hf
    obtain ⟨rfl, -, rfl⟩ : b.peek t.length = token ∧ true = true ∧
        (b.skip t.length).skip 1 = rest := by simpa using h
    have hpeek : b.peek t.length = t := by
      rw [Buffer.peek, hu, List.take_left]
    have hrest : ((b.skip t.length).skip 1).unread = later := by
      rw [Buffer.unread_skip, Buffer.unread_skip, hu, List.drop_left]
      rfl
    rw [hpeek, hrest, hu]
    exact ⟨by simpa [Bytes.infix_singleton_iff] using hin, rfl⟩

theorem takeToken_nul_missing {b rest : Buffer} {token : Bytes}
    (h : b.takeToken [0] = (token, false, rest)) : 0 ∉ b.unread := by
  unfold Buffer.takeToken Buffer.takeUntil Buffer.find? at h
  cases hf : Bytes.find? [0] b.unread with
  | none => exact mt Bytes.infix_singleton_iff.2 (Bytes.find?_eq_none_iff.1 hf)
  | some p =>
    rw [hf] at h
    cases h

theorem takeCommands_of_found {b rest : Buffer} {token : Bytes}
    (h : b.takeToken [0] = (token, true, rest)) :
    takeCommands b = (Bytes.lossyText token :: (takeCommands rest).1, (takeCommands rest).2) := by
  rw [takeCommands]
  split
  · rename_i hs
    rw [h] at hs
    cases hs
    rfl
  · rename_i hs
    rw [h] at hs
    cases hs

theorem takeCommands_of_missing {b rest : Buffer} {token : Bytes}
    (h : b.takeToken [0] = (token, false, rest)) : takeCommands b = ([], b) := by
  rw [takeCommands]
  split
  · rename_i hs
    rw [h] at hs
    cases hs
  · rfl

theorem exists_cuts_takeCommands (b : Buffer) :
    ∃ tokens, Cuts b.unread tokens (takeCommands b).2.unread ∧
      (takeCommands b).1 = tokens.map Bytes.lossyText ∧
      (takeCommands b).2.capacity = b.capacity := by
  induction hn : b.length using Nat.strongRecOn generalizing b with
  | ind n ih =>
    have hcap := Buffer.capacity_takeToken b [0]
    rcases ht : b.takeToken [0] with ⟨token, found, rest⟩
    rw [ht] at hcap
    cases found with
    | true =>
      obtain ⟨hplain, hu⟩ := takeToken_nul_found ht
      obtain ⟨tokens, hcut, hmap, hc⟩ :=
        ih _ (hn ▸ Buffer.length_takeToken_lt (by simp) ht) rest rfl
      rw [takeCommands_of_found ht]
      refine ⟨token :: tokens, ⟨List.forall_mem_cons.2 ⟨hplain, hcut.tokens_plain⟩,
        hcut.left_plain, ?_⟩, congrArg (Bytes.lossyText token :: ·) hmap, hc.trans hcap⟩
      rw [hu, hcut.held_eq, List.flatMap_cons]
      simp only [List.append_assoc, List.cons_append, List.nil_append]
    | false =>
      rw [takeCommands_of_missing ht]
      exact ⟨[], ⟨nofun, takeToken_nul_missing ht, rfl⟩, rfl, rfl⟩

theorem NulFree.nul_notMem {command : String} (h : NulFree command) :
    0 ∉ Bytes.ofText command :=
  mt (Bytes.asciiByte_mem_ofText_iff (c := '\x00') (by decide)).1 h

theorem append_nul_inj {t u v w : Bytes} (ht : 0 ∉ t) (hu : 0 ∉ u) (h : t ++ 0 :: v = u ++ 0 :: w) :
    t = u ∧ v = w := by
  rcases List.append_eq_append_iff.1 h with ⟨more, rfl, hm⟩ | ⟨more, rfl, hm⟩ <;>
    rcases List.cons_eq_append_iff.1 hm with ⟨rfl, he⟩ | ⟨later, rfl, -⟩
  · exact ⟨(List.append_nil t).symm, (List.cons.inj he).2.symm⟩
  · simp at hu
  · exact ⟨List.append_nil u, (List.cons.inj he).2⟩
  · simp at ht

theorem Cuts.frames {held left later : Bytes} {tokens : List Bytes} {waiting : List String}
    (h : Cuts held tokens left) (hp : ∀ w ∈ waiting, NulFree w)
    (hw : waiting.flatMap frame = held ++ later) :
    ∃ taken rest, waiting = taken ++ rest ∧ tokens = taken.map Bytes.ofText ∧
      rest.flatMap frame = left ++ later := by
  induction tokens generalizing held waiting with
  | nil => exact ⟨[], waiting, rfl, rfl, hw.trans (congrArg (· ++ later) h.held_eq)⟩
  | cons t tokens ih =>
    rw [h.held_eq] at hw
    cases waiting with
    | nil => simp at hw
    | cons w waiting =>
      rw [List.forall_mem_cons] at hp
      have ht := (List.forall_mem_cons.1 h.tokens_plain).1
      have hcut : Bytes.ofText w ++ 0 :: waiting.flatMap frame =
          t ++ 0 :: (tokens.flatMap (· ++ [0]) ++ (left ++ later)) := by
        simpa [frame] using hw
      obtain ⟨rfl, hrest⟩ := append_nul_inj hp.1.nul_notMem ht hcut
      have hnext : Cuts (tokens.flatMap (· ++ [0]) ++ left) tokens left :=
        ⟨(List.forall_mem_cons.1 h.tokens_plain).2, h.left_plain, rfl⟩
      obtain ⟨taken, rest, rfl, rfl, hlater⟩ :=
        ih hnext hp.2 (hrest.trans (List.append_assoc _ _ _).symm)
      exact ⟨w :: taken, rest, rfl, rfl, hlater⟩

variable {P : String → Prop}

theorem Meets.arrives {taking : Bool} {pipe : Bytes} {happenings : List Happening}
    (h : Meets P taking pipe happenings) :
    Arrives True (pipe ++ (posts happenings).flatMap Posting.bytes) (arrivals happenings) := by
  induction happenings generalizing taking pipe with
  | nil => trivial
  | cons happening rest ih =>
    cases happening with
    | post p =>
      have hr := ih h.2
      rw [List.append_assoc] at hr
      exact hr
    | read a =>
      cases a with
      | data block =>
        obtain ⟨⟨-, later, rfl⟩, hr⟩ := h
        rw [List.drop_left] at hr
        refine ⟨?_, ?_⟩
        · rw [List.append_assoc]
          exact List.prefix_append _ _
        · rw [posts, List.append_assoc, List.drop_left]
          exact ih hr
      | endOfFile =>
        obtain ⟨⟨rfl, hp⟩, hr⟩ := h
        have hnone : [] ++ (posts rest).flatMap Posting.bytes = [] := by
          rw [hp]
          rfl
        exact ⟨⟨trivial, hnone⟩, ih hr⟩
      | wouldBlock => exact ih h.2
      | interrupted => exact ih (by exact h)
      | fault errno => exact h.elim

theorem Meets.brings {pipe : Bytes} {happenings : List Happening}
    (h : Meets P false pipe happenings) (hp : pipe ≠ []) : brings (arrivals happenings) = true := by
  induction happenings generalizing pipe with
  | nil => exact absurd (h.resolve_left nofun) hp
  | cons happening rest ih =>
    cases happening with
    | post p => exact ih h.2 (List.append_ne_nil_of_left_ne_nil hp _)
    | read a =>
      cases a with
      | data block =>
        cases block with
        | nil => exact absurd rfl h.1.1
        | cons byte block => rfl
      | endOfFile => exact absurd h.1.1 hp
      | wouldBlock => exact absurd (h.1.resolve_left nofun) hp
      | interrupted => exact ih (by exact h) hp
      | fault errno => exact h.elim

theorem Meets.posts {taking : Bool} {pipe : Bytes} {happenings : List Happening}
    (h : Meets P taking pipe happenings) :
    ∀ p ∈ posts happenings, p.Sends P := by
  induction happenings generalizing taking pipe with
  | nil => exact nofun
  | cons happening rest ih =>
    cases happening with
    | post p => exact List.forall_mem_cons.2 ⟨h.1, ih h.2⟩
    | read a =>
      cases a with
      | interrupted => exact ih (by exact h)
      | fault errno => exact h.elim
      | _ => exact ih h.2

/-- Draining takes bytes off the pipe in their order and returns what they complete. -/
theorem exists_cuts_drain {ended : Prop} {waiting : Bytes} {s : Socket} (ho : s.isOpen = true)
    (ha : Arrives ended waiting s.line.arrivals) :
    ∃ taken later tokens after, waiting = taken ++ later ∧
      drain s = (.ok (tokens.map Bytes.lossyText), after) ∧
      Cuts (s.buffer.unread ++ taken) tokens after.buffer.unread ∧
      pendingBytes after.line.arrivals + taken.length = pendingBytes s.line.arrivals ∧
      (s.buffer.free ≠ [] → brings s.line.arrivals = true → taken ≠ []) ∧
      (s.buffer.unread ++ taken).length ≤ s.buffer.capacity ∧
      after.isOpen = true ∧ after.buffer.capacity = s.buffer.capacity ∧
      after.buffer.spent = [] := by
  obtain ⟨taken, later, mid, hw, hread, ht, hu, hb, -⟩ := Socket.exists_takes_read ho ha
  obtain ⟨tokens, hcut, hmap, hcap⟩ := exists_cuts_takeCommands mid.buffer
  let left := (takeCommands mid.buffer).2
  have hdrain : drain s =
      (.ok (tokens.map Bytes.lossyText), { mid with buffer := left.realign }) := by
    rw [drain, hread, ← hmap]
  refine ⟨taken, later, tokens, _, hw, hdrain, ?_, ht.pending, hb, ?_, ht.isOpen, ?_, ?_⟩
  · rw [Buffer.unread_realign, ← hu]
    exact hcut
  · rw [← hu, ← ht.capacity, Buffer.capacity]
    omega
  · exact (Buffer.capacity_realign left).trans (hcap.trans ht.capacity)
  · exact Buffer.spent_realign left

namespace Channel

/-- Between two calls. The receiver holds a part of one command at the start of its buffer; what has
not been returned yet is there and in the pipe. -/
structure Sound (P : String → Prop) (c : Channel) : Prop where
  isOpen : c.receiver.isOpen = true
  capacity : c.receiver.buffer.capacity = Buffer.defaultCapacity
  aligned : c.receiver.buffer.spent = []
  partial_plain : 0 ∉ c.receiver.buffer.unread
  owed : ∃ waiting, c.sent = c.drained.flatten ++ waiting ∧ (∀ w ∈ waiting, P w) ∧
    waiting.flatMap frame = c.receiver.buffer.unread ++ c.pipe

variable {c : Channel}

theorem sound_new : ({} : Channel).Sound P where
  isOpen := rfl
  capacity := Buffer.capacity_ofCapacity Buffer.defaultCapacity
  aligned := rfl
  partial_plain := List.not_mem_nil
  owed := ⟨[], rfl, nofun, rfl⟩

theorem Sound.post (h : c.Sound P) {p : Posting} (hp : p.Sends P) : (c.post p).Sound P := by
  obtain ⟨waiting, hsent, hkind, hframes⟩ := h.owed
  refine ⟨h.isOpen, h.capacity, h.aligned, h.partial_plain, waiting ++ [p.command], ?_, ?_, ?_⟩
  · rw [Channel.post, hsent, List.append_assoc]
  · intro w hw
    rcases List.mem_append.1 hw with hw | hw
    · exact hkind w hw
    · exact List.mem_singleton.1 hw ▸ hp.kind
  · rw [List.flatMap_append, hframes, List.append_assoc, Channel.post, Posting.bytes_eq hp.ok,
      List.flatMap_singleton]

theorem Sound.posts (h : c.Sound P) {ps : List Posting}
    (hp : ∀ p ∈ ps, p.Sends P) : (ps.foldl Channel.post c).Sound P := by
  induction ps generalizing c with
  | nil => exact h
  | cons p ps ih =>
    rw [List.forall_mem_cons] at hp
    exact ih (h.post hp.1) hp.2

theorem foldl_post (c : Channel) (ps : List Posting) :
    ps.foldl post c = { c with
      pipe := c.pipe ++ ps.flatMap Posting.bytes
      sent := c.sent ++ ps.map Posting.command } := by
  induction ps generalizing c with
  | nil => simp
  | cons p ps ih =>
    rw [List.foldl_cons, ih]
    simp [post]

theorem Sound.free_ne_nil (h : c.Sound P) {waiting : List String}
    (hframes : waiting.flatMap frame = c.receiver.buffer.unread ++ c.pipe)
    (hfits : ∀ w ∈ waiting.head?, Fits w) :
    c.receiver.buffer.free ≠ [] := by
  have hcap := h.capacity
  have hle : c.receiver.buffer.length ≤ 4095 := by
    cases waiting with
    | nil =>
      rw [Buffer.length, (List.append_eq_nil_iff.1 hframes.symm).1]
      exact Nat.zero_le _
    | cons w waiting =>
      have hw : Bytes.ofText w ++ [0] <+: c.receiver.buffer.unread ++ c.pipe := by
        rw [← hframes]
        exact List.prefix_append _ _
      rcases List.prefix_or_prefix_of_prefix hw (List.prefix_append _ _) with hp | hp
      · exact absurd (hp.subset (by simp)) h.partial_plain
      · rcases List.prefix_concat_iff.1 hp with he | hp
        · exact absurd (he ▸ List.mem_append_right _ List.mem_cons_self) h.partial_plain
        · exact Nat.le_trans hp.length_le (hfits w rfl)
  intro hf
  rw [Buffer.capacity, h.aligned, hf, List.length_nil, Nat.zero_add, Nat.add_zero,
    Buffer.defaultCapacity] at hcap
  rw [Buffer.length, hcap] at hle
  omega

/-- What a drain does. It returns the next commands of those sent, which all fit into the buffer,
and takes bytes whenever there are some and there is room for them. -/
theorem Sound.exists_drain (h : c.Sound P) (hP : ∀ w, P w → NulFree w)
    {happenings : List Happening} (hm : Meets P false c.pipe happenings) :
    ∃ commands taken after, c.drain happenings = .ok after ∧ after.Sound P ∧
      after.sent = c.sent ++ (Control.posts happenings).map Posting.command ∧
      after.drained = c.drained ++ [commands] ∧
      c.pipe ++ (Control.posts happenings).flatMap Posting.bytes = taken ++ after.pipe ∧
      (c.receiver.buffer.free ≠ [] → c.pipe ≠ [] → taken ≠ []) ∧
      ∀ w ∈ commands, Fits w := by
  have hposted := h.posts hm.posts
  obtain ⟨waiting, hsent, hkind, hframes⟩ := hposted.owed
  rw [foldl_post] at hsent hframes
  let s : Socket :=
    { c.receiver with line := { c.receiver.line with arrivals := arrivals happenings } }
  obtain ⟨taken, later, tokens, receiver, hw, hdrain, hcut, hpending, hb, hle, ho, hcap, hal⟩ :=
    exists_cuts_drain (s := s) h.isOpen hm.arrives
  have hheld : waiting.flatMap frame = s.buffer.unread ++ taken ++ later := by
    rw [hframes, List.append_assoc, ← hw]
  obtain ⟨commands, rest, rfl, rfl, hrest⟩ := hcut.frames (fun w hm ↦ hP w (hkind w hm)) hheld
  have hcommands : (commands.map Bytes.ofText).map Bytes.lossyText = commands := by
    rw [List.map_map]
    refine List.map_id'' (fun w ↦ ?_) commands
    rw [Function.comp_apply, Bytes.lossyText, Bytes.text?_ofText, Option.getD_some]
  have hcount : pendingBytes (arrivals happenings) - pendingBytes receiver.line.arrivals =
      taken.length := Nat.sub_eq_of_eq_add (Nat.add_comm _ _ ▸ hpending.symm)
  let after : Channel :=
    ⟨receiver, later, c.sent ++ (Control.posts happenings).map Posting.command,
      c.drained ++ [commands]⟩
  refine ⟨commands, taken, after, ?_, ⟨ho, hcap.trans h.capacity, hal, hcut.left_plain, rest,
    ?_, ?_, hrest⟩, rfl, rfl, hw, fun hf hp ↦ hb hf (hm.brings hp), fun w hm ↦ ?_⟩
  · rw [Channel.drain, hdrain, foldl_post, hcommands]
    dsimp only
    rw [hcount, hw, List.drop_left]
  · rw [hsent, List.flatten_append, List.flatten_singleton, List.append_assoc]
  · exact fun w hm ↦ hkind w (List.mem_append_right _ hm)
  · have hlt := hcut.length_lt (List.mem_map_of_mem hm)
    have hcapacity : s.buffer.capacity = 4096 := h.capacity
    have hshort : (Bytes.ofText w).length < 4096 := by omega
    exact Nat.le_of_lt_succ hshort

theorem Sound.prefix (h : c.Sound P) : c.drained.flatten <+: c.sent := by
  obtain ⟨waiting, hsent, -, -⟩ := h.owed
  exact ⟨waiting, hsent.symm⟩

theorem Sound.drained_eq (h : c.Sound P) (hp : c.pipe = []) : c.drained.flatten = c.sent := by
  obtain ⟨waiting, hsent, -, hframes⟩ := h.owed
  cases waiting with
  | nil => rw [hsent, List.append_nil]
  | cons w waiting =>
    rw [hp, List.append_nil] at hframes
    refine absurd ?_ h.partial_plain
    rw [← hframes]
    simp [frame]

def posted : List Event → List String
  | [] => []
  | .post p :: rest => p.command :: posted rest
  | .drain happenings :: rest => (Control.posts happenings).map Posting.command ++ posted rest

theorem Sound.exists_run (h : c.Sound P) (hP : ∀ w, P w → NulFree w) {events : List Event}
    (hc : c.Course P events) :
    ∃ last, c.run events = .ok last ∧ last.Sound P ∧ last.sent = c.sent ++ posted events := by
  induction events generalizing c with
  | nil => exact ⟨c, rfl, h, (List.append_nil _).symm⟩
  | cons event rest ih =>
    cases event with
    | post p =>
      obtain ⟨last, hrun, hlast, hsent⟩ := ih (h.post hc.1) hc.2
      refine ⟨last, hrun, hlast, ?_⟩
      rw [hsent, Channel.post, List.append_assoc]
      rfl
    | drain happenings =>
      obtain ⟨-, -, after, hdrain, hafter, hs, -⟩ := h.exists_drain hP hc.1
      obtain ⟨last, hrun, hlast, hsent⟩ := ih hafter (hc.2 after hdrain)
      refine ⟨last, ?_, hlast, ?_⟩
      · rw [run, List.foldlM_cons, step, hdrain]
        exact hrun
      · rw [hsent, hs, List.append_assoc]
        rfl

/-- Whatever the order of sending and draining, and however the reads cut what is in the pipe: the
drains return the commands in the order in which they were sent, each once and with its text, have
returned all of them when the pipe is empty, and take at least one byte when it is not. -/
theorem commands_arrive_once_in_order {events : List Event}
    (h : ({} : Channel).Course Plain events) :
    ∃ c, ({} : Channel).run events = .ok c ∧
      c.sent = posted events ∧
      c.drained.flatten <+: c.sent ∧
      (c.pipe = [] → c.drained.flatten = c.sent) ∧
      ∀ happenings, Meets Plain false c.pipe happenings →
        ∃ taken after, c.drain happenings = .ok after ∧
          c.pipe ++ (Control.posts happenings).flatMap Posting.bytes = taken ++ after.pipe ∧
          (c.pipe ≠ [] → taken ≠ []) := by
  obtain ⟨c, hrun, hsound, hsent⟩ := sound_new.exists_run (fun _ ↦ Plain.noNul) h
  refine ⟨c, hrun, hsent, hsound.prefix, hsound.drained_eq, fun happenings hm ↦ ?_⟩
  -- Commands that fit leave room, so whatever is in the pipe is gone on with.
  obtain ⟨waiting, -, hplain, hframes⟩ := hsound.owed
  have hroom := hsound.free_ne_nil hframes
    fun w hw ↦ (hplain w (List.mem_of_mem_head? hw)).short
  obtain ⟨-, taken, after, hd, -, -, -, hbytes, hb, -⟩ :=
    hsound.exists_drain (fun _ ↦ Plain.noNul) hm
  exact ⟨taken, after, hd, hbytes, hb hroom⟩

def clean : Posting := ⟨"fän", [.room 2, .interrupted, .room 9]⟩

def halt : Posting := ⟨stop, [.room 9]⟩

theorem sends_clean : clean.Sends Plain := ⟨⟨by decide, by decide +kernel⟩, rfl⟩

theorem sends_halt : halt.Sends Plain := ⟨⟨by decide, by decide +kernel⟩, rfl⟩

def early : List Happening :=
  [.read (.data [0x66, 0xc3]), .post halt, .read .interrupted,
    .read (.data [0xa4, 0x6e, 0x00, 0x73, 0x74]), .read .wouldBlock]

theorem commands_arrive_once_in_order_cut :
    ({} : Channel).Course Plain [.post clean, .drain early] ∧
      ∃ c, ({} : Channel).run [.post clean, .drain early] = .ok c ∧
        c.sent = ["fän", "stop"] ∧ c.drained.flatten <+: c.sent ∧
        (c.pipe = [] → c.drained.flatten = c.sent) := by
  have hc : ({} : Channel).Course Plain [.post clean, .drain early] := by
    refine ⟨sends_clean, ?_, fun _ _ ↦ trivial⟩
    have hclean : clean.bytes = [0x66, 0xc3, 0xa4, 0x6e, 0x00] := by decide +kernel
    have hhalt : halt.bytes = [0x73, 0x74, 0x6f, 0x70, 0x00] := by decide +kernel
    rw [post, hclean]
    refine ⟨by decide, sends_halt, ?_⟩
    rw [hhalt]
    exact ⟨by decide, .inl rfl, .inl rfl⟩
  obtain ⟨c, hrun, hsent, hprefix, hall, -⟩ := commands_arrive_once_in_order hc
  exact ⟨hc, c, hrun, hsent, hprefix, hall⟩

end Channel

end LocalHttp.Control
