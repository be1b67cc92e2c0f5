import LocalHttp.Proofs.Commands
import Mathlib.Data.List.Infix
import Mathlib.Data.List.TakeWhile

namespace LocalHttp.Control

theorem takeCommands_of_notMem {b : Buffer} (h : 0 ∉ b.unread) : takeCommands b = ([], b) := by
  rcases ht : b.takeToken [0] with ⟨token, found, rest⟩
  cases found with
  | false => exact takeCommands_of_missing ht
  | true =>
    obtain ⟨-, hu⟩ := takeToken_nul_found ht
    exact absurd (hu ▸ List.mem_append_right _ List.mem_cons_self) h

theorem Posting.Sends.nulFree {p : Posting} (h : p.Sends Plain) : p.Sends NulFree :=
  ⟨h.kind.noNul, h.ok⟩

namespace Channel

variable {c : Channel} {target : List String}

def drains : List Event → Nat
  | [] => 0
  | .post _ :: rest => drains rest
  | .drain _ :: rest => drains rest + 1

structure Kept (c : Channel) : Prop where
  sound : c.Sound NulFree
  fits : ∀ w ∈ c.drained.flatten, Fits w

theorem kept_new : ({} : Channel).Kept := ⟨sound_new, nofun⟩

theorem Kept.post (h : c.Kept) {p : Posting} (hp : p.Sends NulFree) :
    (c.post p).Kept := ⟨h.sound.post hp, h.fits⟩

theorem Kept.prefix (h : c.Kept) : c.drained.flatten <+: c.sent.takeWhile (Fits ·) := by
  obtain ⟨waiting, hsent, -, -⟩ := h.sound.owed
  rw [hsent, List.takeWhile_append_of_pos fun w hw ↦ decide_eq_true (h.fits w hw)]
  exact List.prefix_append _ _

theorem Kept.nothing_returned (h : c.Kept) {w : String} {rest : List String}
    (hs : c.sent = w :: rest) (hw : ¬Fits w) : c.drained.flatten = [] := by
  have hfirst : ¬decide (Fits w) = true := mt of_decide_eq_true hw
  have hnone : c.sent.takeWhile (Fits ·) = [] := hs ▸ List.takeWhile_cons_of_neg hfirst
  exact List.prefix_nil.1 (hnone ▸ h.prefix)

/-- All of `target` has been returned, or so much of it has been taken off the pipe that this many
drains are enough for what is left. -/
def Due (c : Channel) (target : List String) (count : Nat) : Prop :=
  target <+: c.drained.flatten ∨
    (target.flatMap frame).length + c.pipe.length ≤ (c.sent.flatMap frame).length + count

theorem Kept.exists_waiting (h : c.Kept) (ht : target <+: c.sent)
    (hn : ¬target <+: c.drained.flatten) :
    ∃ w rest behind, w ∈ target ∧ c.sent = target ++ behind ∧
      (w :: (rest ++ behind)).flatMap frame = c.receiver.buffer.unread ++ c.pipe := by
  obtain ⟨waiting, hsent, -, hframes⟩ := h.sound.owed
  obtain ⟨behind, hbehind⟩ := ht
  rw [← hbehind] at hsent
  rcases List.append_eq_append_iff.1 hsent with ⟨more, hd, -⟩ | ⟨more, rfl, rfl⟩
  · exact absurd ⟨more, hd.symm⟩ hn
  · cases more with
    | nil => exact absurd (by simp) hn
    | cons w rest => exact ⟨w, rest, behind, by simp, hbehind.symm, hframes⟩

theorem Kept.length_lt (h : c.Kept) {w : String} {rest : List String}
    (hframes : (w :: rest).flatMap frame = c.receiver.buffer.unread ++ c.pipe) :
    c.receiver.buffer.unread.length < (frame w).length := by
  by_cases hle : (frame w).length ≤ c.receiver.buffer.unread.length
  · have hp : frame w <+: c.receiver.buffer.unread :=
      List.prefix_of_prefix_length_le ⟨rest.flatMap frame, hframes⟩ (List.prefix_append _ _) hle
    exact absurd (hp.subset (by simp [frame])) h.sound.partial_plain
  · exact Nat.lt_of_not_le hle

theorem Kept.isPrefix_of_due (h : c.Kept) (ht : target <+: c.sent) (hd : c.Due target 0) :
    target <+: c.drained.flatten := by
  by_cases hn : target <+: c.drained.flatten
  · exact hn
  · obtain ⟨w, rest, behind, -, hsent, hframes⟩ := h.exists_waiting ht hn
    have hle := hd.resolve_left hn
    have hlt := h.length_lt hframes
    have hlength := congrArg List.length hframes
    rw [hsent] at hle
    simp only [List.flatMap_cons, List.flatMap_append, List.length_append] at hle hlength
    omega

theorem Kept.length_pipe_le (h : c.Kept) : c.pipe.length ≤ (c.sent.flatMap frame).length := by
  obtain ⟨waiting, hsent, -, hframes⟩ := h.sound.owed
  rw [hsent, List.flatMap_append, hframes]
  simp only [List.length_append]
  omega

theorem flatMap_bytes {ps : List Posting} (h : ∀ p ∈ ps, p.Sends NulFree) :
    ps.flatMap Posting.bytes = (ps.map Posting.command).flatMap frame := by
  rw [List.flatMap_map, List.flatMap_def, List.flatMap_def,
    List.map_congr_left fun p hp ↦ Posting.bytes_eq (h p hp).ok]

theorem Due.post {count : Nat} (hd : c.Due target count) {p : Posting} (hp : p.call.1 = .ok ()) :
    (c.post p).Due target count := by
  refine hd.imp_right fun hle ↦ ?_
  simp only [Channel.post, Posting.bytes_eq hp, List.flatMap_append, List.flatMap_singleton,
    List.length_append]
  omega

/-- A drain returns commands that fit, and brings those closer that are due. -/
theorem Kept.exists_drain (h : c.Kept) {happenings : List Happening}
    (hm : Meets NulFree false c.pipe happenings) :
    ∃ commands after, c.drain happenings = .ok after ∧ after.Kept ∧
      after.sent = c.sent ++ (Control.posts happenings).map Posting.command ∧
      after.drained = c.drained ++ [commands] ∧
      ∀ target count, target <+: c.sent → (∀ w ∈ target, Fits w) → c.Due target (count + 1) →
        after.Due target count := by
  obtain ⟨commands, taken, after, hd, hi, hsent, hdrained, hbytes, hb, hfits⟩ :=
    h.sound.exists_drain (fun _ ↦ id) hm
  refine ⟨commands, after, hd, ⟨hi, fun w hw ↦ ?_⟩, hsent, hdrained, ?_⟩
  · rw [hdrained, List.flatten_append, List.flatten_singleton] at hw
    exact (List.mem_append.1 hw).elim (h.fits w) (hfits w)
  · intro target count ht hshort hdue
    by_cases hn : target <+: c.drained.flatten
    · refine .inl (hn.trans ?_)
      rw [hdrained, List.flatten_append]
      exact List.prefix_append _ _
    · -- The next command to come is one of `target`, so there is room, and its NUL is in the pipe.
      obtain ⟨w, rest, behind, hw, -, hframes⟩ := h.exists_waiting ht hn
      have hlt := h.length_lt hframes
      have hroom := h.sound.free_ne_nil hframes fun v hv ↦ Option.some.inj hv ▸ hshort w hw
      have hpipe : c.pipe ≠ [] := by
        intro hp
        have hlength := congrArg List.length hframes
        rw [hp] at hlength
        simp only [List.flatMap_cons, List.length_append, List.length_nil] at hlength
        omega
      have htaken := List.length_pos_iff.2 (hb hroom hpipe)
      have hlength := congrArg List.length hbytes
      have hle := hdue.resolve_left hn
      rw [flatMap_bytes hm.posts] at hlength
      refine .inr ?_
      rw [hsent]
      simp only [List.flatMap_append, List.length_append] at hlength ⊢
      omega

/-- Commands that fit are all returned after as many drains as are due. -/
theorem Kept.exists_run (h : c.Kept) {events : List Event} (hc : c.Course NulFree events)
    (ht : target <+: c.sent) (hfits : ∀ w ∈ target, Fits w) (hd : c.Due target (drains events)) :
    ∃ lists last, c.run events = .ok last ∧ last.Kept ∧ last.sent = c.sent ++ posted events ∧
      last.drained = c.drained ++ lists ∧ target <+: last.drained.flatten := by
  induction events generalizing c with
  | nil =>
    exact ⟨[], c, rfl, h, (List.append_nil _).symm, (List.append_nil _).symm,
      h.isPrefix_of_due ht hd⟩
  | cons event rest ih =>
    cases event with
    | post p =>
      obtain ⟨lists, last, hrun, hlast, hsent, hdrained, hall⟩ := ih (h.post hc.1) hc.2
        (ht.trans (List.prefix_append _ _)) (hd.post hc.1.ok)
      refine ⟨lists, last, hrun, hlast, ?_, hdrained, hall⟩
      rw [hsent, Channel.post, List.append_assoc]
      rfl
    | drain happenings =>
      obtain ⟨commands, after, hdrain, hafter, hs, hr, hnear⟩ := h.exists_drain hc.1
      obtain ⟨lists, last, hrun, hlast, hsent, hdrained, hall⟩ := ih hafter (hc.2 after hdrain)
        (hs ▸ ht.trans (List.prefix_append _ _)) (hnear target _ ht hfits hd)
      refine ⟨commands :: lists, last, ?_, hlast, ?_, ?_, hall⟩
      · rw [run, List.foldlM_cons, step, hdrain]
        exact hrun
      · rw [hsent, hs, List.append_assoc]
        rfl
      · rw [hdrained, hr, List.append_assoc]
        rfl

theorem Course.of_append {P : String → Prop} {events later : List Event}
    (h : c.Course P (events ++ later)) :
    c.Course P events ∧ ∀ next, c.run events = .ok next → next.Course P later := by
  induction events generalizing c with
  | nil => exact ⟨trivial, fun next hr ↦ by cases hr; exact h⟩
  | cons event rest ih =>
    cases event with
    | post p => exact ⟨⟨h.1, (ih h.2).1⟩, (ih h.2).2⟩
    | drain happenings =>
      refine ⟨⟨h.1, fun next hn ↦ (ih (h.2 next hn)).1⟩, fun last hr ↦ ?_⟩
      rw [run, List.foldlM_cons, step] at hr
      cases hd : c.drain happenings with
      | error fault =>
        rw [hd] at hr
        cases hr
      | ok next =>
        rw [hd] at hr
        exact (ih (h.2 next hd)).2 last hr

theorem receive_data {b : Buffer} (hr : b.free ≠ []) (bytes : Bytes) :
    (receive b 0 [.data bytes]).fault = none ∧
      pendingBytes (receive b 0 [.data bytes]).rest = (bytes.drop b.writable).length := by
  have hroom : ¬b.free.isEmpty = true := mt List.isEmpty_iff.1 hr
  unfold receive
  rw [if_neg hroom]
  dsimp only
  split
  · rename_i hleft
    rw [hleft]
    exact ⟨rfl, rfl⟩
  · exact ⟨rfl, rfl⟩

theorem drain_eq (ho : c.receiver.isOpen = true) {happenings : List Happening} {r : Received}
    (hr : receive c.receiver.buffer 0 (arrivals happenings) = r) (hf : r.fault = none) :
    c.drain happenings = .ok { (Control.posts happenings).foldl post c with
      receiver := { c.receiver with
        line := { c.receiver.line with arrivals := r.rest }
        buffer := (takeCommands r.buffer).2.realign
        peerClosed := c.receiver.peerClosed || r.sawEnd }
      pipe := ((Control.posts happenings).foldl post c).pipe.drop
        (pendingBytes (arrivals happenings) - pendingBytes r.rest)
      drained := ((Control.posts happenings).foldl post c).drained ++
        [(takeCommands r.buffer).1] } := by
  let s : Socket :=
    { c.receiver with line := { c.receiver.line with arrivals := arrivals happenings } }
  have hread : s.read = (.ok r.count, { s with
      line := { s.line with arrivals := r.rest }
      buffer := r.buffer
      peerClosed := s.peerClosed || r.sawEnd }) := by
    unfold Socket.read
    rw [if_pos ho]
    dsimp only [s]
    rw [hr, hf]
  have hdrain : Control.drain s = (.ok (takeCommands r.buffer).1, { s with
      line := { s.line with arrivals := r.rest }
      buffer := (takeCommands r.buffer).2.realign
      peerClosed := s.peerClosed || r.sawEnd }) := by
    rw [Control.drain, hread]
  rw [Channel.drain, hdrain]

theorem pipe_of_drain (ho : c.receiver.isOpen = true) (hr : c.receiver.buffer.free ≠ [])
    {next : Channel} (h : c.drain [.read (.data c.pipe)] = .ok next) :
    next.pipe = c.pipe.drop c.receiver.buffer.writable := by
  let r := receive c.receiver.buffer 0 [.data c.pipe]
  obtain ⟨hfault, hpending⟩ := receive_data hr c.pipe
  have hreceive : receive c.receiver.buffer 0 (arrivals [.read (.data c.pipe)]) = r := rfl
  rw [drain_eq ho hreceive hfault] at h
  cases h
  change c.pipe.drop (c.pipe.length + 0 - pendingBytes r.rest) = c.pipe.drop _
  rw [hpending, List.drop_eq_drop_iff, List.length_drop]
  omega

/-- A buffer that is full and holds no NUL stays so, and nothing is returned. -/
theorem drain_of_full (h : c.Kept) (hf : c.receiver.buffer.free = [])
    (happenings : List Happening) :
    c.drain happenings = .ok { (Control.posts happenings).foldl post c with
      receiver := { c.receiver with
        line := { c.receiver.line with arrivals := arrivals happenings } }
      drained := ((Control.posts happenings).foldl post c).drained ++ [[]] } := by
  have htake : takeCommands c.receiver.buffer = ([], c.receiver.buffer) :=
    takeCommands_of_notMem h.sound.partial_plain
  have hrealign : c.receiver.buffer.realign = c.receiver.buffer :=
    if_pos (List.isEmpty_iff.2 h.sound.aligned)
  rw [drain_eq h.sound.isOpen (receive_of_full hf 0 _) rfl]
  dsimp only
  rw [htake, hrealign, Nat.sub_self, List.drop_zero, Bool.or_false]

theorem course_replicate {P : String → Prop} {happenings : List Happening}
    {Q : Channel → Prop} (hm : ∀ c, Q c → Meets P false c.pipe happenings)
    (hs : ∀ c next, Q c → c.drain happenings = .ok next → Q next) (hc : Q c) (count : Nat) :
    c.Course P (List.replicate count (.drain happenings)) := by
  induction count generalizing c with
  | zero => trivial
  | succ count ih => exact ⟨hm c hc, fun next hd ↦ ih (hs c next hc hd)⟩

theorem Kept.blocked (h : c.Kept) (hf : c.receiver.buffer.free = []) {happenings : List Happening}
    (hm : Meets NulFree false c.pipe happenings) {next : Channel}
    (hd : c.drain happenings = .ok next) :
    next.Kept ∧ next.receiver.buffer.free = [] ∧
      next.pipe = c.pipe ++ (Control.posts happenings).flatMap Posting.bytes := by
  obtain ⟨-, after, hafter, hkept, -⟩ := h.exists_drain hm
  obtain rfl := Except.ok.inj (hd.symm.trans hafter)
  rw [drain_of_full h hf] at hd
  cases hd
  refine ⟨hkept, hf, ?_⟩
  rw [foldl_post]

theorem first_drain {p : Posting} (hp : p.Sends NulFree) :
    Meets NulFree false (p.bytes ++ halt.bytes) [.read (.data (p.bytes ++ halt.bytes))] ∧
      ∀ next, ((({} : Channel).post p).post halt).drain
        [.read (.data (p.bytes ++ halt.bytes))] = .ok next →
        next.Kept ∧ next.sent = [p.command, stop] ∧
          next.pipe = (p.bytes ++ halt.bytes).drop Buffer.defaultCapacity := by
  have hne : p.bytes ++ halt.bytes ≠ [] := by
    rw [Posting.bytes_eq hp.ok]
    simp [frame]
  have hm : Meets NulFree false (p.bytes ++ halt.bytes) [.read (.data (p.bytes ++ halt.bytes))] :=
    ⟨⟨hne, List.prefix_rfl⟩, .inl rfl⟩
  refine ⟨hm, fun next hd ↦ ?_⟩
  have hkept := (kept_new.post hp).post sends_halt.nulFree
  obtain ⟨-, after, hafter, hnext, hsent, -⟩ := hkept.exists_drain (by exact hm)
  obtain rfl := Except.ok.inj (hd.symm.trans hafter)
  refine ⟨hnext, hsent, ?_⟩
  let b := Buffer.ofCapacity Buffer.defaultCapacity
  have hwritable : b.writable = Buffer.defaultCapacity := List.length_replicate
  have hroom : 0 < b.free.length := Nat.lt_of_lt_of_eq (by decide) hwritable.symm
  have hpipe := pipe_of_drain rfl (List.ne_nil_of_length_pos hroom) hd
  exact hpipe.trans (congrArg (fun count ↦ List.drop count _) hwritable)

/-- Commands in front that fit cannot keep a stop from being returned: as many drains are enough as
bytes have been sent. From the first command that does not fit, nothing is returned at all. -/
theorem stop_is_returned_unless_overlong {events later : List Event} {p : Posting}
    (h : ({} : Channel).Course NulFree (events ++ .post p :: later)) (hp : p.command = stop)
    (hd : ((posted events ++ [stop]).flatMap frame).length ≤ drains later) :
    ∃ c lists last, ({} : Channel).run events = .ok c ∧ (c.post p).run later = .ok last ∧
      last.drained = c.drained ++ lists ∧
      ((∀ w ∈ posted events, Fits w) → ∃ list ∈ lists, stop ∈ list) ∧
      (posted events ++ [stop]).takeWhile (Fits ·) <+: last.drained.flatten ∧
      last.drained.flatten <+: (posted events ++ stop :: posted later).takeWhile (Fits ·) := by
  obtain ⟨hbefore, hafter⟩ := h.of_append
  obtain ⟨-, c, hrun, hc, hsent, -⟩ :=
    kept_new.exists_run hbefore List.nil_prefix nofun (.inl List.nil_prefix)
  obtain ⟨hposted, hcourse⟩ := hafter c hrun
  have hnext := hc.post hposted
  have hposts : (c.post p).sent = posted events ++ [stop] := by
    rw [Channel.post, hsent, hp]
    rfl
  have hfitting : (posted events ++ [stop]).takeWhile (Fits ·) <+: posted events ++ [stop] :=
    List.takeWhile_prefix _
  have hdue : (c.post p).Due ((posted events ++ [stop]).takeWhile (Fits ·)) (drains later) := by
    have hle := (hfitting.flatMap frame).length_le
    have hpipe := hnext.length_pipe_le
    exact .inr (by omega)
  obtain ⟨lists, last, hlater, hlast, hsends, hdrained, hall⟩ :=
    hnext.exists_run hcourse (hposts ▸ hfitting)
      (fun w hw ↦ of_decide_eq_true (List.mem_takeWhile_imp (p := fun w ↦ decide (Fits w)) hw)) hdue
  have hlists : last.drained = c.drained ++ lists := hdrained
  refine ⟨c, lists, last, hrun, hlater, hlists, fun hfits ↦ ?_, hall, ?_⟩
  · obtain ⟨waiting, howed, -, -⟩ := hc.sound.owed
    have hself : (posted events ++ [stop]).takeWhile (Fits ·) = posted events ++ [stop] := by
      refine List.takeWhile_eq_self_iff.2 fun w hw ↦ decide_eq_true ?_
      rcases List.mem_append.1 hw with hw | hw
      · exact hfits w hw
      · exact List.mem_singleton.1 hw ▸ (by decide)
    have hsplit : posted events = c.drained.flatten ++ waiting := hsent.symm.trans howed
    rw [hself, hlists, List.flatten_append, hsplit, List.append_assoc,
      List.prefix_append_right_inj] at hall
    exact List.mem_flatten.1 (hall.subset (by simp))
  · rw [← List.singleton_append, ← List.append_assoc, ← hposts, ← hsends]
    exact hlast.prefix

def patience : List Event :=
  .drain [.read (.data (clean.bytes ++ halt.bytes))] :: List.replicate 9 (.drain [])

theorem stop_is_returned_unless_overlong_clean :
    ({} : Channel).Course NulFree ([.post clean] ++ .post halt :: patience) ∧
      halt.command = stop ∧
      ((posted [.post clean] ++ [stop]).flatMap frame).length ≤ drains patience ∧
      ∃ c lists last, ({} : Channel).run [.post clean] = .ok c ∧
        (c.post halt).run patience = .ok last ∧ last.drained = c.drained ++ lists ∧
        ∃ list ∈ lists, stop ∈ list := by
  have hclean : clean.Sends NulFree := sends_clean.nulFree
  have hcourse : ({} : Channel).Course NulFree ([.post clean] ++ .post halt :: patience) := by
    obtain ⟨hm, hnext⟩ := first_drain hclean
    refine ⟨hclean, sends_halt.nulFree, hm, fun next hd ↦ ?_⟩
    obtain ⟨hkept, -, hpipe⟩ := hnext next hd
    have hidle (c : Channel) (hc : c.pipe = []) : Meets NulFree false c.pipe [] := Or.inr hc
    refine course_replicate (Q := fun c ↦ c.Sound NulFree ∧ c.pipe = [])
      (fun c hc ↦ hidle c hc.2) ?_ ⟨hkept.sound, ?_⟩ 9
    · intro c after hc hd
      obtain ⟨-, taken, last, hl, hs, -, -, hbytes, -⟩ :=
        hc.1.exists_drain (fun _ ↦ id) (hidle c hc.2)
      obtain rfl := Except.ok.inj (hd.symm.trans hl)
      rw [hc.2] at hbytes
      exact ⟨hs, (List.append_eq_nil_iff.1 hbytes.symm).2⟩
    · have hbytes : clean.bytes ++ halt.bytes =
        [0x66, 0xc3, 0xa4, 0x6e, 0x00, 0x73, 0x74, 0x6f, 0x70, 0x00] := by decide +kernel
      rw [hpipe, hbytes]
      rfl
  have hfits : ∀ w ∈ posted [.post clean], Fits w :=
    fun w hw ↦ List.mem_singleton.1 hw ▸ sends_clean.kind.short
  have hcount : ((posted [.post clean] ++ [stop]).flatMap frame).length ≤ drains patience := by
    decide +kernel
  obtain ⟨c, lists, last, hrun, hlater, hdrained, hstop, -⟩ :=
    stop_is_returned_unless_overlong hcourse rfl hcount
  exact ⟨hcourse, rfl, hcount, c, lists, last, hrun, hlater, hdrained, hstop hfits⟩

theorem length_frame (command : String) :
    (frame command).length = (Bytes.ofText command).length + 1 := List.length_append

def ofLength (count : Nat) : Posting :=
  ⟨String.ofList (List.replicate count 'x'), [.room (count + 1)]⟩

theorem toList_ofLength (count : Nat) :
    (ofLength count).command.toList = List.replicate count 'x' := String.toList_ofList

theorem length_ofLength (count : Nat) :
    (Bytes.ofText (ofLength count).command).length = count := by
  have hascii : ∀ c ∈ (ofLength count).command.toList, c.toNat < 128 := by
    intro c hc
    rw [toList_ofLength] at hc
    rw [List.eq_of_mem_replicate hc]
    decide
  rw [Bytes.ofText_of_ascii hascii, List.length_map, toList_ofLength, List.length_replicate]

theorem sends_ofLength (count : Nat) :
    (ofLength count).Sends NulFree := by
  constructor
  · intro hm
    rw [toList_ofLength] at hm
    exact absurd (List.eq_of_mem_replicate hm) (by decide)
  · have hlength : (frame (ofLength count).command).length = count + 1 := by
      rw [length_frame, length_ofLength]
    have hne : ¬(frame (ofLength count).command).isEmpty = true := by
      simp [frame]
    have ht : transmit [] (frame (ofLength count).command) [.room (count + 1)] =
        { sent := frame (ofLength count).command, unsent := [], rest := [] } := by
      unfold transmit
      rw [if_neg hne]
      dsimp only
      rw [List.take_of_length_le hlength.le, List.drop_of_length_le hlength.le]
      rfl
    unfold Posting.call send Socket.write
    rw [if_pos rfl]
    dsimp only
    rw [show (ofLength count).acceptances = [.room (count + 1)] from rfl, ht]

def attempts (p : Posting) (count : Nat) : List Event :=
  .drain [.read (.data (p.bytes ++ halt.bytes))] ::
    List.replicate count (.drain [.read (.data (0 :: halt.bytes))])

theorem drains_attempts (p : Posting) (count : Nat) : drains (attempts p count) = count + 1 := by
  refine congrArg (· + 1) ?_
  induction count with
  | zero => rfl
  | succ count ih => exact congrArg (· + 1) ih

theorem not_fits_of_length {command : String}
    (h : (Bytes.ofText command).length = Buffer.defaultCapacity) : ¬Fits command := by
  rw [Fits, h]
  decide

theorem course_attempts {p : Posting} (hp : p.Sends NulFree)
    (hl : (Bytes.ofText p.command).length = Buffer.defaultCapacity) (count : Nat) :
    ((({} : Channel).post p).post halt).Course NulFree (attempts p count) := by
  have hhalt : halt.bytes = frame stop := Posting.bytes_eq sends_halt.ok
  have hrest : (p.bytes ++ halt.bytes).drop Buffer.defaultCapacity = 0 :: halt.bytes := by
    rw [Posting.bytes_eq hp.ok, frame, List.append_assoc, ← hl, List.drop_left]
    rfl
  obtain ⟨hm, hnext⟩ := first_drain hp
  refine ⟨hm, fun next hd ↦ ?_⟩
  obtain ⟨hkept, hsent, hpipe⟩ := hnext next hd
  rw [hrest] at hpipe
  -- Nothing was returned, so what is not in the pipe is in the buffer: as much as that can hold.
  have hfull : next.receiver.buffer.free = [] := by
    obtain ⟨waiting, howed, -, hframes⟩ := hkept.sound.owed
    rw [hkept.nothing_returned hsent (not_fits_of_length hl), hsent, List.nil_append] at howed
    have hlength := congrArg List.length hframes
    have hcapacity := hkept.sound.capacity
    rw [← howed, hpipe, hhalt] at hlength
    simp only [List.flatMap_cons, List.flatMap_nil, List.length_append, List.length_cons,
      List.length_nil, length_frame, hl] at hlength
    rw [Buffer.capacity] at hcapacity
    exact List.length_eq_zero_iff.1 (by omega)
  have hmeets (c : Channel) (hc : c.pipe = 0 :: halt.bytes) :
      Meets NulFree false c.pipe [.read (.data (0 :: halt.bytes))] := by
    rw [hc]
    exact ⟨⟨List.cons_ne_nil _ _, List.prefix_rfl⟩, .inl rfl⟩
  refine course_replicate
    (Q := fun c ↦ c.Kept ∧ c.receiver.buffer.free = [] ∧ c.pipe = 0 :: halt.bytes)
    (fun c hc ↦ hmeets c hc.2.2) (fun c after hc hd ↦ ?_) ⟨hkept, hfull, hpipe⟩ count
  obtain ⟨hafter, hf, hp⟩ := hc.1.blocked hc.2.1 (hmeets c hc.2.2) hd
  exact ⟨hafter, hf, hp.trans ((List.append_nil _).trans hc.2.2)⟩

theorem locked_out {p : Posting} (hp : p.Sends NulFree)
    (hl : (Bytes.ofText p.command).length = Buffer.defaultCapacity) (count : Nat) :
    ∃ lists last, ((({} : Channel).post p).post halt).run (attempts p count) = .ok last ∧
      last.drained = lists ∧ ∀ list ∈ lists, stop ∉ list := by
  have hkept := (kept_new.post hp).post sends_halt.nulFree
  obtain ⟨lists, last, hrun, hlast, hsent, hdrained, -⟩ :=
    hkept.exists_run (course_attempts hp hl count) List.nil_prefix nofun (.inl List.nil_prefix)
  have hlists : last.drained = lists := hdrained
  have hnothing := hlast.nothing_returned hsent (not_fits_of_length hl)
  rw [hlists] at hnothing
  refine ⟨lists, last, hrun, hlists, fun list hm hs ↦ ?_⟩
  exact List.not_mem_nil (hnothing ▸ List.mem_flatten.2 ⟨list, hm, hs⟩)

def overlong : Posting := ofLength Buffer.defaultCapacity

/-- A stop is never returned behind it, not even by one drain more than bytes have been sent. -/
theorem stop_is_locked_out :
    ({} : Channel).Course NulFree ([.post overlong] ++ .post halt :: attempts overlong 4102) ∧
      halt.command = stop ∧
      drains (attempts overlong 4102) =
        ((posted [.post overlong] ++ [stop]).flatMap frame).length + 1 ∧
      ∃ c lists last, ({} : Channel).run [.post overlong] = .ok c ∧
        (c.post halt).run (attempts overlong 4102) = .ok last ∧ last.drained = c.drained ++ lists ∧
        ∀ list ∈ lists, stop ∉ list := by
  have hsends : overlong.Sends NulFree := sends_ofLength _
  have hlength : (Bytes.ofText overlong.command).length = Buffer.defaultCapacity :=
    length_ofLength _
  obtain ⟨lists, last, hrun, hdrained, hstop⟩ := locked_out hsends hlength 4102
  refine ⟨⟨hsends, sends_halt.nulFree, course_attempts hsends hlength 4102⟩, rfl, ?_,
    _, lists, last, rfl, hrun, hdrained, hstop⟩
  have hframe : (frame overlong.command).length = 4097 := by
    rw [length_frame, hlength]
    rfl
  have hshort : (frame stop).length = 5 := by decide +kernel
  rw [drains_attempts, posted, posted, List.singleton_append, List.flatMap_cons,
    List.flatMap_singleton, List.length_append, hframe, hshort]

end Channel

end LocalHttp.Control
