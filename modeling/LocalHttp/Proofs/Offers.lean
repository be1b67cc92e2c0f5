import LocalHttp.SystemCall
import Mathlib.Control.Monad.Basic

namespace LocalHttp

theorem Buffer.commit_stage {b : Buffer} {data : Bytes} (h : data.length ≤ b.writable) :
    (b.stage data).commit data.length = b.write data := by
  have ht := List.take_of_length_le h
  simp only [stage, commit, write, ht, List.take_left, List.drop_left]

theorem Buffer.writable_write {b : Buffer} {data : Bytes} (h : data.length ≤ b.writable) :
    (b.write data).writable + data.length = b.writable := by
  unfold writable at h
  simp only [write, writable, List.length_drop, List.length_take]
  omega

/-- A loop that has gone on behind each report but this one, which is the last. -/
def EndsIn {ρ : Type} (goesOn : ρ → Bool) (reports : List ρ) (last : ρ) : Prop :=
  ∃ before, reports = before ++ [last] ∧ ∀ report ∈ before, goesOn report = true

namespace EndsIn

variable {ρ : Type} {goesOn : ρ → Bool} {reports : List ρ} {report last : ρ}

theorem single : EndsIn goesOn [last] last := ⟨[], rfl, by simp⟩

theorem cons (hr : goesOn report = true) (h : EndsIn goesOn reports last) :
    EndsIn goesOn (report :: reports) last := by
  obtain ⟨before, rfl, hb⟩ := h
  exact ⟨report :: before, rfl, List.forall_mem_cons.2 ⟨hr, hb⟩⟩

end EndsIn

inductive Ended {ρ : Type} (goesOn : ρ → Bool) (finished : Prop) : List ρ → Prop
  | finished : finished → Ended goesOn finished []
  | last {report : ρ} : goesOn report = false → Ended goesOn finished [report]
  | cons {report : ρ} {reports : List ρ} : goesOn report = true →
    Ended goesOn finished reports → Ended goesOn finished (report :: reports)

theorem EndsIn.ended {ρ : Type} {goesOn : ρ → Bool} {reports : List ρ} {last : ρ} {finished : Prop}
    (h : EndsIn goesOn reports last) (hl : goesOn last = false) :
    Ended goesOn finished reports := by
  obtain ⟨before, rfl, hb⟩ := h
  induction before with
  | nil => exact .last hl
  | cons report before ih =>
    rw [List.forall_mem_cons] at hb
    exact .cons hb.1 (ih hb.2)

/-- Why a loop of calls ends, and what it answers then: nothing is left to do, a call has made it
pause, or a call has failed. -/
inductive Stops {ρ ε : Type} (goesOn : ρ → Bool) (finished : Prop) (pauses : ρ → Prop)
    (fault : Errno → ρ) (failed : Errno → ε) (count : Nat) (reports : List ρ) :
    Except ε Nat → Prop
  | finished : finished → (∀ report ∈ reports, goesOn report = true) →
    Stops goesOn finished pauses fault failed count reports (.ok count)
  | pause {last : ρ} : pauses last → EndsIn goesOn reports last →
    Stops goesOn finished pauses fault failed count reports (.ok count)
  | fault {errno : Errno} : EndsIn goesOn reports (fault errno) →
    Stops goesOn finished pauses fault failed count reports (.error (failed errno))

namespace Stops

variable {ρ ε : Type} {goesOn : ρ → Bool} {finished : Prop} {pauses : ρ → Prop}
  {fault : Errno → ρ} {failed : Errno → ε} {count : Nat} {reports : List ρ}

theorem cons {report : ρ} {answer : Except ε Nat} (hr : goesOn report = true)
    (h : Stops goesOn finished pauses fault failed count reports answer) :
    Stops goesOn finished pauses fault failed count (report :: reports) answer := by
  cases h with
  | finished hf hall => exact .finished hf (List.forall_mem_cons.2 ⟨hr, hall⟩)
  | pause hp he => exact .pause hp (he.cons hr)
  | fault he => exact .fault (he.cons hr)

theorem mapError {answer : Except Errno Nat} (failed : Errno → ε)
    (h : Stops goesOn finished pauses fault id count reports answer) :
    Stops goesOn finished pauses fault failed count reports (answer.mapError failed) := by
  cases h with
  | finished hf hall => exact .finished hf hall
  | pause hp he => exact .pause hp he
  | fault he => exact .fault he

theorem ended {answer : Except ε Nat}
    (h : Stops goesOn finished pauses fault failed count reports answer)
    (hp : ∀ report, pauses report → goesOn report = false)
    (hf : ∀ errno, goesOn (fault errno) = false) : Ended goesOn finished reports := by
  cases h with
  | finished hd hall =>
    induction reports with
    | nil => exact .finished hd
    | cons report reports ih =>
      rw [List.forall_mem_cons] at hall
      exact .cons hall.1 (ih hall.2)
  | pause hpause he => exact he.ended (hp _ hpause)
  | fault he => exact he.ended (hf _)

theorem eq_count {n : Nat}
    (h : Stops goesOn finished pauses fault failed count reports (.ok n)) : n = count := by
  cases h <;> rfl

end Stops

/-- Calls one after the other, and where they leave a line that answers each of them. -/
inductive Answered {κ σ : Type} (answers : κ → σ → σ → Prop) : σ → List κ → σ → Prop
  | nil (line : σ) : Answered answers line [] line
  | cons {call : κ} {calls : List κ} {line next rest : σ} : answers call line next →
    Answered answers next calls rest → Answered answers line (call :: calls) rest

def ReadCall.Answers (call : ReadCall) (arrivals rest : List Arrival) : Prop :=
  reportRead call.room arrivals = (call.report, rest)

def WriteCall.Answers (call : WriteCall) (acceptances rest : List Acceptance) : Prop :=
  reportWrite call.offered.length acceptances = (call.report, rest)

section Reading

variable {b : Buffer} {total : Nat} {arrivals rest : List Arrival} {report : ReadReport}

theorem length_data_le {room : Nat} (h : reportRead room arrivals = (report, rest)) :
    report.data.length ≤ room := by
  induction arrivals with
  | nil => cases h; exact Nat.zero_le _
  | cons a later ih =>
    cases a with
    | data bytes =>
      unfold reportRead at h
      split at h
      · exact ih h
      · split at h <;> cases h
        · assumption
        · exact List.length_take_le room bytes
    | _ => cases h; exact Nat.zero_le _

def receiveBehind (b : Buffer) (total : Nat) (rest : List Arrival) : ReadReport → Received
  | .bytes [] => { buffer := b, count := total, sawEnd := true, rest := rest }
  | .bytes data => receive (b.write data) (total + data.length) rest
  | .wouldBlock => { buffer := b, count := total, rest := rest }
  | .interrupted => receive b total rest
  | .fault errno => { buffer := b, count := total, fault := some errno, rest := rest }

theorem receiveBehind_bytes {data : Bytes} (hd : data ≠ []) :
    receiveBehind b total rest (.bytes data) =
      receive (b.write data) (total + data.length) rest := by
  cases data with
  | nil => exact absurd rfl hd
  | cons first data => rfl

theorem receive_eq (hb : b.writable ≠ 0) (total : Nat)
    (h : reportRead b.writable arrivals = (report, rest)) :
    receive b total arrivals = receiveBehind b total rest report := by
  have hfree : ¬b.free.isEmpty = true := fun he ↦
    hb (List.length_eq_zero_iff.2 (List.isEmpty_iff.1 he))
  induction arrivals with
  | nil => cases h; rfl
  | cons a later ih =>
    unfold receive
    rw [if_neg hfree]
    cases a with
    | data bytes =>
      unfold reportRead at h
      split at h <;> rename_i he
      · have hw : b.write [] = b := by simp [Buffer.write]
        rw [List.isEmpty_iff.1 he]
        simpa only [List.drop_nil, List.length_nil, Nat.add_zero, hw] using ih h
      · have hne : bytes ≠ [] := mt List.isEmpty_iff.2 he
        split at h <;> rename_i hl <;> cases h
        · rw [receiveBehind_bytes hne]
          simp only [List.drop_eq_nil_of_le hl]
        · -- the part that fits fills the buffer, so the run ends with it
          have htake : (bytes.take b.writable).length = b.writable := by
            rw [List.length_take]
            omega
          have hroom := Buffer.writable_write (Nat.le_of_eq htake)
          have hfull : (b.write (bytes.take b.writable)).writable = 0 := by omega
          have hw : b.write (bytes.take b.writable) = b.write bytes := by
            simp only [Buffer.write, List.take_take, Nat.min_self]
          rw [receiveBehind_bytes (List.ne_nil_of_length_pos (by omega)),
            receive_of_full (List.length_eq_zero_iff.1 hfull), htake, hw]
          dsimp only
          split
          · rename_i hn
            exact absurd (List.drop_eq_nil_iff.1 hn) hl
          · rfl
    | _ => cases h; rfl

/-- A run of reads that fills a buffer by what its calls bring. -/
structure ReadsBy {ε : Type} (failed : Errno → ε) (count : Nat) (b after : Buffer)
    (calls : List ReadCall) (answer : Except ε Nat) : Prop where
  unread : after.unread = b.unread ++ broughtBy calls
  spent : after.spent = b.spent
  writable : after.writable + (broughtBy calls).length = b.writable
  offered : ∀ before call later, calls = before ++ call :: later →
    call.room + (broughtBy before).length = b.writable ∧ 0 < call.room ∧
      call.report.data.length ≤ call.room
  stop : Stops ReadReport.goesOn (after.writable = 0)
    (fun report ↦ report = .wouldBlock ∨ report = .bytes []) .fault failed count
    (calls.map ReadCall.report) answer

theorem ReadsBy.mapError {ε : Type} {count : Nat} {after : Buffer} {calls : List ReadCall}
    {answer : Except Errno Nat} (failed : Errno → ε) (h : ReadsBy id count b after calls answer) :
    ReadsBy failed count b after calls (answer.mapError failed) where
  unread := h.unread
  spent := h.spent
  writable := h.writable
  offered := h.offered
  stop := h.stop.mapError failed

theorem ReadsBy.full (hb : b.writable = 0) : ReadsBy id total b b [] (.ok total) where
  unread := (List.append_nil _).symm
  spent := rfl
  writable := rfl
  offered before _ _ h := by simp at h
  stop := .finished hb (by simp)

theorem ReadsBy.last {answer : Except Errno Nat} (hb : b.writable ≠ 0) (hd : report.data = [])
    (hs : Stops ReadReport.goesOn (b.writable = 0)
      (fun report ↦ report = .wouldBlock ∨ report = .bytes []) .fault id total [report] answer) :
    ReadsBy id total b b [⟨b.writable, report⟩] answer where
  unread := by simp [hd]
  spent := rfl
  writable := by simp [hd]
  offered before call later h := by
    obtain ⟨rfl, h⟩ | ⟨before, rfl, h⟩ := List.cons_eq_append_iff.1 h
    · cases h
      exact ⟨rfl, Nat.pos_of_ne_zero hb, by simp [hd]⟩
    · simp at h
  stop := hs

theorem ReadsBy.cons {onward after : Buffer} {count : Nat} {calls : List ReadCall}
    {answer : Except Errno Nat} (hb : b.writable ≠ 0) (hr : report.goesOn = true)
    (hu : onward.unread = b.unread ++ report.data) (hspent : onward.spent = b.spent)
    (hw : onward.writable + report.data.length = b.writable)
    (h : ReadsBy id count onward after calls answer) :
    ReadsBy id count b after (⟨b.writable, report⟩ :: calls) answer where
  unread := by rw [h.unread, hu, broughtBy_cons, List.append_assoc]
  spent := h.spent.trans hspent
  writable := by
    have hafter := h.writable
    simp only [broughtBy_cons, List.length_append]
    omega
  offered before call later hc := by
    obtain ⟨rfl, hc⟩ | ⟨before, rfl, rfl⟩ := List.cons_eq_append_iff.1 hc
    · cases hc
      exact ⟨rfl, Nat.pos_of_ne_zero hb, hw ▸ Nat.le_add_left _ _⟩
    · obtain ⟨hroom, hpos, hle⟩ := h.offered before call later rfl
      refine ⟨?_, hpos, hle⟩
      simp only [broughtBy_cons, List.length_append]
      omega
  stop := h.stop.cons hr

theorem readsBy_readLoop (b : Buffer) (total : Nat) (arrivals : List Arrival) :
    ReadsBy id (total + (broughtBy (readLoop b total arrivals).calls).length) b
      (readLoop b total arrivals).buffer (readLoop b total arrivals).calls
      (readLoop b total arrivals).answer := by
  fun_induction readLoop b total arrivals with
  | case1 b total arrivals hb => exact .full hb
  | case2 b total arrivals hb rest h => exact .last hb rfl (.pause (.inr rfl) .single)
  | case3 b total arrivals hb first data rest h _ bytes onward ih =>
    have hl : bytes.length ≤ b.writable := length_data_le h
    have hw : (b.stage bytes).commit bytes.length = b.write bytes := Buffer.commit_stage hl
    refine .cons hb rfl (Buffer.unread_commit_stage b bytes hl) rfl ?_ ?_
    · rw [hw]
      exact Buffer.writable_write hl
    · rw [broughtBy_cons, List.length_append, ← Nat.add_assoc]
      exact ih
  | case4 b total arrivals hb rest h => exact .last hb rfl (.pause (.inl rfl) .single)
  | case5 b total arrivals hb rest h _ onward ih =>
    exact .cons hb rfl (List.append_nil _).symm rfl rfl ih
  | case6 b total arrivals hb errno rest h => exact .last hb rfl (.fault .single)

theorem exists_reportRead {room : Nat} {report : ReadReport} (h : report.data.length ≤ room)
    (rest : List Arrival) :
    ∃ a next, reportRead room (a :: rest) = (report, next) ∧
      (report ≠ .bytes [] → next = rest) := by
  cases report with
  | bytes data =>
    cases data with
    | nil => exact ⟨.endOfFile, _, rfl, fun hn ↦ absurd rfl hn⟩
    | cons first data =>
      exact ⟨.data (first :: data), rest, (if_neg (by simp)).trans (if_pos h), fun _ ↦ rfl⟩
  | wouldBlock => exact ⟨.wouldBlock, rest, rfl, fun _ ↦ rfl⟩
  | interrupted => exact ⟨.interrupted, rest, rfl, fun _ ↦ rfl⟩
  | fault errno => exact ⟨.fault errno, rest, rfl, fun _ ↦ rfl⟩

theorem calls_readLoop (hb : b.writable ≠ 0) (total : Nat)
    (h : reportRead b.writable arrivals = (report, rest)) :
    (readLoop b total arrivals).calls = ⟨b.writable, report⟩ ::
      if report.goesOn then
        (readLoop (b.write report.data) (total + report.data.length) rest).calls
      else [] := by
  fun_cases readLoop b total arrivals with
  | case1 hfull => exact absurd hfull hb
  | case3 _ first data _ h' _ bytes onward =>
    cases h'.symm.trans h
    have hw : (b.stage bytes).commit bytes.length = b.write bytes :=
      Buffer.commit_stage (length_data_le h)
    dsimp only [onward]
    rw [hw]
    rfl
  | case5 _ _ h' =>
    cases h'.symm.trans h
    have hw : b.write [] = b := by simp [Buffer.write]
    exact congrArg (fun c ↦ ⟨b.writable, .interrupted⟩ :: (readLoop c total rest).calls) hw.symm
  | case2 _ _ h' | case4 _ _ h' | case6 _ _ _ h' => cases h'.symm.trans h; rfl

/-- Any calls that a loop of reads may make are those that it makes on some line. -/
theorem exists_calls_readLoop {finished : Prop} {calls : List ReadCall} (b : Buffer) (total : Nat)
    (ho : ∀ before call later, calls = before ++ call :: later →
      call.room + (broughtBy before).length = b.writable ∧ 0 < call.room ∧
        call.report.data.length ≤ call.room)
    (he : Ended ReadReport.goesOn finished (calls.map ReadCall.report))
    (hf : finished → (broughtBy calls).length = b.writable) :
    ∃ arrivals, (readLoop b total arrivals).calls = calls := by
  induction calls generalizing b total with
  | nil =>
    cases he with
    | finished h =>
      have hfull : b.writable = 0 := (hf h).symm
      refine ⟨[], ?_⟩
      rw [readLoop, dif_pos hfull]
  | cons call calls ih =>
    obtain ⟨room, report⟩ := call
    obtain ⟨hroom, hpos, hle⟩ := ho [] _ calls rfl
    obtain rfl : room = b.writable := hroom
    have hb : b.writable ≠ 0 := Nat.ne_of_gt hpos
    rw [List.map_cons] at he
    generalize hr : calls.map ReadCall.report = reports at he
    cases he with
    | last hg =>
      obtain rfl := List.map_eq_nil_iff.1 hr
      obtain ⟨a, next, ha, -⟩ := exists_reportRead hle []
      refine ⟨[a], ?_⟩
      rw [calls_readLoop hb total ha, hg]
      rfl
    | cons hg he =>
      have hw : (b.write report.data).writable + report.data.length = b.writable :=
        Buffer.writable_write hle
      obtain ⟨arrivals, harrivals⟩ := ih (b.write report.data) (total + report.data.length)
        (fun before call later hc ↦ by
          obtain ⟨hroom, hcall⟩ := ho (⟨b.writable, report⟩ :: before) call later (hc ▸ rfl)
          simp only [broughtBy_cons, List.length_append] at hroom
          exact ⟨by omega, hcall⟩)
        (hr ▸ he)
        (fun h ↦ by
          have hall := hf h
          simp only [broughtBy_cons, List.length_append] at hall
          omega)
      obtain ⟨a, next, ha, hn⟩ := exists_reportRead hle arrivals
      obtain rfl : next = arrivals := hn fun hend ↦ by
        rw [hend] at hg
        cases hg
      refine ⟨a :: next, ?_⟩
      rw [calls_readLoop hb total ha, hg, if_pos rfl, harrivals]

theorem ReadsBy.exists_arrivals {ε : Type} {failed : Errno → ε} {count : Nat} {after : Buffer}
    {calls : List ReadCall} {answer : Except ε Nat}
    (h : ReadsBy failed count b after calls answer) :
    ∃ arrivals, (readLoop b 0 arrivals).calls = calls := by
  refine exists_calls_readLoop b 0 h.offered (h.stop.ended ?_ fun _ ↦ rfl) fun hfull ↦ ?_
  · rintro report (rfl | rfl) <;> rfl
  · have hw := h.writable
    omega

theorem sawEnd_readLoop (b : Buffer) (total : Nat) (arrivals : List Arrival) :
    (readLoop b total arrivals).sawEnd = true ↔
      ReadReport.bytes [] ∈ (readLoop b total arrivals).calls.map ReadCall.report := by
  fun_induction readLoop b total arrivals with
  | case3 b total arrivals hb first data rest h _ bytes onward ih => simpa using ih
  | case5 b total arrivals hb rest h _ onward ih => simpa using ih
  | _ => simp

theorem answered_readLoop (b : Buffer) (total : Nat) (arrivals : List Arrival) :
    Answered ReadCall.Answers arrivals (readLoop b total arrivals).calls
      (readLoop b total arrivals).rest := by
  fun_induction readLoop b total arrivals with
  | case1 b total arrivals => exact .nil arrivals
  | case3 b total arrivals hb first data rest h _ bytes onward ih => exact .cons h ih
  | case5 b total arrivals hb rest h _ onward ih => exact .cons h ih
  | case2 b total arrivals hb rest h | case4 b total arrivals hb rest h
  | case6 b total arrivals hb errno rest h => exact .cons h (.nil rest)

def Received.answer (r : Received) : Except Errno Nat :=
  match r.fault with
  | none => .ok r.count
  | some errno => .error errno

/-- The loop that counts what each call has moved comes to what a run of reads comes to. -/
theorem readLoop_eq (b : Buffer) (total : Nat) (arrivals : List Arrival) :
    readLoop b total arrivals =
      { buffer := (receive b total arrivals).buffer
        answer := (receive b total arrivals).answer
        sawEnd := (receive b total arrivals).sawEnd
        rest := (receive b total arrivals).rest
        calls := (readLoop b total arrivals).calls } := by
  fun_induction readLoop b total arrivals with
  | case1 b total arrivals hb => rw [receive_of_full (List.length_eq_zero_iff.1 hb)]; rfl
  | case3 b total arrivals hb first data rest h _ bytes onward ih =>
    have hw : (b.stage bytes).commit bytes.length = b.write bytes :=
      Buffer.commit_stage (length_data_le h)
    dsimp only [onward] at ih ⊢
    rw [hw] at ih ⊢
    rw [receive_eq hb total h]
    exact congrArg (fun l : ReadLoop ↦ { l with calls := ⟨b.writable, .bytes bytes⟩ :: l.calls }) ih
  | case5 b total arrivals hb rest h _ onward ih =>
    rw [receive_eq hb total h]
    exact congrArg (fun l : ReadLoop ↦ { l with calls := ⟨b.writable, .interrupted⟩ :: l.calls }) ih
  | case2 b total arrivals hb rest h | case4 b total arrivals hb rest h
  | case6 b total arrivals hb errno rest h => rw [receive_eq hb total h]; rfl

end Reading

section Writing

variable {data : Bytes} {sent count : Nat} {acceptances rest : List Acceptance}
  {report : WriteReport}

theorem accepted_le {offered : Nat} (h : reportWrite offered acceptances = (report, rest)) :
    report.accepted ≤ offered := by
  cases acceptances with
  | nil => cases h; exact Nat.zero_le _
  | cons a later =>
    cases a <;> cases h
    · exact Nat.min_le_right _ _
    all_goals exact Nat.zero_le _

theorem transmit_nil (before : Bytes) (acceptances : List Acceptance) :
    transmit before [] acceptances = { sent := before, unsent := [], rest := acceptances } := by
  cases acceptances <;> rfl

def transmitBehind (before data : Bytes) (rest : List Acceptance) : WriteReport → Transmitted
  | .count 0 => { sent := before, unsent := data, rest := rest }
  | .count (n + 1) => transmit (before ++ data.take (n + 1)) (data.drop (n + 1)) rest
  | .wouldBlock => { sent := before, unsent := data, rest := rest }
  | .interrupted => transmit before data rest
  | .fault errno => { sent := before, unsent := data, fault := some errno, rest := rest }

theorem transmit_eq (hd : data ≠ []) (before : Bytes)
    (h : reportWrite data.length acceptances = (report, rest)) :
    transmit before data acceptances = transmitBehind before data rest report := by
  cases acceptances with
  | nil => cases h; rfl
  | cons a later =>
    unfold transmit
    rw [if_neg (mt List.isEmpty_iff.1 hd)]
    cases a with
    | room count =>
      cases count with
      | zero =>
        cases h
        rw [Nat.zero_min]
        rfl
      | succ count =>
        cases h
        have hpos := List.length_pos_iff.2 hd
        obtain ⟨n, hn⟩ : ∃ n, min (count + 1) data.length = n + 1 :=
          Nat.exists_eq_succ_of_ne_zero (by omega)
        rw [hn]
        dsimp only [transmitBehind]
        rw [← hn, ← List.take_eq_take_min, ← List.drop_eq_drop_min]
    | _ => cases h; rfl

theorem length_acceptedBy_cons {offered : Bytes} {n : Nat} {calls : List WriteCall}
    (h : n ≤ offered.length) :
    (acceptedBy (⟨offered, .count n⟩ :: calls)).length = n + (acceptedBy calls).length := by
  rw [acceptedBy_cons, List.length_append, WriteReport.accepted, List.length_take_of_le h]

/-- A run of writes that sends `data`, of which `left` has not gone out. -/
structure WritesBy {ε : Type} (failed : Errno → ε) (count : Nat) (data left : Bytes)
    (calls : List WriteCall) (answer : Except ε Nat) : Prop where
  accepted : data = acceptedBy calls ++ left
  offered : ∀ before call later, calls = before ++ call :: later →
    data = acceptedBy before ++ call.offered ∧ call.offered ≠ [] ∧
      call.report.accepted ≤ call.offered.length
  stop : Stops WriteReport.goesOn (left = [])
    (fun report ↦ report = .wouldBlock ∨ report = .count 0) .fault failed count
    (calls.map WriteCall.report) answer

theorem WritesBy.mapError {ε : Type} {left : Bytes} {calls : List WriteCall}
    {answer : Except Errno Nat} (failed : Errno → ε)
    (h : WritesBy id count data left calls answer) :
    WritesBy failed count data left calls (answer.mapError failed) where
  accepted := h.accepted
  offered := h.offered
  stop := h.stop.mapError failed

theorem WritesBy.finished : WritesBy id count [] [] [] (.ok count) where
  accepted := rfl
  offered before _ _ h := by simp at h
  stop := .finished rfl (by simp)

theorem WritesBy.last {answer : Except Errno Nat} (hd : data ≠ []) (ha : report.accepted = 0)
    (hs : Stops WriteReport.goesOn (data = [])
      (fun report ↦ report = .wouldBlock ∨ report = .count 0) .fault id count [report] answer) :
    WritesBy id count data data [⟨data, report⟩] answer where
  accepted := by simp [ha]
  offered before call later h := by
    obtain ⟨rfl, h⟩ | ⟨before, rfl, h⟩ := List.cons_eq_append_iff.1 h
    · cases h
      exact ⟨rfl, hd, by simp [ha]⟩
    · simp at h
  stop := hs

theorem WritesBy.cons {left : Bytes} {calls : List WriteCall} {answer : Except Errno Nat}
    (hd : data ≠ []) (hr : report.goesOn = true) (hle : report.accepted ≤ data.length)
    (h : WritesBy id count (data.drop report.accepted) left calls answer) :
    WritesBy id count data left (⟨data, report⟩ :: calls) answer where
  accepted := by
    rw [acceptedBy_cons, List.append_assoc, ← h.accepted, List.take_append_drop]
  offered before call later hc := by
    obtain ⟨rfl, hc⟩ | ⟨before, rfl, rfl⟩ := List.cons_eq_append_iff.1 hc
    · cases hc
      exact ⟨rfl, hd, hle⟩
    · obtain ⟨ho, hrest⟩ := h.offered before call later rfl
      refine ⟨?_, hrest⟩
      rw [acceptedBy_cons, List.append_assoc, ← ho, List.take_append_drop]
  stop := h.stop.cons hr

theorem writesBy_writeLoop (data : Bytes) (sent : Nat) (acceptances : List Acceptance) :
    let l := writeLoop data sent acceptances
    WritesBy id (sent + (acceptedBy l.calls).length) (data.drop sent)
      (data.drop (sent + (acceptedBy l.calls).length)) l.calls l.answer := by
  fun_induction writeLoop data sent acceptances with
  | case1 sent acceptances hl =>
    dsimp only
    rw [acceptedBy_nil, List.length_nil, Nat.add_zero, List.drop_eq_nil_of_le hl]
    exact .finished
  | case2 sent acceptances hl offered rest h =>
    exact .last (mt List.drop_eq_nil_iff.1 hl) rfl (.pause (.inr rfl) .single)
  | case3 sent acceptances hl offered n rest h _ onward ih =>
    have hle : n + 1 ≤ offered.length := accepted_le h
    dsimp only
    rw [length_acceptedBy_cons hle, ← Nat.add_assoc sent]
    refine .cons (mt List.drop_eq_nil_iff.1 hl) rfl hle ?_
    rw [WriteReport.accepted, List.drop_drop]
    exact ih
  | case4 sent acceptances hl offered rest h =>
    exact .last (mt List.drop_eq_nil_iff.1 hl) rfl (.pause (.inl rfl) .single)
  | case5 sent acceptances hl offered rest h _ onward ih =>
    exact .cons (mt List.drop_eq_nil_iff.1 hl) rfl (Nat.zero_le _) ih
  | case6 sent acceptances hl offered errno rest h =>
    exact .last (mt List.drop_eq_nil_iff.1 hl) rfl (.fault .single)

theorem exists_reportWrite {offered : Nat} {report : WriteReport} (h : report.accepted ≤ offered)
    (rest : List Acceptance) : ∃ a, reportWrite offered (a :: rest) = (report, rest) := by
  cases report with
  | count n => exact ⟨.room n, congrArg (fun n ↦ (WriteReport.count n, rest)) (Nat.min_eq_left h)⟩
  | wouldBlock => exact ⟨.wouldBlock, rfl⟩
  | interrupted => exact ⟨.interrupted, rfl⟩
  | fault errno => exact ⟨.fault errno, rfl⟩

theorem calls_writeLoop (hd : data.drop sent ≠ [])
    (h : reportWrite (data.drop sent).length acceptances = (report, rest)) :
    (writeLoop data sent acceptances).calls = ⟨data.drop sent, report⟩ ::
      if report.goesOn then (writeLoop data (sent + report.accepted) rest).calls else [] := by
  fun_cases writeLoop data sent acceptances with
  | case1 hl => exact absurd (List.drop_eq_nil_iff.2 hl) hd
  | case2 _ _ _ h' | case3 _ _ _ _ h' | case4 _ _ _ h' | case5 _ _ _ h' | case6 _ _ _ _ h' =>
    cases h'.symm.trans h
    rfl

theorem exists_calls_writeLoop {finished : Prop} {calls : List WriteCall} (data : Bytes)
    (sent : Nat)
    (ho : ∀ before call later, calls = before ++ call :: later →
      data.drop sent = acceptedBy before ++ call.offered ∧ call.offered ≠ [] ∧
        call.report.accepted ≤ call.offered.length)
    (he : Ended WriteReport.goesOn finished (calls.map WriteCall.report))
    (hf : finished → data.drop sent = acceptedBy calls) :
    ∃ acceptances, (writeLoop data sent acceptances).calls = calls := by
  induction calls generalizing sent with
  | nil =>
    cases he with
    | finished h =>
      refine ⟨[], ?_⟩
      rw [writeLoop, if_pos (List.drop_eq_nil_iff.1 (hf h))]
  | cons call calls ih =>
    obtain ⟨offered, report⟩ := call
    obtain ⟨hoffered, hne, hle⟩ := ho [] _ calls rfl
    obtain rfl : data.drop sent = offered := hoffered
    rw [List.map_cons] at he
    generalize hr : calls.map WriteCall.report = reports at he
    cases he with
    | last hg =>
      obtain rfl := List.map_eq_nil_iff.1 hr
      obtain ⟨a, ha⟩ := exists_reportWrite hle []
      refine ⟨[a], ?_⟩
      rw [calls_writeLoop hne ha, hg]
      rfl
    | cons hg he =>
      -- what one call was taken of is gone from the offers of all the others
      have hdrop {tail : Bytes} (h : data.drop sent =
          (data.drop sent).take report.accepted ++ tail) :
          data.drop (sent + report.accepted) = tail := by
        rw [← List.drop_drop]
        exact List.append_cancel_left ((List.take_append_drop _ _).trans h)
      obtain ⟨acceptances, hacceptances⟩ := ih (sent + report.accepted)
        (fun before call later hc ↦ by
          obtain ⟨hall, hcall⟩ := ho (⟨data.drop sent, report⟩ :: before) call later (hc ▸ rfl)
          rw [acceptedBy_cons, List.append_assoc] at hall
          exact ⟨hdrop hall, hcall⟩)
        (hr ▸ he)
        (fun h ↦ hdrop (by rw [← acceptedBy_cons ⟨data.drop sent, report⟩, ← hf h]))
      obtain ⟨a, ha⟩ := exists_reportWrite hle acceptances
      refine ⟨a :: acceptances, ?_⟩
      rw [calls_writeLoop hne ha, hg, if_pos rfl, hacceptances]

theorem WritesBy.exists_acceptances {ε : Type} {failed : Errno → ε} {left : Bytes}
    {calls : List WriteCall} {answer : Except ε Nat}
    (h : WritesBy failed count data left calls answer) :
    ∃ acceptances, (writeLoop data 0 acceptances).calls = calls := by
  refine exists_calls_writeLoop data 0 h.offered (h.stop.ended ?_ fun _ ↦ rfl) fun hall ↦ ?_
  · rintro report (rfl | rfl) <;> rfl
  · rw [List.drop_zero, h.accepted, hall, List.append_nil]

theorem answered_writeLoop (data : Bytes) (sent : Nat) (acceptances : List Acceptance) :
    Answered WriteCall.Answers acceptances (writeLoop data sent acceptances).calls
      (writeLoop data sent acceptances).rest := by
  fun_induction writeLoop data sent acceptances with
  | case1 sent acceptances => exact .nil acceptances
  | case3 sent acceptances hl offered n rest h _ onward ih => exact .cons h ih
  | case5 sent acceptances hl offered rest h _ onward ih => exact .cons h ih
  | case2 sent acceptances hl offered rest h | case4 sent acceptances hl offered rest h
  | case6 sent acceptances hl offered errno rest h => exact .cons h (.nil rest)

def WriteLoop.fault (l : WriteLoop) : Option Errno :=
  match l.answer with
  | .ok _ => none
  | .error errno => some errno

theorem transmit_drop (before data : Bytes) (sent : Nat) (acceptances : List Acceptance) :
    transmit before (data.drop sent) acceptances =
      let l := writeLoop data sent acceptances
      { sent := before ++ acceptedBy l.calls
        unsent := data.drop (sent + (acceptedBy l.calls).length)
        fault := l.fault
        rest := l.rest } := by
  fun_induction writeLoop data sent acceptances generalizing before with
  | case1 sent acceptances hl =>
    rw [List.drop_eq_nil_of_le hl, transmit_nil]
    simp [hl, WriteLoop.fault]
  | case3 sent acceptances hl offered n rest h _ onward ih =>
    have hle : n + 1 ≤ offered.length := accepted_le h
    have hd : offered ≠ [] := mt List.drop_eq_nil_iff.1 hl
    rw [transmit_eq hd before h]
    dsimp only [transmitBehind]
    rw [List.drop_drop, ih, length_acceptedBy_cons hle, ← Nat.add_assoc sent (n + 1),
      acceptedBy_cons, ← List.append_assoc]
    rfl
  | case5 sent acceptances hl offered rest h _ onward ih =>
    rw [transmit_eq (mt List.drop_eq_nil_iff.1 hl) before h]
    exact ih before
  | case2 sent acceptances hl offered rest h | case4 sent acceptances hl offered rest h
  | case6 sent acceptances hl offered errno rest h =>
    rw [transmit_eq (mt List.drop_eq_nil_iff.1 hl) before h]
    simp [transmitBehind, WriteLoop.fault, WriteReport.accepted, offered]

end Writing

namespace Socket

variable {s t after : Socket} {data : Bytes}

theorem fst_readByCalls (s : Socket) : s.readByCalls.1 = s.read := by
  unfold readByCalls read
  split
  · rw [readLoop_eq]
    generalize receive s.buffer 0 s.line.arrivals = r
    obtain ⟨_, _, _, fault, _⟩ := r
    cases fault <;> rfl
  · rfl

theorem write_eq (s : Socket) (data : Bytes) :
    s.write data =
      ((s.writeByCalls data).1.1.map fun n ↦ data.drop n, (s.writeByCalls data).1.2) := by
  unfold writeByCalls write
  split
  · have h := transmit_drop [] data 0 s.line.acceptances
    rw [List.drop_zero] at h
    rw [h]
    have hstop := (writesBy_writeLoop data 0 s.line.acceptances).stop
    generalize writeLoop data 0 s.line.acceptances = l at hstop ⊢
    obtain ⟨answer, rest, calls⟩ := l
    cases answer with
    | ok n =>
      have hn : n = 0 + (acceptedBy calls).length := hstop.eq_count
      subst hn
      rfl
    | error errno => rfl
  · rfl

structure HasRead (s after : Socket) (answer : Except TransportFault Nat) (calls : List ReadCall) :
    Prop where
  answered : Answered ReadCall.Answers s.line.arrivals calls after.line.arrivals
  bytes : ReadsBy (fun errno ↦ .socket .read (.system errno)) (broughtBy calls).length s.buffer
    after.buffer calls answer
  peerClosed : after.peerClosed = true ↔
    s.peerClosed = true ∨ ReadReport.bytes [] ∈ calls.map ReadCall.report
  others : after =
    { s with line.arrivals := after.line.arrivals, buffer := after.buffer,
             peerClosed := after.peerClosed }

structure HasWritten (s after : Socket) (data : Bytes) (answer : Except TransportFault Nat)
    (calls : List WriteCall) : Prop where
  answered : Answered WriteCall.Answers s.line.acceptances calls after.line.acceptances
  bytes : ∃ left, WritesBy (fun errno ↦ .socket .write (.system errno)) (acceptedBy calls).length
    data left calls answer
  accepted : after.line.accepted = s.line.accepted ++ acceptedBy calls
  others : after =
    { s with line.acceptances := after.line.acceptances, line.accepted := after.line.accepted }

theorem hasRead (ho : s.isOpen = true) {answer : Except TransportFault Nat}
    {calls : List ReadCall} (h : s.readByCalls = ((answer, after), calls)) :
    HasRead s after answer calls := by
  have hbytes := readsBy_readLoop s.buffer 0 s.line.arrivals
  have hend := sawEnd_readLoop s.buffer 0 s.line.arrivals
  rw [readByCalls, if_pos ho] at h
  cases h
  rw [Nat.zero_add] at hbytes
  exact ⟨answered_readLoop _ _ _, hbytes.mapError _, by rw [Bool.or_eq_true, hend], rfl⟩

theorem hasWritten (ho : s.isOpen = true) {answer : Except TransportFault Nat}
    {calls : List WriteCall} (h : s.writeByCalls data = ((answer, after), calls)) :
    HasWritten s after data answer calls := by
  have hbytes := writesBy_writeLoop data 0 s.line.acceptances
  rw [writeByCalls, if_pos ho] at h
  cases h
  dsimp only at hbytes
  rw [Nat.zero_add, List.drop_zero] at hbytes
  exact ⟨answered_writeLoop _ _ _, ⟨_, hbytes.mapError _⟩, rfl, rfl⟩

theorem accepted_of_write {n : Nat} (h : (s.writeByCalls data).1 = (.ok n, after)) :
    n ≤ data.length ∧ after.line.accepted = s.line.accepted ++ data.take n := by
  cases ho : s.isOpen with
  | false =>
    rw [writeByCalls, ho] at h
    cases h
  | true =>
    generalize hx : s.writeByCalls data = x at h
    obtain ⟨_, calls⟩ := x
    cases h
    obtain ⟨-, ⟨left, hbytes⟩, hline, -⟩ := hasWritten ho hx
    obtain rfl := hbytes.stop.eq_count
    rw [hbytes.accepted, List.length_append, List.take_left]
    exact ⟨Nat.le_add_right _ _, hline⟩

end Socket

namespace Sending

variable {w w' : Sending} {s t u u' : Socket}

def outgoing (w : Sending) : Outgoing := ⟨w.bytes.drop w.written⟩

theorem isDone_iff : w.isDone = true ↔ w.bytes.length ≤ w.written := by
  rw [isDone, remaining, beq_iff_eq, Nat.sub_eq_zero_iff_le]

theorem isDone_outgoing (w : Sending) : w.outgoing.isDone = w.isDone := by
  rw [Bool.eq_iff_iff, isDone_iff, Outgoing.isDone, outgoing, List.isEmpty_iff,
    List.drop_eq_nil_iff]

/-- To count what has been written is to keep what has not been. -/
theorem outgoing_flush (w : Sending) (s : Socket) :
    w.outgoing.flush s = ((w.flush s).1, (w.flush s).2.1.outgoing, (w.flush s).2.2) := by
  unfold Outgoing.flush flush
  rw [isDone_outgoing]
  split
  · rename_i h
    rw [h]
  · rw [s.write_eq]
    dsimp only [outgoing]
    generalize (s.writeByCalls (w.bytes.drop w.written)).1 = x
    obtain ⟨answer, after⟩ := x
    cases answer with
    | error fault => rfl
    | ok n =>
      have hd := isDone_outgoing { w with written := w.written + n }
      dsimp only [outgoing, Outgoing.isDone, Except.map] at hd ⊢
      rw [List.drop_drop, hd]

/-- Flushes of one message that succeed, one after the other, with what the last of them has said.
Before each of them anything may happen to the socket but that bytes go out. -/
inductive Flushes (bytes : Bytes) (s : Socket) : Sending → Socket → Option Bool → Prop
  | start : Flushes bytes s { bytes := bytes } s none
  | flush {w w' : Sending} {t u u' : Socket} {said : Option Bool} {done : Bool} :
    Flushes bytes s w t said → u.line.accepted = t.line.accepted →
      w.flush u = (.ok done, w', u') → Flushes bytes s w' u' (some done)

structure Counts (bytes : Bytes) (s : Socket) (w : Sending) (t : Socket) (said : Option Bool) :
    Prop where
  bytes_eq : w.bytes = bytes
  written_le : w.written ≤ bytes.length
  accepted : t.line.accepted = s.line.accepted ++ bytes.take w.written
  done_iff : ∀ done, said = some done → (done = true ↔ w.written = bytes.length)

theorem flush_ok {done : Bool} (h : w.flush s = (.ok done, w', t)) :
    w'.bytes = w.bytes ∧ done = w'.isDone ∧ ∃ n ≤ (w.bytes.drop w.written).length,
      w'.written = w.written + n ∧
        t.line.accepted = s.line.accepted ++ (w.bytes.drop w.written).take n := by
  unfold flush at h
  split at h
  · cases h
    exact ⟨rfl, rfl, 0, Nat.zero_le _, rfl, (List.append_nil _).symm⟩
  · split at h <;> rename_i hw <;> cases h
    obtain ⟨hn, ha⟩ := Socket.accepted_of_write hw
    exact ⟨rfl, rfl, _, hn, rfl, ha⟩

theorem Flushes.counts {bytes : Bytes} {said : Option Bool} (h : Flushes bytes s w t said) :
    Counts bytes s w t said := by
  induction h with
  | start => exact ⟨rfl, Nat.zero_le _, (List.append_nil _).symm, fun _ h ↦ by cases h⟩
  | @flush w w' t u u' _ done _ ha hf ih =>
    obtain ⟨hb, rfl, n, hn, hw, hu⟩ := flush_ok hf
    rw [ih.bytes_eq] at hb hn hu
    have hle := ih.written_le
    rw [List.length_drop] at hn
    refine ⟨hb, by omega, ?_, fun done hd ↦ ?_⟩
    · rw [hu, ha, ih.accepted, hw, List.append_assoc, List.take_add]
    · cases hd
      rw [isDone_iff, hb]
      omega

end Sending

namespace Socket

open Sending

/-- What the loops of an open socket have moved is what their calls have, whatever the line reports
to them; and there is a line for every run of calls that do so. -/
theorem transfers_follow_their_calls (s : Socket) (ho : s.isOpen = true) :
    (∃ answer after calls, s.readByCalls = ((answer, after), calls) ∧ s.read = (answer, after) ∧
        s.HasRead after answer calls) ∧
      (∀ data : Bytes, ∃ answer after calls, s.writeByCalls data = ((answer, after), calls) ∧
        s.write data = (answer.map fun n ↦ data.drop n, after) ∧
          s.HasWritten after data answer calls) ∧
      (∀ (w : Sending) (t : Socket),
        w.outgoing.flush t = ((w.flush t).1, (w.flush t).2.1.outgoing, (w.flush t).2.2)) ∧
      (∀ bytes w t said, Flushes bytes s w t said → Counts bytes s w t said) ∧
      (∀ count after calls answer,
        ReadsBy (fun errno ↦ TransportFault.socket .read (.system errno)) count s.buffer after
          calls answer →
        ∃ arrivals, ({ s with line.arrivals := arrivals } : Socket).readByCalls.2 = calls) ∧
      ∀ data count left calls answer,
        WritesBy (fun errno ↦ TransportFault.socket .write (.system errno)) count data left
          calls answer →
        ∃ acceptances,
          (({ s with line.acceptances := acceptances } : Socket).writeByCalls data).2 = calls := by
  refine ⟨?_, fun data ↦ ?_, outgoing_flush, fun _ _ _ _ h ↦ ?_, fun _ _ _ _ h ↦ ?_,
    fun _ _ _ _ _ h ↦ ?_⟩
  · exact ⟨_, _, _, rfl, s.fst_readByCalls.symm, s.hasRead ho rfl⟩
  · exact ⟨_, _, _, rfl, s.write_eq data, s.hasWritten ho rfl⟩
  · exact h.counts
  · obtain ⟨arrivals, hcalls⟩ := h.exists_arrivals
    refine ⟨arrivals, ?_⟩
    rw [readByCalls, if_pos ho]
    exact hcalls
  · obtain ⟨acceptances, hcalls⟩ := h.exists_acceptances
    refine ⟨acceptances, ?_⟩
    rw [writeByCalls, if_pos ho]
    exact hcalls

def inPieces : Socket where
  line :=
    { arrivals := [.interrupted, .data [1, 2], .data [3, 4, 5], .endOfFile]
      acceptances := [.room 2, .interrupted, .room 0, .room 9] }
  buffer := .ofCapacity 4

theorem transfers_follow_their_calls_in_pieces :
    inPieces.isOpen = true ∧
      (∃ answer after calls, inPieces.HasRead after answer calls ∧
        calls = [⟨4, .interrupted⟩, ⟨4, .bytes [1, 2]⟩, ⟨2, .bytes [3, 4]⟩]) ∧
      (∃ answer after calls, inPieces.HasWritten after [1, 2, 3] answer calls ∧
        calls = [⟨[1, 2, 3], .count 2⟩, ⟨[3], .interrupted⟩, ⟨[3], .count 0⟩]) ∧
      ∃ w t, Flushes [1, 2, 3] inPieces w t (some true) ∧
        Counts [1, 2, 3] inPieces w t (some true) := by
  obtain ⟨⟨_, _, calls, hr, -, hreads⟩, hwrite, -, hflush, -⟩ :=
    transfers_follow_their_calls inPieces rfl
  obtain ⟨_, _, sent, hw, -, hwrites⟩ := hwrite [1, 2, 3]
  have hcalls : inPieces.readByCalls.2 =
      [⟨4, .interrupted⟩, ⟨4, .bytes [1, 2]⟩, ⟨2, .bytes [3, 4]⟩] := by decide +kernel
  have hsent : (inPieces.writeByCalls [1, 2, 3]).2 =
      [⟨[1, 2, 3], .count 2⟩, ⟨[3], .interrupted⟩, ⟨[3], .count 0⟩] := by decide +kernel
  have hfirst : (Sending.flush ⟨[1, 2, 3], 0⟩ inPieces).1 = .ok false := by decide +kernel
  have hsecond : ((Sending.flush ⟨[1, 2, 3], 0⟩ inPieces).2.1.flush
      (Sending.flush ⟨[1, 2, 3], 0⟩ inPieces).2.2).1 = .ok true := by decide +kernel
  have h : Flushes [1, 2, 3] inPieces _ _ (some true) :=
    .flush (.flush .start rfl (Prod.ext hfirst rfl)) rfl (Prod.ext hsecond rfl)
  exact ⟨rfl, ⟨_, _, calls, hreads, by rw [← hcalls, hr]⟩,
    ⟨_, _, sent, hwrites, by rw [← hsent, hw]⟩, _, _, h, hflush _ _ _ _ h⟩

end Socket

end LocalHttp
