import LocalHttp.Feed
import LocalHttp.Proofs.Resumption

namespace LocalHttp

variable {α β γ : Type}

structure Yield (α β : Type) where
  messages : List α
  ending : Except ReadFault β

namespace Yield

def andThen (y : Yield α β) (next : β → Yield α γ) : Yield α γ :=
  match y.ending with
  | .ok b => ⟨y.messages ++ (next b).messages, (next b).ending⟩
  | .error cause => ⟨y.messages, .error cause⟩

def cons (message : α) (y : Yield α β) : Yield α β := ⟨message :: y.messages, y.ending⟩

def map (f : β → γ) (y : Yield α β) : Yield α γ := ⟨y.messages, y.ending.map f⟩

theorem andThen_cons (message : α) (y : Yield α β) (next : β → Yield α γ) :
    (y.cons message).andThen next = (y.andThen next).cons message := by
  obtain ⟨messages, _ | b⟩ := y <;> rfl

theorem map_cons (message : α) (y : Yield α β) (f : β → γ) :
    (y.cons message).map f = (y.map f).cons message := rfl

theorem andThen_map (y : Yield α β) (f : β → γ) (next : γ → Yield α γ) :
    (y.map f).andThen next = y.andThen fun b ↦ next (f b) := by
  obtain ⟨messages, _ | b⟩ := y <;> rfl

theorem map_andThen {δ : Type} (y : Yield α β) (next : β → Yield α γ) (f : γ → δ) :
    (y.andThen next).map f = y.andThen fun b ↦ (next b).map f := by
  obtain ⟨messages, _ | b⟩ := y <;> rfl

theorem andThen_congr {y : Yield α β} {next other : β → Yield α γ}
    (h : ∀ b, y.ending = .ok b → next b = other b) : y.andThen next = y.andThen other := by
  obtain ⟨messages, _ | b⟩ := y
  · rfl
  · simp only [andThen, h b rfl]

end Yield

namespace Incoming

theorem body_of_step_done {s : Incoming} {b rest : Buffer} {message : RawMessage}
    (h : step s b = .done message rest) :
    ∃ line headers length received, s = .body line headers length received := by
  cases s with
  | first token => simp only [step, readToken] at h; split at h <;> cases h
  | second initial token => simp only [step, readToken] at h; split at h <;> cases h
  | third initial middle token => simp only [step, readToken] at h; split at h <;> cases h
  | headerName line headers token =>
    simp only [step, endHeaders, readName] at h
    repeat' split at h
    all_goals cases h
  | headerValue line headers name token =>
    simp only [step] at h
    repeat' split at h
    all_goals cases h
  | body line headers length received => exact ⟨line, headers, length, received, rfl⟩

theorem length_le_of_step_done {s : Incoming} {b rest : Buffer} {message : RawMessage}
    (h : step s b = .done message rest) : rest.length ≤ b.length := by
  obtain ⟨line, headers, length, received, rfl⟩ := body_of_step_done h
  simp only [step] at h
  split at h
  · simp only [Step.done.injEq] at h
    rw [← h.2, Buffer.take, Buffer.length_skip]
    exact Nat.sub_le _ _
  · cases h

theorem length_le_of_run_done {s : Incoming} {b rest : Buffer} {message : RawMessage}
    (h : run s b = .done message rest) : rest.length ≤ b.length := by
  induction hn : b.length using Nat.strongRecOn generalizing s b with
  | ind n ih =>
    rw [run] at h
    split at h
    · rename_i after left hs
      have hlt := length_lt_of_step hs
      have hle := ih left.length (hn ▸ hlt) h rfl
      omega
    · cases h
    · rename_i hs
      simp only [Run.done.injEq] at h
      rw [← hn, ← h.2]
      exact length_le_of_step_done hs
    · cases h

theorem length_lt_of_run_fresh {b rest : Buffer} {message : RawMessage}
    (h : run .fresh b = .done message rest) : rest.length < b.length := by
  rw [run] at h
  split at h
  · rename_i hs
    exact Nat.lt_of_le_of_lt (length_le_of_run_done h) (length_lt_of_step hs)
  · cases h
  · rename_i hs
    obtain ⟨_, _, _, _, he⟩ := body_of_step_done hs
    cases he
  · cases h

/-- Decreases with every message, also where the last bytes of one were consumed before. -/
def ahead (s : Incoming) (length : Nat) : Nat := 2 * length + if s = .fresh then 0 else 1

theorem ahead_lt_of_run_done {s : Incoming} {b rest : Buffer} {message : RawMessage}
    (h : run s b = .done message rest) : ahead .fresh rest.length < ahead s b.length := by
  unfold ahead
  by_cases hs : s = .fresh
  · subst hs
    have hlt := length_lt_of_run_fresh h
    omega
  · have hle := length_le_of_run_done h
    rw [if_pos rfl, if_neg hs]
    omega

theorem ahead_lt_of_reading_done {s : Incoming} {u rest : Bytes} {message : RawMessage}
    (h : reading s u = .done message rest) : ahead .fresh rest.length < ahead s u.length := by
  unfold reading at h
  cases hr : run s (.ofBytes u) with
  | done raw left =>
    rw [hr] at h
    simp only [Run.reading, Reading.done.injEq] at h
    rw [← h.2]
    exact ahead_lt_of_run_done hr
  | blocked after left => rw [hr] at h; cases h
  | fault cause left => rw [hr] at h; cases h

def gather (ofRaw : RawMessage → Except ReadFault α) (s : Incoming) (u : Bytes) :
    Yield α (Incoming × Bytes) :=
  match h : reading s u with
  | .blocked after rest => ⟨[], .ok (after, rest)⟩
  | .fault cause => ⟨[], .error cause⟩
  | .done raw rest =>
    match ofRaw raw with
    | .error cause => ⟨[], .error cause⟩
    | .ok message =>
      have : ahead .fresh rest.length < ahead s u.length := ahead_lt_of_reading_done h
      (gather ofRaw .fresh rest).cons message
termination_by ahead s u.length

variable (ofRaw : RawMessage → Except ReadFault α)

theorem gather_eq (s : Incoming) (u : Bytes) :
    gather ofRaw s u =
      match reading s u with
      | .blocked after rest => ⟨[], .ok (after, rest)⟩
      | .fault cause => ⟨[], .error cause⟩
      | .done raw rest =>
        match ofRaw raw with
        | .error cause => ⟨[], .error cause⟩
        | .ok message => (gather ofRaw .fresh rest).cons message := by
  rw [gather]
  split <;> rename_i h <;> simp only [h]

/-- Gathering from some bytes and then from more is gathering from all of them. -/
theorem gather_append (s : Incoming) (u v : Bytes) :
    gather ofRaw s (u ++ v) =
      (gather ofRaw s u).andThen fun left ↦ gather ofRaw left.1 (left.2 ++ v) := by
  induction hn : ahead s u.length using Nat.strongRecOn generalizing s u with
  | ind n ih =>
    rw [gather_eq ofRaw s u, gather_eq ofRaw s (u ++ v)]
    cases hr : reading s u with
    | blocked after rest =>
      rw [reading_append_of_blocked v hr, ← gather_eq]
      rfl
    | fault cause =>
      rw [reading_append_of_fault v hr]
      rfl
    | done raw rest =>
      rw [reading_append_of_done v hr]
      dsimp only
      cases ofRaw raw with
      | error cause => rfl
      | ok message =>
        dsimp only
        rw [ih _ (hn ▸ ahead_lt_of_reading_done hr) .fresh rest rfl, Yield.andThen_cons]

theorem reading_of_gather {s after : Incoming} {u rest : Bytes}
    (h : (gather ofRaw s u).ending = .ok (after, rest)) :
    reading after rest = .blocked after rest := by
  induction hn : ahead s u.length using Nat.strongRecOn generalizing s u with
  | ind n ih =>
    rw [gather_eq] at h
    cases hr : reading s u with
    | blocked state left =>
      rw [hr] at h
      cases h
      exact reading_of_blocked hr
    | fault cause =>
      rw [hr] at h
      cases h
    | done raw left =>
      rw [hr] at h
      dsimp only at h
      cases hm : ofRaw raw with
      | error cause =>
        rw [hm] at h
        cases h
      | ok message =>
        rw [hm] at h
        exact ih _ (hn ▸ ahead_lt_of_reading_done hr) h rfl

end Incoming

namespace Feed

open Incoming

def fresh (capacity : Nat) : Feed := { buffer := .ofCapacity capacity }

/-- The state and the unread bytes, which is all that a buffer has to do with reading. -/
def contents (f : Feed) : Incoming × Bytes := (f.state, f.buffer.unread)

def write (f : Feed) (piece : Bytes) : Feed := { f with buffer := f.buffer.write piece }

variable (ofRaw : RawMessage → Except ReadFault α)

theorem ahead_lt_of_read {f after : Feed} {message : α}
    (h : f.read (Incoming.read ofRaw) = (.message message, after)) :
    ahead after.state after.buffer.length < ahead f.state f.buffer.length := by
  simp only [Feed.read, Incoming.read] at h
  cases hr : run f.state f.buffer with
  | blocked state rest => simp [hr] at h
  | fault cause rest => simp [hr] at h
  | done raw rest =>
    rw [hr] at h
    dsimp only at h
    cases hm : ofRaw raw with
    | error cause => simp [hm] at h
    | ok m =>
      simp only [hm, Prod.mk.injEq] at h
      rw [← h.2]
      exact ahead_lt_of_run_done hr

def takeMessages (f : Feed) : Yield α Feed :=
  match h : f.read (Incoming.read ofRaw) with
  | (.incomplete, after) => ⟨[], .ok after⟩
  | (.fault cause, _) => ⟨[], .error cause⟩
  | (.message message, after) =>
    have : ahead after.state after.buffer.length < ahead f.state f.buffer.length :=
      ahead_lt_of_read ofRaw h
    (takeMessages after).cons message
termination_by ahead f.state f.buffer.length

/-- Writes piece after piece, taking all messages after each, and stops at the first fault. -/
def feedAll : Feed → List Bytes → Yield α Feed
  | f, [] => ⟨[], .ok f⟩
  | f, piece :: pieces =>
    (takeMessages ofRaw (f.write piece)).andThen fun after ↦ feedAll after pieces

def fits : Feed → List Bytes → Bool
  | _, [] => true
  | f, piece :: pieces =>
    decide (piece.length ≤ f.buffer.writable) &&
      match (takeMessages ofRaw (f.write piece)).ending with
      | .ok after => fits after pieces
      | .error _ => true

theorem contents_write {f : Feed} {piece : Bytes} (h : piece.length ≤ f.buffer.writable) :
    (f.write piece).contents = (f.state, f.buffer.unread ++ piece) := by
  unfold contents write
  rw [Buffer.unread_write, List.take_of_length_le h]

theorem takeMessages_eq (f : Feed) :
    takeMessages ofRaw f =
      match f.read (Incoming.read ofRaw) with
      | (.incomplete, after) => ⟨[], .ok after⟩
      | (.fault cause, _) => ⟨[], .error cause⟩
      | (.message message, after) => (takeMessages ofRaw after).cons message := by
  rw [takeMessages]
  split <;> rename_i h <;> simp only [h]

theorem takeMessages_contents (f : Feed) :
    (takeMessages ofRaw f).map contents = gather ofRaw f.state f.buffer.unread := by
  induction hn : ahead f.state f.buffer.length using Nat.strongRecOn generalizing f with
  | ind n ih =>
    have hread := reading_run f.state f.buffer
    rw [takeMessages_eq, gather_eq, ← hread]
    simp only [Feed.read, Incoming.read]
    cases hr : run f.state f.buffer with
    | blocked after rest =>
      simp only [Yield.map, Except.map, contents, Run.reading, Buffer.unread_realign]
    | fault cause rest => rfl
    | done raw rest =>
      dsimp only [Run.reading]
      cases ofRaw raw with
      | error cause => rfl
      | ok message =>
        have hlt := ahead_lt_of_run_done hr
        dsimp only
        rw [Yield.map_cons, ih _ (hn ▸ hlt) ⟨.fresh, rest⟩ rfl]

def Settled (f : Feed) : Prop :=
  reading f.state f.buffer.unread = .blocked f.state f.buffer.unread

theorem settled_fresh (capacity : Nat) : (fresh capacity).Settled := by
  unfold Settled
  rw [reading_eq]
  rfl

theorem settled_of_takeMessages {f after : Feed}
    (h : (takeMessages ofRaw f).ending = .ok after) : after.Settled := by
  refine reading_of_gather ofRaw (s := f.state) (u := f.buffer.unread) ?_
  rw [← takeMessages_contents, Yield.map, h]
  rfl

theorem feedAll_contents {f : Feed} {pieces : List Bytes} (hs : f.Settled)
    (hf : fits ofRaw f pieces = true) :
    (feedAll ofRaw f pieces).map contents =
      gather ofRaw f.state (f.buffer.unread ++ pieces.flatten) := by
  induction pieces generalizing f with
  | nil =>
    rw [List.flatten_nil, List.append_nil, gather_eq, show reading _ _ = _ from hs]
    rfl
  | cons piece pieces ih =>
    rw [fits, Bool.and_eq_true, decide_eq_true_eq] at hf
    have hw := contents_write hf.1
    simp only [contents, Prod.mk.injEq] at hw
    rw [feedAll, Yield.map_andThen, List.flatten_cons, ← List.append_assoc, gather_append,
      ← hw.1, ← hw.2, ← takeMessages_contents, Yield.andThen_map]
    -- only if there was no fault have the other pieces been fed, and only then do they have to fit
    refine Yield.andThen_congr fun after he ↦ ?_
    have hrest := hf.2
    rw [he] at hrest
    exact ih (settled_of_takeMessages ofRaw he) hrest

theorem feedAll_fresh {capacity : Nat} {pieces : List Bytes}
    (hf : fits ofRaw (fresh capacity) pieces = true) :
    (feedAll ofRaw (fresh capacity) pieces).map contents = gather ofRaw .fresh pieces.flatten :=
  feedAll_contents ofRaw (settled_fresh capacity) hf

theorem fits_singleton {capacity : Nat} {w : Bytes} (h : w.length ≤ capacity) :
    fits ofRaw (fresh capacity) [w] = true := by
  have hw : w.length ≤ (fresh capacity).buffer.writable := by
    simpa [fresh, Buffer.ofCapacity, Buffer.writable] using h
  rw [fits, Bool.and_eq_true, decide_eq_true_eq]
  refine ⟨hw, ?_⟩
  cases (takeMessages ofRaw ((fresh capacity).write w)).ending <;> rfl

/-- What requests, or responses, come of some bytes, the fault that ends them or else the state and
the bytes that are left are the same however the bytes are cut and however large the buffer is, as
long as every piece fits when it is written. -/
theorem messages_irrespective_of_cutting (w : Bytes) (capacity large : Nat) (pieces : List Bytes)
    (hw : pieces.flatten = w) (hl : w.length ≤ large) :
    (fits Request.ofRaw (fresh capacity) pieces = true →
      (feedAll Request.ofRaw (fresh capacity) pieces).map contents =
        (feedAll Request.ofRaw (fresh large) [w]).map contents) ∧
    (fits Response.ofRaw (fresh capacity) pieces = true →
      (feedAll Response.ofRaw (fresh capacity) pieces).map contents =
        (feedAll Response.ofRaw (fresh large) [w]).map contents) := by
  subst hw
  constructor <;> intro hf <;>
    rw [feedAll_fresh _ hf, feedAll_fresh _ (fits_singleton _ hl), List.flatten_singleton]

theorem messages_irrespective_of_cutting_split_break :
    fits Request.ofRaw (fresh 4) [[0x47, 0x20, 0x2f], [0x20, 0x0d], [0x0a, 0x0d], [0x0a]] = true ∧
      (feedAll Request.ofRaw (fresh 4)
          [[0x47, 0x20, 0x2f], [0x20, 0x0d], [0x0a, 0x0d], [0x0a]]).map contents =
        (feedAll Request.ofRaw (fresh 9)
          [[0x47, 0x20, 0x2f, 0x20, 0x0d, 0x0a, 0x0d, 0x0a]]).map contents := by
  have hf : fits Request.ofRaw (fresh 4)
      [[0x47, 0x20, 0x2f], [0x20, 0x0d], [0x0a, 0x0d], [0x0a]] = true := by decide +kernel
  exact ⟨hf, (messages_irrespective_of_cutting _ 4 9 _ rfl (by decide)).1 hf⟩

end Feed

end LocalHttp
