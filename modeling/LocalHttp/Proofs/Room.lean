import LocalHttp.Proofs.Chunks

namespace LocalHttp

namespace Incoming

/-- No more of the body has been received than was announced. -/
def Sound : Incoming → Prop
  | .body _ _ length received => received.size ≤ length
  | _ => True

theorem kept_isPrefix {delimiter u : Bytes} (h : Bytes.find? delimiter u = none) :
    u.drop (Bytes.overlapFrom delimiter 0 u) <+: delimiter.dropLast := by
  have hp := Bytes.drop_overlapFrom_isPrefix delimiter u
  refine List.prefix_of_prefix_length_le hp (List.dropLast_prefix delimiter) ?_
  rw [List.length_dropLast]
  refine Nat.le_sub_one_of_lt (Nat.lt_of_le_of_ne hp.length_le fun hl ↦ ?_)
  exact Bytes.find?_eq_none_iff.1 h (hp.eq_of_length hl ▸ (List.drop_suffix _ u).isInfix)

theorem unread_readToken_blocked {token delimiter u : Bytes} {state next : Bytes → Incoming}
    {after : Incoming} {rest : Buffer} (hd : delimiter.dropLast <+: [carriageReturn])
    (h : (readToken (.ofBytes u) token delimiter state next).bare = .blocked after rest) :
    rest.unread <+: [carriageReturn] := by
  rw [bare_readToken _ _ _ _ (unread_ofBytes u)] at h
  cases hf : Bytes.find? delimiter u with
  | some p => rw [hf] at h; cases h
  | none =>
    rw [hf] at h
    cases h
    exact (kept_isPrefix hf).trans hd

theorem unread_readName_blocked {line : StartLine} {headers : Headers} {token u : Bytes}
    {after : Incoming} {rest : Buffer}
    (h : (readName line headers token (.ofBytes u)).bare = .blocked after rest) :
    rest.unread <+: [carriageReturn] := by
  rw [bare_readName _ _ _ (unread_ofBytes u)] at h
  cases hf : Bytes.find? colon u with
  | some p =>
    rw [hf] at h
    dsimp only at h
    cases hb : hasBreak (u.take p) <;> rw [hb] at h <;> cases h
  | none =>
    rw [hf] at h
    dsimp only at h
    cases hb : hasBreak u <;> rw [hb] at h <;> cases h
    exact List.nil_prefix

theorem unread_step_blocked {s after : Incoming} {u : Bytes} {rest : Buffer} (hs : s.Sound)
    (h : (step s (.ofBytes u)).bare = .blocked after rest) : rest.unread <+: [carriageReturn] := by
  cases s with
  | first token => rw [step] at h; exact unread_readToken_blocked (by decide) h
  | second initial token => rw [step] at h; exact unread_readToken_blocked (by decide) h
  | third initial middle token => rw [step] at h; exact unread_readToken_blocked (by decide) h
  | headerName line headers token =>
    rw [bare_step_headerName _ _ _ (unread_ofBytes u)] at h
    split at h
    · rw [bare_endHeaders _ _ (Buffer.unread_skip (.ofBytes u) 2)] at h
      cases ha : announcedLength headers <;> rw [ha] at h <;> cases h
    · split at h
      · rename_i hr
        cases h
        simp only [Bool.and_eq_true, beq_iff_eq] at hr
        have hl := congrArg List.length hr.2
        rw [List.length_take, List.length_singleton] at hl
        have hu : u.take 2 = u := List.take_of_length_le (by omega)
        exact hu ▸ hr.2 ▸ List.prefix_rfl
      · exact unread_readName_blocked h
  | headerValue line headers name token =>
    rw [bare_step_headerValue _ _ _ _ (unread_ofBytes u)] at h
    cases hf : Bytes.find? lineBreak u with
    | some p =>
      rw [hf] at h
      dsimp only at h
      cases hv : headerField name (token ++ u.take p) <;> rw [hv] at h <;> cases h
    | none =>
      rw [hf] at h
      cases h
      exact kept_isPrefix hf
  | body line headers length received =>
    have hle : received.size ≤ length := hs
    rw [bare_step_body _ _ _ _ (unread_ofBytes u), size_appendList, List.length_take] at h
    split at h
    · cases h
    · cases h
      rw [unread_ofBytes, List.drop_eq_nil_of_le (by omega)]
      exact List.nil_prefix

def Step.Sound : Step → Prop
  | .next after _ | .blocked after _ => after.Sound
  | _ => True

theorem sound_readToken {b : Buffer} {token delimiter : Bytes} {state next : Bytes → Incoming}
    (hs : ∀ t, (state t).Sound) (hn : ∀ t, (next t).Sound) :
    (readToken b token delimiter state next).Sound := by
  unfold readToken
  split
  · exact hn _
  · exact hs _

theorem sound_step {s : Incoming} (hs : s.Sound) (b : Buffer) : (step s b).Sound := by
  cases s with
  | first token => rw [step]; exact sound_readToken (fun _ ↦ trivial) fun _ ↦ trivial
  | second initial token => rw [step]; exact sound_readToken (fun _ ↦ trivial) fun _ ↦ trivial
  | third initial middle token =>
    rw [step]
    exact sound_readToken (fun _ ↦ trivial) fun _ ↦ trivial
  | headerName line headers token =>
    rw [step]
    split
    · unfold endHeaders
      split
      · exact Nat.zero_le _
      · trivial
    · split
      · trivial
      · unfold readName
        split
        split
        · trivial
        · split <;> trivial
  | headerValue line headers name token =>
    rw [step]
    split
    · trivial
    · split <;> trivial
  | body line headers length received =>
    have hle : received.size ≤ length := hs
    rw [step]
    split
    rename_i fragment rest ht
    dsimp only
    split
    · trivial
    · have hf : fragment.length ≤ length - received.size := by
        rw [← (Prod.mk.inj ht).1, Buffer.peek, List.length_take]
        omega
      change (received ++ fragment).size ≤ length
      rw [size_appendList]
      omega

theorem blocked_reading {s after : Incoming} {u rest : Bytes} (hs : s.Sound)
    (h : reading s u = .blocked after rest) : rest <+: [carriageReturn] ∧ after.Sound := by
  induction hn : u.length using Nat.strongRecOn generalizing s u with
  | ind n ih =>
    have hsound := sound_step hs (.ofBytes u)
    rw [reading_eq] at h
    cases ho : step s (.ofBytes u) with
    | next state left =>
      rw [ho] at h hsound
      exact ih _ (hn ▸ length_lt_of_step ho) hsound h rfl
    | blocked state left =>
      have hl := unread_step_blocked hs (congrArg Step.bare ho)
      rw [ho] at h hsound
      cases h
      exact ⟨hl, hsound⟩
    | done message left => rw [ho] at h; cases h
    | fault cause left => rw [ho] at h; cases h

def Step.buffer : Step → Buffer
  | .next _ rest | .blocked _ rest | .done _ rest | .fault _ rest => rest

def Run.buffer : Run → Buffer
  | .blocked _ rest | .done _ rest | .fault _ rest => rest

theorem capacity_readToken (b : Buffer) (token delimiter : Bytes)
    (state next : Bytes → Incoming) :
    (readToken b token delimiter state next).buffer.capacity = b.capacity := by
  have ht := Buffer.capacity_takeToken b delimiter
  unfold readToken
  split <;> rename_i h <;> rw [h] at ht <;> exact ht

theorem capacity_readName (line : StartLine) (headers : Headers) (token : Bytes) (b : Buffer) :
    (readName line headers token b).buffer.capacity = b.capacity := by
  have hu := Buffer.capacity_takeUntil b colon
  unfold readName
  split
  rename_i h
  rw [h] at hu
  split
  · exact hu
  · split
    · exact (Buffer.capacity_skip _ _).trans hu
    · exact hu

theorem capacity_step (s : Incoming) (b : Buffer) : (step s b).buffer.capacity = b.capacity := by
  cases s with
  | first token => rw [step]; exact capacity_readToken b _ _ _ _
  | second initial token => rw [step]; exact capacity_readToken b _ _ _ _
  | third initial middle token => rw [step]; exact capacity_readToken b _ _ _ _
  | headerName line headers token =>
    rw [step]
    split
    · unfold endHeaders
      split <;> exact Buffer.capacity_skip b 2
    · split
      · rfl
      · exact capacity_readName line headers token b
  | headerValue line headers name token =>
    have ht := Buffer.capacity_takeToken b lineBreak
    rw [step]
    split <;> rename_i h <;> rw [h] at ht
    · exact ht
    · split <;> exact ht
  | body line headers length received =>
    have hs := Buffer.capacity_skip b (length - received.size)
    rw [step]
    split
    rename_i h
    rw [← (Prod.mk.inj h).2]
    dsimp only
    split <;> exact hs

theorem capacity_run (s : Incoming) (b : Buffer) : (run s b).buffer.capacity = b.capacity := by
  induction hn : b.length using Nat.strongRecOn generalizing s b with
  | ind n ih =>
    have hs := capacity_step s b
    rw [run]
    split <;> rename_i h <;> rw [h] at hs
    · exact (ih _ (hn ▸ length_lt_of_step h) _ _ rfl).trans hs
    · exact hs
    · exact hs
    · exact hs

end Incoming

theorem Buffer.capacity_ofCapacity (capacity : Nat) :
    (Buffer.ofCapacity capacity).capacity = capacity := by
  simp only [Buffer.capacity, Buffer.ofCapacity, List.length_nil, List.length_replicate,
    Nat.zero_add]

namespace Feed

open Incoming

variable {α : Type} (ofRaw : RawMessage → Except ReadFault α)

/-- All of the buffer but one byte can be written. -/
structure Roomy (f : Feed) : Prop where
  sound : f.state.Sound
  writable : f.buffer.capacity ≤ f.buffer.writable + 1

theorem roomy_fresh (capacity : Nat) : (fresh capacity).Roomy := by
  refine ⟨trivial, Nat.le_succ_of_le (Nat.le_of_eq ?_)⟩
  rw [fresh, Buffer.capacity_ofCapacity, Buffer.writable, Buffer.ofCapacity, List.length_replicate]

theorem roomy_of_run_blocked {s after : Incoming} {b rest : Buffer} (hs : s.Sound)
    (h : run s b = .blocked after rest) :
    (⟨after, rest.realign⟩ : Feed).Roomy ∧ rest.realign.capacity = b.capacity := by
  have hc := capacity_run s b
  have hread := reading_run s b
  rw [h] at hc hread
  obtain ⟨hp, hsound⟩ := blocked_reading hs hread.symm
  have hl := hp.length_le
  rw [List.length_singleton] at hl
  refine ⟨⟨hsound, ?_⟩, (Buffer.capacity_realign rest).trans hc⟩
  dsimp only
  rw [Buffer.writable_realign, Buffer.capacity_realign, Buffer.length]
  omega

theorem roomy_takeMessages {f after : Feed} (hs : f.state.Sound)
    (h : (takeMessages ofRaw f).ending = .ok after) :
    after.Roomy ∧ after.buffer.capacity = f.buffer.capacity := by
  induction hn : ahead f.state f.buffer.length using Nat.strongRecOn generalizing f with
  | ind n ih =>
    have hc := capacity_run f.state f.buffer
    rw [takeMessages_eq] at h
    simp only [Feed.read, Incoming.read] at h
    cases hr : run f.state f.buffer with
    | blocked state rest =>
      rw [hr] at h
      cases h
      exact roomy_of_run_blocked hs hr
    | fault cause rest => rw [hr] at h; cases h
    | done raw rest =>
      rw [hr] at h hc
      dsimp only at h
      cases hm : ofRaw raw with
      | error cause => rw [hm] at h; cases h
      | ok message =>
        rw [hm] at h
        obtain ⟨hroom, hcap⟩ :=
          ih _ (hn ▸ ahead_lt_of_run_done hr) (f := ⟨.fresh, rest⟩) trivial h rfl
        exact ⟨hroom, hcap.trans hc⟩

theorem fits_of_length_lt {f : Feed} {pieces : List Bytes} (hf : f.Roomy)
    (h : ∀ piece ∈ pieces, piece.length < f.buffer.capacity) : fits ofRaw f pieces = true := by
  induction pieces generalizing f with
  | nil => rfl
  | cons piece pieces ih =>
    rw [List.forall_mem_cons] at h
    have hw := hf.writable
    rw [fits, Bool.and_eq_true, decide_eq_true_eq]
    refine ⟨by omega, ?_⟩
    cases he : (takeMessages ofRaw (f.write piece)).ending with
    | error cause => rfl
    | ok after =>
      have hc : (f.write piece).buffer.capacity = f.buffer.capacity := Buffer.capacity_write _ _
      obtain ⟨hroom, hcap⟩ := roomy_takeMessages ofRaw (f := f.write piece) hf.sound he
      refine ih hroom fun other ho ↦ ?_
      rw [hcap, hc]
      exact h.2 other ho

end Feed

end LocalHttp
