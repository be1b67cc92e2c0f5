import LocalHttp.Arrival

namespace LocalHttp

/-- What a reader can meet of the bytes that wait for it: they come in order, in any pieces and with
any pauses, and the end comes behind the last of them when no more will be put there. -/
def Arrives (ended : Prop) : Bytes → List Arrival → Prop
  | _, [] => True
  | waiting, .data bytes :: rest =>
    bytes <+: waiting ∧ Arrives ended (waiting.drop bytes.length) rest
  | waiting, .endOfFile :: rest => (ended ∧ waiting = []) ∧ Arrives ended waiting rest
  | waiting, .wouldBlock :: rest => Arrives ended waiting rest
  | waiting, .interrupted :: rest => Arrives ended waiting rest
  | _, .fault _ :: _ => False

def brings : List Arrival → Bool
  | .data (_ :: _) :: _ => true
  | .interrupted :: rest => brings rest
  | _ => false

def takes : List Acceptance → Bool
  | .room (_ + 1) :: _ => true
  | .interrupted :: rest => takes rest
  | _ => false

variable {ended : Prop} {waiting : Bytes} {arrivals : List Arrival}

theorem pendingBytes_le_of_arrives (h : Arrives ended waiting arrivals) :
    pendingBytes arrivals ≤ waiting.length := by
  induction arrivals generalizing waiting with
  | nil => exact Nat.zero_le _
  | cons a rest ih =>
    cases a with
    | data bytes =>
      obtain ⟨hb, hr⟩ := h
      have hl := ih hr
      have hle := hb.length_le
      rw [List.length_drop] at hl
      rw [pendingBytes]
      omega
    | endOfFile => exact ih h.2
    | wouldBlock => exact ih h
    | interrupted => exact ih h
    | fault errno => exact h.elim

structure Received.Takes (ended : Prop) (b : Buffer) (taken later : Bytes) (r : Received) :
    Prop where
  noFault : r.fault = none
  unread : r.buffer.unread = b.unread ++ taken
  capacity : r.buffer.capacity = b.capacity
  arrives : Arrives ended later r.rest
  sawEnd : r.sawEnd = true → ended ∧ later = []

theorem exists_takes_receive (h : Arrives ended waiting arrivals) (b : Buffer) (count : Nat) :
    ∃ taken later, waiting = taken ++ later ∧
      (receive b count arrivals).Takes ended b taken later ∧
      (receive b count arrivals).count = count + taken.length := by
  induction arrivals generalizing waiting b count with
  | nil =>
    refine ⟨[], waiting, rfl, ⟨rfl, (List.append_nil _).symm, rfl, trivial, ?_⟩, rfl⟩
    intro hs
    cases hs
  | cons a rest ih =>
    unfold receive
    split
    · refine ⟨[], waiting, rfl, ⟨rfl, (List.append_nil _).symm, rfl, h, ?_⟩, rfl⟩
      intro hs
      cases hs
    · cases a with
      | data bytes =>
        obtain ⟨⟨w, rfl⟩, hr⟩ := h
        rw [List.drop_left] at hr
        dsimp only
        -- either the block fits and the reads go on, or the buffer is full and a part stays behind
        split
        · rename_i hd
          have hle : bytes.length ≤ b.writable := List.drop_eq_nil_iff.1 hd
          obtain ⟨taken, later, rfl, ht, hc⟩ := ih hr (b.write bytes) (count + bytes.length)
          have hu := ht.unread
          have hk := ht.capacity
          rw [Buffer.unread_write, List.take_of_length_le hle, List.append_assoc] at hu
          rw [Buffer.capacity_write] at hk
          refine ⟨bytes ++ taken, later, (List.append_assoc _ _ _).symm,
            ⟨ht.noFault, hu, hk, ht.arrives, ht.sawEnd⟩, ?_⟩
          rw [hc, List.length_append, Nat.add_assoc]
        · rename_i hd
          have hlt : b.writable < bytes.length := by
            simpa using mt List.drop_eq_nil_iff.2 hd
          have ht : bytes.take b.writable ++ bytes.drop b.writable = bytes :=
            List.take_append_drop _ _
          refine ⟨bytes.take b.writable, bytes.drop b.writable ++ w, ?_,
            ⟨rfl, Buffer.unread_write b bytes, Buffer.capacity_write b bytes, ?_, ?_⟩, ?_⟩
          · rw [← List.append_assoc, ht]
          · refine ⟨List.prefix_append _ _, ?_⟩
            rwa [List.drop_left]
          · intro hs
            cases hs
          · rw [List.length_take, Nat.min_eq_left (Nat.le_of_lt hlt)]
      | endOfFile =>
        refine ⟨[], waiting, rfl, ⟨rfl, (List.append_nil _).symm, rfl, h, fun _ ↦ h.1⟩, rfl⟩
      | wouldBlock =>
        refine ⟨[], waiting, rfl, ⟨rfl, (List.append_nil _).symm, rfl, h, ?_⟩, rfl⟩
        intro hs
        cases hs
      | interrupted => exact ih h b count
      | fault errno => exact h.elim

theorem le_count_receive (b : Buffer) (count : Nat) (arrivals : List Arrival) :
    count ≤ (receive b count arrivals).count := by
  induction arrivals generalizing b count with
  | nil => exact Nat.le_refl _
  | cons a rest ih =>
    unfold receive
    split
    · exact Nat.le_refl _
    · cases a with
      | data bytes =>
        dsimp only
        split
        · have := ih (b.write bytes) (count + bytes.length)
          omega
        · exact Nat.le_add_right _ _
      | interrupted => exact ih b count
      | _ => exact Nat.le_refl _

theorem lt_count_receive {b : Buffer} (count : Nat) (hb : b.free ≠ [])
    (h : brings arrivals = true) : count < (receive b count arrivals).count := by
  have hw : 0 < b.writable := List.length_pos_iff.2 hb
  induction arrivals with
  | nil => cases h
  | cons a rest ih =>
    unfold receive
    rw [if_neg (by simpa using hb)]
    cases a with
    | data bytes =>
      cases bytes with
      | nil => cases h
      | cons byte bytes =>
        dsimp only
        split
        · have := le_count_receive (b.write (byte :: bytes)) (count + (byte :: bytes).length) rest
          have hl : (byte :: bytes).length = bytes.length + 1 := rfl
          omega
        · exact Nat.lt_add_of_pos_right hw
    | interrupted => exact ih h
    | _ => cases h

theorem wouldBlock_mem_of_receive {b : Buffer} {count : Nat}
    (h : .wouldBlock ∈ (receive b count arrivals).rest) : .wouldBlock ∈ arrivals := by
  induction arrivals generalizing b count with
  | nil => exact h
  | cons a rest ih =>
    unfold receive at h
    split at h
    · exact h
    · cases a with
      | data bytes =>
        dsimp only at h
        split at h
        · exact List.mem_cons_of_mem _ (ih h)
        · exact List.mem_cons_of_mem _ ((List.mem_cons.1 h).resolve_left nofun)
      | interrupted => exact List.mem_cons_of_mem _ (ih h)
      | endOfFile => exact h
      | wouldBlock => exact List.mem_cons_self
      | fault errno => exact List.mem_cons_of_mem _ h

/-- Reads that bring nothing although there is room have met a pause or the end of what waits. -/
theorem pendingBytes_of_count_receive {b : Buffer} {count : Nat} (hb : b.free ≠ [])
    (ha : Arrives ended waiting arrivals) (hn : .wouldBlock ∉ arrivals)
    (h : (receive b count arrivals).count = count) :
    pendingBytes (receive b count arrivals).rest = 0 := by
  induction arrivals generalizing waiting with
  | nil => rfl
  | cons a rest ih =>
    rw [List.mem_cons, not_or] at hn
    unfold receive at h ⊢
    rw [if_neg (by simpa using hb)] at h ⊢
    cases a with
    | data bytes =>
      cases bytes with
      | nil =>
        have hw : b.write [] = b := by
          simp [Buffer.write]
        simp only [List.drop_nil, List.length_nil, Nat.add_zero, hw] at h ⊢
        exact ih ha.2 hn.2 h
      | cons byte bytes =>
        have hlt : count < (receive b count (.data (byte :: bytes) :: rest)).count :=
          lt_count_receive count hb rfl
        unfold receive at hlt
        rw [if_neg (by simpa using hb)] at hlt
        omega
    | endOfFile =>
      have hp := pendingBytes_le_of_arrives ha
      obtain ⟨⟨-, rfl⟩, -⟩ := ha
      exact Nat.le_zero.1 hp
    | wouldBlock => exact absurd rfl hn.1
    | interrupted => exact ih ha hn.2 h
    | fault errno => exact ha.elim

variable {acceptances : List Acceptance}

theorem fault_transmit (h : ∀ errno, .fault errno ∉ acceptances) (sent data : Bytes) :
    (transmit sent data acceptances).fault = none := by
  induction acceptances generalizing sent data with
  | nil => rfl
  | cons a rest ih =>
    have hr : ∀ errno, .fault errno ∉ rest := fun errno hm ↦ h errno (List.mem_cons_of_mem _ hm)
    unfold transmit
    split
    · rfl
    · split
      · rfl
      · exact ih hr _ _
      · rfl
      · exact ih hr _ _
      · exact absurd List.mem_cons_self (h _)

theorem length_unsent_le (sent data : Bytes) (acceptances : List Acceptance) :
    (transmit sent data acceptances).unsent.length ≤ data.length := by
  induction acceptances generalizing sent data with
  | nil => exact Nat.le_refl _
  | cons a rest ih =>
    unfold transmit
    split
    · exact Nat.le_refl _
    · split
      · exact Nat.le_refl _
      · refine Nat.le_trans (ih _ _) ?_
        rw [List.length_drop]
        exact Nat.sub_le _ _
      · exact Nat.le_refl _
      · exact ih _ _
      · exact Nat.le_refl _

theorem length_unsent_lt {data : Bytes} (hd : data ≠ []) (sent : Bytes)
    (h : takes acceptances = true) :
    (transmit sent data acceptances).unsent.length < data.length := by
  have hp : 0 < data.length := List.length_pos_iff.2 hd
  induction acceptances with
  | nil => cases h
  | cons a rest ih =>
    unfold transmit
    rw [if_neg (by simpa using hd)]
    cases a with
    | room count =>
      cases count with
      | zero => cases h
      | succ count =>
        refine Nat.lt_of_le_of_lt (length_unsent_le _ _ rest) ?_
        rw [List.length_drop]
        omega
    | interrupted => exact ih h
    | _ => cases h

end LocalHttp
