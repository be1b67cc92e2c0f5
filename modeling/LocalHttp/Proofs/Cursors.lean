import LocalHttp.Proofs.Delimiter

namespace LocalHttp

def Word.add? (a b : Nat) : Option Nat := if a + b < Nat.pow 2 64 then some (a + b) else none

def Word.sub? (a b : Nat) : Option Nat := if b ≤ a then some (a - b) else none

structure Block where
  cells : Bytes
  used : Nat
  readPosition : Nat
  deriving DecidableEq

/-- What can be done to a buffer. To fill it is to put bytes into its free tail from outside, as
many as there is room for, and to say afterwards how many these were. -/
inductive Operation
  | write (data : Bytes)
  | fill (data : Bytes)
  | peek (count : Nat)
  | skip (count : Nat)
  | take (count : Nat)
  | find (delimiter : Bytes)
  | takeUntil (delimiter : Bytes)
  | realign
  deriving DecidableEq

inductive Reply
  | done
  | count (n : Nat)
  | bytes (data : Bytes)
  | position (found : Option Nat)
  | part (data : Bytes) (found : Bool)
  deriving DecidableEq

namespace Block

def ofCapacity (capacity : Nat) : Block := ⟨List.replicate capacity 0, 0, 0⟩

def ofBytes (data : Bytes) : Block := ⟨data, data.length, 0⟩

def slice? (cells : Bytes) (start stop : Nat) : Option Bytes :=
  if start ≤ stop ∧ stop ≤ cells.length then some ((cells.take stop).drop start) else none

/-- The source may be a part of the cells themselves: it is read before it is overwritten. -/
def overwrite? (cells : Bytes) (start : Nat) (data : Bytes) : Option Bytes :=
  if start + data.length ≤ cells.length then
    some (cells.take start ++ (data ++ cells.drop (start + data.length)))
  else none

def length? (b : Block) : Option Nat := Word.sub? b.used b.readPosition

def writable? (b : Block) : Option Nat := Word.sub? b.cells.length b.used

def unread? (b : Block) : Option Bytes := slice? b.cells b.readPosition b.used

def write? (b : Block) (data : Bytes) : Option (Nat × Block) := do
  let writable ← b.writable?
  let count := min data.length writable
  let stop ← Word.add? b.used count
  let cells ← overwrite? b.cells b.used (data.take count)
  return (count, ⟨cells, stop, b.readPosition⟩)

def fill? (b : Block) (data : Bytes) : Option Block := do
  let writable ← b.writable?
  let cells ← overwrite? b.cells b.used (data.take writable)
  let stop ← Word.add? b.used (data.take writable).length
  return ⟨cells, min stop cells.length, b.readPosition⟩

def peek? (b : Block) (count : Nat) : Option Bytes := do
  let length ← b.length?
  let stop ← Word.add? b.readPosition (min count length)
  slice? b.cells b.readPosition stop

def skip? (b : Block) (count : Nat) : Option Block := do
  let length ← b.length?
  let position ← Word.add? b.readPosition (min count length)
  return { b with readPosition := position }

def take? (b : Block) (count : Nat) : Option (Bytes × Block) := do
  let after ← b.skip? count
  let data ← slice? b.cells b.readPosition after.readPosition
  return (data, after)

def find? (b : Block) (delimiter : Bytes) : Option (Option Nat) := do
  let unread ← b.unread?
  return Bytes.find? delimiter unread

/-- Only tails that are shorter than the delimiter are tried. -/
def partialMatch? (b : Block) (delimiter : Bytes) : Option Nat := do
  let unread ← b.unread?
  if delimiter.length < 2 then return unread.length
  let longest ← Word.sub? delimiter.length 1
  let first := unread.length - longest
  let tails := List.range' first (unread.length - first)
  return (tails.find? fun p ↦ (unread.drop p).isPrefixOf delimiter).getD unread.length

def takeUntil? (b : Block) (delimiter : Bytes) : Option (Bytes × Bool × Block) := do
  let found ← b.find? delimiter
  match found with
  | some position =>
    let (data, after) ← b.take? position
    return (data, true, after)
  | none =>
    let kept ← b.partialMatch? delimiter
    let (data, after) ← b.take? kept
    return (data, false, after)

def realign? (b : Block) : Option Block :=
  if b.readPosition = 0 then some b
  else do
    let unread ← b.unread?
    let cells ← overwrite? b.cells 0 unread
    let used ← Word.sub? b.used b.readPosition
    return ⟨cells, used, 0⟩

def perform? (b : Block) : Operation → Option (Reply × Block)
  | .write data => do
    let (n, after) ← b.write? data
    return (.count n, after)
  | .fill data => do
    let after ← b.fill? data
    return (.done, after)
  | .peek count => do
    let data ← b.peek? count
    return (.bytes data, b)
  | .skip count => do
    let after ← b.skip? count
    return (.done, after)
  | .take count => do
    let (data, after) ← b.take? count
    return (.bytes data, after)
  | .find delimiter => do
    let found ← b.find? delimiter
    return (.position found, b)
  | .takeUntil delimiter => do
    let (data, found, after) ← b.takeUntil? delimiter
    return (.part data found, after)
  | .realign => do
    let after ← b.realign?
    return (.done, after)

def run? (b : Block) : List Operation → Option (List Reply × Block)
  | [] => some ([], b)
  | operation :: rest => do
    let (reply, after) ← b.perform? operation
    let (replies, last) ← after.run? rest
    return (reply :: replies, last)

theorem slice?_middle (a b c : Bytes) :
    slice? (a ++ (b ++ c)) a.length (a.length + b.length) = some b := by
  unfold slice?
  rw [if_pos (by simp only [List.length_append]; omega), ← List.append_assoc, ← List.length_append,
    List.take_left, List.drop_left]

theorem overwrite?_middle (a old c data : Bytes) (h : data.length = old.length) :
    overwrite? (a ++ (old ++ c)) a.length data = some (a ++ (data ++ c)) := by
  unfold overwrite?
  rw [if_pos (by simp only [List.length_append]; omega), List.take_left, h, ← List.length_append,
    ← List.append_assoc a old c, List.drop_left]

end Block

theorem Bytes.overlapAt_find?_range' {d u : Bytes} {first : Nat} (hle : first ≤ u.length)
    (hlong : ∀ q < first, ¬u.drop q <+: d) :
    d.OverlapAt u (((List.range' first (u.length - first)).find? fun p ↦
      (u.drop p).isPrefixOf d).getD u.length) := by
  cases hf : (List.range' first (u.length - first)).find? fun p ↦ (u.drop p).isPrefixOf d with
  | none =>
    simp only [List.find?_range'_eq_none, Bool.not_eq_true', Bool.eq_false_iff, ne_eq,
      List.isPrefixOf_iff_prefix] at hf
    refine ⟨?_, fun q hq ↦ ?_⟩
    · rw [Option.getD_none, List.drop_length]
      exact List.nil_prefix
    · rw [Option.getD_none] at hq
      rcases Nat.lt_or_ge q first with h | h
      · exact hlong q h
      · exact hf q h (by omega)
  | some p =>
    simp only [List.find?_range'_eq_some, Bool.not_eq_true', Bool.eq_false_iff, ne_eq,
      List.isPrefixOf_iff_prefix] at hf
    refine ⟨hf.1, fun q hq ↦ ?_⟩
    rcases Nat.lt_or_ge q first with h | h
    · exact hlong q h
    · exact hf.2.2 q h hq

namespace Buffer

variable {b : Buffer}

/-- The parts of a buffer side by side. -/
def block (b : Buffer) : Block := ⟨b.spent.reverse ++ (b.unread ++ b.free), b.used, b.readPosition⟩

def fill (b : Buffer) (data : Bytes) : Buffer :=
  (b.stage data).commit (data.take b.writable).length

def perform (b : Buffer) : Operation → Reply × Buffer
  | .write data => (.count (min data.length b.writable), b.write data)
  | .fill data => (.done, b.fill data)
  | .peek count => (.bytes (b.peek count), b)
  | .skip count => (.done, b.skip count)
  | .take count => (.bytes (b.take count).1, (b.take count).2)
  | .find delimiter => (.position (b.find? delimiter), b)
  | .takeUntil delimiter =>
    (.part (b.takeUntil delimiter).1 (b.takeUntil delimiter).2.1, (b.takeUntil delimiter).2.2)
  | .realign => (.done, b.realign)

def run (b : Buffer) : List Operation → List Reply × Buffer
  | [] => ([], b)
  | operation :: rest =>
    ((b.perform operation).1 :: ((b.perform operation).2.run rest).1,
      ((b.perform operation).2.run rest).2)

theorem fill_eq_write (b : Buffer) (data : Bytes) : b.fill data = b.write data := by
  simp only [fill, stage, commit, write, List.take_left, List.drop_left]

theorem used_block (b : Buffer) : b.block.used = b.used := rfl

theorem readPosition_block (b : Buffer) : b.block.readPosition = b.readPosition := rfl

theorem block_ofCapacity (capacity : Nat) :
    (ofCapacity capacity).block = .ofCapacity capacity := rfl

theorem block_ofBytes (data : Bytes) : (ofBytes data).block = .ofBytes data := by
  simp only [block, ofBytes, used, readPosition, Block.ofBytes, List.reverse_nil, List.nil_append,
    List.append_nil, List.length_nil, Nat.zero_add]

theorem length_cells (b : Buffer) : b.block.cells.length = b.capacity := by
  simp only [block, capacity, List.length_append, List.length_reverse]
  omega

theorem cursors_in_order (b : Buffer) :
    b.block.readPosition ≤ b.block.used ∧ b.block.used ≤ b.block.cells.length := by
  rw [length_cells]
  simp only [block, readPosition, used, capacity]
  omega

theorem length?_block (b : Buffer) : b.block.length? = some b.length := by
  simp only [Block.length?, Word.sub?, block, used, readPosition, length, Nat.le_add_right,
    if_true, Nat.add_sub_cancel_left]

theorem writable?_block (b : Buffer) : b.block.writable? = some b.writable := by
  have h := (cursors_in_order b).2
  rw [Block.writable?, Word.sub?, if_pos h, length_cells]
  simp only [block, used, capacity, writable, Nat.add_sub_cancel_left]

theorem slice?_block (b : Buffer) {count : Nat} (h : count ≤ b.length) :
    Block.slice? b.block.cells b.readPosition (b.readPosition + count) = some (b.peek count) := by
  have hs := Block.slice?_middle b.spent.reverse (b.unread.take count)
    (b.unread.drop count ++ b.free)
  rw [← List.append_assoc (b.unread.take count), List.take_append_drop, List.length_take,
    Nat.min_eq_left (by exact h), List.length_reverse] at hs
  exact hs

theorem unread?_block (b : Buffer) : b.block.unread? = some b.unread := by
  have hs := slice?_block b (Nat.le_refl _)
  rw [peek, length, List.take_length] at hs
  exact hs

theorem overwrite?_block (b : Buffer) (data : Bytes) :
    Block.overwrite? b.block.cells b.used (data.take b.writable) =
      some (b.write data).block.cells := by
  have hl : (data.take b.writable).length = (b.free.take (data.take b.writable).length).length := by
    simp only [List.length_take, writable]
    omega
  have ho := Block.overwrite?_middle (b.spent.reverse ++ b.unread) _
    (b.free.drop (data.take b.writable).length) _ hl
  rw [List.take_append_drop, List.length_append, List.length_reverse, List.append_assoc] at ho
  rw [used, block, ho]
  simp only [block, write, List.append_assoc]

theorem used_write (b : Buffer) (data : Bytes) :
    (b.write data).used = b.used + min data.length b.writable := by
  simp only [used, write, List.length_append, List.length_take]
  omega

theorem used_le_capacity (b : Buffer) : b.used ≤ b.capacity := by
  simp only [used, capacity]
  omega

theorem readPosition_skip (b : Buffer) (count : Nat) :
    (b.skip count).readPosition = b.readPosition + min count b.length := by
  simp only [readPosition, skip, length, List.length_append, List.length_reverse, List.length_take]
  omega

theorem used_skip (b : Buffer) (count : Nat) : (b.skip count).used = b.used := by
  simp only [used, skip, List.length_append, List.length_reverse, List.length_take,
    List.length_drop]
  omega

theorem readPosition_add_le (b : Buffer) (count : Nat) :
    b.readPosition + min count b.length ≤ b.capacity := by
  simp only [readPosition, length, capacity]
  omega

theorem peek_min (b : Buffer) (count : Nat) : b.peek (min count b.length) = b.peek count :=
  List.take_eq_take_min.symm

variable (hc : b.capacity < Nat.pow 2 64)

include hc

theorem add?_of_le {n m : Nat} (h : n + m ≤ b.capacity) : Word.add? n m = some (n + m) :=
  if_pos (Nat.lt_of_le_of_lt h hc)

theorem write?_block (data : Bytes) :
    b.block.write? data = some (min data.length b.writable, (b.write data).block) := by
  have hu := used_le_capacity (b.write data)
  have ho := overwrite?_block b data
  rw [capacity_write, used_write] at hu
  rw [List.take_eq_take_min, Nat.min_comm] at ho
  simp only [Block.write?, writable?_block, used_block, add?_of_le hc hu, ho, ← used_write,
    Option.bind_eq_bind, Option.bind_some]
  rfl

theorem fill?_block (data : Bytes) : b.block.fill? data = some (b.fill data).block := by
  have hu := used_le_capacity (b.write data)
  have hw : b.used + (data.take b.writable).length = (b.write data).used := by
    rw [used_write, List.length_take, Nat.min_comm]
  rw [capacity_write, ← hw] at hu
  simp only [Block.fill?, writable?_block, used_block, overwrite?_block, add?_of_le hc hu,
    Option.bind_eq_bind, Option.bind_some]
  rw [hw, fill_eq_write, Nat.min_eq_left (by exact (cursors_in_order (b.write data)).2)]
  rfl

theorem skip?_block (count : Nat) : b.block.skip? count = some (b.skip count).block := by
  have hp := readPosition_skip b count
  have hu := used_skip b count
  have hle := readPosition_add_le b count
  simp only [Block.skip?, length?_block, readPosition_block, add?_of_le hc hle,
    Option.bind_eq_bind, Option.bind_some]
  rw [← hp, Option.pure_def, Option.some_inj, Block.mk.injEq, used_block, ← hu]
  refine ⟨?_, rfl, rfl⟩
  simp only [block, skip, List.reverse_append, List.reverse_reverse, List.append_assoc]
  rw [← List.append_assoc (b.unread.take count), List.take_append_drop]

theorem peek?_block (count : Nat) : b.block.peek? count = some (b.peek count) := by
  have hle := readPosition_add_le b count
  simp only [Block.peek?, length?_block, readPosition_block, add?_of_le hc hle,
    Option.bind_eq_bind, Option.bind_some, slice?_block b (Nat.min_le_right _ _), peek_min]

theorem take?_block (count : Nat) :
    b.block.take? count = some ((b.take count).1, (b.take count).2.block) := by
  have hs := slice?_block b (Nat.min_le_right count b.length)
  rw [← readPosition_skip, peek_min] at hs
  simp only [Block.take?, skip?_block hc, readPosition_block, hs, Option.bind_eq_bind,
    Option.bind_some]
  rfl

omit hc

theorem find?_block (delimiter : Bytes) : b.block.find? delimiter = some (b.find? delimiter) := by
  simp only [Block.find?, unread?_block, Option.bind_eq_bind, Option.bind_some]
  rfl

/-- Tails that are as long as the delimiter need not be tried: they would contain it. -/
theorem partialMatch?_block {delimiter : Bytes} (h : b.find? delimiter = none) :
    b.block.partialMatch? delimiter = some (Bytes.overlapFrom delimiter 0 b.unread) := by
  have hn := Bytes.find?_eq_none_iff.1 h
  simp only [Block.partialMatch?, unread?_block, Option.bind_eq_bind, Option.bind_some]
  split
  · rename_i hl
    obtain ⟨c, rfl⟩ : ∃ c, delimiter = [c] := by
      refine List.length_eq_one_iff.1 ?_
      have hd : delimiter ≠ [] := fun hd ↦ hn (hd ▸ List.nil_infix)
      have hp := List.length_pos_iff.2 hd
      omega
    rw [Bytes.overlapFrom_singleton h]
    rfl
  · rename_i hl
    rw [Word.sub?, if_pos (by omega), Option.bind_some]
    refine congrArg some (Bytes.OverlapAt.unique ?_ (Bytes.overlapAt_overlapFrom _ _))
    refine Bytes.overlapAt_find?_range' (Nat.sub_le _ _) fun q hq hp ↦ hn ?_
    have hle := hp.length_le
    have he := hp.eq_of_length (by rw [List.length_drop] at hle ⊢; omega)
    exact he ▸ (List.drop_suffix q b.unread).isInfix

include hc

theorem takeUntil?_block (delimiter : Bytes) :
    b.block.takeUntil? delimiter = some ((b.takeUntil delimiter).1, (b.takeUntil delimiter).2.1,
      (b.takeUntil delimiter).2.2.block) := by
  simp only [Block.takeUntil?, find?_block, Option.bind_eq_bind, Option.bind_some, takeUntil]
  cases hf : b.find? delimiter with
  | some position =>
    simp only [take?_block hc, Option.bind_some]
    rfl
  | none =>
    simp only [partialMatch?_block hf, take?_block hc, Option.bind_some]
    rfl

omit hc

theorem realign?_block (b : Buffer) : b.block.realign? = some b.realign.block := by
  have hs : Word.sub? b.used b.readPosition = some b.unread.length := by
    simp only [Word.sub?, used, readPosition, Nat.le_add_right, if_true, Nat.add_sub_cancel_left]
  have hle : 0 + b.unread.length ≤ b.block.cells.length := by
    rw [length_cells, capacity]
    omega
  unfold Block.realign? realign
  rw [readPosition_block]
  split
  · rename_i h
    rw [readPosition, List.length_eq_zero_iff] at h
    rw [if_pos (List.isEmpty_iff.2 h)]
  · rename_i h
    rw [readPosition, List.length_eq_zero_iff, ← List.isEmpty_iff] at h
    rw [if_neg h]
    simp only [unread?_block, Block.overwrite?, if_pos hle, used_block, hs, Option.bind_eq_bind,
      Option.bind_some, Option.pure_def]
    simp only [block, used, readPosition, List.length_nil, List.reverse_nil, List.take_zero,
      List.nil_append, List.append_assoc, Nat.zero_add]

include hc

theorem perform?_block (operation : Operation) :
    b.block.perform? operation =
      some ((b.perform operation).1, (b.perform operation).2.block) := by
  cases operation with
  | write data =>
    simp only [Block.perform?, write?_block hc, Option.bind_eq_bind, Option.bind_some]
    rfl
  | fill data =>
    simp only [Block.perform?, fill?_block hc, Option.bind_eq_bind, Option.bind_some]
    rfl
  | peek count =>
    simp only [Block.perform?, peek?_block hc, Option.bind_eq_bind, Option.bind_some]
    rfl
  | skip count =>
    simp only [Block.perform?, skip?_block hc, Option.bind_eq_bind, Option.bind_some]
    rfl
  | take count =>
    simp only [Block.perform?, take?_block hc, Option.bind_eq_bind, Option.bind_some]
    rfl
  | find delimiter =>
    simp only [Block.perform?, find?_block, Option.bind_eq_bind, Option.bind_some]
    rfl
  | takeUntil delimiter =>
    simp only [Block.perform?, takeUntil?_block hc, Option.bind_eq_bind, Option.bind_some]
    rfl
  | realign =>
    simp only [Block.perform?, realign?_block, Option.bind_eq_bind, Option.bind_some]
    rfl

omit hc

theorem capacity_perform (b : Buffer) (operation : Operation) :
    (b.perform operation).2.capacity = b.capacity := by
  cases operation with
  | write data => exact capacity_write b data
  | fill data => exact (congrArg capacity (fill_eq_write b data)).trans (capacity_write b data)
  | peek count => rfl
  | skip count => exact capacity_skip b count
  | take count => exact capacity_skip b count
  | find delimiter => rfl
  | takeUntil delimiter =>
    rw [perform, takeUntil]
    split <;> exact capacity_skip b _
  | realign => exact capacity_realign b

theorem capacity_run (b : Buffer) (operations : List Operation) :
    (b.run operations).2.capacity = b.capacity := by
  induction operations generalizing b with
  | nil => rfl
  | cons operation rest ih => exact (ih _).trans (capacity_perform b operation)

include hc

theorem run?_block (operations : List Operation) :
    b.block.run? operations = some ((b.run operations).1, (b.run operations).2.block) := by
  induction operations generalizing b with
  | nil => rfl
  | cons operation rest ih =>
    have hn : (b.perform operation).2.capacity < Nat.pow 2 64 := capacity_perform b operation ▸ hc
    simp only [Block.run?, perform?_block hc, ih hn, Option.bind_eq_bind, Option.bind_some]
    rfl

end Buffer

/-- A queue of bytes. The room is what can be put in before space is reclaimed. -/
structure Queue where
  capacity : Nat
  contents : Bytes
  room : Nat

namespace Queue

def push (q : Queue) (data : Bytes) : Queue :=
  { q with contents := q.contents ++ data, room := q.room - data.length }

def pop (q : Queue) (count : Nat) : Queue := { q with contents := q.contents.drop count }

/-- What each operation does: its reply, the bytes that it commits at the back and those that it
consumes at the front, and the queue that it leaves. -/
inductive Performs (q : Queue) : Operation → Reply → Bytes → Bytes → Queue → Prop
  | write (data : Bytes) :
    q.Performs (.write data) (.count (min data.length q.room)) (data.take q.room) []
      (q.push (data.take q.room))
  | fill (data : Bytes) :
    q.Performs (.fill data) .done (data.take q.room) [] (q.push (data.take q.room))
  | peek (count : Nat) : q.Performs (.peek count) (.bytes (q.contents.take count)) [] [] q
  | skip (count : Nat) :
    q.Performs (.skip count) .done [] (q.contents.take count) (q.pop count)
  | take (count : Nat) :
    q.Performs (.take count) (.bytes (q.contents.take count)) [] (q.contents.take count)
      (q.pop count)
  | findSome {delimiter : Bytes} {p : Nat} (h : delimiter.FirstAt q.contents p) :
    q.Performs (.find delimiter) (.position (some p)) [] [] q
  | findNone {delimiter : Bytes} (h : ¬delimiter <:+: q.contents) :
    q.Performs (.find delimiter) (.position none) [] [] q
  | untilFound {delimiter : Bytes} {p : Nat} (h : delimiter.FirstAt q.contents p) :
    q.Performs (.takeUntil delimiter) (.part (q.contents.take p) true) [] (q.contents.take p)
      (q.pop p)
  | untilMissing {delimiter : Bytes} {p : Nat} (h : ¬delimiter <:+: q.contents)
    (hp : delimiter.OverlapAt q.contents p) :
    q.Performs (.takeUntil delimiter) (.part (q.contents.take p) false) [] (q.contents.take p)
      (q.pop p)
  | realign :
    q.Performs .realign .done [] [] { q with room := q.capacity - q.contents.length }

/-- The operations one after the other, with all that is committed and consumed on the way. -/
inductive Runs : Queue → List Operation → List Reply → Bytes → Bytes → Queue → Prop
  | nil (q : Queue) : q.Runs [] [] [] [] q
  | cons {q next last : Queue} {operation : Operation} {reply : Reply}
    {operations : List Operation} {replies : List Reply} {c c' u u' : Bytes}
    (step : q.Performs operation reply c u next) (rest : next.Runs operations replies c' u' last) :
    q.Runs (operation :: operations) (reply :: replies) (c ++ c') (u ++ u') last

theorem Performs.conserves {q next : Queue} {operation : Operation} {reply : Reply} {c u : Bytes}
    (h : q.Performs operation reply c u next) : q.contents ++ c = u ++ next.contents := by
  cases h with
  | write data => rfl
  | fill data => rfl
  | peek count => exact List.append_nil _
  | skip count => exact (List.append_nil _).trans (List.take_append_drop _ _).symm
  | take count => exact (List.append_nil _).trans (List.take_append_drop _ _).symm
  | findSome h => exact List.append_nil _
  | findNone h => exact List.append_nil _
  | untilFound h => exact (List.append_nil _).trans (List.take_append_drop _ _).symm
  | untilMissing h hp => exact (List.append_nil _).trans (List.take_append_drop _ _).symm
  | realign => exact List.append_nil _

/-- Nothing is lost, doubled or changed: what was there and was committed has been consumed or is
still there, in the same order. -/
theorem Runs.conserves {q last : Queue} {operations : List Operation} {replies : List Reply}
    {c u : Bytes} (h : q.Runs operations replies c u last) :
    q.contents ++ c = u ++ last.contents := by
  induction h with
  | nil q => exact List.append_nil _
  | @cons q next last operation reply operations replies c c' u u' step rest ih =>
    calc q.contents ++ (c ++ c') = (q.contents ++ c) ++ c' := (List.append_assoc _ _ _).symm
      _ = u ++ (next.contents ++ c') := by rw [step.conserves, List.append_assoc]
      _ = (u ++ u') ++ last.contents := by rw [ih, List.append_assoc]

end Queue

namespace Buffer

def queue (b : Buffer) : Queue := ⟨b.capacity, b.unread, b.writable⟩

theorem queue_write (b : Buffer) (data : Bytes) :
    (b.write data).queue = b.queue.push (data.take b.writable) := by
  rw [queue, capacity_write]
  simp only [queue, Queue.push, write, writable, List.length_drop]

theorem queue_skip (b : Buffer) (count : Nat) : (b.skip count).queue = b.queue.pop count := by
  rw [queue, capacity_skip]
  rfl

theorem queue_realign (b : Buffer) :
    b.realign.queue = { b.queue with room := b.capacity - b.length } := by
  rw [queue, capacity_realign, unread_realign, writable_realign]
  rfl

theorem performs_queue (b : Buffer) (operation : Operation) :
    ∃ committed consumed, b.queue.Performs operation (b.perform operation).1 committed consumed
      (b.perform operation).2.queue := by
  cases operation with
  | write data =>
    rw [perform, queue_write]
    exact ⟨_, _, .write data⟩
  | fill data =>
    rw [perform, fill_eq_write, queue_write]
    exact ⟨_, _, .fill data⟩
  | peek count => exact ⟨_, _, .peek count⟩
  | skip count =>
    rw [perform, queue_skip]
    exact ⟨_, _, .skip count⟩
  | take count =>
    rw [perform, take, queue_skip]
    exact ⟨_, _, .take count⟩
  | find delimiter =>
    rw [perform]
    cases hf : b.find? delimiter with
    | some p => exact ⟨_, _, .findSome (Bytes.firstAt_of_find? hf)⟩
    | none => exact ⟨_, _, .findNone (Bytes.find?_eq_none_iff.1 hf)⟩
  | takeUntil delimiter =>
    rw [perform, takeUntil]
    cases hf : b.find? delimiter with
    | some p =>
      rw [queue_skip]
      exact ⟨_, _, .untilFound (Bytes.firstAt_of_find? hf)⟩
    | none =>
      have ho := Bytes.overlapAt_overlapFrom delimiter b.unread
      rw [queue_skip]
      exact ⟨_, _, .untilMissing (Bytes.find?_eq_none_iff.1 hf) ho⟩
  | realign =>
    rw [perform, queue_realign]
    exact ⟨_, _, .realign⟩

theorem runs_queue (b : Buffer) (operations : List Operation) :
    ∃ committed consumed, b.queue.Runs operations (b.run operations).1 committed consumed
      (b.run operations).2.queue := by
  induction operations generalizing b with
  | nil => exact ⟨_, _, .nil _⟩
  | cons operation rest ih =>
    obtain ⟨_, _, hp⟩ := performs_queue b operation
    obtain ⟨_, _, hr⟩ := ih (b.perform operation).2
    exact ⟨_, _, .cons hp hr⟩

end Buffer

/-- A block and the buffer whose layout it is, before anything is done to them: empty, or holding
bytes that were copied into it. -/
inductive Block.Starts : Block → Buffer → Prop
  | ofCapacity (capacity : Nat) : Starts (.ofCapacity capacity) (.ofCapacity capacity)
  | ofBytes (data : Bytes) : Starts (.ofBytes data) (.ofBytes data)

theorem Block.Starts.block_eq {block : Block} {start : Buffer} (h : Starts block start) :
    block = start.block := by
  cases h with
  | ofCapacity capacity => exact (Buffer.block_ofCapacity capacity).symm
  | ofBytes data => exact (Buffer.block_ofBytes data).symm

/-- Whatever is done to a new buffer, in whatever order: no count leaves the machine words and no
range its cells, the cursors stay in order and the size stays as it is, every reply and every change
is that of a queue, and the unread bytes are those committed without those consumed. -/
theorem Block.operations_refine_queue {block : Block} {start : Buffer} (hs : Starts block start)
    (hc : start.capacity < Nat.pow 2 64) (operations : List Operation) :
    ∃ replies last committed consumed,
      start.run operations = (replies, last) ∧
      block.run? operations = some (replies, last.block) ∧
      last.block.readPosition ≤ last.block.used ∧
      last.block.used ≤ last.block.cells.length ∧
      last.block.cells.length = start.capacity ∧
      start.queue.Runs operations replies committed consumed last.queue ∧
      start.unread ++ committed = consumed ++ last.unread := by
  obtain ⟨committed, consumed, hr⟩ := start.runs_queue operations
  obtain ⟨hread, hused⟩ := (start.run operations).2.cursors_in_order
  have hrun := Buffer.run?_block hc operations
  have hlength := (start.run operations).2.length_cells.trans (start.capacity_run operations)
  refine ⟨_, _, committed, consumed, rfl, ?_, hread, hused, hlength, hr, hr.conserves⟩
  rw [hs.block_eq, hrun]

theorem Block.operations_refine_queue_of_eight :
    (Buffer.ofCapacity 8).capacity < Nat.pow 2 64 ∧ ∃ replies last committed consumed,
      (Buffer.ofCapacity 8).run
        [.write [1, 2, 3, 4, 5, 6, 7, 8, 9], .skip 3, .realign, .take 2, .fill [10, 11],
          .find [7, 8], .peek 9] = (replies, last) ∧
      (Block.ofCapacity 8).run?
        [.write [1, 2, 3, 4, 5, 6, 7, 8, 9], .skip 3, .realign, .take 2, .fill [10, 11],
          .find [7, 8], .peek 9] = some (replies, last.block) ∧
      replies = [.count 8, .done, .done, .bytes [4, 5], .done, .position (some 1),
        .bytes [6, 7, 8, 10, 11]] ∧
      (Buffer.ofCapacity 8).unread ++ committed = consumed ++ last.unread := by
  have hc : (Buffer.ofCapacity 8).capacity < Nat.pow 2 64 := by decide
  obtain ⟨replies, last, committed, consumed, hrun, hblock, -, -, -, -, h⟩ :=
    Block.operations_refine_queue (.ofCapacity 8) hc
      [.write [1, 2, 3, 4, 5, 6, 7, 8, 9], .skip 3, .realign, .take 2, .fill [10, 11],
        .find [7, 8], .peek 9]
  refine ⟨hc, replies, last, committed, consumed, hrun, hblock, ?_, h⟩
  exact (congrArg Prod.fst hrun).symm

end LocalHttp
