import LocalHttp.Bytes

namespace LocalHttp

structure Buffer where
  /-- Consumed bytes, the latest first. -/
  spent : Bytes
  unread : Bytes
  /-- What the free tail holds; it is not part of the contents. -/
  free : Bytes
  deriving DecidableEq

namespace Buffer

def defaultCapacity : Nat := 4096

def ofCapacity (capacity : Nat) : Buffer := ⟨[], [], List.replicate capacity 0⟩

def ofBytes (bytes : Bytes) : Buffer := ⟨[], bytes, []⟩

def readPosition (b : Buffer) : Nat := b.spent.length

def used (b : Buffer) : Nat := b.spent.length + b.unread.length

def capacity (b : Buffer) : Nat := b.spent.length + b.unread.length + b.free.length

def length (b : Buffer) : Nat := b.unread.length

def isEmpty (b : Buffer) : Bool := b.unread.isEmpty

def writable (b : Buffer) : Nat := b.free.length

def write (b : Buffer) (data : Bytes) : Buffer :=
  let taken := data.take b.writable
  { b with unread := b.unread ++ taken, free := b.free.drop taken.length }

/-- Puts `data` into the free tail without committing it. -/
def stage (b : Buffer) (data : Bytes) : Buffer :=
  let taken := data.take b.writable
  { b with free := taken ++ b.free.drop taken.length }

/-- Takes `count` bytes of the free tail as they stand into the contents. -/
def commit (b : Buffer) (count : Nat) : Buffer :=
  { b with unread := b.unread ++ b.free.take count, free := b.free.drop count }

def peek (b : Buffer) (count : Nat) : Bytes := b.unread.take count

def skip (b : Buffer) (count : Nat) : Buffer :=
  { b with spent := (b.unread.take count).reverse ++ b.spent, unread := b.unread.drop count }

def take (b : Buffer) (count : Nat) : Bytes × Buffer := (b.peek count, b.skip count)

def find? (b : Buffer) (delimiter : Bytes) : Option Nat := Bytes.find? delimiter b.unread

/-- Consumes what stands before `delimiter`, which itself stays, and says that it was found.
Without it everything is consumed but the longest tail that may be its beginning. -/
def takeUntil (b : Buffer) (delimiter : Bytes) : Bytes × Bool × Buffer :=
  match b.find? delimiter with
  | some position => (b.peek position, true, b.skip position)
  | none =>
    let kept := Bytes.overlapFrom delimiter 0 b.unread
    (b.peek kept, false, b.skip kept)

def takeToken (b : Buffer) (delimiter : Bytes) : Bytes × Bool × Buffer :=
  match b.takeUntil delimiter with
  | (token, true, rest) => (token, true, rest.skip delimiter.length)
  | (token, false, rest) => (token, false, rest)

/-- Moves the unread bytes to the start. What they leave behind stays in the tail. -/
def realign (b : Buffer) : Buffer :=
  if b.spent.isEmpty then b
  else ⟨[], b.unread, (b.spent.reverse ++ b.unread ++ b.free).drop b.unread.length⟩

theorem unread_write (b : Buffer) (data : Bytes) :
    (b.write data).unread = b.unread ++ data.take b.writable := rfl

theorem unread_commit_stage (b : Buffer) (data : Bytes) (h : data.length ≤ b.writable) :
    ((b.stage data).commit data.length).unread = b.unread ++ data := by
  simp [stage, commit, List.take_of_length_le h]

theorem unread_skip (b : Buffer) (count : Nat) : (b.skip count).unread = b.unread.drop count := rfl

theorem length_skip (b : Buffer) (count : Nat) : (b.skip count).length = b.length - count :=
  List.length_drop

theorem length_takeUntil {b rest : Buffer} {delimiter token : Bytes}
    (h : b.takeUntil delimiter = (token, true, rest)) :
    rest.length + token.length = b.length ∧ delimiter.length ≤ rest.length := by
  unfold takeUntil at h
  split at h
  · rename_i position hf
    have hle := Bytes.le_of_find? hf
    simp only [Prod.mk.injEq, true_and] at h
    rw [← h.1, ← h.2, length_skip]
    simp only [peek, List.length_take, length]
    omega
  · simp at h

theorem length_takeToken_lt {b rest : Buffer} {delimiter token : Bytes} (hd : delimiter ≠ [])
    (h : b.takeToken delimiter = (token, true, rest)) : rest.length < b.length := by
  unfold takeToken at h
  split at h
  · rename_i t r ht
    have hl := length_takeUntil ht
    have hp := List.length_pos_iff.2 hd
    simp only [Prod.mk.injEq, true_and] at h
    rw [← h.2, length_skip]
    omega
  · simp at h

theorem unread_realign (b : Buffer) : b.realign.unread = b.unread := by
  unfold realign
  split <;> rfl

theorem spent_realign (b : Buffer) : b.realign.spent = [] := by
  unfold realign
  split
  · exact List.isEmpty_iff.1 ‹_›
  · rfl

theorem capacity_write (b : Buffer) (data : Bytes) : (b.write data).capacity = b.capacity := by
  simp only [write, capacity, writable, List.length_append, List.length_take, List.length_drop]
  omega

theorem capacity_skip (b : Buffer) (count : Nat) : (b.skip count).capacity = b.capacity := by
  simp only [skip, capacity, List.length_append, List.length_reverse, List.length_take,
    List.length_drop]
  omega

theorem capacity_takeUntil (b : Buffer) (delimiter : Bytes) :
    (b.takeUntil delimiter).2.2.capacity = b.capacity := by
  unfold takeUntil
  split <;> exact capacity_skip b _

theorem capacity_takeToken (b : Buffer) (delimiter : Bytes) :
    (b.takeToken delimiter).2.2.capacity = b.capacity := by
  have hu := capacity_takeUntil b delimiter
  unfold takeToken
  split <;> rename_i h <;> rw [h] at hu
  · exact (capacity_skip _ _).trans hu
  · exact hu

theorem capacity_realign (b : Buffer) : b.realign.capacity = b.capacity := by
  unfold realign
  split
  · rfl
  · simp only [capacity, List.length_drop, List.length_append, List.length_reverse, List.length_nil]
    omega

theorem writable_realign (b : Buffer) : b.realign.writable = b.capacity - b.length := by
  unfold realign
  split
  · rename_i h
    simp only [List.isEmpty_iff] at h
    simp [writable, capacity, length, h]
  · simp only [writable, capacity, length, List.length_drop, List.length_append,
      List.length_reverse]

end Buffer

end LocalHttp
