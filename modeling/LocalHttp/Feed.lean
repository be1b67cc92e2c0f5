import LocalHttp.Incoming

namespace LocalHttp

structure Feed where
  state : Incoming := .fresh
  buffer : Buffer

namespace Feed

variable {α : Type}

abbrev Reader (α : Type) := Incoming → Buffer → Incoming.Outcome α × Incoming × Buffer

def read (reader : Reader α) (f : Feed) : Incoming.Outcome α × Feed :=
  let (outcome, state, buffer) := reader f.state f.buffer
  (outcome, ⟨state, buffer⟩)

/-- Reads until the bytes are used up. The outcomes so far are held last first; each of them takes
at least one byte. -/
def readAll (reader : Reader α) : Nat → Feed → List (Incoming.Outcome α) →
    List (Incoming.Outcome α) × Feed
  | 0, f, done => (done, f)
  | fuel + 1, f, done =>
    match f.read reader with
    | (.incomplete, f) => (done, f)
    | (outcome, f) => readAll reader fuel f (outcome :: done)

structure Fed (α : Type) where
  feed : Feed
  outcomes : List (Incoming.Outcome α) := []
  stalled : Bool := false

/-- Writes what fits of the pieces and reads, again and again, until all is written or nothing
moves any more. A write of nothing that brings no outcome is the last one. -/
def feedPieces (reader : Reader α) : Nat → List Bytes → Fed α → Fed α
  | 0, _, r => r
  | _ + 1, [], r => r
  | fuel + 1, [] :: pieces, r => feedPieces reader fuel pieces r
  | fuel + 1, piece :: pieces, r =>
    let count := min piece.length r.feed.buffer.writable
    let written := { r.feed with buffer := r.feed.buffer.write piece }
    let (outcomes, feed) := readAll reader (written.buffer.length + 1) written r.outcomes
    let idle := count = 0 ∧ outcomes.length = r.outcomes.length
    if idle ∧ feed.buffer.writable = 0 then { feed := feed, outcomes := outcomes, stalled := true }
    else feedPieces reader fuel (piece.drop count :: pieces) { feed := feed, outcomes := outcomes }

def pieces (size : Nat) : Nat → Bytes → List Bytes
  | 0, _ => []
  | fuel + 1, data =>
    if data.isEmpty then [] else data.take size :: pieces size fuel (data.drop size)

def feed (reader : Reader α) (f : Feed) (data : Bytes) (size : Nat) : Fed α :=
  feedPieces reader (3 * data.length + 3) (pieces (max size 1) data.length data) { feed := f }

end Feed

end LocalHttp
