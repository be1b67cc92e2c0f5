import LocalHttp.Buffer
import LocalHttp.Fault

namespace LocalHttp

/-- What a read meets. Bytes that do not fit stay for the next one, and an end stays the end. -/
inductive Arrival
  | data (bytes : Bytes)
  | endOfFile
  | wouldBlock
  | interrupted
  | fault (errno : Errno)
  deriving DecidableEq

inductive Acceptance
  | room (count : Nat)
  | wouldBlock
  | interrupted
  | fault (errno : Errno)
  deriving DecidableEq

structure Received where
  buffer : Buffer
  count : Nat
  sawEnd : Bool := false
  fault : Option Errno := none
  rest : List Arrival

/-- Fills a buffer behind `count` bytes that this run has already read, until the line has no more
for now, ends or fails, or the buffer is full. A line with nothing left blocks. -/
def receive (b : Buffer) (count : Nat) : List Arrival → Received
  | [] => { buffer := b, count := count, rest := [] }
  | a :: rest =>
    if b.free.isEmpty then { buffer := b, count := count, rest := a :: rest }
    else
      match a with
      | .data bytes =>
        match bytes.drop b.writable with
        | [] => receive (b.write bytes) (count + bytes.length) rest
        | left =>
          { buffer := b.write bytes, count := count + b.writable, rest := .data left :: rest }
      | .endOfFile => { buffer := b, count := count, sawEnd := true, rest := .endOfFile :: rest }
      | .wouldBlock => { buffer := b, count := count, rest := rest }
      | .interrupted => receive b count rest
      | .fault errno => { buffer := b, count := count, fault := some errno, rest := rest }

structure Transmitted where
  sent : Bytes
  unsent : Bytes
  fault : Option Errno := none
  rest : List Acceptance

def transmit (sent data : Bytes) : List Acceptance → Transmitted
  | [] => { sent := sent, unsent := data, rest := [] }
  | a :: rest =>
    if data.isEmpty then { sent := sent, unsent := data, rest := a :: rest }
    else
      match a with
      | .room 0 => { sent := sent, unsent := data, rest := rest }
      | .room (count + 1) => transmit (sent ++ data.take (count + 1)) (data.drop (count + 1)) rest
      | .wouldBlock => { sent := sent, unsent := data, rest := rest }
      | .interrupted => transmit sent data rest
      | .fault errno => { sent := sent, unsent := data, fault := some errno, rest := rest }

def pendingBytes : List Arrival → Nat
  | [] => 0
  | .data bytes :: rest => bytes.length + pendingBytes rest
  | _ :: rest => pendingBytes rest

theorem receive_of_full {b : Buffer} (hb : b.free = []) (count : Nat) (arrivals : List Arrival) :
    receive b count arrivals = { buffer := b, count := count, rest := arrivals } := by
  cases arrivals with
  | nil => rfl
  | cons a later =>
    unfold receive
    rw [if_pos (List.isEmpty_iff.2 hb)]

theorem pendingBytes_receive (b : Buffer) (count : Nat) (arrivals : List Arrival) :
    pendingBytes (receive b count arrivals).rest + (receive b count arrivals).count =
      pendingBytes arrivals + count := by
  induction arrivals generalizing b count with
  | nil => rfl
  | cons a rest ih =>
    unfold receive
    split
    · rfl
    · cases a with
      | data bytes =>
        dsimp only
        split
        · rw [ih, pendingBytes]
          omega
        · rename_i hl
          have hpos : 0 < (bytes.drop b.writable).length := List.length_pos_iff.2 hl
          simp only [pendingBytes, List.length_drop] at hpos ⊢
          omega
      | endOfFile => rfl
      | wouldBlock => rfl
      | interrupted => exact ih b count
      | fault errno => rfl

theorem sent_append_unsent (sent data : Bytes) (acceptances : List Acceptance) :
    (transmit sent data acceptances).sent ++ (transmit sent data acceptances).unsent =
      sent ++ data := by
  induction acceptances generalizing sent data with
  | nil => rfl
  | cons a rest ih =>
    unfold transmit
    split
    · rfl
    · split
      · rfl
      · rw [ih, List.append_assoc, List.take_append_drop]
      · rfl
      · exact ih _ _
      · rfl

end LocalHttp
