import LocalHttp.Machine

namespace LocalHttp.Bench

structure Session (σ : Type) where
  machine : Machine σ
  connections : List (String × Descriptor) := []
  waited : Bool := false

namespace Session

variable {σ : Type}

def openConnection (s : Session σ) (name : String) : Except TransportFault (Session σ) :=
  s.machine.openConnection.map fun (d, m) ↦
    { s with machine := m
             connections := (name, d) :: s.connections.filter fun c ↦ c.1 != name }

def on {α : Type} (s : Session σ) (name : String) (f : Descriptor → α × Machine σ) :
    Option α × Session σ :=
  match s.connections.find? fun c ↦ c.1 == name with
  | some (_, d) =>
    let (a, m) := f d
    (some a, { s with machine := m })
  | none => (none, s)

def write (s : Session σ) (name : String) (data : Bytes) : Session σ :=
  (s.on name fun d ↦ ((), s.machine.write d data)).2

def halfClose (s : Session σ) (name : String) : Session σ :=
  (s.on name fun d ↦ ((), s.machine.halfClose d)).2

def drop (s : Session σ) (name : String) : Session σ :=
  (s.on name fun d ↦ ((), s.machine.closeConnection d)).2

def receive (s : Session σ) (name : String) : Bytes × Session σ :=
  let (data, s) := s.on name fun d ↦ s.machine.receive d
  (data.getD [], s)

def stop (s : Session σ) : Except TransportFault Unit × Session σ :=
  let (result, m) := s.machine.command Control.stop
  (result, { s with machine := m })

/-- Says whether there was still a server to wait for. -/
def wait (s : Session σ) : Bool × Session σ := (!s.waited, { s with waited := true })

end Session

end LocalHttp.Bench
