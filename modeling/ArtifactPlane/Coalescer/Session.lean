import ArtifactPlane.Coalescer.Basic

/-!
Callers and loads over time.  A caller starts with a key and with a load of its own,
which runs only if the caller leads.  A load that runs goes on when its caller leaves;
one that does not run is kept until its caller leaves or is given a result.
-/

namespace ArtifactPlane.Coalescer

/-- A caller that waits. -/
structure Waiter where
  key : String
  call : Nat

/-- A load that runs. -/
structure Load where
  owner : String
  key : String
  call : Nat

/-- A coalescer with its callers and loads. -/
structure Session where
  coalescer : Coalescer
  waiting : List (String × Waiter)
  running : List Load
  /-- Joined callers whose own load, which does not run, was not yet told a result. -/
  idle : List String

/-- What came of one step. -/
structure Report where
  /-- Owners of the loads that began. -/
  started : List String
  /-- Callers that were given a result. -/
  finished : List (String × Loaded)

namespace Session

/-- A session without callers. -/
def start (c : Coalescer) : Session := ⟨c, [], [], []⟩

/-- Give every caller its result whose load has one. -/
def deliver (s : Session) (started : List String) : Report × Session :=
  let (finished, waiting) := settle (fun w => (s.coalescer.call w.call).outcome? w.key) s.waiting
  (⟨started, finished⟩, { s with
    waiting := waiting
    idle := s.idle.filter fun id => waiting.any (·.1 == id) })

/-- A load begins to run. -/
def run (s : Session) (load : Load) : Session :=
  { s with running := s.running ++ [load] }

/-- A load ends. -/
def finish (s : Session) (key : String) (call : Nat) (e : Ending) : Session :=
  { s with coalescer := s.coalescer.finish key call e }

/-- A caller starts.  With an ending, its load ends as soon as it begins. -/
def arrive (s : Session) (id key : String) (ending : Option Ending) : Report × Session :=
  let (role, call, c) := s.coalescer.enter key
  let s : Session :=
    { s with coalescer := c, waiting := s.waiting ++ [(id, ⟨key, call⟩)] }
  match role, ending with
  | .joined, some _ => s.deliver []
  | .joined, none => deliver { s with idle := s.idle ++ [id] } []
  | .leading, some e => (s.finish key call e).deliver [id]
  | .leading, none => (s.run ⟨id, key, call⟩).deliver [id]

/-- The load of a caller is told how to end, with whether it was there to be told. -/
def tell (s : Session) (id : String) (e : Ending) : Bool × Report × Session :=
  match s.running.find? (·.owner == id) with
  | some load =>
    let s := { s with running := s.running.filter (·.owner != id) }
    (true, (s.finish load.key load.call e).deliver [])
  | none => (s.idle.contains id, deliver { s with idle := s.idle.filter (· != id) } [])

/-- A caller leaves, with whether it was still waiting. -/
def leave (s : Session) (id : String) : Bool × Session :=
  (s.waiting.any (·.1 == id), { s with
    waiting := s.waiting.filter (·.1 != id)
    idle := s.idle.filter (· != id) })

end Session

end ArtifactPlane.Coalescer
