import ArtifactPlane.Plane.Basic

/-!
Callers of a data plane over time.  Behind a closed gate, reads wait in order before
they reach storage; a load that was registered with the coalescer goes on when its
callers leave, any other load ends with its caller.
-/

namespace ArtifactPlane

/-- What the load of a held read ends for. -/
inductive LoadOwner where
  /-- The callers of a registered load. -/
  | call (id : Nat)
  /-- One caller. -/
  | caller (name : Option String)
deriving DecidableEq, Repr

/-- A read that waits at the gate. -/
structure HeldRead where
  load : PendingLoad
  owner : LoadOwner
deriving DecidableEq, Repr

/-- What a caller waits for: a registered load, or its own if there is none. -/
structure Awaited where
  load : PendingLoad
  call : Option Nat
deriving DecidableEq, Repr

/-- A plane with its callers. -/
structure Traffic where
  plane : Plane
  /-- Whether the gate before storage is closed. -/
  gated : Bool
  /-- Reads at the gate, the oldest first. -/
  held : List HeldRead
  /-- Callers that wait; a caller without a name stays for its one request only. -/
  waiting : List (Option String × Awaited)

namespace Traffic

/-- Callers that were given something, with what they were given. -/
abbrev Report := List (Option String × Coalescer.Ending)

/-- A plane without callers and with an open gate. -/
def ofPlane (plane : Plane) : Traffic := ⟨plane, false, [], []⟩

/-- Change the plane that callers ask. -/
def mapPlane (t : Traffic) (f : Plane → Plane) : Traffic := { t with plane := f t.plane }

/-- Give every caller of a registered load its result, if there is one. -/
def deliver (t : Traffic) : Report × Traffic :=
  let outcome? := fun a : Awaited => a.call.bind fun call => t.plane.outcome? a.load call
  let (given, waiting) := settle outcome? t.waiting
  (given.map fun g => (g.1, .delivered g.2), { t with waiting })

/-- End a load. -/
def endLoad (t : Traffic) (load : PendingLoad) (owner : LoadOwner) (e : Coalescer.Ending) :
    Report × Traffic :=
  match owner with
  | .call id => (t.mapPlane fun p => p.finish load id e).deliver
  | .caller name => ([(name, e)], { t with waiting := t.waiting.filter fun w => w.1 != name })

/-- Let a read through to storage and end its load. -/
def readNow (t : Traffic) (h : HeldRead) (now : Instant) : Report × Traffic :=
  let (e, plane) := t.plane.readAndKeep h.load now
  { t with plane }.endLoad h.load h.owner e

/-- Run a load: from the cache, or from storage once the gate lets its read through. -/
def runLoad (t : Traffic) (h : HeldRead) (now : Instant) : Report × Traffic :=
  let (content, plane) := t.plane.consult h.load now
  let t : Traffic := { t with plane }
  match content with
  | some bs => t.endLoad h.load h.owner (.delivered (.ok bs))
  | none => if t.gated then ([], { t with held := t.held ++ [h] }) else t.readNow h now

/-- A caller waits for a load. -/
def await (t : Traffic) (name : Option String) (load : PendingLoad) (call : Option Nat) :
    Traffic :=
  { t with waiting := t.waiting ++ [(name, ⟨load, call⟩)] }

/-- A caller asks for the content of a path. -/
def arrive (t : Traffic) (name : Option String) (path : String) (now : Instant) :
    Report × Traffic :=
  match t.plane.begin path with
  | .error e => ([(name, .delivered (.error e))], t)
  | .ok load =>
    let (entered, plane) := t.plane.enter load
    let t := ({ t with plane } : Traffic).await name load (entered.map (·.2))
    match entered with
    | some (.joined, _) => t.deliver
    | some (.leading, call) => t.runLoad ⟨load, .call call⟩ now
    | none => t.runLoad ⟨load, .caller name⟩ now

/-- A caller leaves, with whether it was still waiting. -/
def leave (t : Traffic) (name : Option String) : Bool × Traffic :=
  (t.waiting.any (·.1 == name), { t with
    waiting := t.waiting.filter fun w => w.1 != name
    held := t.held.filter fun h => h.owner != .caller name })

/-- Let the oldest read at the gate through, with the object that it reads. -/
def release (t : Traffic) (now : Instant) : Option String × Report × Traffic :=
  match t.held with
  | [] => (none, [], t)
  | h :: held => (some h.load.object, { t with held }.readNow h now)

/-- Close the gate. -/
def close (t : Traffic) : Traffic := { t with gated := true }

/-- Let reads through one after another. -/
def releaseAll (now : Instant) : List HeldRead → Traffic → Report × Traffic
  | [], t => ([], t)
  | h :: held, t =>
    let (first, t) := t.readNow h now
    let (rest, t) := releaseAll now held t
    (first ++ rest, t)

/-- Open the gate and let every read at it through, the oldest first. -/
def openGate (t : Traffic) (now : Instant) : Report × Traffic :=
  releaseAll now t.held { t with gated := false, held := [] }

/-- Ask for the content of a path and stay for the answer; there is none while the
read waits at the gate. -/
def get (t : Traffic) (path : String) (now : Instant) :
    Option Coalescer.Ending × Report × Traffic :=
  let (report, t) := t.arrive none path now
  (report.lookup none, report.filter fun r => r.1.isSome, t)

end Traffic

end ArtifactPlane
