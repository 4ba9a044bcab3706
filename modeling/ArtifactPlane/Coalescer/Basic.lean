import ArtifactPlane.Coalescer.Call
import ArtifactPlane.Hash

/-!
The coalescer lets at most one load for each key run at a time.  A caller that finds
a load for its key registered joins it; otherwise it registers one of its own, in one
step with a second look.  When a load ends, its registration is removed before its
result is recorded, so that nobody joins a load that has ended.
-/

namespace ArtifactPlane

/-- Registered loads, and all loads begun so far by their numbers. -/
structure Coalescer where
  /-- The number of the load registered under each key. -/
  shards : Array (List (String × Nat))
  calls : Array Call
  /-- Loads begun. -/
  executions : UInt64
  /-- Callers that joined the load of another. -/
  coalesced : UInt64

namespace Coalescer

/-- The number of shards when none is chosen. -/
def standardShards : Nat := 32

/-- A coalescer without loads; there is at least one shard. -/
def ofShards (count : Nat) : Coalescer :=
  ⟨Array.replicate (max count 1) [], #[], 0, 0⟩

/-- The number of shards. -/
def shardCount (c : Coalescer) : Nat := c.shards.size

/-- The shard that a key belongs to. -/
def shardOf (c : Coalescer) (key : String) : Nat := Hash.shard key c.shardCount

/-- The load registered under a key. -/
def registered? (c : Coalescer) (key : String) : Option Nat :=
  (c.shards.getD (c.shardOf key) []).lookup key

/-- A load by its number. -/
def call (c : Coalescer) (id : Nat) : Call := c.calls.getD id Call.new

/-- How a caller takes part in a load. -/
inductive Role where
  /-- It shares a load that was registered before. -/
  | joined
  /-- The load is its own. -/
  | leading
deriving DecidableEq, Repr

/-- Join the load registered under a key. -/
def join? (c : Coalescer) (key : String) : Option (Nat × Coalescer) :=
  (c.registered? key).map fun id => (id, { c with coalesced := c.coalesced + 1 })

/-- Begin a load and register it under a key. -/
def lead (c : Coalescer) (key : String) : Nat × Coalescer :=
  let id := c.calls.size
  (id, { c with
    shards := c.shards.modify (c.shardOf key) fun s => (key, id) :: s
    calls := c.calls.push Call.new
    executions := c.executions + 1 })

/-- Look again, and begin a load only if none is registered. -/
def joinOrLead (c : Coalescer) (key : String) : Role × Nat × Coalescer :=
  match c.join? key with
  | some (id, c) => (.joined, id, c)
  | none =>
    let (id, c) := c.lead key
    (.leading, id, c)

/-- A caller with a key: a first look without exclusive access, then a second with it. -/
def enter (c : Coalescer) (key : String) : Role × Nat × Coalescer :=
  match c.join? key with
  | some (id, c) => (.joined, id, c)
  | none => c.joinOrLead key

/-- Remove the registration of a key if it is still that of the load. -/
def unregister (c : Coalescer) (key : String) (id : Nat) : Coalescer :=
  { c with shards := c.shards.modify (c.shardOf key) fun s => s.filter (· != (key, id)) }

/-- Record the result of a load. -/
def record (c : Coalescer) (id : Nat) (r : Loaded) : Coalescer :=
  { c with calls := c.calls.modify id fun call => call.complete r }

/-- How a load ends. -/
inductive Ending where
  | delivered (r : Loaded)
  | panicked

/-- What the callers of a load are given, by how it ends. -/
def Ending.result (key : String) : Ending → Loaded
  | .delivered r => r
  | .panicked => .error (.ofCause key .loaderPanicked)

/-- End a load. -/
def finish (c : Coalescer) (key : String) (id : Nat) (e : Ending) : Coalescer :=
  (c.unregister key id).record id (e.result key)

/-- The number of loads registered. -/
def inFlight (c : Coalescer) : Nat := c.shards.toList.foldr (fun s n => s.length + n) 0

/-- What a coalescer has done and holds. -/
structure Stats where
  executions : UInt64
  coalesced : UInt64
  inFlight : Nat
deriving DecidableEq, Repr

/-- What a coalescer has done and holds now. -/
def stats (c : Coalescer) : Stats := ⟨c.executions, c.coalesced, c.inFlight⟩

theorem shardOf_lt {c : Coalescer} (h : 0 < c.shardCount) (key : String) :
    c.shardOf key < c.shardCount :=
  Hash.shard_lt key h

theorem shardCount_ofShards_pos (count : Nat) : 0 < (ofShards count).shardCount := by
  simp only [shardCount, ofShards, Array.size_replicate]
  omega

end Coalescer

end ArtifactPlane
