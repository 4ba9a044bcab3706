import ArtifactPlane.Cache.Policy

/-!
A shard: at most `maxItems` entries in ascending key order, one per key.  Every
store takes a fresh generation first, so that a removal asked for earlier can
tell the entry that it was meant for from a later one under the same key.  A
store of a new key into a full shard evicts first.
-/

namespace ArtifactPlane.Cache

/-- What a lookup found. -/
inductive Lookup (α : Type) where
  /-- A live entry, whose frequency and last access were updated. -/
  | hit (value : α)
  /-- An entry past its expiry. -/
  | expired (generation : UInt64)
  | miss
deriving DecidableEq, Repr

/-- One partition of a cache. -/
structure Shard (α : Type) where
  maxItems : Nat
  entries : List (Entry α)
  nextGeneration : UInt64
  /-- Set when a removal could not be delivered. -/
  sweepPending : Bool
deriving DecidableEq, Repr

namespace Shard

variable {α : Type}

/-- A shard with room for `maxItems` entries, and for one at least. -/
def empty (maxItems : Nat) : Shard α :=
  ⟨max maxItems 1, [], 1, false⟩

instance : Inhabited (Shard α) := ⟨empty 1⟩

/-- The entry stored under a key. -/
def find? (s : Shard α) (key : String) : Option (Entry α) :=
  s.entries.find? (·.key == key)

/-- Whether anything is stored under a key, expired or not. -/
def contains (s : Shard α) (key : String) : Bool :=
  (s.find? key).isSome

/-- The number of entries, expired ones included. -/
def size (s : Shard α) : Nat := s.entries.length

/-- The keys in ascending order. -/
def keys (s : Shard α) : List String := s.entries.map (·.key)

/-- Record a hit on the entry of a key. -/
def touch (s : Shard α) (key : String) (now : UInt64) : Shard α :=
  { s with entries := s.entries.map fun e => if e.key = key then e.touch now else e }

/-- Look a key up; a hit updates the entry. -/
def lookup (s : Shard α) (key : String) (now : UInt64) : Lookup α × Shard α :=
  match s.find? key with
  | none => (.miss, s)
  | some e =>
    if e.isExpired now then (.expired e.generation, s)
    else (.hit e.value, s.touch key now)

/-- Put an entry in its place, over any entry of the same key. -/
def place (e : Entry α) : List (Entry α) → List (Entry α)
  | [] => [e]
  | x :: xs =>
    if e.key < x.key then e :: x :: xs
    else if e.key = x.key then e :: xs
    else x :: place e xs

/-- The entry that is worth least, the first of equals. -/
def leastWorth? : List (Entry α) → Option (Entry α)
  | [] => none
  | e :: es =>
    match leastWorth? es with
    | none => some e
    | some m => if m.compareWorth e = .lt then some m else some e

/-- The candidates of an eviction pass, in key order. -/
def candidates (s : Shard α) (policy : Policy) (now : UInt64) : List (Entry α) :=
  s.entries.filter fun e => (policy.reason? e now).isSome

/-- The keys that an eviction pass removes: the first candidates up to the
limit, or the least valuable entry when there is no candidate. -/
def victims (s : Shard α) (policy : Policy) (now : UInt64) : List String :=
  match s.candidates policy now with
  | [] => (leastWorth? s.entries).toList.map (·.key)
  | c :: cs => ((c :: cs).take (policy.batchLimit s.size)).map (·.key)

/-- Drop the entries of the given keys. -/
def eraseAll (s : Shard α) (keys : List String) : Shard α :=
  { s with entries := s.entries.filter fun e => !keys.contains e.key }

/-- One eviction pass, with the number of entries removed. -/
def evict (s : Shard α) (policy : Policy) (now : UInt64) : Nat × Shard α :=
  let out := s.victims policy now
  (out.length, s.eraseAll out)

/-- Take the next generation number. -/
def takeGeneration (s : Shard α) : UInt64 × Shard α :=
  (s.nextGeneration, { s with nextGeneration := s.nextGeneration + 1 })

/-- Store an entry, evicting first if a new key would overflow the shard.  The
count is that of the entries evicted. -/
def store (s : Shard α) (policy : Policy) (now : UInt64) (e : Entry α) : Nat × Shard α :=
  let (evicted, room) :=
    if s.contains e.key = false ∧ s.maxItems ≤ s.size then s.evict policy now else (0, s)
  (evicted, { room with entries := place e room.entries })

/-- Store a value if it is still admitted when its turn comes.  The generation
is taken either way; `none` means that the value was refused. -/
def insertIf (s : Shard α) (policy : Policy) (key : String) (value : α)
    (expiresAt now : UInt64) (admitted : Bool) : Option Nat × Shard α :=
  let (generation, s) := s.takeGeneration
  if admitted then
    let (evicted, s) := s.store policy now (.fresh key value expiresAt now generation)
    (some evicted, s)
  else (none, s)

/-- Store a value, with the number of entries evicted for it. -/
def insert (s : Shard α) (policy : Policy) (key : String) (value : α)
    (expiresAt now : UInt64) : Nat × Shard α :=
  let (evicted, s) := s.insertIf policy key value expiresAt now true
  (evicted.getD 0, s)

/-- Remove the entry of a key if it still carries the generation. -/
def removeGeneration (s : Shard α) (key : String) (generation : UInt64) : Bool × Shard α :=
  match s.find? key with
  | some e => if e.generation = generation then (true, s.eraseAll [key]) else (false, s)
  | none => (false, s)

/-- Like `removeGeneration`, but gives up when a writer holds the shard. -/
def tryRemoveGeneration (s : Shard α) (busy : Bool) (key : String) (generation : UInt64) :
    Option Bool × Shard α :=
  if busy then (none, s)
  else
    let (removed, s) := s.removeGeneration key generation
    (some removed, s)

/-- Ask for a sweep of this shard. -/
def mark (s : Shard α) : Shard α := { s with sweepPending := true }

/-- Clear the mark and tell whether it was set. -/
def takeMark (s : Shard α) : Bool × Shard α :=
  (s.sweepPending, { s with sweepPending := false })

/-- Drop every expired entry, with their number. -/
def purge (s : Shard α) (now : UInt64) : Nat × Shard α :=
  let kept := s.entries.filter fun e => !e.isExpired now
  (s.size - kept.length, { s with entries := kept })

/-- Drop every entry. -/
def clear (s : Shard α) : Shard α := { s with entries := [] }

end Shard

end ArtifactPlane.Cache
