import ArtifactPlane.Hash
import ArtifactPlane.Cache.Counters
import ArtifactPlane.Cache.Shard

/-!
The sharded cache.  A key lives in the one shard that it hashes to.  A lookup
that finds an expired entry reads as a miss and asks for the removal of exactly
that entry; the request waits in a bounded queue, and when the queue is full the
entry is removed on the spot.  `clear` advances the epoch before it empties the
first shard, so a value loaded under an older epoch can be refused.
-/

namespace ArtifactPlane

namespace Cache

/-- A request to remove one expired entry. -/
structure ReapRequest where
  shard : Nat
  key : String
  generation : UInt64
deriving DecidableEq, Repr

/-- The number of shards chosen for a machine when none is configured: 64 for each of its
processors, but no fewer than 256 and no more than 4096. -/
def automaticShardCount (processors : Nat) : Nat := max 256 (min 4096 (processors * 64))

/-- How a cache is built. -/
structure Config where
  capacity : Nat := 10000
  /-- Unless it is given, that of a machine whose processors are not known. -/
  shardCount : Nat := automaticShardCount 1
  policy : Policy := .standard
  reaperQueue : Nat := 1024

end Cache

/-- A sharded, bounded cache. -/
structure Cache (α : Type) where
  shards : Array (Cache.Shard α)
  policy : Cache.Policy
  capacity : Nat
  counters : Cache.Counters
  /-- Advanced by every `clear`, before any shard is emptied. -/
  epoch : UInt64
  /-- Removal requests not yet carried out, oldest first. -/
  queue : List Cache.ReapRequest
  queueLimit : Nat

namespace Cache

variable {α : Type}

/-- The number of shards of a configuration: at least one, at most one per item. -/
def Config.effectiveShards (config : Config) : Nat :=
  min (max config.shardCount 1) (max config.capacity 1)

/-- An empty cache. -/
def ofConfig (config : Config) : Cache α :=
  let capacity := max config.capacity 1
  let count := config.effectiveShards
  { shards := Array.replicate count (Shard.empty (capacity / count))
    policy := config.policy
    capacity := capacity
    counters := {}
    epoch := 0
    queue := []
    queueLimit := max config.reaperQueue 1 }

/-- An empty cache of the given capacity, all else as by default for a machine. -/
def ofCapacity (capacity : Nat) (processors : Nat := 1) : Cache α :=
  ofConfig { capacity := capacity, shardCount := automaticShardCount processors }

/-- The number of shards. -/
def shardCount (c : Cache α) : Nat := c.shards.size

/-- The shard that a key belongs to. -/
def shardOf (c : Cache α) (key : String) : Nat :=
  Hash.shard key c.shardCount

/-- The shard at a place. -/
def shardAt (c : Cache α) (i : Nat) : Shard α :=
  c.shards.getD i default

/-- Replace the shard at a place. -/
def setShard (c : Cache α) (i : Nat) (s : Shard α) : Cache α :=
  { c with shards := c.shards.setIfInBounds i s }

/-- Room in each shard. -/
def maxItemsPerShard (c : Cache α) : Nat :=
  (c.shardAt 0).maxItems

/-- Carry out a removal request. -/
def reap (c : Cache α) (r : ReapRequest) : Cache α :=
  match (c.shardAt r.shard).removeGeneration r.key r.generation with
  | (true, s) => { c.setShard r.shard s with counters := c.counters.recordReaped 1 }
  | (false, _) => c

/-- Queue a removal request.  When the queue is full the request is carried out at
once, or the shard is marked for a sweep if a writer holds it. -/
def scheduleWhile (busy : Bool) (c : Cache α) (r : ReapRequest) : Cache α :=
  if c.queue.length < c.queueLimit then { c with queue := c.queue ++ [r] }
  else
    let dropped := { c with counters := c.counters.recordReapDropped }
    if busy then dropped.setShard r.shard (dropped.shardAt r.shard).mark else dropped.reap r

/-- Queue a removal request, or carry it out at once when the queue is full. -/
def schedule (c : Cache α) (r : ReapRequest) : Cache α := c.scheduleWhile false r

/-- Carry out the oldest queued request. -/
def reapNext (c : Cache α) : Cache α :=
  match c.queue with
  | [] => c
  | r :: rest => ({ c with queue := rest }).reap r

/-- Carry out every queued request, oldest first. -/
def drain (c : Cache α) : Cache α :=
  c.queue.foldl reap { c with queue := [] }

/-- Look a key up in its shard and count what was found. -/
def look (c : Cache α) (key : String) (now : UInt64) : Lookup α × Cache α :=
  let i := c.shardOf key
  match (c.shardAt i).lookup key now with
  | (.hit v, s) => (.hit v, { c.setShard i s with counters := c.counters.recordHit })
  | (.expired generation, _) =>
    (.expired generation, { c with counters := c.counters.recordExpired })
  | (.miss, _) => (.miss, { c with counters := c.counters.recordMiss })

/-- Look a key up; an expired entry reads as a miss, and its removal is asked for. -/
def get (c : Cache α) (key : String) (now : UInt64) : Option α × Cache α :=
  match c.look key now with
  | (.hit v, c) => (some v, c)
  | (.expired generation, c) => (none, c.schedule ⟨c.shardOf key, key, generation⟩)
  | (.miss, c) => (none, c)

/-- Store a value if it is admitted; `false` means that it was refused. -/
def setIf (c : Cache α) (key : String) (value : α) (expiresAt now : UInt64)
    (admitted : Bool) : Bool × Cache α :=
  let i := c.shardOf key
  match (c.shardAt i).insertIf c.policy key value expiresAt now admitted with
  | (some evicted, s) =>
    (true, { c.setShard i s with counters := c.counters.recordInsert evicted })
  | (none, s) => (false, c.setShard i s)

/-- Store a value until an instant. -/
def set (c : Cache α) (key : String) (value : α) (expiresAt now : Instant) : Cache α :=
  (c.setIf key value expiresAt.millis now.millis true).2

/-- Store a value for a span from now.  The clock is read once more, at `later`, for the
time of access.  There is no result when the clock cannot represent the expiry. -/
def storeWithTtl? (c : Cache α) (key : String) (value : α) (ttl : Duration)
    (now later : Instant) : Option (Cache α) :=
  (now.add? ttl).map fun expiresAt => c.set key value expiresAt later

/-- Store a value for a span from now, while the clock stands still. -/
def setWithTtl? (c : Cache α) (key : String) (value : α) (ttl : Duration) (now : Instant) :
    Option (Cache α) :=
  c.storeWithTtl? key value ttl now now

/-- Store a value for a span from now unless the cache was cleared after `epoch`
was read, and tell whether it was stored.  The clock is read once more, at `later`,
for the time of access.  There is no result when the clock cannot represent the expiry. -/
def storeUnlessCleared? (c : Cache α) (key : String) (value : α) (ttl : Duration)
    (epoch : UInt64) (now later : Instant) : Option (Bool × Cache α) :=
  (now.add? ttl).map fun expiresAt =>
    c.setIf key value expiresAt.millis later.millis (c.epoch == epoch)

/-- Store a value unless the cache was cleared, while the clock stands still. -/
def setUnlessCleared? (c : Cache α) (key : String) (value : α) (ttl : Duration)
    (epoch : UInt64) (now : Instant) : Option (Bool × Cache α) :=
  c.storeUnlessCleared? key value ttl epoch now now

/-- Advance the epoch. -/
def bumpEpoch (c : Cache α) : Cache α := { c with epoch := c.epoch + 1 }

/-- Empty one shard. -/
def clearShard (c : Cache α) (i : Nat) : Cache α := c.setShard i (c.shardAt i).clear

/-- Count a clear. -/
def recordClear (c : Cache α) : Cache α := { c with counters := c.counters.recordClear }

/-- Advance the epoch, then empty every shard. -/
def clear (c : Cache α) : Cache α :=
  ((List.range c.shardCount).foldl clearShard c.bumpEpoch).recordClear

/-- Drop every expired entry, with their number. -/
def purge (c : Cache α) (now : Instant) : Nat × Cache α :=
  let purged := c.shards.map fun s => s.purge now.millis
  (purged.toList.foldr (fun p n => p.1 + n) 0, { c with shards := purged.map (·.2) })

/-- Purge a shard if it was marked for a sweep. -/
def sweepShard (now : Instant) (c : Cache α) (i : Nat) : Cache α :=
  match (c.shardAt i).takeMark with
  | (true, s) =>
    let (count, s) := s.purge now.millis
    { c.setShard i s with counters := c.counters.recordReaped count }
  | (false, _) => c

/-- Purge every shard that was marked for a sweep. -/
def sweep (c : Cache α) (now : Instant) : Cache α :=
  (List.range c.shardCount).foldl (sweepShard now) c

/-- Whether anything is stored under a key, expired or not. -/
def contains (c : Cache α) (key : String) : Bool :=
  (c.shardAt (c.shardOf key)).contains key

/-- Entries per shard. -/
def shardSizes (c : Cache α) : List Nat := c.shards.toList.map (·.size)

/-- The number of entries, expired ones included. -/
def size (c : Cache α) : Nat := c.shardSizes.foldr (· + ·) 0

/-- Whether no shard holds an entry. -/
def isEmpty (c : Cache α) : Bool := c.shardSizes.all (· == 0)

/-- The counters and the size of a cache now. -/
def stats (c : Cache α) : Stats :=
  ⟨c.size, c.capacity, c.shardCount, c.counters⟩

end Cache

end ArtifactPlane
