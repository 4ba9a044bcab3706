/-!
Cache counters.  Each is a 64-bit word that wraps.
-/

namespace ArtifactPlane.Cache

/-- What a cache has done so far. -/
structure Counters where
  hits : UInt64 := 0
  misses : UInt64 := 0
  /-- Lookups that found an expired entry; each is a miss as well. -/
  expired : UInt64 := 0
  inserts : UInt64 := 0
  evictions : UInt64 := 0
  /-- Expired entries removed after the lookup that found them. -/
  reaped : UInt64 := 0
  /-- Removal requests that the queue could not take. -/
  reapDropped : UInt64 := 0
  clears : UInt64 := 0
deriving DecidableEq, Repr, Inhabited

namespace Counters

/-- Count a hit. -/
def recordHit (c : Counters) : Counters := { c with hits := c.hits + 1 }

/-- Count a miss. -/
def recordMiss (c : Counters) : Counters := { c with misses := c.misses + 1 }

/-- Count an expired entry, which is a miss too. -/
def recordExpired (c : Counters) : Counters :=
  { c with expired := c.expired + 1, misses := c.misses + 1 }

/-- Count a stored value and the entries evicted for it. -/
def recordInsert (c : Counters) (evicted : Nat) : Counters :=
  { c with inserts := c.inserts + 1, evictions := c.evictions + UInt64.ofNat evicted }

/-- Count expired entries that were removed. -/
def recordReaped (c : Counters) (count : Nat) : Counters :=
  { c with reaped := c.reaped + UInt64.ofNat count }

/-- Count a removal request that found the queue full. -/
def recordReapDropped (c : Counters) : Counters := { c with reapDropped := c.reapDropped + 1 }

/-- Count a clear. -/
def recordClear (c : Counters) : Counters := { c with clears := c.clears + 1 }

/-- Hits among all lookups, zero before the first. -/
def hitRatio (c : Counters) : Float :=
  let hits := c.hits.toFloat
  let total := hits + c.misses.toFloat
  if total == 0.0 then 0.0 else hits / total

end Counters

/-- The counters of a cache beside its size and its limits. -/
structure Stats where
  entries : Nat
  capacity : Nat
  shardCount : Nat
  counters : Counters
deriving DecidableEq, Repr

end ArtifactPlane.Cache
