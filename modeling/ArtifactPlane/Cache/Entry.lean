/-!
One cached value with its eviction metadata.  Times are milliseconds since the
epoch; the hit count saturates and the last access never moves backwards.
-/

namespace ArtifactPlane.Cache

/-- A cached value. -/
structure Entry (α : Type) where
  key : String
  value : α
  /-- The last millisecond at which the value may still be served. -/
  expiresAt : UInt64
  /-- Hits plus one, saturating. -/
  frequency : UInt32
  lastAccess : UInt64
  /-- Tells this entry from a later one stored under the same key. -/
  generation : UInt64
deriving DecidableEq, Repr

namespace Entry

variable {α : Type}

/-- A newly stored entry counts as accessed once, now. -/
def fresh (key : String) (value : α) (expiresAt now generation : UInt64) : Entry α :=
  ⟨key, value, expiresAt, 1, now, generation⟩

/-- Strictly past its expiry. -/
def isExpired (e : Entry α) (now : UInt64) : Bool :=
  e.expiresAt < now

/-- One more than `n`, unless `n` is already the largest count. -/
def succSaturating (n : UInt32) : UInt32 :=
  if n = 0xFFFFFFFF then n else n + 1

/-- Record a hit. -/
def touch (e : Entry α) (now : UInt64) : Entry α :=
  { e with frequency := succSaturating e.frequency, lastAccess := max e.lastAccess now }

/-- How little an entry is worth keeping: fewest hits, then oldest access, then
smallest key. -/
def compareWorth (a b : Entry α) : Ordering :=
  (compare a.frequency b.frequency).then
    ((compare a.lastAccess b.lastAccess).then (compare a.key b.key))

@[simp] theorem key_touch (e : Entry α) (now : UInt64) : (e.touch now).key = e.key := rfl

@[simp] theorem value_touch (e : Entry α) (now : UInt64) : (e.touch now).value = e.value := rfl

@[simp] theorem expiresAt_touch (e : Entry α) (now : UInt64) :
    (e.touch now).expiresAt = e.expiresAt := rfl

@[simp] theorem generation_touch (e : Entry α) (now : UInt64) :
    (e.touch now).generation = e.generation := rfl

@[simp] theorem isExpired_touch (e : Entry α) (t now : UInt64) :
    (e.touch t).isExpired now = e.isExpired now := rfl

end Entry

end ArtifactPlane.Cache
