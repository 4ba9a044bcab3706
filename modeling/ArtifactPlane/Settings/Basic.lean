import ArtifactPlane.Cache.Basic
import ArtifactPlane.Error
import ArtifactPlane.Path.Object

/-!
Settings of a data plane, what they are unless set, and which values are refused.
Two spellings of one path are the same setting.
-/

namespace ArtifactPlane

/-- Where files are. -/
structure PathSettings where
  /-- Sources served in direct mode. -/
  sourceRoot : String := "."
  /-- What artifact locations are relative to. -/
  distRoot : String := "."
  indexFile : String := "meta/router_binary.bin"
deriving DecidableEq, Repr

/-- Settings of the artifact cache. -/
structure CacheSettings where
  enabled : Bool := true
  capacity : Nat := 10000
  ttlSecs : Nat := 86400
  /-- Chosen for the machine when it is not set. -/
  shardCount : Option Nat := none
  staleSecs : Nat := 3600
  fraction : Float := 0.25
deriving Repr

/-- Settings of the coalescer. -/
structure CoalescerSettings where
  enabled : Bool := true
  shardCount : Nat := 32
deriving DecidableEq, Repr

/-- All settings. -/
structure Settings where
  /-- Serve built artifacts by the index and not sources. -/
  production : Bool := false
  paths : PathSettings := {}
  cache : CacheSettings := {}
  coalescer : CoalescerSettings := {}
deriving Repr

/-- Whether two choices of paths are the same. -/
def PathSettings.sameAs (a b : PathSettings) : Bool :=
  Path.spelling a.sourceRoot == Path.spelling b.sourceRoot &&
    Path.spelling a.distRoot == Path.spelling b.distRoot &&
    Path.spelling a.indexFile == Path.spelling b.indexFile

namespace CacheSettings

/-- Whether two choices for the cache are the same. -/
def sameAs (a b : CacheSettings) : Bool :=
  a.enabled == b.enabled && a.capacity == b.capacity && a.ttlSecs == b.ttlSecs &&
    a.shardCount == b.shardCount && a.staleSecs == b.staleSecs && a.fraction == b.fraction

/-- How long a loaded artifact may be served from the cache. -/
def ttl (c : CacheSettings) : Duration := .ofSecs c.ttlSecs

/-- Which entries may be evicted, and how many at once. -/
def policy (c : CacheSettings) : Cache.Policy := ⟨.ofSecs c.staleSecs, c.fraction⟩

/-- The cache that the settings ask for on a machine with so many processors. -/
def config (c : CacheSettings) (processors : Nat := 1) : Cache.Config :=
  { capacity := c.capacity
    shardCount := c.shardCount.getD (Cache.automaticShardCount processors)
    policy := c.policy }

end CacheSettings

namespace Settings

/-- Whether two choices of all settings are the same. -/
def sameAs (a b : Settings) : Bool :=
  a.production == b.production && a.paths.sameAs b.paths && a.cache.sameAs b.cache &&
    a.coalescer == b.coalescer

/-- Whether the settings are those that hold when nothing is set. -/
def isStandard (s : Settings) : Bool := s.sameAs {}

/-- The first setting that is refused. -/
def fault? (s : Settings) : Option ConfigFault :=
  if s.cache.capacity = 0 then some .noCapacity
  else if !(0.0 < s.cache.fraction && s.cache.fraction ≤ 1.0) then
    some (.fraction s.cache.fraction)
  else if s.cache.shardCount = some 0 then some .noCacheShards
  else if s.coalescer.shardCount = 0 then some .noCoalescerShards
  else none

/-- Settings of which none is refused. -/
def checked (s : Settings) : Except Error Settings :=
  match s.fault? with
  | some fault => .error (.config fault)
  | none => .ok s

/-- Accepted settings ask for a cache with room. -/
theorem capacity_pos_of_checked {s t : Settings} (h : s.checked = .ok t) :
    t = s ∧ 0 < s.cache.capacity := by
  rw [checked] at h
  cases hf : s.fault? with
  | some fault => simp [hf] at h
  | none =>
    rw [hf] at h
    cases h
    refine ⟨rfl, Nat.pos_of_ne_zero fun h0 => ?_⟩
    simp [fault?, h0] at hf

end Settings

end ArtifactPlane
