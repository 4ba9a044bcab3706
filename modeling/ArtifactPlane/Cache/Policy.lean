import ArtifactPlane.Clock
import ArtifactPlane.Cache.Entry

/-!
Which entries an eviction pass may take, and how many.
-/

namespace ArtifactPlane.Cache

/-- Why an entry is a candidate for eviction. -/
inductive Reason where
  | expired
  | neverReused
  | stale
deriving DecidableEq, Repr

/-- Limits of one eviction pass. -/
structure Policy where
  /-- Entries unread for longer than this are stale. -/
  staleWindow : Duration
  /-- The share of a shard that one pass may remove. -/
  fraction : Float

namespace Policy

variable {α : Type}

/-- One hour, a quarter of the shard. -/
def standard : Policy := ⟨Duration.ofSecs 3600, 0.25⟩

instance : Inhabited Policy := ⟨standard⟩

/-- The stale window in the unit of all cache times. -/
def staleMillis (p : Policy) : UInt64 :=
  p.staleWindow.millis

/-- Time since the last access, zero when the clock has run backwards. -/
def idle (e : Entry α) (now : UInt64) : UInt64 :=
  if e.lastAccess ≤ now then now - e.lastAccess else 0

/-- Classify an entry; `none` keeps it. -/
def reason? (p : Policy) (e : Entry α) (now : UInt64) : Option Reason :=
  if e.isExpired now then some .expired
  else if e.frequency ≤ 1 then some .neverReused
  else if p.staleMillis < idle e now then some .stale
  else none

/-- The fraction brought into the unit interval; a value that is not a number
stays one. -/
def clampedFraction (p : Policy) : Float :=
  if p.fraction < 0.0 then 0.0 else if 1.0 < p.fraction then 1.0 else p.fraction

/-- The most entries that one pass may remove from a shard of `size` entries. -/
def batchLimit (p : Policy) (size : Nat) : Nat :=
  max 1 ((UInt64.ofNat size).toFloat * p.clampedFraction).toUInt64.toNat

theorem one_le_batchLimit (p : Policy) (size : Nat) : 1 ≤ p.batchLimit size :=
  Nat.le_max_left _ _

/-- An entry is a candidate exactly when it is expired, never reused or stale. -/
theorem reason?_isSome_iff (p : Policy) (e : Entry α) (now : UInt64) :
    (p.reason? e now).isSome ↔
      e.isExpired now = true ∨ e.frequency ≤ 1 ∨ p.staleMillis < idle e now := by
  unfold reason?
  by_cases h₁ : e.isExpired now = true <;> by_cases h₂ : e.frequency ≤ 1 <;>
    by_cases h₃ : p.staleMillis < idle e now <;> simp [h₁, h₂, h₃]

end Policy

end ArtifactPlane.Cache
