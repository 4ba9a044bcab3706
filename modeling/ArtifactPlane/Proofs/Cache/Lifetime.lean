import ArtifactPlane.Proofs.Cache.Upkeep

/-!
How long a stored value lasts.  Instants are exact, and the last at which a value may be
served is the one at which its span ends.  The shards compare whole milliseconds in words,
though, and `Instant.millis` reduces the exact number to the word without a check.  So the
law is that of the exact milliseconds as long as both numbers fit, and that of their
remainders otherwise.
-/

namespace ArtifactPlane

namespace Instant

/-- Whole milliseconds since the epoch, exactly, and 0 before it. -/
def elapsed (t : Instant) : Nat := t.nanos.toNat / 1000000

theorem toNat_millis (t : Instant) : t.millis.toNat = t.elapsed % UInt64.size := UInt64.toNat_ofNat'

theorem elapsed_mono {t u : Instant} (h : t.nanos ≤ u.nanos) : t.elapsed ≤ u.elapsed :=
  Nat.div_le_div_right (Int.toNat_le_toNat h)

theorem nanos_of_add? {t u : Instant} {d : Duration} (h : t.add? d = some u) :
    u.nanos = t.nanos + d.nanos := by
  simp only [add?] at h
  split at h
  · exact (congrArg nanos (Option.some.inj h)).symm
  · cases h

/-- Of two spans from one instant the longer ends later. -/
theorem elapsed_le_of_add? {t u v : Instant} {d e : Duration} (hu : t.add? d = some u)
    (hv : t.add? e = some v) (hde : d.nanos ≤ e.nanos) : u.elapsed ≤ v.elapsed := by
  apply elapsed_mono
  rw [nanos_of_add? hu, nanos_of_add? hv]
  omega

end Instant

namespace Cache

variable {α : Type} {c d : Cache α} {key : String} {value : α} {ttl : Duration}
  {now later expiry : Instant}

/-- A value was stored for a span, whatever was cleared, or unless the cache was cleared. -/
inductive StoredFor (c : Cache α) (key : String) (value : α) (ttl : Duration)
    (now later : Instant) (d : Cache α) : Prop
  | always (h : c.storeWithTtl? key value ttl now later = some d)
  | accepted (epoch : UInt64)
      (h : c.storeUnlessCleared? key value ttl epoch now later = some (true, d))

theorem StoredFor.eq_setIf (h : c.StoredFor key value ttl now later d)
    (hend : now.add? ttl = some expiry) :
    d = (c.setIf key value expiry.millis later.millis true).2 := by
  cases h with
  | always h =>
    rw [storeWithTtl?, hend, Option.map_some] at h
    exact (Option.some.inj h).symm
  | accepted epoch h =>
    rw [storeUnlessCleared?, hend, Option.map_some] at h
    have hstored := Option.some.inj h
    have hadmitted : (c.epoch == epoch) = true :=
      (setIf_fst c key value _ _ _).symm.trans (congrArg Prod.fst hstored)
    rw [hadmitted] at hstored
    exact (congrArg Prod.snd hstored).symm

/-- Right after a store the key is found, until the expiry of what was stored. -/
theorem get_setIf (h : 0 < c.shardCount) (key : String) (value : α) (expiresAt stored t : UInt64) :
    ((c.setIf key value expiresAt stored true).2.get key t).1 =
      if t ≤ expiresAt then some value else none := by
  rw [get_fst, find?_setIf h, if_pos ⟨rfl, rfl⟩]
  by_cases hlive : t ≤ expiresAt
  · have hnot : ¬ expiresAt < t := UInt64.not_lt.mpr hlive
    simp [Option.filter, Entry.fresh, Entry.isExpired, hlive, hnot]
  · have hlt : expiresAt < t := UInt64.not_le.mp hlive
    simp [Option.filter, Entry.fresh, Entry.isExpired, hlive, hlt]

/-- How long a value lasts that is stored now for a span, when nothing else happens. -/
structure Lasts (c : Cache α) (key : String) (value : α) (ttl : Duration)
    (now later expiry : Instant) : Prop where
  always : ∃ d, c.storeWithTtl? key value ttl now later = some d
  accepted : ∀ epoch, ∃ d, c.storeUnlessCleared? key value ttl epoch now later =
    some (c.epoch == epoch, d)
  /-- Lookups compare the remainders of the exact milliseconds. -/
  answer : ∀ d, c.StoredFor key value ttl now later d → ∀ t : Instant, (d.get key t.millis).1 =
    if t.elapsed % UInt64.size ≤ expiry.elapsed % UInt64.size then some value else none
  /-- Where both have left out as many full words, this is the exact comparison. -/
  exact : ∀ d, c.StoredFor key value ttl now later d → ∀ t : Instant,
    t.elapsed / UInt64.size = expiry.elapsed / UInt64.size →
    ((d.get key t.millis).1 = some value ↔ t.elapsed ≤ expiry.elapsed)
  hits : expiry.elapsed < UInt64.size → ∀ d, c.StoredFor key value ttl now later d → ∀ t : Instant,
    now.nanos ≤ t.nanos → t.nanos ≤ expiry.nanos → (d.get key t.millis).1 = some value
  longer : ∀ long longExpiry, ttl.nanos ≤ long.nanos → now.add? long = some longExpiry →
    longExpiry.elapsed < UInt64.size → ∀ d d', c.StoredFor key value ttl now later d →
    c.StoredFor key value long now later d' → ∀ t : Instant,
    (d.get key t.millis).1 = some value → (d'.get key t.millis).1 = some value

theorem get_storedFor (hc : 0 < c.shardCount) (hend : now.add? ttl = some expiry)
    (hd : c.StoredFor key value ttl now later d) (t : Instant) :
    (d.get key t.millis).1 =
      if t.elapsed % UInt64.size ≤ expiry.elapsed % UInt64.size then some value else none := by
  rw [hd.eq_setIf hend, get_setIf hc]
  simp only [UInt64.le_iff_toNat_le, Instant.toNat_millis]

theorem get_storedFor_eq_some_iff (hc : 0 < c.shardCount) (hend : now.add? ttl = some expiry)
    (hd : c.StoredFor key value ttl now later d) (t : Instant) :
    (d.get key t.millis).1 = some value ↔
      t.elapsed % UInt64.size ≤ expiry.elapsed % UInt64.size := by
  rw [get_storedFor hc hend hd, ite_eq_left_iff]
  simp

theorem lasts (hc : 0 < c.shardCount) (key : String) (value : α) (later : Instant)
    (hend : now.add? ttl = some expiry) : c.Lasts key value ttl now later expiry where
  always := ⟨_, by rw [storeWithTtl?, hend]; rfl⟩
  accepted epoch := by
    refine ⟨(c.setIf key value expiry.millis later.millis (c.epoch == epoch)).2, ?_⟩
    rw [storeUnlessCleared?, hend, Option.map_some]
    exact congrArg some (Prod.ext (setIf_fst _ _ _ _ _ _) rfl)
  answer d hd t := get_storedFor hc hend hd t
  exact d hd t hsame := by
    rw [get_storedFor_eq_some_iff hc hend hd]
    have ht := Nat.div_add_mod t.elapsed UInt64.size
    have hexpiry := Nat.div_add_mod expiry.elapsed UInt64.size
    rw [hsame] at ht
    omega
  hits hfits d hd t hfirst hlast := by
    rw [get_storedFor_eq_some_iff hc hend hd, Nat.mod_eq_of_lt hfits]
    exact Nat.le_trans (Nat.mod_le _ _) (Instant.elapsed_mono hlast)
  longer long longExpiry hlong hlater hfits d d' hd hd' t hhit := by
    have hle := Instant.elapsed_le_of_add? hend hlater hlong
    rw [get_storedFor_eq_some_iff hc hend hd] at hhit
    rw [get_storedFor_eq_some_iff hc hlater hd', Nat.mod_eq_of_lt hfits]
    rw [Nat.mod_eq_of_lt (Nat.lt_of_le_of_lt hle hfits)] at hhit
    exact Nat.le_trans hhit hle

/-- Whatever has happened to a cache, a value that is stored for a span the end of which the
clock can represent lasts until then, by the milliseconds that fit into a word. -/
theorem lasts_after (config : Config) (acts : List (Act α)) (key : String) (value : α)
    (later : Instant) (hend : now.add? ttl = some expiry) :
    ((ofConfig config).after acts).Lasts key value ttl now later expiry :=
  lasts ((WellPlaced.ofConfig config).after acts).shardCount_pos key value later hend

/-- An entry that has expired and is still there. -/
def leftover : List (Act Nat) :=
  [.call (.store (.set "k" 1 (.ofMillis 10) (.ofMillis 0))), .getBusy "k" 15]

/-- It is overwritten for a day. -/
theorem lasts_aDay :
    (Instant.ofMillis 1000).add? (.ofSecs 86400) = some (.ofMillis 86401000) ∧
      ((ofConfig { shardCount := 1 }).after leftover).Lasts "k" 2 (.ofSecs 86400)
        (.ofMillis 1000) (.ofMillis 1001) (.ofMillis 86401000) := by
  have hend : (Instant.ofMillis 1000).add? (.ofSecs 86400) = some (.ofMillis 86401000) := by
    decide
  exact ⟨hend, lasts_after { shardCount := 1 } leftover "k" 2 (.ofMillis 1001) hend⟩

/-- As many milliseconds as a word can hold. -/
def eon : Duration := .ofMillis 18446744073709551615

/-- A value that is stored for an eon cannot be found at the instant at which it was stored:
its expiry is past the last number that fits into a word, and reads as one before now. -/
theorem missed_eon : ∃ (now expiry : Instant) (d : Cache Nat), now.add? eon = some expiry ∧
    (ofConfig { capacity := 4, shardCount := 1 }).storeWithTtl? "k" 1 eon now now = some d ∧
    now.elapsed ≤ expiry.elapsed ∧ (d.get "k" now.millis).1 = none := by
  let now : Instant := .ofMillis 1700000000000
  have hend : now.add? eon = some (.ofMillis (1700000000000 + 18446744073709551615)) := by decide
  have hshards : 0 < (ofConfig { capacity := 4, shardCount := 1 } : Cache Nat).shardCount :=
    (WellPlaced.ofConfig _).shardCount_pos
  obtain ⟨d, hd⟩ := (lasts hshards "k" 1 now hend).always
  have hmissed := get_storedFor hshards hend (.always hd) now
  rw [if_neg (by decide)] at hmissed
  exact ⟨now, _, d, hend, hd, by decide, hmissed⟩

end Cache

end ArtifactPlane
