import ArtifactPlane.Proofs.Cache.Tally

/-!
The books of a cache balance.  As long as no counter wraps, the counters and the size of a
cache are what its history makes them: whatever came in under a new key is still there or was
evicted, reaped, purged or cleared, and one of these only.
-/

namespace ArtifactPlane.Cache

variable {α : Type} {c : Cache α}

namespace Act

def isGet : Act α → Bool
  | call (.get _ _) => true
  | getBusy _ _ => true
  | _ => false

def isClear : Act α → Bool
  | call .clear => true
  | _ => false

end Act

/-- What holds between the numbers of a tally, whatever has happened. -/
structure Tally.Coherent (t : Tally) (gets clears : Nat) : Prop where
  fresh_le : t.fresh ≤ t.accepted
  expired_le : t.expired ≤ t.misses
  lookups : t.hits + t.misses = gets
  clears : t.clears = clears

theorem Tally.Coherent.add {t u : Tally} {m n k l : Nat} (ht : t.Coherent m k)
    (hu : u.Coherent n l) : (t.add u).Coherent (m + n) (k + l) := by
  obtain ⟨hfresh, hexpired, hlookups, hclears⟩ := ht
  obtain ⟨hfresh', hexpired', hlookups', hclears'⟩ := hu
  constructor <;> simp only [Tally.add] <;> omega

theorem coherent_none : ({} : Tally).Coherent 0 0 := ⟨Nat.le_refl _, Nat.le_refl _, rfl, rfl⟩

theorem Lookup.coherent (found : Lookup α) : found.tally.Coherent 1 0 := by
  cases found with
  | hit v => exact ⟨Nat.le_refl _, Nat.zero_le _, rfl, rfl⟩
  | expired generation => exact ⟨Nat.le_refl _, Nat.le_refl _, rfl, rfl⟩
  | miss => exact ⟨Nat.le_refl _, Nat.zero_le _, rfl, rfl⟩

theorem coherent_reapTally (c : Cache α) (r : ReapRequest) : (c.reapTally r).Coherent 0 0 :=
  ⟨Nat.le_refl _, Nat.le_refl _, rfl, rfl⟩

theorem coherent_scheduleTally (busy : Bool) (c : Cache α) (r : ReapRequest) :
    (c.scheduleTally busy r).Coherent 0 0 := by
  have hdropped : ({ turnedAway := 1 } : Tally).Coherent 0 0 :=
    ⟨Nat.le_refl _, Nat.le_refl _, rfl, rfl⟩
  rw [scheduleTally]
  split
  · exact coherent_none
  · split
    · exact hdropped
    · exact hdropped.add (coherent_reapTally c r)

theorem coherent_getTally (busy : Bool) (c : Cache α) (key : String) (now : UInt64) :
    (c.getTally busy key now).Coherent 1 0 := by
  have hlook := (c.look key now).1.coherent
  rw [getTally]
  cases c.staleRequest? key now with
  | none => exact hlook.add coherent_none
  | some r => exact hlook.add (coherent_scheduleTally busy _ r)

theorem Attempt.coherent_tally (c : Cache α) (a : Attempt α) : (a.tally c).Coherent 0 0 := by
  rw [tally]
  split
  · refine ⟨?_, Nat.le_refl _, rfl, rfl⟩
    dsimp only
    split <;> decide
  · exact coherent_none

theorem Act.coherent_tally (c : Cache α) (act : Act α) :
    (act.tally c).Coherent (if act.isGet then 1 else 0) (if act.isClear then 1 else 0) := by
  cases act with
  | getBusy key now => exact coherent_getTally true c key now
  | sweep now i => exact ⟨Nat.le_refl _, Nat.le_refl _, rfl, rfl⟩
  | call op =>
    cases op with
    | store s =>
      rw [Act.tally]
      cases s.attempt? c with
      | none => exact coherent_none
      | some a => exact a.coherent_tally c
    | get key now => exact coherent_getTally false c key now
    | purge now => exact ⟨Nat.le_refl _, Nat.le_refl _, rfl, rfl⟩
    | clear => exact ⟨Nat.le_refl _, Nat.le_refl _, rfl, rfl⟩
    | reap n =>
      rw [Act.tally]
      cases c.queue[n]? with
      | none => exact coherent_none
      | some r => exact coherent_reapTally c r

/-- Every lookup of a history is a hit or a miss, and every clear is counted. -/
theorem coherent_tally (c : Cache α) (acts : List (Act α)) :
    (c.tally acts).Coherent (acts.countP Act.isGet) (acts.countP Act.isClear) := by
  induction acts generalizing c with
  | nil => exact coherent_none
  | cons act acts ih =>
    rw [tally, List.countP_cons, List.countP_cons, Nat.add_comm, Nat.add_comm (acts.countP _)]
    exact (act.coherent_tally c).add (ih (act.apply c))

/-- No counter has wrapped.  What is evicted or reaped was stored first, and an expired entry
is a miss, so these three counters have room when the others have. -/
structure Tally.Fits (t : Tally) : Prop where
  hits : t.hits < UInt64.size
  misses : t.misses < UInt64.size
  accepted : t.accepted < UInt64.size
  clears : t.clears < UInt64.size

/-- The size and the counters of a cache are what its history makes them. -/
structure Reconciled (c : Cache α) (t : Tally) (acts : List (Act α)) : Prop where
  entries : c.size + c.counters.evictions.toNat + c.counters.reaped.toNat + t.purged +
    t.dropped = t.fresh
  inserts : c.counters.inserts.toNat = t.accepted
  lookups : c.counters.hits.toNat + c.counters.misses.toNat = acts.countP Act.isGet
  expired : c.counters.expired.toNat = t.expired
  clears : c.counters.clears.toNat = acts.countP Act.isClear

/-- A counter that starts at zero shows what it has counted. -/
theorem toNat_zero_add_ofNat {n : Nat} (h : n < UInt64.size) :
    (0 + UInt64.ofNat n).toNat = n := by
  rw [UInt64.zero_add, UInt64.toNat_ofNat_of_lt' h]

/-- No entry is lost or counted twice, whatever the configuration and the history. -/
theorem reconciled_after (config : Config) (acts : List (Act α))
    (hfits : ((ofConfig config : Cache α).tally acts).Fits) :
    ((ofConfig config).after acts).Reconciled ((ofConfig config).tally acts) acts := by
  obtain ⟨hsize, hcounters⟩ := accounted_after (WellPlaced.ofConfig (α := α) config) acts
  obtain ⟨hfresh, hexpired, hlookups, hclears⟩ := coherent_tally (ofConfig config) acts
  rw [size_ofConfig, Nat.zero_add] at hsize
  generalize ((ofConfig config).after acts) = d at hsize hcounters ⊢
  generalize ((ofConfig config : Cache α).tally acts) = t at *
  have haccepted := hfits.accepted
  have hmisses := hfits.misses
  have hevicted : t.evicted < UInt64.size := by omega
  have hreaped : t.reaped < UInt64.size := by omega
  have hstale : t.expired < UInt64.size := by omega
  rw [show (ofConfig config : Cache α).counters = {} from rfl] at hcounters
  constructor
  · rw [hcounters]
    simp only [Counters.plus, toNat_zero_add_ofNat hevicted, toNat_zero_add_ofNat hreaped]
    exact hsize
  · rw [hcounters]
    exact toNat_zero_add_ofNat haccepted
  · rw [hcounters]
    simp only [Counters.plus, toNat_zero_add_ofNat hfits.hits, toNat_zero_add_ofNat hmisses]
    exact hlookups
  · rw [hcounters]
    exact toNat_zero_add_ofNat hstale
  · rw [hcounters, ← hclears]
    exact toNat_zero_add_ofNat hfits.clears

/-- One shard with room for two entries, and a queue for one request. -/
def cramped : Config := { capacity := 2, shardCount := 1, reaperQueue := 1 }

/-- A history in which entries are overwritten, evicted, purged and cleared, and reaped on the
spot and by a sweep. -/
def crowdedDay : List (Act Nat) :=
  [.call (.store (.set "a" 1 (.ofMillis 10) (.ofMillis 0))),
    .call (.store (.set "b" 2 (.ofMillis 100) (.ofMillis 0))),
    .call (.get "a" 5), .call (.get "a" 20), .call (.get "a" 21), .call (.reap 0),
    .call (.store (.set "c" 3 (.ofMillis 30) (.ofMillis 22))),
    .call (.store (.set "c" 4 (.ofMillis 40) (.ofMillis 23))),
    .call (.store (.set "d" 5 (.ofMillis 50) (.ofMillis 35))),
    .call (.store (.setUnlessCleared "e" 6 (.ofSecs 1) 7 (.ofMillis 36) (.ofMillis 36))),
    .call (.purge (.ofMillis 45)), .getBusy "d" 60, .getBusy "d" 61, .sweep (.ofMillis 62) 0,
    .call (.store (.set "f" 7 (.ofMillis 99) (.ofMillis 63))), .call .clear]

theorem reconciled_crowdedDay :
    ((ofConfig cramped : Cache Nat).tally crowdedDay).Fits ∧
      ((ofConfig cramped).after crowdedDay).Reconciled
        ((ofConfig cramped).tally crowdedDay) crowdedDay := by
  have hfits : ((ofConfig cramped : Cache Nat).tally crowdedDay).Fits := by
    constructor <;> decide +kernel
  exact ⟨hfits, reconciled_after cramped crowdedDay hfits⟩

example : (ofConfig cramped : Cache Nat).tally crowdedDay =
    { hits := 1, misses := 4, expired := 4, accepted := 6, fresh := 5, evicted := 1, reaped := 2,
      turnedAway := 2, purged := 1, dropped := 1, clears := 1 } := by
  decide +kernel

end ArtifactPlane.Cache
