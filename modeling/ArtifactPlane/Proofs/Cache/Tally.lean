import ArtifactPlane.Proofs.Cache.Counts
import ArtifactPlane.Proofs.Cache.Sizes
import ArtifactPlane.Proofs.Cache.Upkeep

/-!
What happens to a cache, in numbers.  Each act adds to a tally of what its results say: a
value was stored, entries were evicted for it, a request found its entry, a purge dropped so
many.  The size of the cache and its counters change by what the tally says and by nothing
else, so each entry that came is still there or was accounted for by one act alone.
-/

namespace ArtifactPlane.Cache

variable {α : Type} {c d b : Cache α}

/-- What has happened, in numbers that do not wrap. -/
structure Tally where
  hits : Nat := 0
  misses : Nat := 0
  /-- Lookups that found an expired entry. -/
  expired : Nat := 0
  /-- Stores that were accepted, overwrites among them. -/
  accepted : Nat := 0
  /-- Accepted stores of a key that was absent. -/
  fresh : Nat := 0
  evicted : Nat := 0
  reaped : Nat := 0
  /-- Requests that the queue did not take. -/
  turnedAway : Nat := 0
  /-- The sum of what purges counted. -/
  purged : Nat := 0
  /-- Entries that were there when a clear came. -/
  dropped : Nat := 0
  clears : Nat := 0
deriving DecidableEq, Repr

def Tally.add (t u : Tally) : Tally where
  hits := t.hits + u.hits
  misses := t.misses + u.misses
  expired := t.expired + u.expired
  accepted := t.accepted + u.accepted
  fresh := t.fresh + u.fresh
  evicted := t.evicted + u.evicted
  reaped := t.reaped + u.reaped
  turnedAway := t.turnedAway + u.turnedAway
  purged := t.purged + u.purged
  dropped := t.dropped + u.dropped
  clears := t.clears + u.clears

/-- The counters after what a tally says has happened. -/
def Counters.plus (c : Counters) (t : Tally) : Counters where
  hits := c.hits + UInt64.ofNat t.hits
  misses := c.misses + UInt64.ofNat t.misses
  expired := c.expired + UInt64.ofNat t.expired
  inserts := c.inserts + UInt64.ofNat t.accepted
  evictions := c.evictions + UInt64.ofNat t.evicted
  reaped := c.reaped + UInt64.ofNat t.reaped
  reapDropped := c.reapDropped + UInt64.ofNat t.turnedAway
  clears := c.clears + UInt64.ofNat t.clears

theorem Counters.plus_none (c : Counters) : c.plus {} = c := by
  simp [plus]

theorem Counters.plus_add (c : Counters) (t u : Tally) :
    (c.plus t).plus u = c.plus (t.add u) := by
  simp only [plus, Tally.add, UInt64.ofNat_add, UInt64.add_assoc]

/-- One cache has become another, and a tally says all that came between. -/
structure Accounted (c : Cache α) (t : Tally) (d : Cache α) : Prop where
  size : d.size + t.evicted + t.reaped + t.purged + t.dropped = c.size + t.fresh
  counters : d.counters = c.counters.plus t

namespace Accounted

variable {t u : Tally}

theorem of_eq (hshards : d.shards = c.shards) (hcounters : d.counters = c.counters) :
    c.Accounted {} d :=
  ⟨size_congr hshards, hcounters.trans c.counters.plus_none.symm⟩

theorem trans (hcd : c.Accounted t d) (hdb : d.Accounted u b) : c.Accounted (t.add u) b := by
  refine ⟨?_, ?_⟩
  · have hfirst := hcd.size
    have hsecond := hdb.size
    simp only [Tally.add]
    omega
  · rw [hdb.counters, hcd.counters, Counters.plus_add]

end Accounted

/-- What a lookup adds. -/
def Lookup.tally : Lookup α → Tally
  | .hit _ => { hits := 1 }
  | .expired _ => { misses := 1, expired := 1 }
  | .miss => { misses := 1 }

theorem counters_plus_lookup (counters : Counters) (found : Lookup α) :
    counters.plus found.tally = match found with
      | .hit _ => counters.recordHit
      | .expired _ => counters.recordExpired
      | .miss => counters.recordMiss := by
  cases found <;> simp [Lookup.tally, Counters.plus, Counters.recordHit, Counters.recordExpired,
    Counters.recordMiss]

theorem accounted_look (h : 0 < c.shardCount) (key : String) (now : UInt64) :
    c.Accounted (c.look key now).1.tally (c.look key now).2 := by
  have hsize : (c.look key now).2.size + 0 = c.size + 0 :=
    size_of_setShard (shardOf_lt h key) (shards_look c key now) (Shard.size_lookup _ key now)
  refine ⟨?_, (counters_look c key now).trans (counters_plus_lookup _ _).symm⟩
  cases (c.look key now).1 <;> exact hsize

/-- What a request adds when it is carried out: one entry, if it was made for the one that
the key still holds. -/
def reapTally (c : Cache α) (r : ReapRequest) : Tally where
  reaped := if ((c.shardAt r.shard).removeGeneration r.key r.generation).1 then 1 else 0

theorem accounted_reap (h : c.WellPlaced) (r : ReapRequest) :
    c.Accounted (c.reapTally r) (c.reap r) := by
  have hshard := (h.ordered r.shard).size_removeGeneration r.key r.generation
  have hshards := shards_reap c r
  have hin : ((c.shardAt r.shard).removeGeneration r.key r.generation).1 = true →
      r.shard < c.shardCount := by
    intro hremoved
    apply Nat.lt_of_not_le
    intro hle
    rw [shardAt_of_le hle] at hremoved
    exact Bool.false_ne_true hremoved
  rw [reapTally]
  cases hremoved : ((c.shardAt r.shard).removeGeneration r.key r.generation).1 with
  | false =>
    have hsame : c.reap r = c := by
      rw [reap]
      split
      · next heq => simp [heq] at hremoved
      · rfl
    rw [hsame]
    exact .of_eq rfl rfl
  | true =>
    rw [hremoved, if_pos rfl] at hshard
    refine ⟨size_of_setShard (hin hremoved) hshards hshard, ?_⟩
    rw [reap]
    split
    · simp [Counters.plus, Counters.recordReaped]
    · next heq => simp [heq] at hremoved

/-- What a request adds when it is made: nothing if the queue takes it. -/
def scheduleTally (busy : Bool) (c : Cache α) (r : ReapRequest) : Tally :=
  if c.HasRoom then {}
  else if busy then { turnedAway := 1 }
  else Tally.add { turnedAway := 1 } (c.reapTally r)

theorem size_mark (c : Cache α) (i : Nat) : (c.setShard i (c.shardAt i).mark).size = c.size := by
  by_cases hi : i < c.shardCount
  · have hset := size_setShard hi (c.shardAt i).mark
    have hmark : (c.shardAt i).mark.size = (c.shardAt i).size := rfl
    omega
  · have hsame : (c.setShard i (c.shardAt i).mark).shards = c.shards :=
      Array.setIfInBounds_eq_of_size_le (Nat.le_of_not_lt hi)
    exact size_congr hsame

theorem accounted_scheduleWhile (h : c.WellPlaced) (busy : Bool) (r : ReapRequest) :
    c.Accounted (c.scheduleTally busy r) (c.scheduleWhile busy r) := by
  have hdropped : c.Accounted { turnedAway := 1 }
      { c with counters := c.counters.recordReapDropped } :=
    ⟨rfl, by simp [Counters.plus, Counters.recordReapDropped]⟩
  have hplaced : ({ c with counters := c.counters.recordReapDropped } : Cache α).WellPlaced :=
    h.congr rfl rfl
  by_cases hroom : c.HasRoom
  · rw [scheduleTally, if_pos hroom, scheduleWhile_of_hasRoom hroom]
    exact .of_eq rfl rfl
  · rw [scheduleTally, if_neg hroom, scheduleWhile_of_full hroom]
    cases busy with
    | true => exact ⟨size_mark _ r.shard, hdropped.counters⟩
    | false => exact hdropped.trans (accounted_reap hplaced r)

/-- What a lookup adds together with the request that it makes. -/
def getTally (busy : Bool) (c : Cache α) (key : String) (now : UInt64) : Tally :=
  (c.look key now).1.tally.add <| match c.staleRequest? key now with
    | some r => (c.look key now).2.scheduleTally busy r
    | none => {}

theorem accounted_getWhile (h : c.WellPlaced) (busy : Bool) (key : String) (now : UInt64) :
    c.Accounted (c.getTally busy key now) (c.getWhile busy key now).2 := by
  have hlook := accounted_look h.shardCount_pos key now
  rw [getTally, getWhile_snd]
  cases c.staleRequest? key now with
  | none => exact hlook.trans (.of_eq rfl rfl)
  | some r => exact hlook.trans (accounted_scheduleWhile (h.look key now) busy r)

/-- What a sweep of a shard adds: what it purges, if the shard is marked. -/
def sweepTally (c : Cache α) (now : Instant) (i : Nat) : Tally where
  reaped :=
    if (c.shardAt i).sweepPending then ((c.shardAt i).takeMark.2.purge now.millis).1 else 0

theorem accounted_sweepShard (c : Cache α) (now : Instant) (i : Nat) :
    c.Accounted (c.sweepTally now i) (c.sweepShard now i) := by
  rw [sweepTally, sweepShard, Shard.takeMark]
  cases hmark : (c.shardAt i).sweepPending with
  | false => exact .of_eq rfl rfl
  | true =>
    have hin : i < c.shardCount := by
      apply Nat.lt_of_not_le
      intro hle
      rw [shardAt_of_le hle] at hmark
      exact Bool.false_ne_true hmark
    have hshard := Shard.size_purge (c.shardAt i).takeMark.2 now.millis
    refine ⟨size_of_setShard hin rfl hshard, ?_⟩
    simp [Counters.plus, Counters.recordReaped]

/-- What a store adds, if it is accepted. -/
def Attempt.tally (c : Cache α) (a : Attempt α) : Tally :=
  if a.admitted then
    { accepted := 1
      fresh := if c.contains a.key then 0 else 1
      evicted := (c.displaced a.key a.now).length }
  else {}

theorem counters_insertIf (c : Cache α) (key : String) (value : α) (expiresAt now : UInt64)
    (admitted : Bool) :
    (c.setIf key value expiresAt now admitted).2.counters =
      if admitted then c.counters.recordInsert (c.displaced key now).length else c.counters := by
  have hshard := Shard.insertIf_fst (c.shardAt (c.shardOf key)) c.policy key value expiresAt now
    admitted
  rw [setIf]
  dsimp only
  generalize (c.shardAt (c.shardOf key)).insertIf c.policy key value expiresAt now admitted =
    inserted at hshard ⊢
  rcases inserted with ⟨evicted, s⟩
  cases admitted with
  | false =>
    obtain rfl : evicted = none := hshard
    rfl
  | true =>
    obtain rfl : evicted = some _ := hshard
    rfl

theorem accounted_attempt (h : c.WellPlaced) (a : Attempt α) :
    c.Accounted (a.tally c) (a.apply c) := by
  have hin := shardOf_lt h.shardCount_pos a.key
  have hshards := shards_setIf c a.key a.value a.expiresAt a.now a.admitted
  have hcounters := counters_insertIf c a.key a.value a.expiresAt a.now a.admitted
  rw [Attempt.tally]
  cases hadmitted : a.admitted with
  | false =>
    rw [hadmitted] at hshards hcounters
    have hsize : (a.apply c).size + 0 = c.size + 0 := by
      rw [Attempt.apply, hadmitted]
      exact size_of_setShard hin hshards rfl
    refine ⟨hsize, ?_⟩
    rw [Attempt.apply, hadmitted, hcounters]
    exact (Counters.plus_none _).symm
  | true =>
    rw [hadmitted] at hshards hcounters
    have hsize : (a.apply c).size + (c.displaced a.key a.now).length =
        c.size + if c.contains a.key then 0 else 1 := by
      rw [Attempt.apply, hadmitted]
      exact size_of_setShard hin hshards
        ((h.ordered _).size_insertIf c.policy a.key a.value a.expiresAt a.now)
    refine ⟨hsize, ?_⟩
    rw [Attempt.apply, hadmitted, hcounters]
    simp [Counters.plus, Counters.recordInsert]

/-- What an act adds. -/
def Act.tally (c : Cache α) : Act α → Tally
  | call (.store s) => match s.attempt? c with
    | some a => a.tally c
    | none => {}
  | call (.get key now) => c.getTally false key now
  | call (.purge now) => { purged := (c.purge now).1 }
  | call .clear => { dropped := c.size, clears := 1 }
  | call (.reap n) => match c.queue[n]? with
    | some r => c.reapTally r
    | none => {}
  | getBusy key now => c.getTally true key now
  | sweep now i => c.sweepTally now i

theorem Act.accounted (h : c.WellPlaced) (act : Act α) :
    c.Accounted (act.tally c) (act.apply c) := by
  cases act with
  | getBusy key now => exact accounted_getWhile h true key now
  | sweep now i => exact accounted_sweepShard c now i
  | call op =>
    cases op with
    | store s =>
      rw [Act.apply, Op.apply, Store.apply_eq, Act.tally]
      cases s.attempt? c with
      | none => exact .of_eq rfl rfl
      | some a => exact accounted_attempt h a
    | get key now => exact accounted_getWhile h false key now
    | purge now =>
      have hsize := size_purge c now
      exact ⟨hsize, (Counters.plus_none _).symm⟩
    | clear =>
      have hsize : c.clear.size + c.size = c.size := by rw [size_clear, Nat.zero_add]
      refine ⟨hsize, ?_⟩
      rw [Act.apply, Op.apply, clear_eq]
      simp [Act.tally, Counters.plus, recordClear, Counters.recordClear, bumpEpoch]
    | reap n =>
      rw [Act.apply, Op.apply, reapAt, Act.tally]
      cases c.queue[n]? with
      | none => exact .of_eq rfl rfl
      | some r =>
        have hpopped : ({ c with queue := c.queue.eraseIdx n } : Cache α).WellPlaced :=
          h.congr rfl rfl
        obtain ⟨hsize, hcounters⟩ := accounted_reap hpopped r
        exact ⟨hsize, hcounters⟩

/-- What a history adds to a cache. -/
def tally (c : Cache α) : List (Act α) → Tally
  | [] => {}
  | act :: acts => (act.tally c).add (tally (act.apply c) acts)

/-- A history is accounted for as its acts are, one after the other. -/
theorem accounted_after (h : c.WellPlaced) (acts : List (Act α)) :
    c.Accounted (c.tally acts) (c.after acts) := by
  induction acts generalizing c with
  | nil => exact .of_eq rfl rfl
  | cons act acts ih => exact (act.accounted h).trans (ih (act.wellPlaced_apply h))

end ArtifactPlane.Cache
