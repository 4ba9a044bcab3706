import ArtifactPlane.Proofs.Cache.Alike

/-!
Stores that do not happen.  Main statement: a store that is refused takes a generation and
does nothing else, one whose expiry no clock can represent does not even that, and whatever
comes later goes on as if the call had not been made, as long as no generation comes round.
Where one does, the generation that was taken in vain is missed.
-/

namespace ArtifactPlane.Cache

variable {α : Type} {c d : Cache α}

/-- A store took a generation in the shard of its key, and nothing else has changed. -/
structure Unstored (c d : Cache α) (key : String) : Prop where
  drawn : d = (c.draw key).2
  entries : ∀ i, (d.shardAt i).entries = (c.shardAt i).entries
  size : d.size = c.size
  counters : d.counters = c.counters
  epoch : d.epoch = c.epoch
  queue : d.queue = c.queue

/-- What callers and counters tell of two caches is the same. -/
structure Indistinct (c d : Cache α) : Prop where
  answers : ∀ busy key now, (c.getWhile busy key now).1 = (d.getWhile busy key now).1
  entries : ∀ i, (c.shardAt i).entries.map Entry.bare = (d.shardAt i).entries.map Entry.bare
  shardSizes : c.shardSizes = d.shardSizes
  stats : c.stats = d.stats
  epoch : c.epoch = d.epoch

theorem bare_draw (c : Cache α) (key : String) : (c.draw key).2.bare = c.bare := by
  have hown : (c.shardAt (c.shardOf key)).takeGeneration.2.bare =
      (c.shardAt (c.shardOf key)).bare := rfl
  rw [draw, bare_setShard, hown, ← bare_setShard, setShard_shardAt]

theorem find?_draw (h : 0 < c.shardCount) (key k : String) :
    (c.draw key).2.find? k = c.find? k := by
  rw [draw, find?_setShard h]
  split
  · next hown =>
    rw [find?, hown]
    rfl
  · rfl

/-- A generation that is taken and not used keeps a cache as it goes on. -/
theorem alike_draw (h : 0 < c.shardCount) (key : String) : c.Alike (c.draw key).2 := by
  refine ⟨(bare_draw c key).symm, ?_⟩
  rw [requests, requests]
  refine List.map_congr_left fun r _ => ?_
  rw [due, due, find?_draw h]

theorem unstored_draw (c : Cache α) (key : String) : c.Unstored (c.draw key).2 key := by
  refine ⟨rfl, fun i => ?_, ?_, rfl, rfl, rfl⟩
  · exact same_setShard (s := (c.shardAt (c.shardOf key)).takeGeneration.2) Shard.entries rfl i
  · rw [size, size, shardSizes_of_bare (bare_draw c key)]

theorem Lookup.value?_bare (found : Lookup α) : found.bare.value? = found.value? := by
  cases found <;> rfl

theorem indistinct_of_bare (h : c.bare = d.bare) : c.Indistinct d := by
  have hsizes := shardSizes_of_bare h
  refine ⟨fun busy key now => ?_, fun i => ?_, hsizes, ?_, epoch_of_bare h⟩
  · have hlookup : (c.shardAt (c.shardOf key)).bare.lookup key now =
        (d.shardAt (d.shardOf key)).bare.lookup key now := by
      rw [shardOf_of_bare h, shardAt_of_bare h]
    rw [Shard.lookup_bare, Shard.lookup_bare, Prod.mk.injEq] at hlookup
    rw [getWhile_fst, getWhile_fst, ← Lookup.value?_bare, hlookup.1, Lookup.value?_bare]
  · exact congrArg Shard.entries (shardAt_of_bare h i)
  · have hcapacity : c.capacity = d.capacity := by
      have hfield := congrArg Cache.capacity h
      exact hfield
    rw [Cache.stats, Cache.stats, size, size, hsizes, hcapacity, shardCount_of_bare h,
      counters_of_bare h]

/-- The generation is not missed later, as long as none comes round. -/
theorem Numbered.indistinct_draw {taken : Nat → Nat} (h : c.Numbered taken) (key : String)
    (value : α) {events : List (Event α)}
    (hroom : ∀ i, oneMore taken (c.shardOf key) i + storesAt c.shardCount events i <
      UInt64.size) :
    (c.through events).Indistinct ((c.draw key).2.through events) := by
  have hdrawn : (c.draw key).2.Numbered (oneMore taken (c.shardOf key)) :=
    h.setIf key value 0 0 false
  have hfree : ∀ i, taken i + storesAt c.shardCount events i < UInt64.size := fun i =>
    Nat.lt_of_le_of_lt (Nat.add_le_add_right (le_oneMore taken _ i) _) (hroom i)
  have hshards : (c.draw key).2.shardCount = c.shardCount := shardCount_setShard c _ _
  have halike := alike_draw h.placed.shardCount_pos key
  exact indistinct_of_bare (halike.through h hdrawn events hfree (hshards ▸ hroom)).bare

/-- A store without a result does nothing. -/
theorem Store.apply_of_attempt?_eq_none {s : Store α} (h : s.attempt? c = none) :
    s.apply c = c := by
  rw [Store.apply_eq, h]

/-- A store that is refused because the epoch is another, in whatever state of the cache,
changes nothing but the next generation of a shard, and a store whose expiry no clock can
represent has no result and changes nothing at all.  As long as the generations of a shard
do not come round, nothing that happens later tells either from a call that was never made. -/
theorem unstored_unseen (config : Config) (before : List (Event α))
    (hc : c = (ofConfig config).through before) (key : String) (value : α) (ttl : Duration)
    (epoch : UInt64) (now later : Instant) :
    (∀ expiresAt, now.add? ttl = some expiresAt → c.epoch ≠ epoch →
      ∃ d, c.storeUnlessCleared? key value ttl epoch now later = some (false, d) ∧
        c.Unstored d key ∧
        ∀ events, (∀ i, storesAt config.effectiveShards (before ++ .act (.call (.store
            (.setUnlessCleared key value ttl epoch now later))) :: events) i < UInt64.size) →
          (c.through events).Indistinct (d.through events)) ∧
    (now.add? ttl = none →
      c.storeWithTtl? key value ttl now later = none ∧
        c.storeUnlessCleared? key value ttl epoch now later = none ∧
        ∀ events,
          c.through (.act (.call (.store (.setWithTtl key value ttl now later))) :: events) =
              c.through events ∧
            c.through (.act (.call (.store
              (.setUnlessCleared key value ttl epoch now later))) :: events) =
              c.through events) := by
  have hcount : c.shardCount = config.effectiveShards := by
    rw [hc, shardCount_through, shardCount_ofConfig]
  refine ⟨fun expiresAt hexpiry hepoch => ?_, fun hexpiry => ?_⟩
  · have hrefused : (c.epoch == epoch) = false := beq_eq_false_iff_ne.mpr hepoch
    refine ⟨(c.draw key).2, ?_, unstored_draw c key, fun events hroom => ?_⟩
    · rw [storeUnlessCleared?, hexpiry, Option.map_some, hrefused]
      rfl
    · obtain ⟨taken, hnumbered, hle⟩ := (numbered_ofConfig config).through before
      rw [← hc] at hnumbered
      refine hnumbered.indistinct_draw key value fun i => ?_
      have hbefore := hle i
      have hall := hroom i
      have hown : (Event.act (.call (.store (.setUnlessCleared key value ttl epoch now
          later)))).storesAt c.shardCount i = (c.shardOf key == i) := rfl
      rw [shardCount_ofConfig] at hbefore
      rw [← hcount] at hbefore hall
      rw [storesAt_append, storesAt_cons, hown] at hall
      rw [oneMore]
      omega
  · have hwith : (Store.setWithTtl key value ttl now later).apply c = c :=
      Store.apply_of_attempt?_eq_none (by rw [Store.attempt?, hexpiry]; rfl)
    have hunless : (Store.setUnlessCleared key value ttl epoch now later).apply c = c :=
      Store.apply_of_attempt?_eq_none (by rw [Store.attempt?, hexpiry]; rfl)
    refine ⟨by rw [storeWithTtl?, hexpiry]; rfl, by rw [storeUnlessCleared?, hexpiry]; rfl,
      fun events => ⟨?_, ?_⟩⟩
    · exact congrArg (·.through events) hwith
    · exact congrArg (·.through events) hunless

/-- One shard with room for two entries. -/
def pair : Config := { capacity := 2, shardCount := 1 }

/-- The shard is full, a request waits for an entry that has expired, and a clear has begun. -/
def crowd : List (Event Nat) :=
  [.act (.call (.store (.set "a" 1 (.ofMillis 50) (.ofMillis 0)))),
    .act (.call (.store (.set "b" 2 (.ofMillis 10) (.ofMillis 0)))), .act (.call (.get "b" 20)),
    .bump]

/-- The entry that the request waits for is replaced before the request is carried out. -/
def comeback : List (Event Nat) :=
  [.act (.call (.store (.set "b" 3 (.ofMillis 90) (.ofMillis 30)))), .act (.call (.reap 0))]

theorem unstored_unseen_crowd :
    ∃ c, c = (ofConfig pair).through crowd ∧ c.shardSizes = [2] ∧ c.queue.length = 1 ∧
      (∃ d, c.storeUnlessCleared? "c" 4 (.ofSecs 1) 0 (.ofMillis 25) (.ofMillis 25) =
          some (false, d) ∧ c.Unstored d "c" ∧
        (c.through comeback).Indistinct (d.through comeback)) ∧
      c.storeWithTtl? "c" 4 (.ofSecs (Nat.pow 2 64 - 1)) (.ofMillis 25) (.ofMillis 25) = none := by
  have hstored := unstored_unseen pair crowd rfl "c" 4 (.ofSecs 1) 0 (.ofMillis 25) (.ofMillis 25)
  have hpanics := unstored_unseen pair crowd rfl "c" 4 (.ofSecs (Nat.pow 2 64 - 1)) 0 (.ofMillis 25)
    (.ofMillis 25)
  obtain ⟨d, hd, hunstored, hunseen⟩ :=
    hstored.1 ⟨1025000000⟩ (by decide) (by decide +kernel)
  have hroom : ∀ i, storesAt pair.effectiveShards (crowd ++ .act (.call (.store
      (.setUnlessCleared "c" 4 (.ofSecs 1) 0 (.ofMillis 25) (.ofMillis 25)))) :: comeback) i <
      UInt64.size :=
    fun i => Nat.lt_of_le_of_lt List.countP_le_length (by decide)
  exact ⟨_, rfl, by decide +kernel, by decide +kernel, ⟨d, hd, hunstored, hunseen comeback hroom⟩,
    (hpanics.2 (by decide)).1⟩

/-- A store that is made over and over takes one generation after another, and its entry carries
the last. -/
theorem through_replicate_set (h : 0 < c.shardCount) (key : String) (value : α)
    (expiresAt now : Instant) (n : Nat) :
    let d := c.through (.replicate (n + 1) (.act (.call (.store (.set key value expiresAt now)))))
    d.shardCount = c.shardCount ∧ d.queue = c.queue ∧
      d.find? key = some (.fresh key value expiresAt.millis now.millis
        (c.nextGeneration (c.shardOf key) + .ofNat n)) := by
  induction n generalizing c with
  | zero =>
    refine ⟨shardCount_through c _, queue_setIf c key value _ _ true, ?_⟩
    have hfind := find?_setIf h key value expiresAt.millis now.millis true key
    rw [if_pos ⟨rfl, rfl⟩] at hfind
    exact hfind.trans (congrArg (some <| Entry.fresh key value _ _ ·) (UInt64.add_zero _).symm)
  | succ n ih =>
    let b := (c.setIf key value expiresAt.millis now.millis true).2
    have hcount : b.shardCount = c.shardCount :=
      (shardCount_congr (shards_setIf c key value _ _ true)).trans (shardCount_setShard _ _ _)
    have hnext : b.nextGeneration (b.shardOf key) = c.nextGeneration (c.shardOf key) + 1 := by
      rw [shardOf_congr hcount]
      exact (nextGeneration_setIf h key value _ _ true _).trans (if_pos rfl)
    obtain ⟨hshards, hqueue, hfind⟩ := ih (c := b) (hcount ▸ h)
    refine ⟨hshards.trans hcount, hqueue.trans (queue_setIf c key value _ _ true), ?_⟩
    rw [hnext, UInt64.add_assoc, UInt64.add_comm 1] at hfind
    rw [UInt64.ofNat_add n 1]
    exact hfind

/-- A request that waited meanwhile is for the last of these stores where its generation has come
round. -/
theorem find?_through_replicate_reap (h : 0 < c.shardCount) {key : String} {generation : UInt64}
    (hqueue : c.queue = [⟨c.shardOf key, key, generation⟩]) (value : α) (expiresAt now : Instant)
    (n : Nat) :
    (c.through (.replicate (n + 1) (.act (.call (.store (.set key value expiresAt now)))) ++
        [.act (.call (.reap 0))])).find? key =
      (some (.fresh key value expiresAt.millis now.millis
        (c.nextGeneration (c.shardOf key) + .ofNat n)) : Option (Entry α)).filter
          (·.generation != generation) := by
  obtain ⟨hcount, hsame, hfind⟩ := through_replicate_set h key value expiresAt now n
  rw [through, List.foldl_append]
  change (reapAt (c.through _) 0).find? key = _
  rw [find?_reapAt (hcount ▸ h), hsame, hqueue, List.getElem?_cons_zero]
  dsimp only
  rw [if_pos ⟨shardOf_congr hcount key, rfl⟩, hfind]

/-- One shard with room for one entry. -/
def lone : Config := { capacity := 1, shardCount := 1 }

/-- A request waits for an entry that has expired, and a clear has begun. -/
def lingering : List (Event Nat) :=
  [.act (.call (.store (.set "a" 0 (.ofMillis 10) (.ofMillis 0)))), .act (.call (.get "a" 20)),
    .bump]

/-- The key is stored over and over, and then the request is carried out. -/
def recurring (n : Nat) : List (Event Nat) :=
  .replicate (n + 1) (.act (.call (.store (.set "a" 7 (.ofMillis 90) (.ofMillis 30))))) ++
    [.act (.call (.reap 0))]

/-- After a store that was refused, the generation of the request comes round one store earlier,
and an entry is lost that would be there if the call had not been made. -/
theorem unstored_seen_lone :
    ∃ c d, c = (ofConfig lone).through lingering ∧ c.epoch = 1 ∧
      c.storeUnlessCleared? "b" 5 (.ofSecs 1) 0 (.ofMillis 25) (.ofMillis 25) = some (false, d) ∧
      ((c.through (recurring (UInt64.size - 2))).get "a" 40).1 = some 7 ∧
      ((d.through (recurring (UInt64.size - 2))).get "a" 40).1 = none := by
  let c := (ofConfig lone).through lingering
  let d := (c.draw "b").2
  have hcount : 0 < c.shardCount := by decide +kernel
  have hdcount : 0 < d.shardCount := by decide +kernel
  have hqueue : c.queue = [⟨c.shardOf "a", "a", 1⟩] := by decide +kernel
  have hdqueue : d.queue = [⟨d.shardOf "a", "a", 1⟩] := by decide +kernel
  have hnext : c.nextGeneration (c.shardOf "a") = 2 := by decide +kernel
  have hdnext : d.nextGeneration (d.shardOf "a") = 3 := by decide +kernel
  have hkept : (c.through (recurring (UInt64.size - 2))).find? "a" = _ :=
    find?_through_replicate_reap hcount hqueue 7 _ _ _
  have hlost : (d.through (recurring (UInt64.size - 2))).find? "a" = _ :=
    find?_through_replicate_reap hdcount hdqueue 7 _ _ _
  refine ⟨c, d, rfl, by decide +kernel, rfl, ?_, ?_⟩
  · rw [get_fst, hkept, hnext]
    decide +kernel
  · rw [get_fst, hlost, hdnext]
    decide +kernel

end ArtifactPlane.Cache
