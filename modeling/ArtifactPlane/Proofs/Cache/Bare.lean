import ArtifactPlane.Proofs.Cache.Upkeep

/-!
Caches without their generations.  Only removals read a generation: whatever else is done to
two caches that differ in generations only, they come to differ in these only, and so they do
after removals that find what they are for in both or in neither.
-/

namespace ArtifactPlane.Cache

variable {α : Type}

/-- An entry without its generation. -/
def Entry.bare (e : Entry α) : Entry α := { e with generation := 0 }

@[simp] theorem Entry.key_bare (e : Entry α) : e.bare.key = e.key := rfl

@[simp] theorem Entry.isExpired_bare (e : Entry α) (now : UInt64) :
    e.bare.isExpired now = e.isExpired now := rfl

theorem Entry.bare_touch (e : Entry α) (now : UInt64) : (e.touch now).bare = e.bare.touch now :=
  rfl

theorem Entry.compareWorth_bare (a b : Entry α) :
    a.bare.compareWorth b.bare = a.compareWorth b := rfl

/-- What a lookup found, without the generation. -/
def Lookup.bare : Lookup α → Lookup α
  | .expired _ => .expired 0
  | found => found

namespace Shard

/-- A shard without generations. -/
def bare (s : Shard α) : Shard α :=
  { s with entries := s.entries.map Entry.bare, nextGeneration := 0 }

variable {s t : Shard α} {key : String} {now : UInt64}

@[simp] theorem size_bare (s : Shard α) : s.bare.size = s.size := List.length_map _

theorem find?_bare (s : Shard α) (key : String) :
    s.bare.find? key = (s.find? key).map Entry.bare := by
  simp only [find?, bare, List.find?_map, Function.comp_def, Entry.key_bare]

@[simp] theorem contains_bare (s : Shard α) (key : String) :
    s.bare.contains key = s.contains key := by
  rw [contains, find?_bare, Option.isSome_map, contains]

theorem bare_touch (s : Shard α) (key : String) (now : UInt64) :
    (s.touch key now).bare = s.bare.touch key now := by
  simp only [touch, bare, List.map_map]
  congr 1
  apply List.map_congr_left
  intro e _
  by_cases hkey : e.key = key
  · simp [hkey, Entry.bare_touch]
  · simp [hkey]

theorem lookup_bare (s : Shard α) (key : String) (now : UInt64) :
    s.bare.lookup key now = ((s.lookup key now).1.bare, (s.lookup key now).2.bare) := by
  rw [lookup, find?_bare, lookup]
  cases s.find? key with
  | none => rfl
  | some e =>
    by_cases hexpired : e.isExpired now = true
    · have hbare : e.bare.isExpired now = true := hexpired
      simp only [Option.map_some, if_pos hexpired, if_pos hbare]
      rfl
    · have hbare : ¬ e.bare.isExpired now = true := hexpired
      simp only [Option.map_some, if_neg hexpired, if_neg hbare, bare_touch]
      rfl

theorem bare_eraseAll (s : Shard α) (keys : List String) :
    (s.eraseAll keys).bare = s.bare.eraseAll keys := by
  simp only [eraseAll, bare, List.filter_map, Function.comp_def, Entry.key_bare]

theorem bare_purge (s : Shard α) (now : UInt64) :
    s.bare.purge now = ((s.purge now).1, (s.purge now).2.bare) := by
  simp [purge, bare, size, List.filter_map, Function.comp_def]

theorem bare_clear (s : Shard α) : s.clear.bare = s.bare.clear := rfl

theorem map_bare_place (e : Entry α) (l : List (Entry α)) :
    (place e l).map Entry.bare = place e.bare (l.map Entry.bare) := by
  induction l with
  | nil => rfl
  | cons x xs ih =>
    by_cases hlt : e.key < x.key
    · simp [place, hlt]
    · by_cases heq : e.key = x.key
      · simp [place, heq]
      · simp [place, hlt, heq, ih]

theorem leastWorth?_map_bare (l : List (Entry α)) :
    leastWorth? (l.map Entry.bare) = (leastWorth? l).map Entry.bare := by
  induction l with
  | nil => rfl
  | cons e es ih =>
    simp only [List.map_cons, leastWorth?, ih]
    cases leastWorth? es with
    | none => rfl
    | some m =>
      by_cases hless : m.compareWorth e = .lt
      · simp [Entry.compareWorth_bare, hless]
      · simp [Entry.compareWorth_bare, hless]

theorem candidates_bare (s : Shard α) (policy : Policy) (now : UInt64) :
    s.bare.candidates policy now = (s.candidates policy now).map Entry.bare := by
  simp only [candidates, bare, List.filter_map]
  rfl

/-- An eviction pass does not look at generations. -/
@[simp] theorem victims_bare (s : Shard α) (policy : Policy) (now : UInt64) :
    s.bare.victims policy now = s.victims policy now := by
  rw [victims, candidates_bare, victims, size_bare]
  cases s.candidates policy now with
  | nil =>
    have hleast := leastWorth?_map_bare s.entries
    simp only [bare, List.map_nil, hleast]
    cases leastWorth? s.entries <;> rfl
  | cons c cs =>
    rw [List.map_cons]
    dsimp only
    rw [← List.map_cons, ← List.map_take, List.map_map]
    rfl

theorem displaced_bare (s : Shard α) (policy : Policy) (now : UInt64) (key : String) :
    s.bare.displaced policy now key = s.displaced policy now key := by
  simp only [displaced, contains_bare, size_bare, victims_bare]
  rfl

theorem store_bare (s : Shard α) (policy : Policy) (now : UInt64) (e : Entry α) :
    s.bare.store policy now e.bare =
      ((s.store policy now e).1, (s.store policy now e).2.bare) := by
  rw [store_eq, store_eq, Entry.key_bare, displaced_bare, ← bare_eraseAll]
  simp only [bare, map_bare_place]

/-- Shards that differ in generations only take a store alike, whatever generation it gets. -/
theorem insertIf_congr (h : s.bare = t.bare) (policy : Policy) (key : String) (value : α)
    (expiresAt now : UInt64) (admitted : Bool) :
    (s.insertIf policy key value expiresAt now admitted).1 =
        (t.insertIf policy key value expiresAt now admitted).1 ∧
      (s.insertIf policy key value expiresAt now admitted).2.bare =
        (t.insertIf policy key value expiresAt now admitted).2.bare := by
  cases admitted with
  | false => exact ⟨rfl, h⟩
  | true =>
    have hs := store_bare s.takeGeneration.2 policy now
      (.fresh key value expiresAt now s.nextGeneration)
    have ht := store_bare t.takeGeneration.2 policy now
      (.fresh key value expiresAt now t.nextGeneration)
    have hdrawn : s.takeGeneration.2.bare = t.takeGeneration.2.bare := h
    rw [hdrawn] at hs
    have hsame := hs.symm.trans ht
    exact ⟨congrArg some (Prod.mk.inj hsame).1, (Prod.mk.inj hsame).2⟩

end Shard

/-- A request without its generation. -/
def ReapRequest.bare (r : ReapRequest) : ReapRequest := { r with generation := 0 }

/-- A cache without generations. -/
def bare (c : Cache α) : Cache α :=
  { c with shards := c.shards.map Shard.bare, queue := c.queue.map ReapRequest.bare }

variable {c d : Cache α} {key : String} {now : UInt64}

theorem counters_of_bare (h : c.bare = d.bare) : c.counters = d.counters := by
  have hcounters := congrArg Cache.counters h
  exact hcounters

theorem epoch_of_bare (h : c.bare = d.bare) : c.epoch = d.epoch := by
  have hepoch := congrArg Cache.epoch h
  exact hepoch

theorem policy_of_bare (h : c.bare = d.bare) : c.policy = d.policy := by
  have hpolicy := congrArg Cache.policy h
  exact hpolicy

theorem queue_of_bare (h : c.bare = d.bare) :
    c.queue.map ReapRequest.bare = d.queue.map ReapRequest.bare := by
  have hqueue := congrArg Cache.queue h
  exact hqueue

theorem bare_shardAt (c : Cache α) (i : Nat) :
    (c.shardAt i).bare = c.bare.shards.getD i (default : Shard α).bare := by
  simp only [shardAt, bare, Array.getD_eq_getD_getElem?, Array.getElem?_map]
  cases c.shards[i]? <;> rfl

theorem shardAt_of_bare (h : c.bare = d.bare) (i : Nat) :
    (c.shardAt i).bare = (d.shardAt i).bare := by
  rw [bare_shardAt, h, ← bare_shardAt]

theorem shardCount_of_bare (h : c.bare = d.bare) : c.shardCount = d.shardCount := by
  have hsize := congrArg (fun b : Cache α => b.shards.size) h
  simpa [bare, shardCount] using hsize

theorem shardOf_of_bare (h : c.bare = d.bare) (key : String) : c.shardOf key = d.shardOf key :=
  shardOf_congr (shardCount_of_bare h) key

theorem bare_setShard (c : Cache α) (i : Nat) (s : Shard α) :
    (c.setShard i s).bare = c.bare.setShard i s.bare := by
  simp [bare, setShard, Array.map_setIfInBounds]

theorem find?_of_bare (h : c.bare = d.bare) (key : String) :
    (c.find? key).map Entry.bare = (d.find? key).map Entry.bare := by
  rw [find?, find?, ← Shard.find?_bare, ← Shard.find?_bare, shardOf_of_bare h, shardAt_of_bare h]

/-- The lengths of the shards do not depend on generations. -/
theorem shardSizes_of_bare (h : c.bare = d.bare) : c.shardSizes = d.shardSizes := by
  have hshards := congrArg (fun b : Cache α => b.shards.toList.map (·.size)) h
  simpa [bare, shardSizes, Function.comp_def] using hshards

theorem hasRoom_of_bare (h : c.bare = d.bare) : c.HasRoom ↔ d.HasRoom := by
  have hlength := congrArg (fun b : Cache α => b.queue.length) h
  have hlimit := congrArg (fun b : Cache α => b.queueLimit) h
  simp only [bare, List.length_map] at hlength hlimit
  rw [HasRoom, HasRoom, hlength, hlimit]

/-- Only shards and counters may be new beside the cache. -/
theorem bare_setShard_congr (h : c.bare = d.bare) {i j : Nat} (hij : i = j) {s t : Shard α}
    (hst : s.bare = t.bare) (k : Counters) :
    ({ c.setShard i s with counters := k } : Cache α).bare =
      ({ d.setShard j t with counters := k } : Cache α).bare := by
  have hset : (c.setShard i s).bare = (d.setShard j t).bare := by
    rw [bare_setShard, bare_setShard, h, hij, hst]
  exact congrArg (fun b : Cache α => { b with counters := k }) hset

/-- What a lookup counts. -/
def Lookup.count (k : Counters) : Lookup α → Counters
  | .hit _ => k.recordHit
  | .expired _ => k.recordExpired
  | .miss => k.recordMiss

theorem Lookup.count_bare (k : Counters) (found : Lookup α) :
    found.bare.count k = found.count k := by
  cases found <;> rfl

/-- A lookup is the lookup of the shard, and is counted. -/
theorem look_eq (c : Cache α) (key : String) (now : UInt64) :
    c.look key now = (((c.shardAt (c.shardOf key)).lookup key now).1,
      { c.setShard (c.shardOf key) ((c.shardAt (c.shardOf key)).lookup key now).2 with
        counters := ((c.shardAt (c.shardOf key)).lookup key now).1.count c.counters }) := by
  rw [look, Shard.lookup]
  cases (c.shardAt (c.shardOf key)).find? key with
  | none => simp only [setShard_shardAt, Lookup.count]
  | some e =>
    by_cases hexpired : e.isExpired now = true
    · simp only [if_pos hexpired, setShard_shardAt, Lookup.count]
    · simp only [if_neg hexpired, Lookup.count]

theorem look_congr (h : c.bare = d.bare) (key : String) (now : UInt64) :
    (c.look key now).1.bare = (d.look key now).1.bare ∧
      (c.look key now).2.bare = (d.look key now).2.bare := by
  have hown := shardOf_of_bare h key
  have hlookup : ((c.shardAt (c.shardOf key)).bare).lookup key now =
      ((d.shardAt (d.shardOf key)).bare).lookup key now := by
    rw [hown, shardAt_of_bare h]
  rw [Shard.lookup_bare, Shard.lookup_bare, Prod.mk.injEq] at hlookup
  obtain ⟨hfound, hshard⟩ := hlookup
  have hcount : ((c.shardAt (c.shardOf key)).lookup key now).1.count c.counters =
      ((d.shardAt (d.shardOf key)).lookup key now).1.count d.counters := by
    rw [← Lookup.count_bare, hfound, Lookup.count_bare, counters_of_bare h]
  rw [look_eq c, look_eq d, hcount]
  exact ⟨hfound, bare_setShard_congr h hown hshard _⟩

theorem setIf_congr (h : c.bare = d.bare) (key : String) (value : α) (expiresAt now : UInt64)
    (admitted : Bool) :
    (c.setIf key value expiresAt now admitted).1 = (d.setIf key value expiresAt now admitted).1 ∧
      (c.setIf key value expiresAt now admitted).2.bare =
        (d.setIf key value expiresAt now admitted).2.bare := by
  have hown := shardOf_of_bare h key
  have hshard := shardAt_of_bare h (c.shardOf key)
  have hinsert := Shard.insertIf_congr hshard c.policy key value expiresAt now admitted
  rw [setIf, setIf, ← hown, ← policy_of_bare h]
  dsimp only
  generalize (c.shardAt (c.shardOf key)).insertIf c.policy key value expiresAt now admitted =
    x at hinsert
  generalize (d.shardAt (c.shardOf key)).insertIf c.policy key value expiresAt now admitted =
    y at hinsert
  obtain ⟨x, s⟩ := x
  obtain ⟨y, t⟩ := y
  obtain ⟨rfl, hst⟩ : x = y ∧ s.bare = t.bare := hinsert
  cases x with
  | none =>
    refine ⟨rfl, ?_⟩
    rw [bare_setShard, bare_setShard, h, hst]
  | some evicted =>
    rw [counters_of_bare h]
    exact ⟨rfl, bare_setShard_congr h rfl hst _⟩

theorem purge_bare (c : Cache α) (now : Instant) :
    c.bare.purge now = ((c.purge now).1, (c.purge now).2.bare) := by
  simp [purge, bare, Function.comp_def, Shard.bare_purge, List.foldr_map]

theorem bare_clear (c : Cache α) : c.clear.bare = c.bare.clear := by
  rw [clear_eq, clear_eq]
  simp [recordClear, bumpEpoch, bare, Function.comp_def, Shard.bare_clear]

theorem clearShard_congr (h : c.bare = d.bare) (i : Nat) :
    (c.clearShard i).bare = (d.clearShard i).bare := by
  rw [clearShard, clearShard, bare_setShard, bare_setShard, h, Shard.bare_clear, Shard.bare_clear,
    shardAt_of_bare h]

theorem purgeShard_congr (h : c.bare = d.bare) (now : UInt64) (i : Nat) :
    (c.purgeShard now i).bare = (d.purgeShard now i).bare := by
  have hpurge := congrArg (·.purge now) (shardAt_of_bare h i)
  simp only [Shard.bare_purge, Prod.mk.injEq] at hpurge
  rw [purgeShard, purgeShard, bare_setShard, bare_setShard, h, hpurge.2]

theorem sweepShard_congr (h : c.bare = d.bare) (now : Instant) (i : Nat) :
    (c.sweepShard now i).bare = (d.sweepShard now i).bare := by
  have hshard := shardAt_of_bare h i
  have hmark : (c.shardAt i).sweepPending = (d.shardAt i).sweepPending := by
    have hpending := congrArg Shard.sweepPending hshard
    exact hpending
  rw [sweepShard, sweepShard, Shard.takeMark, Shard.takeMark, ← hmark]
  cases (c.shardAt i).sweepPending with
  | false => exact h
  | true =>
    have hswept : ({ c.shardAt i with sweepPending := false } : Shard α).bare =
        ({ d.shardAt i with sweepPending := false } : Shard α).bare :=
      congrArg (fun s : Shard α => { s with sweepPending := false }) hshard
    have hpurge := congrArg (·.purge now.millis) hswept
    simp only [Shard.bare_purge, Prod.mk.injEq] at hpurge
    dsimp only
    rw [hpurge.1, counters_of_bare h]
    exact bare_setShard_congr h rfl hpurge.2 _

/-- Whether a request is for the entry that its key holds. -/
def due (c : Cache α) (r : ReapRequest) : Bool :=
  (c.find? r.key).any (·.generation == r.generation)

theorem removeGeneration_eq {r : ReapRequest} (hr : r.shard = c.shardOf r.key) :
    (c.shardAt r.shard).removeGeneration r.key r.generation =
      if c.due r then (true, (c.shardAt r.shard).eraseAll [r.key])
      else (false, c.shardAt r.shard) := by
  rw [Shard.removeGeneration, due, find?, hr]
  cases (c.shardAt (c.shardOf r.key)).find? r.key with
  | none => rfl
  | some e => by_cases hsame : e.generation = r.generation <;> simp [hsame]

/-- A request takes the entry of its key if it is for that one, and else changes nothing. -/
theorem reap_eq {r : ReapRequest} (hr : r.shard = c.shardOf r.key) :
    c.reap r =
      if c.due r then
        { c.setShard r.shard ((c.shardAt r.shard).eraseAll [r.key]) with
          counters := c.counters.recordReaped 1 }
      else c := by
  rw [reap, removeGeneration_eq hr]
  by_cases hdue : c.due r = true
  · simp only [if_pos hdue]
  · simp only [if_neg hdue]

theorem key_of_bare {r x : ReapRequest} (h : r.bare = x.bare) : r.key = x.key := by
  have hkey := congrArg ReapRequest.key h
  exact hkey

theorem shard_of_bare {r x : ReapRequest} (h : r.bare = x.bare) : r.shard = x.shard := by
  have hshard := congrArg ReapRequest.shard h
  exact hshard

theorem reap_congr (h : c.bare = d.bare) {r x : ReapRequest} (hrx : r.bare = x.bare)
    (hr : r.shard = c.shardOf r.key) (hdue : c.due r = d.due x) :
    (c.reap r).bare = (d.reap x).bare := by
  have hkey := key_of_bare hrx
  have hshard := shard_of_bare hrx
  have hx : x.shard = d.shardOf x.key := by
    rw [← hshard, ← hkey, hr, shardOf_of_bare h]
  rw [reap_eq hr, reap_eq hx, ← hdue, counters_of_bare h]
  split
  · refine bare_setShard_congr h hshard ?_ _
    rw [Shard.bare_eraseAll, Shard.bare_eraseAll, shardAt_of_bare h, hshard, hkey]
  · exact h

theorem scheduleWhile_congr (h : c.bare = d.bare) (busy : Bool) {r x : ReapRequest}
    (hrx : r.bare = x.bare) (hr : r.shard = c.shardOf r.key) (hdue : c.due r = d.due x) :
    (c.scheduleWhile busy r).bare = (d.scheduleWhile busy x).bare := by
  by_cases hroom : c.HasRoom
  · rw [scheduleWhile_of_hasRoom hroom, scheduleWhile_of_hasRoom ((hasRoom_of_bare h).mp hroom)]
    change { c.bare with queue := (c.queue ++ [r]).map ReapRequest.bare } =
      { d.bare with queue := (d.queue ++ [x]).map ReapRequest.bare }
    rw [List.map_append, List.map_append, List.map_singleton, List.map_singleton, hrx,
      queue_of_bare h, h]
  · rw [scheduleWhile_of_full hroom, scheduleWhile_of_full (mt (hasRoom_of_bare h).mpr hroom),
      counters_of_bare h]
    have hdropped : ({ c with counters := d.counters.recordReapDropped } : Cache α).bare =
        ({ d with counters := d.counters.recordReapDropped } : Cache α).bare :=
      congrArg (fun b : Cache α => { b with counters := d.counters.recordReapDropped }) h
    cases busy with
    | true =>
      have hshard : r.shard = x.shard := shard_of_bare hrx
      have hmark : (c.shardAt r.shard).mark.bare = (d.shardAt x.shard).mark.bare := by
        rw [← hshard]
        exact congrArg Shard.mark (shardAt_of_bare h r.shard)
      exact bare_setShard_congr h hshard hmark _
    | false => exact reap_congr hdropped hrx hr hdue

end ArtifactPlane.Cache
