import ArtifactPlane.Proofs.Cache.Ordered

/-!
A cache as a map.  Every operation on a cache replaces shards by what the same operation of
the shard makes of them; from that, `find?` says what each operation does to the entry held
under each key.  In a well-placed cache an entry stands in the shard of its key only.
-/

namespace ArtifactPlane.Cache

variable {α : Type} {c d : Cache α} {s : Shard α} {i j : Nat} {key k : String} {now : UInt64}

/-- The entry held under a key, live or expired. -/
def find? (c : Cache α) (key : String) : Option (Entry α) :=
  (c.shardAt (c.shardOf key)).find? key

theorem shardOf_congr (h : d.shardCount = c.shardCount) (k : String) :
    d.shardOf k = c.shardOf k := by
  unfold shardOf
  rw [h]

theorem shardCount_congr (h : d.shards = c.shards) : d.shardCount = c.shardCount :=
  congrArg Array.size h

theorem shardAt_congr (h : d.shards = c.shards) (i : Nat) : d.shardAt i = c.shardAt i := by
  unfold shardAt
  rw [h]

theorem find?_congr (h : d.shards = c.shards) (k : String) : d.find? k = c.find? k := by
  unfold find?
  rw [shardOf_congr (shardCount_congr h), shardAt_congr h]

theorem shardOf_lt (h : 0 < c.shardCount) (k : String) : c.shardOf k < c.shardCount :=
  Hash.shard_lt k h

@[simp] theorem shardOf_setShard (c : Cache α) (i : Nat) (s : Shard α) (k : String) :
    (c.setShard i s).shardOf k = c.shardOf k :=
  shardOf_congr (shardCount_setShard c i s) k

theorem shardAt_setShard_of_ne (h : j ≠ i) : (c.setShard i s).shardAt j = c.shardAt j := by
  simp [shardAt, setShard, Array.getD_eq_getD_getElem?, Ne.symm h]

theorem shardAt_setShard (h : j < c.shardCount) :
    (c.setShard i s).shardAt j = if j = i then s else c.shardAt j := by
  unfold shardCount at h
  by_cases hji : j = i
  · subst hji
    simp [shardAt, setShard, Array.getD_eq_getD_getElem?, h]
  · rw [if_neg hji, shardAt_setShard_of_ne hji]

theorem shardAt_of_le (h : c.shardCount ≤ i) : c.shardAt i = default := by
  unfold shardCount at h
  simp [shardAt, Array.getD_eq_getD_getElem?, Array.getElem?_eq_none h]

theorem setShard_shardAt (c : Cache α) (i : Nat) : c.setShard i (c.shardAt i) = c := by
  have hshards : c.shards.setIfInBounds i (c.shardAt i) = c.shards := by
    apply Array.ext_getElem?
    intro j
    rw [Array.getElem?_setIfInBounds]
    split
    · next h =>
      subst h
      split
      · next h => simp [shardAt, Array.getD_eq_getD_getElem?, h]
      · next h => simp [h]
    · rfl
  unfold setShard
  rw [hshards]

theorem find?_setShard (h : 0 < c.shardCount) (k : String) :
    (c.setShard i s).find? k = if c.shardOf k = i then s.find? k else c.find? k := by
  unfold find?
  rw [shardOf_setShard, shardAt_setShard (shardOf_lt h k)]
  split <;> rfl

theorem shards_look (c : Cache α) (key : String) (now : UInt64) :
    (c.look key now).2.shards = (c.setShard (c.shardOf key)
      ((c.shardAt (c.shardOf key)).lookup key now).2).shards := by
  have hsame : ∀ found s, (c.shardAt (c.shardOf key)).lookup key now = (found, s) →
      (∀ v, found ≠ .hit v) → s = c.shardAt (c.shardOf key) := by
    intro found s h hmiss
    unfold Shard.lookup at h
    split at h
    · exact (Prod.mk.inj h).2.symm
    · split at h
      · exact (Prod.mk.inj h).2.symm
      · exact absurd (Prod.mk.inj h).1.symm (hmiss _)
  unfold look
  dsimp only
  generalize (c.shardAt (c.shardOf key)).lookup key now = found at hsame ⊢
  rcases found with ⟨found, s⟩
  cases found with
  | hit v => rfl
  | expired generation =>
    obtain rfl := hsame _ s rfl (by simp)
    rw [setShard_shardAt]
  | miss =>
    obtain rfl := hsame _ s rfl (by simp)
    rw [setShard_shardAt]

theorem shards_reap (c : Cache α) (r : ReapRequest) :
    (c.reap r).shards = (c.setShard r.shard
      ((c.shardAt r.shard).removeGeneration r.key r.generation).2).shards := by
  have hsame : ∀ s, (c.shardAt r.shard).removeGeneration r.key r.generation = (false, s) →
      s = c.shardAt r.shard := by
    intro s h
    unfold Shard.removeGeneration at h
    split at h
    · split at h
      · simp at h
      · exact (Prod.mk.inj h).2.symm
    · exact (Prod.mk.inj h).2.symm
  unfold reap
  generalize (c.shardAt r.shard).removeGeneration r.key r.generation = removed at hsame ⊢
  rcases removed with ⟨removed, s⟩
  cases removed with
  | true => rfl
  | false =>
    obtain rfl := hsame s rfl
    rw [setShard_shardAt]

theorem shards_setIf (c : Cache α) (key : String) (value : α) (expiresAt now : UInt64)
    (admitted : Bool) :
    (c.setIf key value expiresAt now admitted).2.shards = (c.setShard (c.shardOf key)
      ((c.shardAt (c.shardOf key)).insertIf c.policy key value expiresAt now
        admitted).2).shards := by
  unfold setIf
  dsimp only
  split
  · next h => rw [h]
  · next h => rw [h]

/-- Put a shard through a function. -/
def mapShard (f : Shard α → Shard α) (c : Cache α) (i : Nat) : Cache α :=
  c.setShard i (f (c.shardAt i))

theorem shardCount_foldl_mapShard (f : Shard α → Shard α) (c : Cache α) (l : List Nat) :
    (l.foldl (mapShard f) c).shardCount = c.shardCount := by
  induction l generalizing c with
  | nil => rfl
  | cons i rest ih => exact (ih _).trans (shardCount_setShard c i _)

theorem shardAt_foldl_mapShard (f : Shard α → Shard α) (c : Cache α) (n : Nat)
    (hj : j < c.shardCount) :
    ((List.range n).foldl (mapShard f) c).shardAt j =
      if j < n then f (c.shardAt j) else c.shardAt j := by
  induction n with
  | zero => rfl
  | succ n ih =>
    rw [List.range_succ, List.foldl_append]
    simp only [List.foldl_cons, List.foldl_nil, mapShard]
    rw [shardAt_setShard (by rwa [shardCount_foldl_mapShard])]
    by_cases hjn : j = n
    · subst hjn
      simp [ih]
    · rw [if_neg hjn, ih]
      simp only [Nat.lt_succ_iff_lt_or_eq, hjn, or_false]

/-- Shards may be put through a function one after the other. -/
theorem foldl_mapShard (f : Shard α → Shard α) (c : Cache α) :
    (List.range c.shardCount).foldl (mapShard f) c = { c with shards := c.shards.map f } := by
  have hrest : ∀ (l : List Nat) (d : Cache α),
      l.foldl (mapShard f) d = { d with shards := (l.foldl (mapShard f) d).shards } := by
    intro l
    induction l with
    | nil => exact fun d => rfl
    | cons i rest ih => exact fun d => ih (mapShard f d i)
  rw [hrest]
  congr 1
  apply Array.ext
  · rw [Array.size_map]
    exact shardCount_foldl_mapShard f c _
  · intro j hj hsize
    have hbound : j < c.shardCount := by rwa [Array.size_map] at hsize
    have hshard := shardAt_foldl_mapShard f c c.shardCount hbound
    rw [if_pos hbound] at hshard
    simpa [shardAt, Array.getD_eq_getD_getElem?, hj, show j < c.shards.size from hbound]
      using hshard

theorem shardAt_map {f : Shard α → Shard α} (hf : f default = default)
    (hshards : d.shards = c.shards.map f) (i : Nat) : d.shardAt i = f (c.shardAt i) := by
  unfold shardAt
  rw [hshards, Array.getD_eq_getD_getElem?, Array.getD_eq_getD_getElem?, Array.getElem?_map]
  cases c.shards[i]? with
  | none => exact hf.symm
  | some s => rfl

theorem clear_eq (c : Cache α) :
    c.clear = ({ c.bumpEpoch with shards := c.shards.map Shard.clear } : Cache α).recordClear :=
  congrArg recordClear (foldl_mapShard Shard.clear c.bumpEpoch)

theorem shardCount_clear (c : Cache α) : c.clear.shardCount = c.shardCount := by
  rw [clear_eq]
  exact Array.size_map

theorem shardAt_clear (c : Cache α) (i : Nat) : c.clear.shardAt i = (c.shardAt i).clear := by
  rw [clear_eq]
  exact shardAt_map (f := Shard.clear) rfl rfl i

theorem shardAt_purge (c : Cache α) (now : Instant) (i : Nat) :
    (c.purge now).2.shardAt i = ((c.shardAt i).purge now.millis).2 :=
  shardAt_map (f := fun s => (s.purge now.millis).2) rfl (by simp [purge]) i

theorem find?_clear (c : Cache α) (k : String) : c.clear.find? k = none := by
  unfold find?
  rw [shardAt_clear, Shard.find?_clear]

theorem find?_look (h : 0 < c.shardCount) (key : String) (now : UInt64) (k : String) :
    (c.look key now).2.find? k =
      if k = key then (c.find? k).map (·.visit now) else c.find? k := by
  rw [find?_congr (shards_look c key now), find?_setShard h, Shard.find?_lookup]
  by_cases hk : k = key
  · subst hk
    rw [if_pos rfl, if_pos rfl, if_pos rfl]
    rfl
  · rw [if_neg hk]
    split
    · next hshard =>
      unfold find?
      rw [hshard]
    · rfl

theorem find?_reap (h : 0 < c.shardCount) (r : ReapRequest) (k : String) :
    (c.reap r).find? k =
      if c.shardOf k = r.shard ∧ k = r.key then
        (c.find? k).filter (·.generation != r.generation)
      else c.find? k := by
  rw [find?_congr (shards_reap c r), find?_setShard h, Shard.find?_removeGeneration]
  by_cases hshard : c.shardOf k = r.shard
  · simp only [hshard, if_true, true_and, find?]
  · simp only [hshard, if_false, false_and]

/-- The keys that a store evicts from the shard of its key. -/
def displaced (c : Cache α) (key : String) (now : UInt64) : List String :=
  (c.shardAt (c.shardOf key)).displaced c.policy now key

theorem find?_setIf (h : 0 < c.shardCount) (key : String) (value : α) (expiresAt now : UInt64)
    (admitted : Bool) (k : String) :
    (c.setIf key value expiresAt now admitted).2.find? k =
      if admitted = true ∧ k = key then
        some (.fresh key value expiresAt now (c.shardAt (c.shardOf key)).nextGeneration)
      else if admitted = true ∧ c.shardOf k = c.shardOf key ∧ k ∈ c.displaced key now then none
      else c.find? k := by
  rw [find?_congr (shards_setIf c key value expiresAt now admitted), find?_setShard h,
    Shard.find?_insertIf]
  by_cases hshard : c.shardOf k = c.shardOf key
  · simp only [hshard, if_true, true_and, find?, displaced]
  · have hk : k ≠ key := fun hk => hshard (congrArg _ hk)
    simp only [hshard, hk, if_false, false_and, and_false]

/-- There are shards, each holds its entries in ascending order of their keys, and a key is
held in its own shard only. -/
structure WellPlaced (c : Cache α) : Prop where
  shardCount_pos : 0 < c.shardCount
  ordered : ∀ i, (c.shardAt i).Ordered
  home : ∀ i key value, c.Stores i key value → c.shardOf key = i

theorem ordered_setShard (h : ∀ j, (c.shardAt j).Ordered) (hs : s.Ordered) (j : Nat) :
    ((c.setShard i s).shardAt j).Ordered := by
  by_cases hj : j < c.shardCount
  · rw [shardAt_setShard hj]
    split
    · exact hs
    · exact h j
  · rw [shardAt_of_le (by rw [shardCount_setShard]; exact Nat.le_of_not_lt hj)]
    exact Shard.ordered_empty 1

/-- What a new shard leaves as it was is the same in every shard. -/
theorem same_setShard {β : Type} (f : Shard α → β) (hs : f s = f (c.shardAt i)) (j : Nat) :
    f ((c.setShard i s).shardAt j) = f (c.shardAt j) := by
  by_cases hj : j < c.shardCount
  · rw [shardAt_setShard hj]
    split
    · next hji => rw [hs, hji]
    · rfl
  · have hle : c.shardCount ≤ j := Nat.le_of_not_lt hj
    rw [shardAt_of_le hle, shardAt_of_le (by rwa [shardCount_setShard])]

theorem keeps_purge (c : Cache α) (now : Instant) : c.Keeps (c.purge now).2 := by
  refine ⟨?_, Array.size_map.trans Array.size_map, rfl⟩
  intro i key value h
  unfold Stores at h
  rw [shardAt_purge] at h
  exact Shard.stores_purge h

namespace WellPlaced

theorem ofConfig (config : Config) : (Cache.ofConfig config : Cache α).WellPlaced := by
  refine ⟨?_, ?_, fun i key value h => absurd h (not_stores_ofConfig config i key value)⟩
  · simp only [shardCount, Cache.ofConfig, Array.size_replicate, Config.effectiveShards]
    omega
  · intro i
    unfold shardAt Cache.ofConfig
    rw [Array.getD_eq_getD_getElem?, Array.getElem?_replicate]
    split <;> exact Shard.ordered_empty _

/-- An entry in a shard is the one that its key finds, and it is in no other shard. -/
theorem mem_entries_iff (h : c.WellPlaced) {e : Entry α} :
    e ∈ (c.shardAt i).entries ↔ c.shardOf e.key = i ∧ c.find? e.key = some e := by
  constructor
  · intro he
    have hhome := h.home i e.key e.value ⟨e, he, rfl, rfl⟩
    refine ⟨hhome, ?_⟩
    unfold find?
    rw [hhome]
    exact (h.ordered i).find?_eq_some_iff.mpr ⟨he, rfl⟩
  · rintro ⟨rfl, hfound⟩
    exact Shard.mem_of_find? hfound

/-- An eviction takes its victims from the shard of the key that is stored. -/
theorem shardOf_of_mem_displaced (h : c.WellPlaced) (hk : k ∈ c.displaced key now) :
    c.shardOf k = c.shardOf key := by
  obtain ⟨e, he, rfl⟩ := List.mem_map.mp (Shard.mem_keys_of_mem_displaced hk)
  exact h.home _ e.key e.value ⟨e, he, rfl, rfl⟩

theorem of_keeps (h : c.WellPlaced) (hkeeps : c.Keeps d) (hordered : ∀ i, (d.shardAt i).Ordered) :
    d.WellPlaced := by
  refine ⟨?_, hordered, ?_⟩
  · rw [hkeeps.shardCount]
    exact h.shardCount_pos
  · intro i key value hstores
    rw [shardOf_congr hkeeps.shardCount]
    exact h.home i key value (hkeeps.stores i key value hstores)

theorem congr (h : c.WellPlaced) (hshards : d.shards = c.shards) (hepoch : d.epoch = c.epoch) :
    d.WellPlaced := by
  refine h.of_keeps (Keeps.of_eq hshards hepoch) ?_
  intro i
  rw [shardAt_congr hshards]
  exact h.ordered i

theorem look (h : c.WellPlaced) (key : String) (now : UInt64) :
    (c.look key now).2.WellPlaced := by
  refine h.of_keeps (keeps_look c key now) ?_
  intro i
  rw [shardAt_congr (shards_look c key now)]
  exact ordered_setShard h.ordered ((h.ordered _).lookup key now) i

theorem reap (h : c.WellPlaced) (r : ReapRequest) : (c.reap r).WellPlaced := by
  refine h.of_keeps (keeps_reap c r) ?_
  intro i
  rw [shardAt_congr (shards_reap c r)]
  exact ordered_setShard h.ordered ((h.ordered _).removeGeneration _ _) i

theorem scheduleWhile (h : c.WellPlaced) (busy : Bool) (r : ReapRequest) :
    (c.scheduleWhile busy r).WellPlaced := by
  have hdropped : ({ c with counters := c.counters.recordReapDropped } : Cache α).WellPlaced :=
    h.congr rfl rfl
  refine h.of_keeps (keeps_scheduleWhile busy c r) ?_
  unfold Cache.scheduleWhile
  split
  · exact h.ordered
  · cases busy with
    | true => exact ordered_setShard hdropped.ordered (s := (c.shardAt r.shard).mark) (h.ordered _)
    | false => exact (hdropped.reap r).ordered

theorem setIf (h : c.WellPlaced) (key : String) (value : α) (expiresAt now : UInt64)
    (admitted : Bool) : (c.setIf key value expiresAt now admitted).2.WellPlaced := by
  have hshards := shards_setIf c key value expiresAt now admitted
  have hcount := (shardCount_congr hshards).trans (shardCount_setShard c _ _)
  refine ⟨?_, ?_, ?_⟩
  · rw [hcount]
    exact h.shardCount_pos
  · intro i
    rw [shardAt_congr hshards]
    exact ordered_setShard h.ordered ((h.ordered _).insertIf _ _ _ _ _ _) i
  · intro i k v hstores
    rw [shardOf_congr hcount]
    rcases stores_setIf hstores with hold | ⟨-, rfl, rfl, -⟩
    · exact h.home i k v hold
    · rfl

theorem purge (h : c.WellPlaced) (now : Instant) : (c.purge now).2.WellPlaced := by
  refine h.of_keeps (keeps_purge c now) ?_
  intro i
  rw [shardAt_purge]
  exact (h.ordered i).purge now.millis

theorem clear (h : c.WellPlaced) : c.clear.WellPlaced := by
  refine ⟨?_, ?_, ?_⟩
  · rw [shardCount_clear]
    exact h.shardCount_pos
  · intro i
    rw [shardAt_clear]
    exact Shard.Ordered.clear _
  · intro i key value hstores
    unfold Stores at hstores
    rw [shardAt_clear] at hstores
    exact absurd hstores (Shard.not_stores_clear _ key value)

theorem find?_purge (h : c.WellPlaced) (now : Instant) (k : String) :
    (c.purge now).2.find? k = (c.find? k).filter fun e => !e.isExpired now.millis := by
  have hcount : (c.purge now).2.shardCount = c.shardCount := (keeps_purge c now).shardCount
  unfold find?
  rw [shardOf_congr hcount, shardAt_purge]
  exact (h.ordered _).find?_purge now.millis k

end WellPlaced

end ArtifactPlane.Cache
