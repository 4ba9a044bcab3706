import ArtifactPlane.Cache.Basic

/-!
What a cache stores.  `Stores` says that a shard holds a value under a key, live or
expired.  A lookup, a removal and a sweep store nothing new; a store of a value adds that
value in the shard of its key, and only if it is admitted; after the clear of a shard
nothing is stored there.
-/

namespace ArtifactPlane.Cache

variable {α : Type}

/-- Whether a lookup found something to serve. -/
def Lookup.isHit : Lookup α → Bool
  | .hit _ => true
  | _ => false

namespace Shard

variable {s : Shard α} {key k : String} {value v : α}

/-- Whether a value is held under a key. -/
def Stores (s : Shard α) (key : String) (value : α) : Prop :=
  ∃ e ∈ s.entries, e.key = key ∧ e.value = value

theorem not_stores_clear (s : Shard α) (key : String) (value : α) :
    ¬ s.clear.Stores key value := by
  rintro ⟨e, hmem, -⟩
  exact absurd hmem List.not_mem_nil

theorem stores_touch {now : UInt64} (h : (s.touch key now).Stores k v) : s.Stores k v := by
  obtain ⟨e, hmem, hkey, hvalue⟩ := h
  obtain ⟨x, hx, rfl⟩ := List.mem_map.mp hmem
  refine ⟨x, hx, ?_⟩
  by_cases hx : x.key = key
  · simpa [hx] using And.intro hkey hvalue
  · simpa [hx] using And.intro hkey hvalue

theorem stores_of_find? {e : Entry α} (h : s.find? key = some e) : s.Stores key e.value := by
  have hkey := List.find?_some h
  exact ⟨e, List.mem_of_find?_eq_some h, by simpa using hkey, rfl⟩

/-- A hit gives a value that is stored. -/
theorem stores_of_hit {now : UInt64} (h : (s.lookup key now).1 = .hit v) : s.Stores key v := by
  unfold lookup at h
  split at h
  · simp at h
  · next e he =>
    split at h
    · simp at h
    · obtain rfl : e.value = v := by simpa using h
      exact stores_of_find? he

theorem stores_lookup {now : UInt64} (h : (s.lookup key now).2.Stores k v) : s.Stores k v := by
  unfold lookup at h
  split at h
  · exact h
  · split at h
    · exact h
    · exact stores_touch h

theorem stores_eraseAll {keys : List String} (h : (s.eraseAll keys).Stores k v) :
    s.Stores k v := by
  obtain ⟨e, hmem, he⟩ := h
  exact ⟨e, (List.mem_filter.mp hmem).1, he⟩

theorem stores_removeGeneration {generation : UInt64}
    (h : (s.removeGeneration key generation).2.Stores k v) : s.Stores k v := by
  unfold removeGeneration at h
  split at h
  · split at h
    · exact stores_eraseAll h
    · exact h
  · exact h

theorem stores_purge {now : UInt64} (h : (s.purge now).2.Stores k v) : s.Stores k v := by
  obtain ⟨e, hmem, he⟩ := h
  exact ⟨e, (List.mem_filter.mp hmem).1, he⟩

theorem mem_place {e x : Entry α} {l : List (Entry α)} (h : x ∈ place e l) : x = e ∨ x ∈ l := by
  induction l with
  | nil => exact Or.inl (List.mem_singleton.mp h)
  | cons y ys ih =>
    unfold place at h
    split at h
    · exact List.mem_cons.mp h
    · split at h
      · rcases List.mem_cons.mp h with rfl | hmem
        · exact Or.inl rfl
        · exact Or.inr (List.mem_cons_of_mem _ hmem)
      · rcases List.mem_cons.mp h with rfl | hmem
        · exact Or.inr List.mem_cons_self
        · rcases ih hmem with rfl | hold
          · exact Or.inl rfl
          · exact Or.inr (List.mem_cons_of_mem _ hold)

theorem stores_store {policy : Policy} {now : UInt64} {e : Entry α}
    (h : (s.store policy now e).2.Stores k v) :
    s.Stores k v ∨ k = e.key ∧ v = e.value := by
  have hplaced : ∀ room : Shard α, (∀ k v, room.Stores k v → s.Stores k v) →
      ({ room with entries := place e room.entries } : Shard α).Stores k v →
      s.Stores k v ∨ k = e.key ∧ v = e.value := by
    rintro room hroom ⟨x, hmem, hkey, hvalue⟩
    rcases mem_place hmem with rfl | hold
    · exact Or.inr ⟨hkey.symm, hvalue.symm⟩
    · exact Or.inl (hroom k v ⟨x, hold, hkey, hvalue⟩)
  by_cases hfull : s.contains e.key = false ∧ s.maxItems ≤ s.size
  · simp only [store, if_pos hfull] at h
    exact hplaced _ (fun _ _ => stores_eraseAll) h
  · simp only [store, if_neg hfull] at h
    exact hplaced s (fun _ _ hs => hs) h

theorem stores_insertIf {policy : Policy} {expiresAt now : UInt64} {admitted : Bool}
    (h : (s.insertIf policy key value expiresAt now admitted).2.Stores k v) :
    s.Stores k v ∨ admitted = true ∧ k = key ∧ v = value := by
  unfold insertIf at h
  cases admitted with
  | false => exact Or.inl h
  | true =>
    rcases stores_store h with hold | hnew
    · exact Or.inl hold
    · exact Or.inr ⟨rfl, hnew⟩

end Shard

variable {c : Cache α} {key k : String} {value v : α} {i j : Nat}

/-- Whether a value is held under a key in a shard. -/
def Stores (c : Cache α) (i : Nat) (key : String) (value : α) : Prop :=
  (c.shardAt i).Stores key value

theorem lt_shardCount_of_stores (h : c.Stores i key value) : i < c.shardCount := by
  apply Nat.lt_of_not_le
  intro hi
  have hdefault : c.shardAt i = default := by
    simp [shardAt, Array.getD_eq_getD_getElem?, Array.getElem?_eq_none hi]
  obtain ⟨e, hmem, -⟩ := h
  rw [hdefault] at hmem
  exact absurd hmem List.not_mem_nil

theorem not_stores_ofConfig (config : Config) (i : Nat) (key : String) (value : α) :
    ¬ (ofConfig config : Cache α).Stores i key value := by
  intro h
  have hi := lt_shardCount_of_stores h
  simp only [shardCount, ofConfig, Array.size_replicate] at hi
  obtain ⟨e, hmem, -⟩ := h
  simp [shardAt, ofConfig, Array.getD_eq_getD_getElem?, hi, Shard.empty] at hmem

@[simp] theorem shardCount_setShard (c : Cache α) (i : Nat) (s : Shard α) :
    (c.setShard i s).shardCount = c.shardCount := Array.size_setIfInBounds

theorem stores_setShard {s : Shard α} (h : (c.setShard i s).Stores j k v) :
    j = i ∧ s.Stores k v ∨ j ≠ i ∧ c.Stores j k v := by
  have hj : j < c.shardCount := by
    rw [← shardCount_setShard c i s]
    exact lt_shardCount_of_stores h
  unfold shardCount at hj
  by_cases hji : j = i
  · subst hji
    refine Or.inl ⟨rfl, ?_⟩
    simpa [Stores, shardAt, setShard, Array.getD_eq_getD_getElem?, hj] using h
  · refine Or.inr ⟨hji, ?_⟩
    simpa [Stores, shardAt, setShard, Array.getD_eq_getD_getElem?, Array.getElem?_setIfInBounds,
      Ne.symm hji] using h

/-- A shard that is replaced by one with nothing new. -/
theorem stores_of_setShard {s : Shard α} (hs : s.Stores k v → (c.shardAt i).Stores k v)
    (h : (c.setShard i s).Stores j k v) : c.Stores j k v := by
  rcases stores_setShard h with ⟨rfl, hnew⟩ | ⟨-, hold⟩
  · exact hs hnew
  · exact hold

/-- A cache that stores nothing new: every shard holds at most what it held, and neither
the shards nor the epoch change. -/
structure Keeps (c d : Cache α) : Prop where
  stores : ∀ i key value, d.Stores i key value → c.Stores i key value
  shardCount : d.shardCount = c.shardCount
  epoch : d.epoch = c.epoch

theorem Keeps.of_eq {d : Cache α} (hshards : d.shards = c.shards) (hepoch : d.epoch = c.epoch) :
    c.Keeps d := by
  refine ⟨fun i key value h => ?_, congrArg Array.size hshards, hepoch⟩
  simpa only [Stores, shardAt, hshards] using h

/-- Beside a shard, only counters and requests for removal may change. -/
theorem Keeps.of_setShard {d : Cache α} {s : Shard α}
    (hs : ∀ k v, s.Stores k v → (c.shardAt i).Stores k v)
    (hshards : d.shards = (c.setShard i s).shards) (hepoch : d.epoch = c.epoch) : c.Keeps d := by
  refine ⟨fun j key value h => ?_, ?_, hepoch⟩
  · have hset : (c.setShard i s).Stores j key value := by
      simpa only [Stores, shardAt, hshards] using h
    exact stores_of_setShard (hs key value) hset
  · exact (congrArg Array.size hshards).trans (shardCount_setShard c i s)

theorem keeps_look (c : Cache α) (key : String) (now : UInt64) : c.Keeps (c.look key now).2 := by
  have hs : ∀ k v, ((c.shardAt (c.shardOf key)).lookup key now).2.Stores k v →
      (c.shardAt (c.shardOf key)).Stores k v := fun k v h => Shard.stores_lookup h
  unfold look
  dsimp only
  generalize (c.shardAt (c.shardOf key)).lookup key now = found at hs
  rcases found with ⟨found, s⟩
  cases found with
  | hit v => exact Keeps.of_setShard hs rfl rfl
  | expired generation => exact Keeps.of_eq rfl rfl
  | miss => exact Keeps.of_eq rfl rfl

theorem stores_of_hit {now : UInt64} (h : (c.look key now).1 = .hit v) :
    c.Stores (c.shardOf key) key v := by
  have hshard : ((c.shardAt (c.shardOf key)).lookup key now).1 = .hit v := by
    unfold look at h
    dsimp only at h
    generalize (c.shardAt (c.shardOf key)).lookup key now = found at h ⊢
    rcases found with ⟨found, s⟩
    cases found with
    | hit w => exact h
    | expired generation => simp at h
    | miss => simp at h
  exact Shard.stores_of_hit hshard

theorem keeps_reap (c : Cache α) (r : ReapRequest) : c.Keeps (c.reap r) := by
  have hs : ∀ k v, ((c.shardAt r.shard).removeGeneration r.key r.generation).2.Stores k v →
      (c.shardAt r.shard).Stores k v := fun k v h => Shard.stores_removeGeneration h
  unfold reap
  generalize (c.shardAt r.shard).removeGeneration r.key r.generation = removed at hs
  rcases removed with ⟨removed, s⟩
  cases removed with
  | true => exact Keeps.of_setShard hs rfl rfl
  | false => exact Keeps.of_eq rfl rfl

theorem Keeps.trans {d e : Cache α} (hd : c.Keeps d) (he : d.Keeps e) : c.Keeps e :=
  ⟨fun i key value h => hd.stores i key value (he.stores i key value h),
    he.shardCount.trans hd.shardCount, he.epoch.trans hd.epoch⟩

theorem keeps_scheduleWhile (busy : Bool) (c : Cache α) (r : ReapRequest) :
    c.Keeps (c.scheduleWhile busy r) := by
  unfold scheduleWhile
  split
  · exact Keeps.of_eq rfl rfl
  · have hdropped : c.Keeps { c with counters := c.counters.recordReapDropped } :=
      Keeps.of_eq rfl rfl
    cases busy with
    | true => exact Keeps.of_setShard (s := (c.shardAt r.shard).mark) (fun _ _ h => h) rfl rfl
    | false => exact hdropped.trans (keeps_reap _ r)

theorem keeps_reapNext (c : Cache α) : c.Keeps c.reapNext := by
  unfold reapNext
  split
  · exact Keeps.of_eq rfl rfl
  · next r rest hqueue =>
    have hpopped : c.Keeps { c with queue := rest } := Keeps.of_eq rfl rfl
    exact hpopped.trans (keeps_reap _ r)

theorem keeps_sweepShard (now : Instant) (c : Cache α) (i : Nat) :
    c.Keeps (c.sweepShard now i) := by
  have hs : ∀ k v, ((c.shardAt i).takeMark.2.purge now.millis).2.Stores k v →
      (c.shardAt i).Stores k v := fun _ _ h => Shard.stores_purge (s := (c.shardAt i).takeMark.2) h
  unfold sweepShard
  unfold Shard.takeMark at hs ⊢
  cases (c.shardAt i).sweepPending with
  | true => exact Keeps.of_setShard hs rfl rfl
  | false => exact Keeps.of_eq rfl rfl

/-- A stored value is the only new one, and it goes to the shard of its key. -/
theorem stores_setIf {expiresAt now : UInt64} {admitted : Bool}
    (h : (c.setIf key value expiresAt now admitted).2.Stores j k v) :
    c.Stores j k v ∨ admitted = true ∧ j = c.shardOf key ∧ k = key ∧ v = value := by
  have hs : ∀ k v, ((c.shardAt (c.shardOf key)).insertIf c.policy key value expiresAt now
      admitted).2.Stores k v → _ := fun k v h => Shard.stores_insertIf h
  unfold setIf at h
  dsimp only at h
  generalize (c.shardAt (c.shardOf key)).insertIf c.policy key value expiresAt now admitted =
    inserted at h hs
  rcases inserted with ⟨evicted, s⟩
  have hshard : (c.setShard (c.shardOf key) s).Stores j k v := by
    cases evicted <;> exact h
  rcases stores_setShard hshard with ⟨rfl, hnew⟩ | ⟨-, hold⟩
  · rcases hs k v hnew with hold | ⟨hadmitted, hpair⟩
    · exact Or.inl hold
    · exact Or.inr ⟨hadmitted, rfl, hpair⟩
  · exact Or.inl hold

/-- What a store tells is whether the value was admitted. -/
theorem setIf_fst (c : Cache α) (key : String) (value : α) (expiresAt now : UInt64)
    (admitted : Bool) : (c.setIf key value expiresAt now admitted).1 = admitted := by
  unfold setIf Shard.insertIf
  cases admitted <;> rfl

theorem epoch_setIf (c : Cache α) (key : String) (value : α) (expiresAt now : UInt64)
    (admitted : Bool) : (c.setIf key value expiresAt now admitted).2.epoch = c.epoch := by
  unfold setIf
  dsimp only
  split <;> rfl

theorem stores_clearShard (h : (c.clearShard i).Stores j k v) : j ≠ i ∧ c.Stores j k v := by
  rcases stores_setShard h with ⟨-, hnew⟩ | hold
  · exact absurd hnew (Shard.not_stores_clear _ k v)
  · exact hold

end ArtifactPlane.Cache
