import Mathlib.Data.List.Nodup
import ArtifactPlane.Proofs.Cache.History
import ArtifactPlane.Proofs.Cache.Interleaving

/-!
What a cache of a configuration looks like at all times.  Every shard keeps to its room and
the shards together to the capacity, each entry stands in the shard of its key, and no key is
held twice.

Only a store can make a shard grow.  A new key that meets a full shard makes an eviction pass
first, and such a pass always has a victim that is held, whatever the policy.
-/

namespace ArtifactPlane.Cache

variable {α : Type}

namespace Shard

variable {s t u : Shard α} {policy : Policy} {now : UInt64} {n : Nat}

/-- The same room, and no more entries than before. -/
structure Narrows (s t : Shard α) : Prop where
  maxItems : t.maxItems = s.maxItems
  size : t.size ≤ s.size

theorem Narrows.refl (s : Shard α) : s.Narrows s := ⟨rfl, Nat.le_refl _⟩

theorem Narrows.trans (hst : s.Narrows t) (htu : t.Narrows u) : s.Narrows u :=
  ⟨htu.maxItems.trans hst.maxItems, Nat.le_trans htu.size hst.size⟩

theorem Narrows.of_sublist (hroom : t.maxItems = s.maxItems)
    (hsub : t.entries.Sublist s.entries) : s.Narrows t :=
  ⟨hroom, hsub.length_le⟩

theorem narrows_eraseAll (s : Shard α) (keys : List String) : s.Narrows (s.eraseAll keys) :=
  .of_sublist rfl List.filter_sublist

theorem narrows_purge (s : Shard α) (now : UInt64) : s.Narrows (s.purge now).2 :=
  .of_sublist rfl List.filter_sublist

theorem narrows_clear (s : Shard α) : s.Narrows s.clear := .of_sublist rfl (List.nil_sublist _)

theorem narrows_lookup (s : Shard α) (key : String) (now : UInt64) :
    s.Narrows (s.lookup key now).2 := by
  rw [lookup]
  cases s.find? key with
  | none => exact .refl s
  | some e =>
    by_cases hexpired : e.isExpired now = true
    · simpa [hexpired] using Narrows.refl s
    · have htouch : s.Narrows (s.touch key now) := ⟨rfl, Nat.le_of_eq (List.length_map _)⟩
      simpa [hexpired] using htouch

theorem narrows_removeGeneration (s : Shard α) (key : String) (generation : UInt64) :
    s.Narrows (s.removeGeneration key generation).2 := by
  rw [removeGeneration]
  cases s.find? key with
  | none => exact .refl s
  | some e =>
    by_cases hsame : e.generation = generation
    · simpa [hsame] using narrows_eraseAll s [key]
    · simpa [hsame] using Narrows.refl s

theorem leastWorth?_ne_none {l : List (Entry α)} (h : l ≠ []) : leastWorth? l ≠ none := by
  cases l with
  | nil => exact absurd rfl h
  | cons e es =>
    rw [leastWorth?]
    cases leastWorth? es with
    | none => simp
    | some m =>
      dsimp only
      split <;> simp

/-- An eviction pass over a shard with entries removes one at least: with no candidate the
one that is worth least, and with some at least the first. -/
theorem victims_ne_nil (h : s.entries ≠ []) (policy : Policy) (now : UInt64) :
    s.victims policy now ≠ [] := by
  rw [victims]
  cases s.candidates policy now with
  | nil =>
    obtain ⟨m, hm⟩ := Option.ne_none_iff_exists'.mp (leastWorth?_ne_none h)
    simp [hm]
  | cons e es =>
    have hlimit : policy.batchLimit s.size ≠ 0 :=
      Nat.ne_of_gt (policy.one_le_batchLimit s.size)
    simp [hlimit]

theorem size_eraseAll_lt {k : String} {keys : List String} (hk : k ∈ keys) (hheld : k ∈ s.keys) :
    (s.eraseAll keys).size < s.size := by
  obtain ⟨e, he, rfl⟩ := List.mem_map.mp hheld
  apply List.length_filter_lt_length_iff_exists.mpr
  exact ⟨e, he, by simp [hk]⟩

/-- A new key finds room for one entry after the eviction pass that it makes. -/
theorem size_displaced_lt {key : String} (hnew : s.contains key = false)
    (hpos : 0 < s.maxItems) (hsize : s.size ≤ s.maxItems) (policy : Policy) (now : UInt64) :
    (s.eraseAll (s.displaced policy now key)).size < s.maxItems := by
  rw [displaced]
  by_cases hfull : s.maxItems ≤ s.size
  · rw [if_pos ⟨hnew, hfull⟩]
    have hne : s.entries ≠ [] := List.ne_nil_of_length_pos (Nat.lt_of_lt_of_le hpos hfull)
    obtain ⟨k, ks, hvictims⟩ := List.exists_cons_of_ne_nil (victims_ne_nil hne policy now)
    have hk : k ∈ s.victims policy now := by
      rw [hvictims]
      exact List.mem_cons_self
    exact Nat.lt_of_lt_of_le (size_eraseAll_lt hk (mem_keys_of_mem_victims hk)) hsize
  · rw [if_neg fun h => hfull h.2, eraseAll_nil]
    exact Nat.lt_of_not_le hfull

theorem length_place_le (e : Entry α) (l : List (Entry α)) :
    (place e l).length ≤ l.length + 1 := by
  induction l with
  | nil => simp [place]
  | cons x xs ih =>
    rw [place]
    split
    · simp
    · split
      · simp
      · simpa using ih

/-- An entry whose key is held takes the place of the one that holds it. -/
theorem length_place_of_mem {e : Entry α} {l : List (Entry α)}
    (hordered : (l.map (·.key)).Pairwise (· < ·)) (hmem : e.key ∈ l.map (·.key)) :
    (place e l).length = l.length := by
  induction l with
  | nil => simp at hmem
  | cons x xs ih =>
    obtain ⟨hx, hxs⟩ := List.pairwise_cons.mp hordered
    rw [place]
    rcases List.mem_cons.mp hmem with heq | hrest
    · have hnot : ¬ e.key < x.key := fun h => String.lt_irrefl _ (heq ▸ h)
      rw [if_neg hnot, if_pos heq, List.length_cons, List.length_cons]
    · have hlt : x.key < e.key := hx e.key hrest
      have hnot : ¬ e.key < x.key := fun h => String.lt_irrefl _ (String.lt_trans h hlt)
      have hne : e.key ≠ x.key := fun h => String.lt_irrefl _ (h ▸ hlt)
      simp [hnot, hne, ih hxs hrest]

/-- Room for `n` entries, and no more of them. -/
structure Fits (n : Nat) (s : Shard α) : Prop where
  maxItems : s.maxItems = n
  size : s.size ≤ n

theorem fits_empty (hn : 0 < n) : (empty n : Shard α).Fits n :=
  ⟨Nat.max_eq_left hn, Nat.zero_le n⟩

theorem Fits.of_narrows (h : s.Fits n) (hst : s.Narrows t) : t.Fits n :=
  ⟨hst.maxItems.trans h.maxItems, Nat.le_trans hst.size h.size⟩

/-- A store keeps to the room of its shard. -/
theorem Fits.store (h : s.Fits n) (hordered : s.Ordered) (hn : 0 < n) (policy : Policy)
    (now : UInt64) (e : Entry α) : (s.store policy now e).2.Fits n := by
  obtain ⟨rfl, hsize⟩ := h
  rw [store_eq]
  refine ⟨rfl, ?_⟩
  cases hheld : s.contains e.key with
  | true =>
    obtain ⟨x, hx⟩ := Option.isSome_iff_exists.mp hheld
    have hmem : e.key ∈ s.keys := List.mem_map.mpr ⟨x, mem_of_find? hx, key_of_find? hx⟩
    have hnone : s.displaced policy now e.key = [] := if_neg (by simp [hheld])
    rw [hnone, eraseAll_nil]
    exact Nat.le_trans (Nat.le_of_eq (length_place_of_mem hordered hmem)) hsize
  | false =>
    have hroom := size_displaced_lt hheld hn hsize policy now
    exact Nat.le_trans (length_place_le e _) hroom

end Shard

variable {c d b : Cache α} {s : Shard α} {i : Nat} {config : Config}

/-- No shard has more entries than before. -/
def Narrows (c d : Cache α) : Prop := ∀ i, (c.shardAt i).Narrows (d.shardAt i)

theorem Narrows.trans (hcd : c.Narrows d) (hdb : d.Narrows b) : c.Narrows b :=
  fun i => (hcd i).trans (hdb i)

theorem Narrows.of_eq (h : d.shards = c.shards) : c.Narrows d := by
  intro i
  rw [shardAt_congr h]
  exact .refl _

theorem Narrows.of_setShard (hs : (c.shardAt i).Narrows s)
    (hshards : d.shards = (c.setShard i s).shards) : c.Narrows d := by
  intro j
  rw [shardAt_congr hshards]
  by_cases hj : j < c.shardCount
  · rw [shardAt_setShard hj]
    split
    · next hji => rwa [hji]
    · exact .refl _
  · have hle : c.shardCount ≤ j := Nat.le_of_not_lt hj
    rw [shardAt_of_le hle, shardAt_of_le (by rwa [shardCount_setShard])]
    exact .refl _

theorem narrows_look (c : Cache α) (key : String) (now : UInt64) : c.Narrows (c.look key now).2 :=
  .of_setShard (Shard.narrows_lookup _ key now) (shards_look c key now)

theorem narrows_reap (c : Cache α) (r : ReapRequest) : c.Narrows (c.reap r) :=
  .of_setShard (Shard.narrows_removeGeneration _ _ _) (shards_reap c r)

theorem narrows_scheduleWhile (busy : Bool) (c : Cache α) (r : ReapRequest) :
    c.Narrows (c.scheduleWhile busy r) := by
  have hdropped : c.Narrows { c with counters := c.counters.recordReapDropped } := .of_eq rfl
  rw [scheduleWhile]
  by_cases hroom : c.queue.length < c.queueLimit
  · rw [if_pos hroom]
    exact .of_eq rfl
  · rw [if_neg hroom]
    cases busy with
    | true => exact .of_setShard (s := (c.shardAt r.shard).mark) ⟨rfl, Nat.le_refl _⟩ rfl
    | false => exact hdropped.trans (narrows_reap _ r)

theorem narrows_get (c : Cache α) (key : String) (now : UInt64) : c.Narrows (c.get key now).2 := by
  cases hrequest : c.staleRequest? key now with
  | none =>
    rw [get_snd_of_no_request hrequest]
    exact narrows_look c key now
  | some r =>
    rw [get_snd_of_request hrequest]
    exact (narrows_look c key now).trans (narrows_scheduleWhile false _ r)

theorem narrows_reapAt (c : Cache α) (n : Nat) : c.Narrows (c.reapAt n) := by
  rw [reapAt]
  cases c.queue[n]? with
  | none => exact .of_eq rfl
  | some r =>
    have hpopped : c.Narrows { c with queue := c.queue.eraseIdx n } := .of_eq rfl
    exact hpopped.trans (narrows_reap _ r)

theorem narrows_purge (c : Cache α) (now : Instant) : c.Narrows (c.purge now).2 := by
  intro i
  rw [shardAt_purge]
  exact Shard.narrows_purge _ _

theorem narrows_clear (c : Cache α) : c.Narrows c.clear := by
  intro i
  rw [shardAt_clear]
  exact Shard.narrows_clear _

theorem narrows_draw (c : Cache α) (key : String) : c.Narrows (c.draw key).2 :=
  .of_setShard (s := (c.shardAt (c.shardOf key)).takeGeneration.2) ⟨rfl, Nat.le_refl _⟩ rfl

theorem narrows_purgeShard (now : UInt64) (c : Cache α) (i : Nat) :
    c.Narrows (c.purgeShard now i) :=
  .of_setShard (Shard.narrows_purge _ now) rfl

theorem narrows_clearShard (c : Cache α) (i : Nat) : c.Narrows (c.clearShard i) :=
  .of_setShard (Shard.narrows_clear _) rfl

theorem narrows_sweepShard (now : Instant) (c : Cache α) (i : Nat) :
    c.Narrows (c.sweepShard now i) := by
  have hunmarked : (c.shardAt i).Narrows (c.shardAt i).takeMark.2 := ⟨rfl, Nat.le_refl _⟩
  rw [sweepShard, Shard.takeMark]
  cases (c.shardAt i).sweepPending with
  | true => exact .of_setShard (hunmarked.trans (Shard.narrows_purge _ now.millis)) rfl
  | false => exact .of_eq rfl

/-- The room of each shard of a configuration. -/
def Config.room (config : Config) : Nat := max config.capacity 1 / config.effectiveShards

theorem Config.effectiveShards_pos (config : Config) : 0 < config.effectiveShards := by
  rw [effectiveShards]
  omega

theorem Config.effectiveShards_le (config : Config) :
    config.effectiveShards ≤ max config.capacity 1 := Nat.min_le_right _ _

theorem Config.room_pos (config : Config) : 0 < config.room :=
  Nat.div_pos config.effectiveShards_le config.effectiveShards_pos

/-- Every entry in its place, in as many shards as the configuration says, and each shard
within its room. -/
structure Roomy (config : Config) (c : Cache α) : Prop where
  placed : c.WellPlaced
  count : c.shardCount = config.effectiveShards
  fits : ∀ i, i < c.shardCount → (c.shardAt i).Fits config.room

namespace Roomy

theorem ofConfig (config : Config) : Roomy config (Cache.ofConfig config : Cache α) := by
  refine ⟨WellPlaced.ofConfig config, Array.size_replicate, ?_⟩
  intro i hi
  have hi : i < config.effectiveShards := by simpa [shardCount, Cache.ofConfig] using hi
  have hempty : (Cache.ofConfig config : Cache α).shardAt i = Shard.empty config.room := by
    simp [shardAt, Cache.ofConfig, Array.getD_eq_getD_getElem?, hi, Config.room]
  rw [hempty]
  exact Shard.fits_empty config.room_pos

theorem of_narrows (h : Roomy config c) (hplaced : d.WellPlaced)
    (hcount : d.shardCount = c.shardCount) (hnarrows : c.Narrows d) : Roomy config d := by
  refine ⟨hplaced, hcount.trans h.count, ?_⟩
  intro i hi
  exact (h.fits i (hcount ▸ hi)).of_narrows (hnarrows i)

theorem of_thins (h : Roomy config c) (hthins : c.Thins d) (hnarrows : c.Narrows d) :
    Roomy config d :=
  h.of_narrows hthins.placed hthins.keeps.shardCount hnarrows

theorem congr (h : Roomy config c) (hshards : d.shards = c.shards) (hplaced : d.WellPlaced) :
    Roomy config d :=
  h.of_narrows hplaced (shardCount_congr hshards) (.of_eq hshards)

/-- A store makes one shard grow, and that one has made room. -/
theorem settle (h : Roomy config c) (e : Entry α) (now : UInt64) (admitted : Bool) :
    Roomy config (c.settle e now admitted).2 := by
  refine ⟨h.placed.settle e now admitted, (shardCount_settle c e now admitted).trans h.count, ?_⟩
  intro i hi
  rw [shardCount_settle] at hi
  cases admitted with
  | false => exact h.fits i hi
  | true =>
    rw [shardAt_congr (shards_settle c e now), shardAt_setShard hi]
    split
    · next hown =>
      subst hown
      exact (h.fits _ hi).store (h.placed.ordered _) config.room_pos c.policy now e
    · exact h.fits i hi

theorem setIf (h : Roomy config c) (key : String) (value : α) (expiresAt now : UInt64)
    (admitted : Bool) : Roomy config (c.setIf key value expiresAt now admitted).2 := by
  rw [setIf_eq_settle h.placed.shardCount_pos]
  exact (h.of_thins (thins_draw h.placed key) (narrows_draw c key)).settle _ now admitted

theorem apply (h : Roomy config c) (op : Op α) : Roomy config (op.apply c) := by
  have hplaced := Op.wellPlaced_apply h.placed op
  have hcount := Op.shardCount_apply c op
  cases op with
  | store st =>
    rw [Op.apply, Store.apply_eq]
    split
    · exact h.setIf _ _ _ _ _
    · exact h
  | get key now => exact h.of_narrows hplaced hcount (narrows_get c key now)
  | purge now => exact h.of_narrows hplaced hcount (narrows_purge c now)
  | clear => exact h.of_narrows hplaced hcount (narrows_clear c)
  | reap n => exact h.of_narrows hplaced hcount (narrows_reapAt c n)

theorem foldl_apply (h : Roomy config c) (ops : List (Op α)) :
    Roomy config (ops.foldl Op.apply c) :=
  List.foldlRecOn ops _ h fun _ h op _ => h.apply op

/-- Between the steps of calls that run at once the invariant holds as well. -/
theorem fence_step {s : Fence α} (h : Roomy config s.cache) (a : Fence.Action α) :
    Roomy config (s.step a).cache := by
  cases a with
  | read i =>
    rw [Fence.step]
    split <;> exact h
  | enter j reading key value expiresAt now =>
    rw [Fence.step]
    split
    · exact h.of_thins (thins_draw h.placed key) (narrows_draw s.cache key)
    · exact h
  | check j =>
    rw [Fence.step]
    split
    · split <;> exact h
    · exact h
  | insert i =>
    rw [Fence.step]
    split
    · exact h.settle _ _ true
    · exact h
  | look key now => exact h.of_thins (thins_look h.placed key now) (narrows_look s.cache key now)
  | request busy r =>
    exact h.of_thins (thins_scheduleWhile h.placed busy r) (narrows_scheduleWhile busy s.cache r)
  | reap r => exact h.of_thins (thins_reap h.placed r) (narrows_reap s.cache r)
  | purge now i =>
    exact h.of_thins (thins_purgeShard h.placed now i) (narrows_purgeShard now s.cache i)
  | sweep now i =>
    exact h.of_thins (thins_sweepShard h.placed now i) (narrows_sweepShard now s.cache i)
  | bump r =>
    rw [Fence.step]
    split
    · exact ⟨⟨h.placed.shardCount_pos, h.placed.ordered, h.placed.home⟩, h.count, h.fits⟩
    · exact h
  | empty r =>
    rw [Fence.step]
    split
    · next bumped next hclear =>
      split
      · split
        · exact h.of_thins (thins_clearShard h.placed next) (narrows_clearShard s.cache next)
        · exact h
      · exact h.congr rfl (h.placed.congr rfl rfl)
    · exact h

theorem fence_run (config : Config) (actions : List (Fence.Action α)) :
    Roomy config (Fence.run config actions).cache :=
  List.foldlRecOn (motive := fun s : Fence α => Roomy config s.cache) actions _ (ofConfig config)
    fun _ h a _ => h.fence_step a

end Roomy

/-- The keys of all shards, shard by shard. -/
def keys (c : Cache α) : List String := c.shards.toList.flatMap Shard.keys

/-- What a caller of a cache of a configuration can rely on. -/
structure Compact (config : Config) (c : Cache α) : Prop where
  shardCount : 1 ≤ c.shardCount ∧ c.shardCount ≤ max config.capacity 1
  room : ∀ s ∈ c.shards, 1 ≤ s.maxItems ∧ s.size ≤ s.maxItems
  capacity : c.size ≤ max config.capacity 1
  home : ∀ i, ∀ e ∈ (c.shardAt i).entries, c.shardOf e.key = i ∧ c.find? e.key = some e
  distinct : c.keys.Nodup

theorem shardAt_eq_getElem (h : i < c.shards.size) : c.shardAt i = c.shards[i] := by
  simp [shardAt, Array.getD_eq_getD_getElem?, h]

namespace Roomy

variable (h : Roomy config c)

include h

theorem size_le : c.size ≤ max config.capacity 1 := by
  have hsum : ∀ l : List (Shard α), (∀ s ∈ l, s.size ≤ config.room) →
      (l.map (·.size)).foldr (· + ·) 0 ≤ l.length * config.room := by
    intro l hl
    induction l with
    | nil => simp
    | cons s l ih =>
      have hs := hl s List.mem_cons_self
      have hrest := ih fun t ht => hl t (List.mem_cons_of_mem s ht)
      rw [List.map_cons, List.foldr_cons, List.length_cons, Nat.succ_mul]
      omega
  have hsize : ∀ s ∈ c.shards.toList, s.size ≤ config.room := by
    intro s hs
    obtain ⟨i, hi, rfl⟩ := List.mem_iff_getElem.mp hs
    rw [Array.length_toList] at hi
    rw [Array.getElem_toList, ← shardAt_eq_getElem]
    exact (h.fits i hi).size
  have hlength : c.shards.toList.length = config.effectiveShards := by
    rw [Array.length_toList]
    exact h.count
  calc c.size ≤ c.shards.toList.length * config.room := hsum _ hsize
    _ = config.effectiveShards * config.room := by rw [hlength]
    _ ≤ max config.capacity 1 := Nat.mul_div_le _ _

/-- Keys ascend within a shard, and those of two shards are sent to different shards. -/
theorem nodup_keys : c.keys.Nodup := by
  have hshard : ∀ i (hi : i < c.shards.toList.length), c.shards.toList[i] = c.shardAt i := by
    intro i hi
    rw [Array.length_toList] at hi
    rw [Array.getElem_toList, shardAt_eq_getElem]
  have hown : ∀ i k, k ∈ (c.shardAt i).keys → c.shardOf k = i := by
    intro i k hk
    obtain ⟨e, he, rfl⟩ := List.mem_map.mp hk
    exact (h.placed.mem_entries_iff.mp he).1
  refine List.nodup_flatMap.mpr ⟨?_, List.pairwise_iff_getElem.mpr ?_⟩
  · intro s hs
    obtain ⟨i, hi, rfl⟩ := List.mem_iff_getElem.mp hs
    rw [hshard]
    refine List.Pairwise.imp ?_ (h.placed.ordered i)
    rintro a b hlt rfl
    exact String.lt_irrefl a hlt
  · intro i j hi hj hij k hki hkj
    rw [hshard] at hki hkj
    have := (hown i k hki).symm.trans (hown j k hkj)
    omega

theorem compact : Compact config c where
  shardCount := by
    rw [h.count]
    exact ⟨config.effectiveShards_pos, config.effectiveShards_le⟩
  room := by
    intro s hs
    obtain ⟨i, hi, rfl⟩ := Array.mem_iff_getElem.mp hs
    obtain ⟨hroom, hsize⟩ := h.fits i hi
    rw [← shardAt_eq_getElem, hroom]
    exact ⟨config.room_pos, hsize⟩
  capacity := h.size_le
  home := fun _ _ he => h.placed.mem_entries_iff.mp he
  distinct := h.nodup_keys

end Roomy

/-- A cache stays compact, whatever its configuration: after any calls one after the other,
and between any steps of calls and removals that run at once. -/
theorem compact_always (config : Config) :
    (∀ ops : List (Op α), Compact config (ops.foldl Op.apply (ofConfig config))) ∧
      ∀ actions : List (Fence.Action α), Compact config (Fence.run config actions).cache :=
  ⟨fun ops => ((Roomy.ofConfig config).foldl_apply ops).compact,
    fun actions => (Roomy.fence_run config actions).compact⟩

end ArtifactPlane.Cache
