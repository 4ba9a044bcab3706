import ArtifactPlane.Proofs.Cache.Requests

/-!
The steps that other calls may come between.  A store takes its generation first and settles
later, under the lock of its shard.  Every other step on a shard only thins the cache: what
it leaves was there before.
-/

namespace ArtifactPlane.Cache

variable {α : Type}

/-- A shard that holds nothing new, with its keys in order. -/
structure Shard.Thins (s t : Shard α) : Prop where
  ordered : t.Ordered
  held : ∀ k e', t.find? k = some e' → ∃ e, s.find? k = some e ∧ e'.SameStore e

namespace Shard

variable {s t : Shard α}

theorem Thins.of_entries (h : s.Ordered) (hentries : t.entries = s.entries) : s.Thins t := by
  refine ⟨h.of_sublist (hentries ▸ List.Sublist.refl _), ?_⟩
  intro k e he
  rw [find?_congr hentries] at he
  exact ⟨e, he, Entry.SameStore.refl e⟩

theorem thins_lookup (h : s.Ordered) (key : String) (now : UInt64) :
    s.Thins (s.lookup key now).2 := by
  refine ⟨h.lookup key now, ?_⟩
  intro k e' he
  rw [find?_lookup] at he
  split at he
  · obtain ⟨e, hfound, rfl⟩ := Option.map_eq_some_iff.mp he
    exact ⟨e, hfound, e.sameStore_visit now⟩
  · exact ⟨e', he, Entry.SameStore.refl e'⟩

theorem thins_removeGeneration (h : s.Ordered) (key : String) (generation : UInt64) :
    s.Thins (s.removeGeneration key generation).2 := by
  refine ⟨h.removeGeneration key generation, ?_⟩
  intro k e he
  rw [find?_removeGeneration] at he
  split at he
  · exact ⟨e, (Option.filter_eq_some_iff.mp he).1, Entry.SameStore.refl e⟩
  · exact ⟨e, he, Entry.SameStore.refl e⟩

theorem thins_purge (h : s.Ordered) (now : UInt64) : s.Thins (s.purge now).2 := by
  refine ⟨h.purge now, ?_⟩
  intro k e he
  rw [h.find?_purge] at he
  exact ⟨e, (Option.filter_eq_some_iff.mp he).1, Entry.SameStore.refl e⟩

theorem thins_clear (s : Shard α) : s.Thins s.clear := by
  refine ⟨Ordered.clear s, ?_⟩
  intro k e he
  rw [find?_clear] at he
  simp at he

end Shard

variable {c d : Cache α} {s : Shard α} {i : Nat} {key k : String} {e : Entry α} {now : UInt64}

/-- A cache that holds nothing new, with every entry in its place. -/
structure Thins (c d : Cache α) : Prop where
  keeps : c.Keeps d
  placed : d.WellPlaced
  held : ∀ k e', d.find? k = some e' → ∃ e, c.find? k = some e ∧ e'.SameStore e

theorem Thins.trans {b : Cache α} (hcd : c.Thins d) (hdb : d.Thins b) : c.Thins b := by
  refine ⟨hcd.keeps.trans hdb.keeps, hdb.placed, ?_⟩
  intro k e he
  obtain ⟨e₁, he₁, hsame₁⟩ := hdb.held k e he
  obtain ⟨e₂, he₂, hsame₂⟩ := hcd.held k e₁ he₁
  exact ⟨e₂, he₂, hsame₁.trans hsame₂⟩

theorem Thins.of_eq (h : c.WellPlaced) (hshards : d.shards = c.shards)
    (hepoch : d.epoch = c.epoch) : c.Thins d := by
  refine ⟨Keeps.of_eq hshards hepoch, h.congr hshards hepoch, ?_⟩
  intro k e he
  rw [find?_congr hshards] at he
  exact ⟨e, he, Entry.SameStore.refl e⟩

/-- Beside a thinned shard, only counters and requests for removal may change. -/
theorem Thins.of_setShard (h : c.WellPlaced) (hs : (c.shardAt i).Thins s)
    (hshards : d.shards = (c.setShard i s).shards) (hepoch : d.epoch = c.epoch) : c.Thins d := by
  have hstores : ∀ k v, s.Stores k v → (c.shardAt i).Stores k v := by
    rintro k v ⟨e, hmem, rfl, rfl⟩
    obtain ⟨e₀, he₀, hsame⟩ := hs.held e.key e (hs.ordered.find?_eq_some_iff.mpr ⟨hmem, rfl⟩)
    rw [hsame.value]
    exact Shard.stores_of_find? he₀
  have hkeeps : c.Keeps d := Keeps.of_setShard hstores hshards hepoch
  refine ⟨hkeeps, h.of_keeps hkeeps ?_, ?_⟩
  · intro j
    rw [shardAt_congr hshards]
    exact ordered_setShard h.ordered hs.ordered j
  · intro k e' he
    rw [find?_congr hshards, find?_setShard h.shardCount_pos] at he
    split at he
    · next hshard =>
      unfold find?
      rw [hshard]
      exact hs.held k e' he
    · exact ⟨e', he, Entry.SameStore.refl e'⟩

theorem thins_look (h : c.WellPlaced) (key : String) (now : UInt64) :
    c.Thins (c.look key now).2 :=
  .of_setShard h (Shard.thins_lookup (h.ordered _) key now) (shards_look c key now)
    (keeps_look c key now).epoch

theorem thins_reap (h : c.WellPlaced) (r : ReapRequest) : c.Thins (c.reap r) :=
  .of_setShard h (Shard.thins_removeGeneration (h.ordered _) _ _) (shards_reap c r)
    (keeps_reap c r).epoch

theorem thins_scheduleWhile (h : c.WellPlaced) (busy : Bool) (r : ReapRequest) :
    c.Thins (c.scheduleWhile busy r) := by
  unfold scheduleWhile
  split
  · exact .of_eq h rfl rfl
  · cases busy with
    | true =>
      exact .of_setShard (s := (c.shardAt r.shard).mark) h (.of_entries (h.ordered _) rfl) rfl rfl
    | false =>
      have hdropped : c.Thins { c with counters := c.counters.recordReapDropped } :=
        .of_eq h rfl rfl
      exact hdropped.trans (thins_reap hdropped.placed r)

/-- Drop the expired entries of one shard. -/
def purgeShard (now : UInt64) (c : Cache α) (i : Nat) : Cache α :=
  c.setShard i ((c.shardAt i).purge now).2

theorem thins_purgeShard (h : c.WellPlaced) (now : UInt64) (i : Nat) :
    c.Thins (c.purgeShard now i) :=
  .of_setShard h (Shard.thins_purge (h.ordered i) now) rfl rfl

theorem thins_sweepShard (h : c.WellPlaced) (now : Instant) (i : Nat) :
    c.Thins (c.sweepShard now i) := by
  unfold sweepShard Shard.takeMark
  split
  · next s hmark =>
    obtain rfl := (Prod.mk.inj hmark).2
    have hmarked : (c.shardAt i).Thins { c.shardAt i with sweepPending := false } :=
      .of_entries (h.ordered i) rfl
    have hpurged := Shard.thins_purge hmarked.ordered now.millis
    exact .of_setShard h ⟨hpurged.ordered, hpurged.held⟩ rfl rfl
  · exact .of_eq h rfl rfl

theorem thins_clearShard (h : c.WellPlaced) (i : Nat) : c.Thins (c.clearShard i) :=
  .of_setShard h (Shard.thins_clear _) rfl rfl

/-- Take the generation of a store in the shard of its key. -/
def draw (c : Cache α) (key : String) : UInt64 × Cache α :=
  let drawn := (c.shardAt (c.shardOf key)).takeGeneration
  (drawn.1, c.setShard (c.shardOf key) drawn.2)

/-- Store an entry in the shard of its key if it is admitted, and tell whether it was. -/
def settle (c : Cache α) (e : Entry α) (now : UInt64) (admitted : Bool) : Bool × Cache α :=
  if admitted then
    let stored := (c.shardAt (c.shardOf e.key)).store c.policy now e
    (true, { c.setShard (c.shardOf e.key) stored.2 with
      counters := c.counters.recordInsert stored.1 })
  else (false, c)

theorem thins_draw (h : c.WellPlaced) (key : String) : c.Thins (c.draw key).2 :=
  .of_setShard (s := (c.shardAt (c.shardOf key)).takeGeneration.2) h
    (.of_entries (h.ordered _) rfl) rfl rfl

theorem setShard_setShard (c : Cache α) (i : Nat) (s t : Shard α) :
    (c.setShard i s).setShard i t = c.setShard i t := by
  simp [setShard]

/-- A store that nothing comes between takes its generation and settles. -/
theorem setIf_eq_settle (h : 0 < c.shardCount) (key : String) (value : α)
    (expiresAt now : UInt64) (admitted : Bool) :
    c.setIf key value expiresAt now admitted =
      (c.draw key).2.settle (.fresh key value expiresAt now (c.draw key).1) now admitted := by
  have hshard : (c.draw key).2.shardAt (c.shardOf key) =
      (c.shardAt (c.shardOf key)).takeGeneration.2 :=
    (shardAt_setShard (shardOf_lt h key)).trans (if_pos rfl)
  have hown : (c.draw key).2.shardOf key = c.shardOf key := shardOf_setShard c _ _ key
  cases admitted with
  | false => rfl
  | true =>
    simp only [settle, if_true, Entry.fresh, hown, hshard]
    simp only [draw, setShard_setShard]
    rfl

theorem shards_settle (c : Cache α) (e : Entry α) (now : UInt64) :
    (c.settle e now true).2.shards = (c.setShard (c.shardOf e.key)
      ((c.shardAt (c.shardOf e.key)).store c.policy now e).2).shards := rfl

theorem epoch_settle (c : Cache α) (e : Entry α) (now : UInt64) (admitted : Bool) :
    (c.settle e now admitted).2.epoch = c.epoch := by
  cases admitted <;> rfl

theorem shardCount_settle (c : Cache α) (e : Entry α) (now : UInt64) (admitted : Bool) :
    (c.settle e now admitted).2.shardCount = c.shardCount := by
  cases admitted with
  | false => rfl
  | true => exact shardCount_setShard c _ _

theorem find?_settle (h : 0 < c.shardCount) (e : Entry α) (now : UInt64) (k : String) :
    (c.settle e now true).2.find? k =
      if k = e.key then some e
      else if c.shardOf k = c.shardOf e.key ∧ k ∈ c.displaced e.key now then none
      else c.find? k := by
  rw [find?_congr (shards_settle c e now), find?_setShard h, Shard.find?_store]
  by_cases hshard : c.shardOf k = c.shardOf e.key
  · simp only [hshard, if_true, true_and, find?, displaced]
  · have hk : k ≠ e.key := fun hk => hshard (congrArg _ hk)
    simp only [hshard, hk, if_false, false_and]

theorem WellPlaced.settle (h : c.WellPlaced) (e : Entry α) (now : UInt64) (admitted : Bool) :
    (c.settle e now admitted).2.WellPlaced := by
  cases admitted with
  | false => exact h
  | true =>
    refine ⟨?_, ?_, ?_⟩
    · rw [shardCount_settle]
      exact h.shardCount_pos
    · intro i
      rw [shardAt_congr (shards_settle c e now)]
      exact ordered_setShard h.ordered ((h.ordered _).store _ _ _) i
    · intro i k v hstores
      rw [shardOf_congr (shardCount_settle c e now true)]
      rcases stores_setShard hstores with ⟨rfl, hnew⟩ | ⟨-, hold⟩
      · rcases Shard.stores_store hnew with hold | ⟨rfl, -⟩
        · exact h.home _ k v hold
        · rfl
      · exact h.home i k v hold

/-- A settlement brings one entry, that of its key. -/
theorem held_settle (h : 0 < c.shardCount) {e' : Entry α}
    (he : (c.settle e now true).2.find? k = some e') :
    k = e.key ∧ e' = e ∨ k ≠ e.key ∧ c.find? k = some e' := by
  rw [find?_settle h] at he
  split at he
  · next hk => exact Or.inl ⟨hk, (Option.some.inj he).symm⟩
  · next hk =>
    split at he
    · simp at he
    · exact Or.inr ⟨hk, he⟩

end ArtifactPlane.Cache
