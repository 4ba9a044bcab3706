import ArtifactPlane.Proofs.Cache.Capacity
import ArtifactPlane.Proofs.Cache.Upkeep

/-!
A shard by itself, and what it is asked to do.  A cell is one shard with the epoch and the
policy that it reads.  All that happens to a cache comes down to deeds, and each deed is done
in the shard of its key, in the shard that it names, or in every shard.
-/

namespace ArtifactPlane.Cache

variable {α : Type}

deriving instance DecidableEq for Store, Op, Act

/-- The key that a store is for. -/
def Store.key : Store α → String
  | .set key _ _ _ => key
  | .setWithTtl key _ _ _ _ => key
  | .setUnlessCleared key _ _ _ _ _ => key

/-- What a store brings to the shard at an epoch. -/
def Store.attemptAt? (epoch : UInt64) : Store α → Option (Attempt α)
  | .set key value expiresAt now => some ⟨key, value, expiresAt.millis, now.millis, true⟩
  | .setWithTtl key value ttl now later =>
    (now.add? ttl).map fun expiresAt => ⟨key, value, expiresAt.millis, later.millis, true⟩
  | .setUnlessCleared key value ttl read now later =>
    (now.add? ttl).map fun expiresAt =>
      ⟨key, value, expiresAt.millis, later.millis, epoch == read⟩

/-- Of a cache, a store reads the epoch only. -/
theorem Store.attempt?_eq (c : Cache α) (s : Store α) : s.attempt? c = s.attemptAt? c.epoch := by
  cases s <;> rfl

theorem Store.key_of_attemptAt? {s : Store α} {epoch : UInt64} {a : Attempt α}
    (h : s.attemptAt? epoch = some a) : a.key = s.key := by
  cases s with
  | set key value expiresAt now =>
    obtain rfl := Option.some.inj h
    rfl
  | setWithTtl key value ttl now later =>
    obtain ⟨expiresAt, -, rfl⟩ := Option.map_eq_some_iff.mp h
    rfl
  | setUnlessCleared key value ttl read now later =>
    obtain ⟨expiresAt, -, rfl⟩ := Option.map_eq_some_iff.mp h
    rfl

/-- What a shard is asked to do. -/
inductive Deed (α : Type) where
  | store (s : Store α)
  | look (key : String) (now : UInt64)
  /-- Carry out a request, from the queue or on the spot. -/
  | remove (key : String) (generation : UInt64)
  /-- Mark the shard of a key for a sweep. -/
  | mark (key : String)
  | sweep (now : Instant) (i : Nat)
  | purge (now : Instant)
  | clear
deriving DecidableEq

/-- Whether a deed is done in a shard, when there are `count` of them. -/
def Deed.concerns (count i : Nat) : Deed α → Bool
  | store s => Hash.shard s.key count == i
  | look key _ => Hash.shard key count == i
  | remove key _ => Hash.shard key count == i
  | mark key => Hash.shard key count == i
  | sweep _ j => j == i
  | purge _ => true
  | clear => true

/-- The value of a hit. -/
def Lookup.value? : Lookup α → Option α
  | .hit v => some v
  | _ => none

/-- One shard, with what it reads of the cache. -/
structure Cell (α : Type) where
  shard : Shard α
  epoch : UInt64
  policy : Policy

namespace Cell

/-- A shard of a configuration, before anything has happened. -/
def start (config : Config) : Cell α := ⟨Shard.empty config.room, 0, config.policy⟩

def perform (cell : Cell α) : Deed α → Cell α
  | .store s => match s.attemptAt? cell.epoch with
    | some a => { cell with
        shard := (cell.shard.insertIf cell.policy a.key a.value a.expiresAt a.now a.admitted).2 }
    | none => cell
  | .look key now => { cell with shard := (cell.shard.lookup key now).2 }
  | .remove key generation =>
    { cell with shard := (cell.shard.removeGeneration key generation).2 }
  | .mark _ => { cell with shard := cell.shard.mark }
  | .sweep now _ =>
    if cell.shard.sweepPending then
      { cell with shard := (cell.shard.takeMark.2.purge now.millis).2 }
    else cell
  | .purge now => { cell with shard := (cell.shard.purge now.millis).2 }
  | .clear => { cell with shard := cell.shard.clear, epoch := cell.epoch + 1 }

end Cell

variable {c d : Cache α} {i : Nat} {key : String} {now : UInt64}

def cell (c : Cache α) (i : Nat) : Cell α := ⟨c.shardAt i, c.epoch, c.policy⟩

theorem cell_ofConfig (config : Config) (h : i < config.effectiveShards) :
    (ofConfig config : Cache α).cell i = Cell.start config := by
  have hempty : (ofConfig config : Cache α).shardAt i = Shard.empty config.room := by
    simp [shardAt, ofConfig, Array.getD_eq_getD_getElem?, h, Config.room]
  rw [cell, hempty]
  rfl

/-- One cache has become another, and each of its shards has done a deed if it concerns it. -/
def Follows (c : Cache α) (deed : Deed α) (d : Cache α) : Prop :=
  ∀ i, i < c.shardCount →
    d.cell i = if deed.concerns c.shardCount i then (c.cell i).perform deed else c.cell i

/-- A deed that one shard does is done by no other. -/
theorem Follows.of_setShard {deed : Deed α} {s : Shard α}
    (hconcerns : ∀ j, deed.concerns c.shardCount j = (i == j))
    (hshard : (c.cell i).perform deed = ⟨s, c.epoch, c.policy⟩)
    (hshards : d.shards = (c.setShard i s).shards) (hepoch : d.epoch = c.epoch)
    (hpolicy : d.policy = c.policy) : c.Follows deed d := by
  intro j hj
  rw [cell, shardAt_congr hshards, shardAt_setShard hj, hepoch, hpolicy, hconcerns]
  by_cases hown : j = i
  · subst hown
    rw [if_pos rfl, if_pos (beq_self_eq_true j), hshard]
  · rw [if_neg hown, if_neg (by simpa using Ne.symm hown), cell]

/-- A deed that every shard does. -/
theorem Follows.of_forall {deed : Deed α} (hconcerns : ∀ j, deed.concerns c.shardCount j = true)
    (hcells : ∀ j, j < c.shardCount → d.cell j = (c.cell j).perform deed) :
    c.Follows deed d := by
  intro j hj
  rw [hcells j hj, if_pos (hconcerns j)]

theorem policy_look (c : Cache α) (key : String) (now : UInt64) :
    (c.look key now).2.policy = c.policy := by
  rw [look]
  split <;> rfl

theorem follows_look (c : Cache α) (key : String) (now : UInt64) :
    c.Follows (.look key now) (c.look key now).2 :=
  .of_setShard (fun _ => rfl) rfl (shards_look c key now) (keeps_look c key now).epoch
    (policy_look c key now)

theorem policy_reap (c : Cache α) (r : ReapRequest) : (c.reap r).policy = c.policy := by
  rw [reap]
  split <;> rfl

/-- A request is carried out in the shard of its key, if that is where it points. -/
theorem follows_reap {r : ReapRequest} (h : r.shard = c.shardOf r.key) :
    c.Follows (.remove r.key r.generation) (c.reap r) := by
  have hconcerns : ∀ j, (Deed.remove r.key r.generation : Deed α).concerns c.shardCount j =
      (r.shard == j) := by
    intro j
    rw [h]
    rfl
  exact .of_setShard hconcerns rfl (shards_reap c r) (keeps_reap c r).epoch (policy_reap c r)

theorem follows_store (c : Cache α) (s : Store α) : c.Follows (.store s) (s.apply c) := by
  rw [Store.apply_eq, Store.attempt?_eq]
  cases hattempt : s.attemptAt? c.epoch with
  | none =>
    have hsame : c.setShard (c.shardOf s.key) (c.shardAt (c.shardOf s.key)) = c :=
      setShard_shardAt c _
    have hperform : (c.cell (c.shardOf s.key)).perform (.store s) =
        ⟨c.shardAt (c.shardOf s.key), c.epoch, c.policy⟩ := by
      simp only [Cell.perform, cell, hattempt]
    exact .of_setShard (fun _ => rfl) hperform (congrArg Cache.shards hsame.symm) rfl rfl
  | some a =>
    have hkey := Store.key_of_attemptAt? hattempt
    have hperform : (c.cell (c.shardOf a.key)).perform (.store s) =
        ⟨((c.shardAt (c.shardOf a.key)).insertIf c.policy a.key a.value a.expiresAt a.now
          a.admitted).2, c.epoch, c.policy⟩ := by
      simp only [Cell.perform, cell, hattempt]
    have hconcerns : ∀ j, (Deed.store s).concerns c.shardCount j = (c.shardOf a.key == j) := by
      intro j
      rw [hkey]
      rfl
    refine .of_setShard hconcerns hperform (shards_setIf c _ _ _ _ _) (epoch_setIf c _ _ _ _ _) ?_
    simp only [Attempt.apply, setIf]
    split <;> rfl

theorem follows_sweepShard (c : Cache α) (now : Instant) (i : Nat) :
    c.Follows (.sweep now i) (c.sweepShard now i) := by
  rw [sweepShard, Shard.takeMark]
  cases hmark : (c.shardAt i).sweepPending with
  | false =>
    have hperform : (c.cell i).perform (.sweep now i) = ⟨c.shardAt i, c.epoch, c.policy⟩ := by
      simp [Cell.perform, cell, hmark]
    exact .of_setShard (fun _ => rfl) hperform (by rw [setShard_shardAt]) rfl rfl
  | true =>
    have hperform : (c.cell i).perform (.sweep now i) =
        ⟨((c.shardAt i).takeMark.2.purge now.millis).2, c.epoch, c.policy⟩ := by
      simp [Cell.perform, cell, hmark]
    exact .of_setShard (fun _ => rfl) hperform rfl rfl rfl

theorem follows_purge (c : Cache α) (now : Instant) : c.Follows (.purge now) (c.purge now).2 := by
  refine .of_forall (fun _ => rfl) ?_
  intro j _
  rw [cell, shardAt_purge]
  rfl

theorem follows_clear (c : Cache α) : c.Follows .clear c.clear := by
  refine .of_forall (fun _ => rfl) ?_
  intro j _
  rw [cell, shardAt_clear, clear_eq]
  rfl

end ArtifactPlane.Cache
