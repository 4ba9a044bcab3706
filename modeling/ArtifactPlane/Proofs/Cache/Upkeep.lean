import ArtifactPlane.Proofs.Cache.History
import ArtifactPlane.Proofs.Cache.Settle

/-!
Histories of a cache with all that removes expired entries.  Beside the calls there is the
lookup that meets a writer in its shard: if the queue is full as well, its request is lost and
the shard is marked.  Marked shards are swept later, at any time and in any order.
-/

namespace ArtifactPlane.Cache

variable {α : Type} {c : Cache α} {key : String} {now : UInt64}

/-- Look a key up while its shard may be held by a writer, so that nothing can be removed on
the spot. -/
def getWhile (busy : Bool) (c : Cache α) (key : String) (now : UInt64) : Option α × Cache α :=
  match c.look key now with
  | (.hit v, c) => (some v, c)
  | (.expired generation, c) => (none, c.scheduleWhile busy ⟨c.shardOf key, key, generation⟩)
  | (.miss, c) => (none, c)

theorem getWhile_false (c : Cache α) (key : String) (now : UInt64) :
    c.getWhile false key now = c.get key now := rfl

/-- A lookup leaves its trace in the shard first, and then its request in the queue. -/
theorem getWhile_snd (busy : Bool) (c : Cache α) (key : String) (now : UInt64) :
    (c.getWhile busy key now).2 = match c.staleRequest? key now with
      | some r => (c.look key now).2.scheduleWhile busy r
      | none => (c.look key now).2 := by
  have hown := shardOf_look c key now key
  rw [getWhile, staleRequest?]
  generalize c.look key now = looked at hown ⊢
  rcases looked with ⟨found, d⟩
  cases found with
  | hit v => rfl
  | expired generation => simp only [hown]
  | miss => rfl

theorem WellPlaced.getWhile (h : c.WellPlaced) (busy : Bool) (key : String) (now : UInt64) :
    (c.getWhile busy key now).2.WellPlaced := by
  rw [getWhile_snd]
  cases c.staleRequest? key now with
  | none => exact h.look key now
  | some r => exact (h.look key now).scheduleWhile busy r

theorem shardCount_getWhile (busy : Bool) (c : Cache α) (key : String) (now : UInt64) :
    (c.getWhile busy key now).2.shardCount = c.shardCount := by
  have hlook := (keeps_look c key now).shardCount
  rw [getWhile_snd]
  cases c.staleRequest? key now with
  | none => exact hlook
  | some r => exact (keeps_scheduleWhile busy _ r).shardCount.trans hlook

theorem scheduleWhile_of_hasRoom (h : c.HasRoom) (busy : Bool) (r : ReapRequest) :
    c.scheduleWhile busy r = { c with queue := c.queue ++ [r] } :=
  if_pos h

/-- A request that the queue does not take is carried out on the spot, or marks its shard. -/
theorem scheduleWhile_of_full (h : ¬ c.HasRoom) (busy : Bool) (r : ReapRequest) :
    c.scheduleWhile busy r =
      if busy then
        ({ c with counters := c.counters.recordReapDropped } : Cache α).setShard r.shard
          (c.shardAt r.shard).mark
      else ({ c with counters := c.counters.recordReapDropped } : Cache α).reap r :=
  if_neg h

/-- What happens to a cache. -/
inductive Act (α : Type) where
  | call (op : Op α)
  /-- A lookup while a writer holds the shard of the key. -/
  | getBusy (key : String) (now : UInt64)
  /-- A sweep of one shard, if it was marked. -/
  | sweep (now : Instant) (i : Nat)

namespace Act

def apply (c : Cache α) : Act α → Cache α
  | call op => op.apply c
  | getBusy key now => (c.getWhile true key now).2
  | sweep now i => c.sweepShard now i

theorem wellPlaced_apply (h : c.WellPlaced) (act : Act α) : (act.apply c).WellPlaced := by
  cases act with
  | call op => exact Op.wellPlaced_apply h op
  | getBusy key now => exact h.getWhile true key now
  | sweep now i => exact (thins_sweepShard h now i).placed

theorem shardCount_apply (c : Cache α) (act : Act α) :
    (act.apply c).shardCount = c.shardCount := by
  cases act with
  | call op => exact Op.shardCount_apply c op
  | getBusy key now => exact shardCount_getWhile true c key now
  | sweep now i => exact (keeps_sweepShard now c i).shardCount

end Act

/-- A cache after all that has happened to it. -/
def after (c : Cache α) (acts : List (Act α)) : Cache α := acts.foldl Act.apply c

theorem WellPlaced.after (h : c.WellPlaced) (acts : List (Act α)) : (c.after acts).WellPlaced :=
  List.foldlRecOn acts _ h fun _ h act _ => Act.wellPlaced_apply h act

end ArtifactPlane.Cache
