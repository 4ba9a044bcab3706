import ArtifactPlane.Proofs.Cache.Placed

/-!
Lookups and the requests that they make.  What a lookup answers is decided by the entry of
its key; an expired entry makes a request, which waits in the queue or, when the queue is
full, is carried out at once.  Only a store takes a generation.
-/

namespace ArtifactPlane.Cache

variable {α : Type} {c d : Cache α} {i : Nat} {key : String} {now : UInt64}

theorem look_fst_eq_lookup (c : Cache α) (key : String) (now : UInt64) :
    (c.look key now).1 = ((c.shardAt (c.shardOf key)).lookup key now).1 := by
  unfold look
  dsimp only
  split
  · next h => rw [h]
  · next h => rw [h]
  · next h => rw [h]

/-- What a lookup finds is decided by the entry that the key holds. -/
theorem look_fst (c : Cache α) (key : String) (now : UInt64) :
    (c.look key now).1 = match c.find? key with
      | none => .miss
      | some e => if e.isExpired now then .expired e.generation else .hit e.value := by
  rw [look_fst_eq_lookup, Shard.lookup_fst]
  rfl

theorem get_fst (c : Cache α) (key : String) (now : UInt64) :
    (c.get key now).1 = ((c.find? key).filter fun e => !e.isExpired now).map (·.value) := by
  have hlook := look_fst c key now
  unfold get
  generalize c.look key now = looked at hlook ⊢
  rcases looked with ⟨found, d⟩
  cases hfound : c.find? key with
  | none =>
    obtain rfl : found = .miss := by simpa [hfound] using hlook
    rfl
  | some e =>
    by_cases hexpired : e.isExpired now = true
    · obtain rfl : found = .expired e.generation := by simpa [hfound, hexpired] using hlook
      simp [Option.filter, hexpired]
    · obtain rfl : found = .hit e.value := by simpa [hfound, hexpired] using hlook
      simp [Option.filter, hexpired]

theorem get_snd (c : Cache α) (key : String) (now : UInt64) :
    (c.get key now).2 = match (c.look key now).1 with
      | .expired generation =>
        (c.look key now).2.schedule ⟨(c.look key now).2.shardOf key, key, generation⟩
      | _ => (c.look key now).2 := by
  unfold get
  generalize c.look key now = looked
  rcases looked with ⟨found, d⟩
  cases found <;> rfl

theorem queue_look (c : Cache α) (key : String) (now : UInt64) :
    (c.look key now).2.queue = c.queue ∧ (c.look key now).2.queueLimit = c.queueLimit := by
  unfold look
  dsimp only
  split <;> exact ⟨rfl, rfl⟩

theorem shardOf_look (c : Cache α) (key : String) (now : UInt64) (k : String) :
    (c.look key now).2.shardOf k = c.shardOf k :=
  shardOf_congr (keeps_look c key now).shardCount k

theorem queue_reap (c : Cache α) (r : ReapRequest) : (c.reap r).queue = c.queue := by
  unfold reap
  split <;> rfl

theorem queue_setIf (c : Cache α) (key : String) (value : α) (expiresAt now : UInt64)
    (admitted : Bool) : (c.setIf key value expiresAt now admitted).2.queue = c.queue := by
  unfold setIf
  dsimp only
  split <;> rfl

theorem queue_clear (c : Cache α) : c.clear.queue = c.queue := by
  rw [clear_eq]
  rfl

/-- Whether the queue takes another request. -/
def HasRoom (c : Cache α) : Prop := c.queue.length < c.queueLimit

instance (c : Cache α) : Decidable c.HasRoom :=
  inferInstanceAs (Decidable (c.queue.length < c.queueLimit))

theorem schedule_of_hasRoom (h : c.HasRoom) (r : ReapRequest) :
    c.schedule r = { c with queue := c.queue ++ [r] } :=
  if_pos h

theorem schedule_of_full (h : ¬ c.HasRoom) (r : ReapRequest) :
    c.schedule r = ({ c with counters := c.counters.recordReapDropped } : Cache α).reap r :=
  if_neg h

theorem find?_schedule (h : 0 < c.shardCount) (r : ReapRequest) (k : String) :
    (c.schedule r).find? k =
      if ¬ c.HasRoom ∧ c.shardOf k = r.shard ∧ k = r.key then
        (c.find? k).filter (·.generation != r.generation)
      else c.find? k := by
  by_cases hroom : c.HasRoom
  · rw [schedule_of_hasRoom hroom, if_neg fun hfull => hfull.1 hroom]
    exact find?_congr rfl k
  · rw [schedule_of_full hroom]
    simp only [hroom, not_false_eq_true, true_and]
    exact find?_reap (c := { c with counters := c.counters.recordReapDropped }) h r k

/-- The request that a lookup makes for the removal of an expired entry. -/
def staleRequest? (c : Cache α) (key : String) (now : UInt64) : Option ReapRequest :=
  match (c.look key now).1 with
  | .expired generation => some ⟨c.shardOf key, key, generation⟩
  | _ => none

theorem staleRequest?_eq (c : Cache α) (key : String) (now : UInt64) :
    c.staleRequest? key now = ((c.find? key).filter fun e => e.isExpired now).map
      fun e => ⟨c.shardOf key, key, e.generation⟩ := by
  unfold staleRequest?
  rw [look_fst]
  cases c.find? key with
  | none => rfl
  | some e => by_cases hexpired : e.isExpired now = true <;> simp [Option.filter, hexpired]

theorem get_snd_of_request {r : ReapRequest} (h : c.staleRequest? key now = some r) :
    (c.get key now).2 = (c.look key now).2.schedule r := by
  rw [get_snd, shardOf_look]
  unfold staleRequest? at h
  split at h
  · rw [Option.some.inj h]
  · simp at h

theorem get_snd_of_no_request (h : c.staleRequest? key now = none) :
    (c.get key now).2 = (c.look key now).2 := by
  rw [get_snd]
  unfold staleRequest? at h
  split at h
  · simp at h
  · rfl

theorem hasRoom_look (c : Cache α) (key : String) (now : UInt64) :
    (c.look key now).2.HasRoom ↔ c.HasRoom := by
  obtain ⟨hqueue, hlimit⟩ := queue_look c key now
  unfold HasRoom
  rw [hqueue, hlimit]

theorem queue_get (c : Cache α) (key : String) (now : UInt64) :
    (c.get key now).2.queue =
      if c.HasRoom then c.queue ++ (c.staleRequest? key now).toList else c.queue := by
  have hqueue := (queue_look c key now).1
  have hroom := hasRoom_look c key now
  cases hrequest : c.staleRequest? key now with
  | none =>
    rw [get_snd_of_no_request hrequest, hqueue]
    simp
  | some r =>
    rw [get_snd_of_request hrequest]
    by_cases hfull : c.HasRoom
    · rw [schedule_of_hasRoom (hroom.mpr hfull), if_pos hfull]
      simp [hqueue]
    · rw [schedule_of_full (mt hroom.mp hfull), if_neg hfull, queue_reap]
      exact hqueue

/-- A lookup records its hit; an expired entry stays for the queue, or goes at once when
the queue is full. -/
theorem find?_get (h : 0 < c.shardCount) (key : String) (now : UInt64) (k : String) :
    (c.get key now).2.find? k =
      if k = key then
        ((c.find? k).filter fun e => c.HasRoom || !e.isExpired now).map (·.visit now)
      else c.find? k := by
  have hfound := staleRequest?_eq c key now
  cases hrequest : c.staleRequest? key now with
  | none =>
    rw [get_snd_of_no_request hrequest, find?_look h]
    by_cases hk : k = key
    · subst hk
      rw [hrequest] at hfound
      cases he : c.find? k with
      | none => simp
      | some e =>
        have hlive : e.isExpired now = false := by simpa [he, Option.filter] using hfound
        simp [Option.filter, hlive]
    · rw [if_neg hk, if_neg hk]
  | some r =>
    rw [hrequest] at hfound
    obtain ⟨e, he, hr⟩ := Option.map_eq_some_iff.mp hfound.symm
    obtain ⟨he, hexpired⟩ := Option.filter_eq_some_iff.mp he
    have hpos : 0 < (c.look key now).2.shardCount := by
      rw [(keeps_look c key now).shardCount]
      exact h
    rw [get_snd_of_request hrequest]
    rw [find?_schedule hpos, find?_look h, shardOf_look]
    simp only [hasRoom_look]
    subst hr
    by_cases hk : k = key
    · subst hk
      by_cases hroom : c.HasRoom <;> simp [he, Option.filter, hexpired, hroom]
    · simp [hk]

theorem keeps_get (c : Cache α) (key : String) (now : UInt64) : c.Keeps (c.get key now).2 := by
  cases hrequest : c.staleRequest? key now with
  | none =>
    rw [get_snd_of_no_request hrequest]
    exact keeps_look c key now
  | some r =>
    rw [get_snd_of_request hrequest]
    exact (keeps_look c key now).trans (keeps_scheduleWhile false _ r)

theorem WellPlaced.get (h : c.WellPlaced) (key : String) (now : UInt64) :
    (c.get key now).2.WellPlaced := by
  cases hrequest : c.staleRequest? key now with
  | none =>
    rw [get_snd_of_no_request hrequest]
    exact h.look key now
  | some r =>
    rw [get_snd_of_request hrequest]
    exact (h.look key now).scheduleWhile false r

/-- The generation that the next store in a shard takes. -/
def nextGeneration (c : Cache α) (i : Nat) : UInt64 := (c.shardAt i).nextGeneration

theorem nextGeneration_congr (h : d.shards = c.shards) (i : Nat) :
    d.nextGeneration i = c.nextGeneration i :=
  congrArg Shard.nextGeneration (shardAt_congr h i)

theorem nextGeneration_look (c : Cache α) (key : String) (now : UInt64) (i : Nat) :
    (c.look key now).2.nextGeneration i = c.nextGeneration i := by
  rw [nextGeneration_congr (shards_look c key now)]
  exact same_setShard Shard.nextGeneration (Shard.nextGeneration_lookup _ key now) i

theorem nextGeneration_reap (c : Cache α) (r : ReapRequest) (i : Nat) :
    (c.reap r).nextGeneration i = c.nextGeneration i := by
  rw [nextGeneration_congr (shards_reap c r)]
  exact same_setShard Shard.nextGeneration (Shard.nextGeneration_removeGeneration _ _ _) i

theorem nextGeneration_get (c : Cache α) (key : String) (now : UInt64) (i : Nat) :
    (c.get key now).2.nextGeneration i = c.nextGeneration i := by
  cases hrequest : c.staleRequest? key now with
  | none =>
    rw [get_snd_of_no_request hrequest]
    exact nextGeneration_look c key now i
  | some r =>
    rw [get_snd_of_request hrequest, ← nextGeneration_look c key now i]
    by_cases hroom : (c.look key now).2.HasRoom
    · rw [schedule_of_hasRoom hroom]
      exact nextGeneration_congr rfl i
    · rw [schedule_of_full hroom, nextGeneration_reap]
      exact nextGeneration_congr rfl i

theorem nextGeneration_purge (c : Cache α) (now : Instant) (i : Nat) :
    (c.purge now).2.nextGeneration i = c.nextGeneration i :=
  (congrArg Shard.nextGeneration (shardAt_purge c now i)).trans rfl

theorem nextGeneration_clear (c : Cache α) (i : Nat) :
    c.clear.nextGeneration i = c.nextGeneration i :=
  (congrArg Shard.nextGeneration (shardAt_clear c i)).trans rfl

theorem nextGeneration_setIf (h : 0 < c.shardCount) (key : String) (value : α)
    (expiresAt now : UInt64) (admitted : Bool) (i : Nat) :
    (c.setIf key value expiresAt now admitted).2.nextGeneration i =
      if i = c.shardOf key then c.nextGeneration i + 1 else c.nextGeneration i := by
  rw [nextGeneration_congr (shards_setIf c key value expiresAt now admitted)]
  unfold nextGeneration
  by_cases hown : i = c.shardOf key
  · subst hown
    rw [shardAt_setShard (shardOf_lt h key), if_pos rfl, if_pos rfl,
      Shard.nextGeneration_insertIf]
  · rw [if_neg hown, shardAt_setShard_of_ne hown]

end ArtifactPlane.Cache
