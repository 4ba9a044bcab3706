import ArtifactPlane.Proofs.Cache.Stored

/-!
A shard as a map.  `find?` says what is held under each key, and every operation of a shard
changes that map in the way its name says.  The keys of a shard ascend, so the map and the
list of entries determine each other.
-/

namespace ArtifactPlane.Cache

variable {α : Type}

/-- A lookup leaves an expired entry alone and records a hit on a live one. -/
def Entry.visit (e : Entry α) (now : UInt64) : Entry α :=
  if e.isExpired now then e else e.touch now

@[simp] theorem Entry.key_visit (e : Entry α) (now : UInt64) : (e.visit now).key = e.key := by
  unfold visit; split <;> rfl

@[simp] theorem Entry.value_visit (e : Entry α) (now : UInt64) :
    (e.visit now).value = e.value := by
  unfold visit; split <;> rfl

@[simp] theorem Entry.expiresAt_visit (e : Entry α) (now : UInt64) :
    (e.visit now).expiresAt = e.expiresAt := by
  unfold visit; split <;> rfl

@[simp] theorem Entry.generation_visit (e : Entry α) (now : UInt64) :
    (e.visit now).generation = e.generation := by
  unfold visit; split <;> rfl

/-- Two entries of one store: they differ by lookups only. -/
structure Entry.SameStore (a b : Entry α) : Prop where
  key : a.key = b.key
  value : a.value = b.value
  expiresAt : a.expiresAt = b.expiresAt
  generation : a.generation = b.generation

theorem Entry.SameStore.refl (e : Entry α) : e.SameStore e := ⟨rfl, rfl, rfl, rfl⟩

theorem Entry.SameStore.trans {a b d : Entry α} (hab : a.SameStore b) (hbd : b.SameStore d) :
    a.SameStore d :=
  ⟨hab.key.trans hbd.key, hab.value.trans hbd.value, hab.expiresAt.trans hbd.expiresAt,
    hab.generation.trans hbd.generation⟩

theorem Entry.sameStore_visit (e : Entry α) (now : UInt64) : (e.visit now).SameStore e :=
  ⟨e.key_visit now, e.value_visit now, e.expiresAt_visit now, e.generation_visit now⟩

namespace Shard

variable {s : Shard α} {policy : Policy} {now : UInt64} {key k : String} {e x : Entry α}
  {keys : List String}

theorem mem_of_find? (h : s.find? k = some e) : e ∈ s.entries := List.mem_of_find?_eq_some h

theorem key_of_find? (h : s.find? k = some e) : e.key = k := by
  simpa using List.find?_some h

theorem find?_congr {r : Shard α} (h : r.entries = s.entries) (k : String) :
    r.find? k = s.find? k := by
  unfold find?
  rw [h]

theorem find?_clear (s : Shard α) (k : String) : s.clear.find? k = none := rfl

theorem find?_touch (s : Shard α) (key : String) (now : UInt64) (k : String) :
    (s.touch key now).find? k =
      if k = key then (s.find? k).map (·.touch now) else s.find? k := by
  have hkeys : (fun e : Entry α => (if e.key = key then e.touch now else e).key == k) =
      fun e => e.key == k := by
    funext e
    split <;> rfl
  have hmap : (s.touch key now).find? k =
      (s.find? k).map fun e => if e.key = key then e.touch now else e := by
    simp only [find?, touch, List.find?_map, Function.comp_def, hkeys]
  rw [hmap]
  cases hfound : s.find? k with
  | none => simp
  | some e => by_cases hk : k = key <;> simp [key_of_find? hfound, hk]

theorem lookup_fst (s : Shard α) (key : String) (now : UInt64) :
    (s.lookup key now).1 = match s.find? key with
      | none => .miss
      | some e => if e.isExpired now then .expired e.generation else .hit e.value := by
  unfold lookup
  cases s.find? key with
  | none => rfl
  | some e =>
    dsimp only
    split <;> rfl

theorem find?_lookup (s : Shard α) (key : String) (now : UInt64) (k : String) :
    (s.lookup key now).2.find? k =
      if k = key then (s.find? k).map (·.visit now) else s.find? k := by
  unfold lookup
  by_cases hk : k = key
  · subst hk
    cases hfound : s.find? k with
    | none => simp [hfound]
    | some e =>
      by_cases hexpired : e.isExpired now = true
      · simp [hexpired, hfound, Entry.visit]
      · simp [hexpired, hfound, Entry.visit, find?_touch]
  · rw [if_neg hk]
    split
    · rfl
    · split
      · rfl
      · rw [find?_touch, if_neg hk]

theorem find?_place (e : Entry α) (l : List (Entry α)) (k : String) :
    (place e l).find? (·.key == k) = if k = e.key then some e else l.find? (·.key == k) := by
  by_cases hk : k = e.key
  · subst hk
    rw [if_pos rfl]
    induction l with
    | nil => simp [place]
    | cons x xs ih =>
      unfold place
      split
      · simp
      · split
        · simp
        · next hne => simp [Ne.symm hne, ih]
  · rw [if_neg hk]
    induction l with
    | nil => simp [place, Ne.symm hk]
    | cons x xs ih =>
      unfold place
      split
      · simp [List.find?_cons, Ne.symm hk]
      · split
        · next heq => simp [Ne.symm hk, ← heq]
        · simp [List.find?_cons, ih]

theorem find?_eraseAll (s : Shard α) (keys : List String) (k : String) :
    (s.eraseAll keys).find? k = if k ∈ keys then none else s.find? k := by
  simp only [find?, eraseAll, List.find?_filter]
  by_cases hk : k ∈ keys
  · rw [if_pos hk, List.find?_eq_none]
    intro e he
    by_cases hkey : e.key = k
    · simp [hkey, hk]
    · simp [hkey]
  · rw [if_neg hk]
    congr 1
    funext e
    by_cases hkey : e.key = k
    · simp [hkey, hk]
    · simp [hkey]

theorem find?_removeGeneration (s : Shard α) (key : String) (generation : UInt64) (k : String) :
    (s.removeGeneration key generation).2.find? k =
      if k = key then (s.find? k).filter (·.generation != generation) else s.find? k := by
  unfold removeGeneration
  by_cases hk : k = key
  · subst hk
    cases hfound : s.find? k with
    | none => simp [hfound]
    | some e =>
      by_cases hgeneration : e.generation = generation
      · simp [hgeneration, find?_eraseAll, Option.filter]
      · simp [hgeneration, hfound, Option.filter]
  · rw [if_neg hk]
    split
    · split
      · simp [find?_eraseAll, hk]
      · rfl
    · rfl

/-- The keys that a store evicts: none, unless a new key meets a full shard. -/
def displaced (s : Shard α) (policy : Policy) (now : UInt64) (key : String) : List String :=
  if s.contains key = false ∧ s.maxItems ≤ s.size then s.victims policy now else []

theorem mem_of_leastWorth? {l : List (Entry α)} (h : leastWorth? l = some e) : e ∈ l := by
  induction l generalizing e with
  | nil => simp [leastWorth?] at h
  | cons x xs ih =>
    unfold leastWorth? at h
    split at h
    · exact List.mem_cons.mpr (Or.inl (Option.some.inj h).symm)
    · next m hm =>
      split at h
      · obtain rfl := Option.some.inj h
        exact List.mem_cons_of_mem x (ih hm)
      · exact List.mem_cons.mpr (Or.inl (Option.some.inj h).symm)

/-- An eviction pass removes keys that are held. -/
theorem mem_keys_of_mem_victims (h : k ∈ s.victims policy now) : k ∈ s.keys := by
  unfold victims at h
  split at h
  · obtain ⟨e, he, rfl⟩ := List.mem_map.mp h
    exact List.mem_map_of_mem (mem_of_leastWorth? (Option.mem_toList.mp he))
  · next x xs hcandidates =>
    obtain ⟨e, he, rfl⟩ := List.mem_map.mp h
    have hcandidate : e ∈ s.candidates policy now := by
      rw [hcandidates]
      exact List.mem_of_mem_take he
    exact List.mem_map_of_mem (List.mem_filter.mp hcandidate).1

theorem mem_keys_of_mem_displaced (h : k ∈ s.displaced policy now key) : k ∈ s.keys := by
  unfold displaced at h
  split at h
  · exact mem_keys_of_mem_victims h
  · exact absurd h List.not_mem_nil

theorem eraseAll_nil (s : Shard α) : s.eraseAll [] = s := by
  have hall : s.entries.filter (fun e => !([] : List String).contains e.key) = s.entries :=
    List.filter_eq_self.mpr fun _ _ => rfl
  unfold eraseAll
  rw [hall]

/-- An eviction pass makes room before the entry is put in its place. -/
theorem store_eq (s : Shard α) (policy : Policy) (now : UInt64) (e : Entry α) :
    s.store policy now e = ((s.displaced policy now e.key).length,
      { s with entries := place e (s.eraseAll (s.displaced policy now e.key)).entries }) := by
  by_cases hfull : s.contains e.key = false ∧ s.maxItems ≤ s.size
  · simp only [store, displaced, if_pos hfull]
    rfl
  · simp only [store, displaced, if_neg hfull, eraseAll_nil]
    rfl

theorem find?_store (s : Shard α) (policy : Policy) (now : UInt64) (e : Entry α) (k : String) :
    (s.store policy now e).2.find? k =
      if k = e.key then some e
      else if k ∈ s.displaced policy now e.key then none else s.find? k := by
  rw [store_eq]
  exact (find?_place e _ k).trans (congrArg (ite _ _) (find?_eraseAll s _ k))

theorem find?_insertIf (s : Shard α) (policy : Policy) (key : String) (value : α)
    (expiresAt now : UInt64) (admitted : Bool) (k : String) :
    (s.insertIf policy key value expiresAt now admitted).2.find? k =
      if admitted = true ∧ k = key then some (.fresh key value expiresAt now s.nextGeneration)
      else if admitted = true ∧ k ∈ s.displaced policy now key then none else s.find? k := by
  unfold insertIf
  cases admitted with
  | false => simp [takeGeneration, find?]
  | true =>
    simp only [true_and, if_true]
    exact find?_store s.takeGeneration.2 policy now
      (.fresh key value expiresAt now s.nextGeneration) k

theorem nextGeneration_store (s : Shard α) (policy : Policy) (now : UInt64) (e : Entry α) :
    (s.store policy now e).2.nextGeneration = s.nextGeneration := by
  rw [store_eq]

/-- A store takes a generation whether it is admitted or not. -/
theorem nextGeneration_insertIf (s : Shard α) (policy : Policy) (key : String) (value : α)
    (expiresAt now : UInt64) (admitted : Bool) :
    (s.insertIf policy key value expiresAt now admitted).2.nextGeneration =
      s.nextGeneration + 1 := by
  unfold insertIf
  cases admitted with
  | false => rfl
  | true => exact nextGeneration_store _ policy now _

theorem nextGeneration_lookup (s : Shard α) (key : String) (now : UInt64) :
    (s.lookup key now).2.nextGeneration = s.nextGeneration := by
  unfold lookup
  split
  · rfl
  · split <;> rfl

theorem nextGeneration_removeGeneration (s : Shard α) (key : String) (generation : UInt64) :
    (s.removeGeneration key generation).2.nextGeneration = s.nextGeneration := by
  unfold removeGeneration
  split
  · split <;> rfl
  · rfl

/-- The keys ascend, so none is held twice. -/
def Ordered (s : Shard α) : Prop := s.keys.Pairwise (· < ·)

theorem ordered_empty (maxItems : Nat) : (empty maxItems : Shard α).Ordered := List.Pairwise.nil

theorem Ordered.of_sublist {r : Shard α} (h : s.Ordered) (hsub : r.entries.Sublist s.entries) :
    r.Ordered :=
  List.Pairwise.sublist (hsub.map _) h

theorem Ordered.eraseAll (h : s.Ordered) (keys : List String) : (s.eraseAll keys).Ordered :=
  h.of_sublist List.filter_sublist

theorem Ordered.purge (h : s.Ordered) (now : UInt64) : (s.purge now).2.Ordered :=
  h.of_sublist List.filter_sublist

theorem Ordered.clear (s : Shard α) : s.clear.Ordered := List.Pairwise.nil

theorem keys_touch (s : Shard α) (key : String) (now : UInt64) :
    (s.touch key now).keys = s.keys := by
  unfold touch Shard.keys
  rw [List.map_map]
  apply List.map_congr_left
  intro e _
  simp only [Function.comp_apply]
  split <;> rfl

theorem Ordered.lookup (h : s.Ordered) (key : String) (now : UInt64) :
    (s.lookup key now).2.Ordered := by
  unfold Shard.lookup
  split
  · exact h
  · split
    · exact h
    · unfold Ordered
      rw [keys_touch]
      exact h

theorem Ordered.removeGeneration (h : s.Ordered) (key : String) (generation : UInt64) :
    (s.removeGeneration key generation).2.Ordered := by
  unfold Shard.removeGeneration
  split
  · split
    · exact h.eraseAll _
    · exact h
  · exact h

/-- The place of an entry keeps the order: after all smaller keys, before all larger. -/
theorem pairwise_place {l : List (Entry α)} (e : Entry α)
    (h : (l.map (·.key)).Pairwise (· < ·)) : ((place e l).map (·.key)).Pairwise (· < ·) := by
  induction l with
  | nil => simp [place]
  | cons x xs ih =>
    obtain ⟨hx, hxs⟩ := List.pairwise_cons.mp h
    unfold place
    split
    · next hlt =>
      refine List.pairwise_cons.mpr ⟨?_, h⟩
      intro k hk
      rcases List.mem_cons.mp hk with rfl | hk
      · exact hlt
      · exact String.lt_trans hlt (hx k hk)
    · next hnot =>
      split
      · next heq =>
        refine List.pairwise_cons.mpr ⟨?_, hxs⟩
        simp only [heq]
        exact hx
      · next hne =>
        have hgt : x.key < e.key := by
          rcases Std.lt_trichotomy x.key e.key with hgt | heq | hlt
          · exact hgt
          · exact absurd heq.symm hne
          · exact absurd hlt hnot
        refine List.pairwise_cons.mpr ⟨?_, ih hxs⟩
        intro k hk
        obtain ⟨y, hy, rfl⟩ := List.mem_map.mp hk
        rcases mem_place hy with rfl | hold
        · exact hgt
        · exact hx _ (List.mem_map_of_mem hold)

theorem Ordered.store (h : s.Ordered) (policy : Policy) (now : UInt64) (e : Entry α) :
    (s.store policy now e).2.Ordered := by
  rw [store_eq]
  exact pairwise_place e (h.eraseAll _)

theorem Ordered.insertIf (h : s.Ordered) (policy : Policy) (key : String) (value : α)
    (expiresAt now : UInt64) (admitted : Bool) :
    (s.insertIf policy key value expiresAt now admitted).2.Ordered := by
  unfold Shard.insertIf
  cases admitted with
  | false => exact h
  | true => exact Ordered.store (s := s.takeGeneration.2) h policy now _

/-- A key is held once, so an entry in the shard is the one that its key finds. -/
theorem Ordered.find?_eq_some_iff (h : s.Ordered) :
    s.find? k = some e ↔ e ∈ s.entries ∧ e.key = k := by
  constructor
  · intro hfound
    exact ⟨mem_of_find? hfound, key_of_find? hfound⟩
  · rintro ⟨hmem, rfl⟩
    obtain ⟨before, after, hsplit⟩ := List.append_of_mem hmem
    unfold find?
    rw [List.find?_eq_some_iff_append]
    refine ⟨by simp, before, after, hsplit, ?_⟩
    intro x hx
    have hlt : x.key < e.key := by
      have hpairs : (before ++ e :: after).Pairwise fun a b => a.key < b.key := by
        rw [← hsplit]
        exact List.pairwise_map.mp h
      exact (List.pairwise_append.mp hpairs).2.2 x hx e List.mem_cons_self
    have hne : x.key ≠ e.key := fun heq => String.lt_irrefl _ (heq ▸ hlt)
    simp [hne]

theorem Ordered.find?_purge (h : s.Ordered) (now : UInt64) (k : String) :
    (s.purge now).2.find? k = (s.find? k).filter fun e => !e.isExpired now := by
  apply Option.ext
  intro e
  rw [(h.purge now).find?_eq_some_iff, Option.filter_eq_some_iff, h.find?_eq_some_iff]
  simp only [Shard.purge, List.mem_filter]
  exact and_right_comm

end Shard

end ArtifactPlane.Cache
