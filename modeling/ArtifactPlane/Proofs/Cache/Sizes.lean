import ArtifactPlane.Proofs.Cache.Capacity

/-!
How many entries each operation adds and removes, exactly.  What an operation says that it
removed is what the shard has lost: an eviction pass names keys that are held, each of them
once, and a removal, a purge and an overwrite each account for their own entries only.
-/

namespace ArtifactPlane.Cache

variable {α : Type}

namespace Shard

variable {s : Shard α} {policy : Policy} {now : UInt64} {key : String} {e : Entry α}

theorem contains_eq_true_iff : s.contains key = true ↔ key ∈ s.keys := by
  rw [contains, find?, List.find?_isSome, Shard.keys, List.mem_map]
  simp only [beq_iff_eq]

theorem size_lookup (s : Shard α) (key : String) (now : UInt64) :
    (s.lookup key now).2.size = s.size := by
  rw [lookup]
  cases s.find? key with
  | none => rfl
  | some e =>
    by_cases hexpired : e.isExpired now = true
    · simp [hexpired]
    · have htouch : (s.touch key now).size = s.size := List.length_map _
      simpa [hexpired] using htouch

/-- A purge counts the entries that it drops. -/
theorem size_purge (s : Shard α) (now : UInt64) : (s.purge now).2.size + (s.purge now).1 = s.size :=
  Nat.add_sub_cancel' (narrows_purge s now).size

/-- An eviction pass names keys in the order in which they are held. -/
theorem victims_sublist (s : Shard α) (policy : Policy) (now : UInt64) :
    (s.victims policy now).Sublist s.keys := by
  rw [victims]
  split
  · cases hleast : leastWorth? s.entries with
    | none => exact List.nil_sublist _
    | some m => exact List.singleton_sublist.mpr (List.mem_map_of_mem (mem_of_leastWorth? hleast))
  · next c cs hcandidates =>
    have hsub : (c :: cs).Sublist s.entries := by
      rw [← hcandidates]
      exact List.filter_sublist
    exact ((List.take_sublist _ _).trans hsub).map _

theorem displaced_sublist (s : Shard α) (policy : Policy) (now : UInt64) (key : String) :
    (s.displaced policy now key).Sublist s.keys := by
  rw [displaced]
  split
  · exact victims_sublist s policy now
  · exact List.nil_sublist _

/-- Erasing keys that are held, each named once, removes one entry for each. -/
theorem length_filter_add_length {l : List (Entry α)} {keys : List String}
    (hordered : (l.map (·.key)).Pairwise (· < ·)) (hsub : keys.Sublist (l.map (·.key))) :
    (l.filter fun e => !keys.contains e.key).length + keys.length = l.length := by
  induction l generalizing keys with
  | nil => simp [List.sublist_nil.mp hsub]
  | cons x xs ih =>
    obtain ⟨hx, hxs⟩ := List.pairwise_cons.mp hordered
    have hhead : x.key ∉ xs.map (·.key) := fun hmem => String.lt_irrefl _ (hx _ hmem)
    rw [List.map_cons, List.sublist_cons_iff] at hsub
    rcases hsub with hskip | ⟨rest, rfl, hrest⟩
    · have hkept : x.key ∉ keys := fun hmem => hhead (hskip.subset hmem)
      have hcount := ih hxs hskip
      simp only [List.filter_cons, List.contains_eq_mem, hkept, decide_false, Bool.not_false,
        if_true, List.length_cons]
      simp only [List.contains_eq_mem] at hcount
      omega
    · have hcount := ih hxs hrest
      have hother : xs.filter (fun e => !(x.key :: rest).contains e.key) =
          xs.filter fun e => !rest.contains e.key := by
        apply List.filter_congr
        intro y hy
        have hne : y.key ≠ x.key := fun heq => hhead (heq ▸ List.mem_map_of_mem hy)
        simp [hne]
      rw [List.filter_cons, hother]
      simp only [List.contains_cons, beq_self_eq_true, Bool.true_or, Bool.not_true,
        Bool.false_eq_true, if_false, List.length_cons]
      omega

theorem Ordered.size_eraseAll (h : s.Ordered) {keys : List String} (hsub : keys.Sublist s.keys) :
    (s.eraseAll keys).size + keys.length = s.size :=
  length_filter_add_length h hsub

/-- A removal takes one entry when it says so, and none otherwise. -/
theorem Ordered.size_removeGeneration (h : s.Ordered) (key : String) (generation : UInt64) :
    (s.removeGeneration key generation).2.size +
      (if (s.removeGeneration key generation).1 then 1 else 0) = s.size := by
  rw [Shard.removeGeneration]
  cases hfound : s.find? key with
  | none => rfl
  | some e =>
    by_cases hsame : e.generation = generation
    · have hheld : key ∈ s.keys := contains_eq_true_iff.mp (by rw [contains, hfound]; rfl)
      simpa [hsame] using h.size_eraseAll (List.singleton_sublist.mpr hheld)
    · simp [hsame]

theorem length_place_of_not_mem {l : List (Entry α)} (hnew : e.key ∉ l.map (·.key)) :
    (place e l).length = l.length + 1 := by
  induction l with
  | nil => rfl
  | cons x xs ih =>
    rw [List.map_cons, List.mem_cons, not_or] at hnew
    rw [place, if_neg hnew.1]
    split
    · rfl
    · rw [List.length_cons, ih hnew.2, List.length_cons]

/-- A store brings one entry when its key is new and none when it overwrites, and it says
how many had to go. -/
theorem Ordered.size_store (h : s.Ordered) (policy : Policy) (now : UInt64) (e : Entry α) :
    (s.store policy now e).2.size + (s.displaced policy now e.key).length =
      s.size + if s.contains e.key then 0 else 1 := by
  rw [store_eq]
  have herased := h.size_eraseAll (displaced_sublist s policy now e.key)
  cases hheld : s.contains e.key with
  | true =>
    have hnone : s.displaced policy now e.key = [] := if_neg (by simp [hheld])
    rw [hnone, eraseAll_nil]
    exact length_place_of_mem h (contains_eq_true_iff.mp hheld)
  | false =>
    have hnew : e.key ∉ (s.eraseAll (s.displaced policy now e.key)).keys := by
      intro hmem
      have hsub : (s.eraseAll (s.displaced policy now e.key)).keys.Sublist s.keys :=
        List.filter_sublist.map _
      rw [contains_eq_true_iff.mpr (hsub.subset hmem)] at hheld
      exact absurd hheld (by simp)
    have hplaced := length_place_of_not_mem hnew
    simp only [size] at herased ⊢
    rw [hplaced]
    simp only [Bool.false_eq_true, if_false]
    omega

/-- A shard says of a store whether it was accepted, and then how many were evicted. -/
theorem insertIf_fst (s : Shard α) (policy : Policy) (key : String) (value : α)
    (expiresAt now : UInt64) (admitted : Bool) :
    (s.insertIf policy key value expiresAt now admitted).1 =
      if admitted then some (s.displaced policy now key).length else none := by
  rw [insertIf]
  cases admitted with
  | false => rfl
  | true =>
    have hstored := store_eq s.takeGeneration.2 policy now
      (.fresh key value expiresAt now s.nextGeneration)
    exact congrArg (fun stored => some stored.1) hstored

theorem Ordered.size_insertIf (h : s.Ordered) (policy : Policy) (key : String) (value : α)
    (expiresAt now : UInt64) :
    (s.insertIf policy key value expiresAt now true).2.size +
      (s.displaced policy now key).length = s.size + if s.contains key then 0 else 1 :=
  Ordered.size_store (s := s.takeGeneration.2) h policy now
    (.fresh key value expiresAt now s.nextGeneration)

end Shard

variable {c d : Cache α} {s : Shard α} {i : Nat}

theorem size_eq_foldr (c : Cache α) :
    c.size = (c.shards.toList.map (·.size)).foldr (· + ·) 0 := rfl

theorem size_congr (h : d.shards = c.shards) : d.size = c.size := by
  rw [size_eq_foldr, size_eq_foldr, h]

theorem foldr_set_add_getElem (l : List Nat) (i n : Nat) (hi : i < l.length) :
    (l.set i n).foldr (· + ·) 0 + l[i] = l.foldr (· + ·) 0 + n := by
  induction l generalizing i with
  | nil => exact absurd hi (Nat.not_lt_zero i)
  | cons x xs ih =>
    cases i with
    | zero =>
      simp only [List.set_cons_zero, List.foldr_cons, List.getElem_cons_zero]
      omega
    | succ i =>
      have hrest := ih i (Nat.lt_of_succ_lt_succ hi)
      simp only [List.set_cons_succ, List.foldr_cons, List.getElem_cons_succ]
      omega

/-- A new shard changes the size by the difference to the one that it replaces. -/
theorem size_setShard (h : i < c.shardCount) (s : Shard α) :
    (c.setShard i s).size + (c.shardAt i).size = c.size + s.size := by
  have hlength : i < (c.shards.toList.map (·.size)).length := by
    rw [List.length_map, Array.length_toList]
    exact h
  have hsizes : (c.setShard i s).shards.toList.map (·.size) =
      (c.shards.toList.map (·.size)).set i s.size := by
    simp [setShard, List.map_set]
  have hold : (c.shardAt i).size = (c.shards.toList.map (·.size))[i] := by
    rw [List.getElem_map, Array.getElem_toList]
    exact congrArg Shard.size (shardAt_eq_getElem h)
  rw [size_eq_foldr, size_eq_foldr, hsizes, hold]
  exact foldr_set_add_getElem _ i s.size hlength

/-- What one shard loses and gains, the cache loses and gains. -/
theorem size_of_setShard {gone brought : Nat} (h : i < c.shardCount)
    (hshards : d.shards = (c.setShard i s).shards)
    (hs : s.size + gone = (c.shardAt i).size + brought) : d.size + gone = c.size + brought := by
  have hset := size_setShard h s
  rw [size_congr hshards]
  omega

/-- A purge counts the entries that it drops from all shards. -/
theorem size_purge (c : Cache α) (now : Instant) :
    (c.purge now).2.size + (c.purge now).1 = c.size := by
  have hsum : ∀ l : List (Shard α),
      ((l.map fun s => (s.purge now.millis).2).map (·.size)).foldr (· + ·) 0 +
        (l.map fun s => s.purge now.millis).foldr (fun p n => p.1 + n) 0 =
          (l.map (·.size)).foldr (· + ·) 0 := by
    intro l
    induction l with
    | nil => rfl
    | cons s l ih =>
      have hshard := s.size_purge now.millis
      simp only [List.map_cons, List.foldr_cons]
      omega
  simpa [size_eq_foldr, purge, Array.toList_map, Function.comp_def] using hsum c.shards.toList

theorem size_clear (c : Cache α) : c.clear.size = 0 := by
  have hsum : ∀ l : List (Shard α), ((l.map Shard.clear).map (·.size)).foldr (· + ·) 0 = 0 := by
    intro l
    induction l with
    | nil => rfl
    | cons s l ih => simpa [Shard.clear, Shard.size] using ih
  rw [clear_eq, size_eq_foldr]
  simpa [recordClear] using hsum c.shards.toList

theorem size_ofConfig (config : Config) : (ofConfig config : Cache α).size = 0 := by
  have hzeros : ∀ n : Nat, (List.replicate n 0).foldr (· + ·) 0 = 0 := by
    intro n
    induction n with
    | zero => rfl
    | succ n ih => simpa [List.replicate_succ] using ih
  rw [size_eq_foldr]
  simpa [ofConfig, Shard.empty, Shard.size] using hzeros _

end ArtifactPlane.Cache
