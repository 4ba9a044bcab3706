import ArtifactPlane.Coalescer.Basic
import Mathlib.Data.List.Nodup

/-!
The registry of a coalescer as one map.  Registrations are divided into shards by key;
read through `registered?` they form a map on which beginning a load sets one key and
unregistering drops one, and `inFlight` is its size.
-/

namespace ArtifactPlane.Coalescer

variable {c : Coalescer}

private theorem lookup_eq_some_iff_mem {l : List (String × Nat)}
    (hkeys : (l.map Prod.fst).Nodup) (k : String) (n : Nat) :
    l.lookup k = some n ↔ (k, n) ∈ l := by
  induction l with
  | nil => simp
  | cons p rest ih =>
    obtain ⟨k', m⟩ := p
    simp only [List.map_cons, List.nodup_cons] at hkeys
    rw [List.lookup_cons]
    by_cases hk : k = k'
    · subst hk
      have hrest : (k, n) ∉ rest := fun hmem => hkeys.1 (List.mem_map.mpr ⟨_, hmem, rfl⟩)
      simp [hrest, eq_comm]
    · have hbeq : (k == k') = false := by simpa using hk
      rw [hbeq]
      simpa [hk] using ih hkeys.2

private theorem keys_nodup_filter {l : List (String × Nat)} (hkeys : (l.map Prod.fst).Nodup)
    (p : String × Nat → Bool) : ((l.filter p).map Prod.fst).Nodup :=
  hkeys.sublist (List.filter_sublist.map Prod.fst)

private theorem length_filter_bne {l : List (String × Nat)} (hkeys : (l.map Prod.fst).Nodup)
    {x : String × Nat} (hmem : x ∈ l) : (l.filter (· != x)).length + 1 = l.length := by
  have hnodup : l.Nodup := List.Nodup.of_map Prod.fst hkeys
  rw [← hnodup.erase_eq_filter, List.length_erase_of_mem hmem]
  have hpos := List.length_pos_of_mem hmem
  omega

private theorem total_eq_zero_iff {α : Type} (l : List (List α)) :
    l.foldr (fun s n => s.length + n) 0 = 0 ↔ ∀ s ∈ l, s = [] := by
  induction l with
  | nil => simp
  | cons s rest ih => simp [ih]

private theorem total_modify {α : Type} (f : List α → List α) (l : List (List α)) (i : Nat)
    (h : i < l.length) :
    (l.modify i f).foldr (fun s n => s.length + n) 0 + l[i].length =
      l.foldr (fun s n => s.length + n) 0 + (f l[i]).length := by
  induction l generalizing i with
  | nil => simp at h
  | cons s rest ih =>
    cases i with
    | zero =>
      simp only [List.modify_zero_cons, List.foldr_cons, List.getElem_cons_zero]
      omega
    | succ i =>
      have hi : i < rest.length := by simpa using h
      have hrest := ih i hi
      simp only [List.modify_succ_cons, List.foldr_cons, List.getElem_cons_succ]
      omega

/-- The registrations in one shard. -/
def shardAt (c : Coalescer) (i : Nat) : List (String × Nat) := c.shards.getD i []

/-- Every registration stands in the shard of its key, and no shard has a key twice. -/
structure WellPlaced (c : Coalescer) : Prop where
  shardCount_pos : 0 < c.shardCount
  shardOf_eq : ∀ i p, p ∈ c.shardAt i → c.shardOf p.1 = i
  keys_nodup : ∀ i, ((c.shardAt i).map Prod.fst).Nodup

theorem WellPlaced.registered?_eq_some_iff (hc : c.WellPlaced) {key : String} {n : Nat} :
    c.registered? key = some n ↔ (key, n) ∈ c.shardAt (c.shardOf key) :=
  lookup_eq_some_iff_mem (hc.keys_nodup _) key n

@[simp] theorem shardOf_lead (key k : String) : (c.lead key).2.shardOf k = c.shardOf k := by
  simp [shardOf, shardCount, lead]

@[simp] theorem shardOf_unregister (key k : String) (n : Nat) :
    (c.unregister key n).shardOf k = c.shardOf k := by
  simp [shardOf, shardCount, unregister]

theorem WellPlaced.shardAt_lead (hc : c.WellPlaced) (key : String) (i : Nat) :
    (c.lead key).2.shardAt i =
      if i = c.shardOf key then (key, c.calls.size) :: c.shardAt i else c.shardAt i := by
  have hlt : c.shardOf key < c.shards.size := shardOf_lt hc.shardCount_pos key
  simp only [shardAt, lead, Array.getD_eq_getD_getElem?, Array.getElem?_modify]
  by_cases hi : i = c.shardOf key
  · subst hi
    simp [hlt]
  · simp [hi, Ne.symm hi]

theorem shardAt_unregister (key : String) (n i : Nat) :
    (c.unregister key n).shardAt i =
      if i = c.shardOf key then (c.shardAt i).filter (· != (key, n)) else c.shardAt i := by
  simp only [shardAt, unregister, Array.getD_eq_getD_getElem?, Array.getElem?_modify]
  by_cases hi : i = c.shardOf key
  · subst hi
    cases c.shards[c.shardOf key]? <;> simp
  · simp [hi, Ne.symm hi]

theorem wellPlaced_ofShards (count : Nat) : (ofShards count).WellPlaced := by
  have hempty : ∀ i, (ofShards count).shardAt i = [] := by
    intro i
    simp only [shardAt, ofShards, Array.getD_eq_getD_getElem?, Array.getElem?_replicate]
    split <;> rfl
  refine ⟨shardCount_ofShards_pos count, ?_, ?_⟩
  · intro i p hp
    simp [hempty] at hp
  · intro i
    simp [hempty]

theorem registered?_ofShards (count : Nat) (key : String) :
    (ofShards count).registered? key = none := by
  simp only [registered?, ofShards, Array.getD_eq_getD_getElem?, Array.getElem?_replicate]
  split <;> rfl

theorem inFlight_ofShards (count : Nat) : (ofShards count).inFlight = 0 := by
  simp only [inFlight, ofShards, Array.toList_replicate]
  induction max count 1 with
  | zero => rfl
  | succ n ih => simpa [List.replicate_succ] using ih

/-- Who finds a load registered joins it. -/
theorem enter_of_registered {key : String} {n : Nat} (hn : c.registered? key = some n) :
    c.enter key = (.joined, n, { c with coalesced := c.coalesced + 1 }) := by
  simp [enter, join?, hn]

/-- Who finds no load registered begins one. -/
theorem enter_of_free {key : String} (hfree : c.registered? key = none) :
    c.enter key = (.leading, c.calls.size, (c.lead key).2) := by
  simp [enter, joinOrLead, join?, hfree, lead]

theorem WellPlaced.registered?_lead (hc : c.WellPlaced) (key k : String) :
    (c.lead key).2.registered? k = if k = key then some c.calls.size else c.registered? k := by
  change ((c.lead key).2.shardAt ((c.lead key).2.shardOf k)).lookup k =
    if k = key then some c.calls.size else (c.shardAt (c.shardOf k)).lookup k
  rw [shardOf_lead, hc.shardAt_lead]
  by_cases hk : k = key
  · subst hk
    simp
  · have hbeq : (k == key) = false := by simpa using hk
    split <;> simp [List.lookup_cons, hbeq]

theorem WellPlaced.lead (hc : c.WellPlaced) {key : String} (hfree : c.registered? key = none) :
    (c.lead key).2.WellPlaced := by
  refine ⟨?_, ?_, ?_⟩
  · simpa [shardCount, Coalescer.lead] using hc.shardCount_pos
  · intro i p hp
    rw [shardOf_lead]
    rw [hc.shardAt_lead] at hp
    split at hp
    · next hi =>
      rcases List.mem_cons.mp hp with rfl | hp
      · exact hi.symm
      · exact hc.shardOf_eq i p hp
    · exact hc.shardOf_eq i p hp
  · intro i
    rw [hc.shardAt_lead]
    split
    · next hi =>
      subst hi
      refine List.nodup_cons.mpr ⟨?_, hc.keys_nodup _⟩
      intro hmem
      obtain ⟨⟨k, n⟩, hp, rfl⟩ := List.mem_map.mp hmem
      have hsome := hc.registered?_eq_some_iff.mpr hp
      simp [hfree] at hsome
    · exact hc.keys_nodup i

theorem WellPlaced.inFlight_lead (hc : c.WellPlaced) (key : String) :
    (c.lead key).2.inFlight = c.inFlight + 1 := by
  have hlt : c.shardOf key < c.shards.toList.length := by
    simpa [shardCount] using shardOf_lt hc.shardCount_pos key
  have htotal := total_modify (fun s => (key, c.calls.size) :: s) c.shards.toList _ hlt
  simp only [inFlight, Coalescer.lead, Array.toList_modify]
  simp only [List.length_cons] at htotal
  omega

theorem WellPlaced.registered?_unregister (hc : c.WellPlaced) (key k : String) (n : Nat) :
    (c.unregister key n).registered? k =
      if k = key ∧ c.registered? key = some n then none else c.registered? k := by
  change ((c.unregister key n).shardAt ((c.unregister key n).shardOf k)).lookup k = _
  rw [shardOf_unregister, shardAt_unregister]
  apply Option.ext
  intro m
  by_cases hs : c.shardOf k = c.shardOf key
  · rw [if_pos hs, lookup_eq_some_iff_mem (keys_nodup_filter (hc.keys_nodup _) _)]
    simp only [List.mem_filter, bne_iff_ne, ne_eq, Prod.mk.injEq,
      ← hc.registered?_eq_some_iff]
    split
    · next h =>
      obtain ⟨rfl, hn⟩ := h
      simp [hn, eq_comm]
    · next h =>
      constructor
      · exact fun hm => hm.1
      · exact fun hm => ⟨hm, fun heq => h ⟨heq.1, by rw [← heq.1, hm, heq.2]⟩⟩
  · have hk : k ≠ key := fun h => hs (h ▸ rfl)
    simp only [if_neg hs, hk, false_and, if_false]
    rfl

theorem WellPlaced.unregister (hc : c.WellPlaced) (key : String) (n : Nat) :
    (c.unregister key n).WellPlaced := by
  refine ⟨?_, ?_, ?_⟩
  · simpa [shardCount, Coalescer.unregister] using hc.shardCount_pos
  · intro i p hp
    rw [shardOf_unregister]
    rw [shardAt_unregister] at hp
    split at hp
    · exact hc.shardOf_eq i p (List.mem_filter.mp hp).1
    · exact hc.shardOf_eq i p hp
  · intro i
    rw [shardAt_unregister]
    split
    · exact keys_nodup_filter (hc.keys_nodup i) _
    · exact hc.keys_nodup i

/-- A registration that does not stand cannot be removed. -/
theorem WellPlaced.unregister_of_ne (hc : c.WellPlaced) {key : String} {n : Nat}
    (hn : c.registered? key ≠ some n) : c.unregister key n = c := by
  have hkept : c.shards.modify (c.shardOf key) (fun s => s.filter (· != (key, n))) = c.shards := by
    apply Array.ext_getElem?
    intro i
    rw [Array.getElem?_modify]
    split
    · next hi =>
      subst hi
      cases hs : c.shards[c.shardOf key]? with
      | none => rfl
      | some s =>
        have hat : c.shardAt (c.shardOf key) = s := by
          simp [shardAt, Array.getD_eq_getD_getElem?, hs]
        rw [ne_eq, hc.registered?_eq_some_iff, hat] at hn
        refine congrArg some (List.filter_eq_self.mpr ?_)
        intro p hp
        exact bne_iff_ne.mpr fun heq => hn (heq ▸ hp)
    · rfl
  rw [Coalescer.unregister, hkept]

/-- Results are kept apart from registrations. -/
theorem WellPlaced.record (hc : c.WellPlaced) (n : Nat) (r : Loaded) : (c.record n r).WellPlaced :=
  ⟨hc.shardCount_pos, hc.shardOf_eq, hc.keys_nodup⟩

theorem WellPlaced.inFlight_unregister (hc : c.WellPlaced) {key : String} {n : Nat}
    (hn : c.registered? key = some n) : (c.unregister key n).inFlight + 1 = c.inFlight := by
  have hlt : c.shardOf key < c.shards.toList.length := by
    simpa [shardCount] using shardOf_lt hc.shardCount_pos key
  have hshard : c.shards.toList[c.shardOf key] = c.shardAt (c.shardOf key) := by
    have hlt' : c.shardOf key < c.shards.size := by simpa using hlt
    simp [shardAt, hlt']
  have htotal := total_modify (fun s => s.filter (· != (key, n))) c.shards.toList _ hlt
  have hlength := length_filter_bne (hc.keys_nodup _) (hc.registered?_eq_some_iff.mp hn)
  rw [hshard] at htotal
  simp only [inFlight, Coalescer.unregister, Array.toList_modify]
  omega

/-- Nothing is in flight exactly when no key has a load registered. -/
theorem WellPlaced.inFlight_eq_zero_iff (hc : c.WellPlaced) :
    c.inFlight = 0 ↔ ∀ key, c.registered? key = none := by
  have hmem : ∀ i, i < c.shards.size → c.shardAt i ∈ c.shards.toList := by
    intro i hi
    simp [shardAt, hi]
  rw [inFlight, total_eq_zero_iff]
  constructor
  · intro hempty key
    have hshard := hempty _ (hmem _ (shardOf_lt hc.shardCount_pos key))
    change (c.shardAt (c.shardOf key)).lookup key = none
    rw [hshard]
    rfl
  · intro hnone s hs
    obtain ⟨i, hi, rfl⟩ := List.mem_iff_getElem.mp hs
    have hi' : i < c.shards.size := by simpa using hi
    have hat : c.shards.toList[i] = c.shardAt i := by simp [shardAt, hi']
    rw [hat]
    apply List.eq_nil_iff_forall_not_mem.mpr
    rintro ⟨key, n⟩ hp
    have hkey := hc.shardOf_eq i _ hp
    have hsome := hc.registered?_eq_some_iff.mpr (hkey.symm ▸ hp)
    simp [hnone key] at hsome

end ArtifactPlane.Coalescer
