import ArtifactPlane.Proofs.Cache.Interleaving
import ArtifactPlane.Proofs.Cache.Lossy

/-!
Removals that come late.  A lookup that finds an entry expired asks for its removal by key
and generation, and the removal may be carried out at any later time, again and again, after
the key was stored anew.  It never takes a newer entry.

A store takes its generation before it takes the lock of the shard, so entries are stored in
another order than they are numbered, or not at all.  What carries the proof is that two
stores of a shard never share a generation, whatever became of them.
-/

namespace ArtifactPlane.Cache

variable {α : Type}

/-- A removal reports whether the key holds an entry of the generation. -/
theorem Shard.removeGeneration_fst_iff {s : Shard α} {key : String} {generation : UInt64} :
    (s.removeGeneration key generation).1 = true ↔
      ∃ e, s.find? key = some e ∧ e.generation = generation := by
  rw [removeGeneration]
  cases s.find? key with
  | none => simp
  | some e => by_cases hsame : e.generation = generation <;> simp [hsame]

/-- A store that has taken its generation. -/
structure Offer (α : Type) where
  entry : Entry α
  /-- How many generations were taken before. -/
  number : Nat
  verdict : Option Verdict

/-- What a lookup made of an expired entry. -/
structure Seen where
  key : String
  generation : UInt64
  /-- The store that had left an entry under the key. -/
  origin : Option Nat
  time : Nat

/-- A shard and the calls that race for it. -/
structure Race (α : Type) where
  shard : Shard α
  time : Nat
  /-- How many generations were taken. -/
  taken : Nat
  offers : Roster (Offer α)
  /-- The store that last left an entry under a key. -/
  writer : String → Option Nat
  seen : Roster Seen
  /-- The removals that reported that they removed an entry, the last first. -/
  removed : List (String × UInt64)

namespace Race

/-- The next step of some party. -/
inductive Action (α : Type) where
  /-- A store takes its generation. -/
  | draw (j : Nat) (key : String) (value : α) (expiresAt now : UInt64)
  /-- A store takes the lock and is refused, or evicts if it must and stores its entry. -/
  | settle (j : Nat) (policy : Policy) (admitted : Bool)
  | look (i : Nat) (key : String) (now : UInt64)
  | remove (key : String) (generation : UInt64)
  /-- A removal that does not wait for the lock, and asks for a sweep instead. -/
  | tryRemove (busy : Bool) (key : String) (generation : UInt64)
  | purge (now : UInt64)
  | sweep (now : UInt64)
  | clear

def start (maxItems : Nat) : Race α :=
  ⟨.empty maxItems, 0, 0, .empty, fun _ => none, .empty, []⟩

/-- A step after which the shard holds nothing new. -/
def thin (s : Race α) (t : Shard α) : Race α :=
  { s with shard := t, time := s.time + 1 }

def draw (s : Race α) (j : Nat) (key : String) (value : α) (expiresAt now : UInt64) : Race α :=
  let drawn := s.shard.takeGeneration
  { s.thin drawn.2 with
    taken := s.taken + 1
    offers := s.offers.put j ⟨.fresh key value expiresAt now drawn.1, s.taken, none⟩ }

def refuse (s : Race α) (j : Nat) (w : Offer α) : Race α :=
  { s.thin s.shard with offers := s.offers.put j { w with verdict := some ⟨false, s.time⟩ } }

def store (s : Race α) (j : Nat) (w : Offer α) (policy : Policy) : Race α :=
  { s.thin (s.shard.store policy w.entry.lastAccess w.entry).2 with
    offers := s.offers.put j { w with verdict := some ⟨true, s.time⟩ }
    writer := fun key => if key = w.entry.key then some j else s.writer key }

def look (s : Race α) (i : Nat) (key : String) (now : UInt64) : Race α :=
  let looked := s.shard.lookup key now
  { s.thin looked.2 with
    seen := match looked.1 with
      | .expired generation => s.seen.put i ⟨key, generation, s.writer key, s.time⟩
      | _ => s.seen }

/-- A removal that was carried out, with what it reported. -/
def report (s : Race α) (key : String) (generation : UInt64) (result : Bool × Shard α) : Race α :=
  { s.thin result.2 with
    removed := if result.1 then (key, generation) :: s.removed else s.removed }

/-- A step that is not due changes nothing. -/
def step (s : Race α) : Action α → Race α
  | .draw j key value expiresAt now =>
    match s.offers j with
    | none => s.draw j key value expiresAt now
    | some _ => s.thin s.shard
  | .settle j policy admitted =>
    match s.offers j with
    | some ⟨entry, number, none⟩ =>
      if admitted then s.store j ⟨entry, number, none⟩ policy else s.refuse j ⟨entry, number, none⟩
    | _ => s.thin s.shard
  | .look i key now =>
    match s.seen i with
    | none => s.look i key now
    | some _ => s.thin s.shard
  | .remove key generation =>
    s.report key generation (s.shard.removeGeneration key generation)
  | .tryRemove busy key generation =>
    match s.shard.tryRemoveGeneration busy key generation with
    | (some removed, t) => s.report key generation (removed, t)
    | (none, t) => s.thin t.mark
  | .purge now => s.thin (s.shard.purge now).2
  | .sweep now =>
    match s.shard.takeMark with
    | (true, t) => s.thin (t.purge now).2
    | (false, t) => s.thin t
  | .clear => s.thin s.shard.clear

def run (maxItems : Nat) (actions : List (Action α)) : Race α :=
  actions.foldl step (start maxItems)

theorem run_append (maxItems : Nat) (actions : List (Action α)) (a : Action α) :
    run maxItems (actions ++ [a]) = (run maxItems actions).step a := by
  simp [run]

/-- A store that nothing comes between is `insertIf`. -/
theorem shard_store_alone (s : Race α) {j : Nat} (hnew : s.offers j = none) (policy : Policy)
    (key : String) (value : α) (expiresAt now : UInt64) (admitted : Bool) :
    ((s.step (.draw j key value expiresAt now)).step (.settle j policy admitted)).shard =
      (s.shard.insertIf policy key value expiresAt now admitted).2 := by
  have hdraw : s.step (.draw j key value expiresAt now) = s.draw j key value expiresAt now := by
    simp [step, hnew]
  have hoffer : (s.draw j key value expiresAt now).offers j =
      some ⟨.fresh key value expiresAt now s.shard.nextGeneration, s.taken, none⟩ :=
    Roster.put_self _ _ _
  rw [hdraw, step, hoffer, Shard.insertIf]
  cases admitted <;> rfl

variable {s : Race α} {t : Shard α} {j : Nat} {w : Offer α} {key : String} {generation : UInt64}

/-- Store `j` left its entry in the shard at a time. -/
structure Stored (offers : Roster (Offer α)) (j : Nat) (w : Offer α) (time : Nat) : Prop where
  offer : offers j = some w
  verdict : w.verdict = some ⟨true, time⟩

/-- A store that goes on was not settled before. -/
theorem Stored.put {offers : Roster (Offer α)} {time k : Nat} (h : Stored offers j w time)
    (hopen : ∀ u, offers k = some u → u.verdict = none) (u : Offer α) :
    Stored (offers.put k u) j w time := by
  refine ⟨?_, h.verdict⟩
  by_cases hjk : j = k
  · subst hjk
    have hnone := hopen w h.offer
    rw [h.verdict] at hnone
    simp at hnone
  · rw [Roster.put_of_ne hjk]
    exact h.offer

/-- The entry that had a generation was stored, and is held no more. -/
def Gone (s : Race α) (generation : UInt64) : Prop :=
  ∃ j w time, Stored s.offers j w time ∧ w.entry.generation = generation ∧
    ∀ key e, s.shard.find? key = some e → e.generation ≠ generation

/-- The generation of each store goes with its number, and no two have the same number. -/
structure Numbered (taken : Nat) (offers : Roster (Offer α)) : Prop where
  stamped : ∀ j w, offers j = some w → w.number < taken ∧ w.entry.generation = stamp w.number
  injective : ∀ j k w u, offers j = some w → offers k = some u → w.number = u.number → j = k

namespace Numbered

variable {taken : Nat} {offers : Roster (Offer α)}

theorem draw (h : Numbered taken offers) (j : Nat) {e : Entry α} {verdict : Option Verdict}
    (he : e.generation = stamp taken) :
    Numbered (taken + 1) (offers.put j ⟨e, taken, verdict⟩) := by
  refine ⟨?_, ?_⟩
  · intro k u hu
    rcases Roster.put_eq_some_iff.mp hu with ⟨-, rfl⟩ | ⟨-, hold⟩
    · exact ⟨Nat.lt_succ_self _, he⟩
    · exact (h.stamped k u hold).imp_left Nat.lt_succ_of_lt
  · intro k l u v hu hv hsame
    rcases Roster.put_eq_some_iff.mp hu with ⟨rfl, rfl⟩ | ⟨-, hk⟩ <;>
      rcases Roster.put_eq_some_iff.mp hv with ⟨rfl, rfl⟩ | ⟨-, hl⟩
    · rfl
    · exact absurd hsame (Nat.ne_of_gt (h.stamped l v hl).1)
    · exact absurd hsame (Nat.ne_of_lt (h.stamped k u hk).1)
    · exact h.injective k l u v hk hl hsame

/-- A verdict changes neither the entry of a store nor its number. -/
theorem judge (h : Numbered taken offers) {j : Nat} {w : Offer α} (hw : offers j = some w)
    (v : Verdict) : Numbered taken (offers.put j { w with verdict := some v }) := by
  have hback : ∀ k u, offers.put j { w with verdict := some v } k = some u →
      ∃ u₀, offers k = some u₀ ∧ u.entry = u₀.entry ∧ u.number = u₀.number := by
    intro k u hu
    rcases Roster.put_eq_some_iff.mp hu with ⟨rfl, rfl⟩ | ⟨-, hold⟩
    · exact ⟨w, hw, rfl, rfl⟩
    · exact ⟨u, hold, rfl, rfl⟩
  refine ⟨?_, ?_⟩
  · intro k u hu
    obtain ⟨u₀, hu₀, hentry, hnumber⟩ := hback k u hu
    rw [hentry, hnumber]
    exact h.stamped k u₀ hu₀
  · intro k l u v hu hv hsame
    obtain ⟨u₀, hu₀, -, hunumber⟩ := hback k u hu
    obtain ⟨v₀, hv₀, -, hvnumber⟩ := hback l v hv
    rw [hunumber, hvnumber] at hsame
    exact h.injective k l u₀ v₀ hu₀ hv₀ hsame

/-- Two stores never share a generation, as long as the generations do not come round. -/
theorem apart (h : Numbered taken offers) (hsize : taken < UInt64.size) {j k : Nat}
    {w u : Offer α} (hj : offers j = some w) (hk : offers k = some u)
    (hsame : w.entry.generation = u.entry.generation) : j = k := by
  obtain ⟨hw, hwstamp⟩ := h.stamped j w hj
  obtain ⟨hu, hustamp⟩ := h.stamped k u hk
  rw [hwstamp, hustamp] at hsame
  exact h.injective j k w u hj hk
    (stamp_inj (Nat.lt_trans hw hsize) (Nat.lt_trans hu hsize) hsame)

end Numbered

/-- Store `j` left what a key holds. -/
def Left (s : Race α) (key : String) (e : Entry α) (j : Nat) : Prop :=
  s.writer key = some j ∧
    ∃ w time, Stored s.offers j w time ∧ e.SameStore w.entry ∧ time < s.time

/-- What a lookup saw was left by a store before it. -/
def Known (s : Race α) (x : Seen) : Prop :=
  ∃ j w time, x.origin = some j ∧ Stored s.offers j w time ∧ w.entry.key = x.key ∧
    w.entry.generation = x.generation ∧ time < x.time

structure Sound (s : Race α) : Prop where
  ordered : s.shard.Ordered
  next : s.shard.nextGeneration = stamp s.taken
  numbered : Numbered s.taken s.offers
  held : ∀ key e, s.shard.find? key = some e → ∃ j, s.Left key e j
  seen : ∀ i x, s.seen i = some x → s.Known x
  gone : ∀ r ∈ s.removed, s.Gone r.2
  once : s.removed.Nodup

namespace Sound

theorem start (maxItems : Nat) : (Race.start maxItems : Race α).Sound where
  ordered := Shard.ordered_empty maxItems
  next := rfl
  numbered := ⟨(fun _ _ h => nomatch h), (fun _ _ _ _ h => nomatch h)⟩
  held := fun _ _ h => nomatch h
  seen := fun _ _ h => nomatch h
  gone := fun _ h => absurd h List.not_mem_nil
  once := List.nodup_nil

theorem thin (h : s.Sound) (hthin : s.shard.Thins t)
    (hnext : t.nextGeneration = s.shard.nextGeneration) : (s.thin t).Sound where
  ordered := hthin.ordered
  next := hnext.trans h.next
  numbered := h.numbered
  held := by
    intro key e' he'
    obtain ⟨e, he, hsame⟩ := hthin.held key e' he'
    obtain ⟨j, hwriter, w, time, hstored, hentry, htime⟩ := h.held key e he
    exact ⟨j, hwriter, w, time, hstored, hsame.trans hentry, Nat.lt_succ_of_lt htime⟩
  seen := h.seen
  gone := by
    intro r hr
    obtain ⟨j, w, time, hstored, hgeneration, hgone⟩ := h.gone r hr
    refine ⟨j, w, time, hstored, hgeneration, ?_⟩
    intro key e' he'
    obtain ⟨e, he, hsame⟩ := hthin.held key e' he'
    rw [hsame.generation]
    exact hgone key e he
  once := h.once

theorem idle (h : s.Sound) : (s.thin s.shard).Sound := h.thin (.of_entries h.ordered rfl) rfl

/-- A store that goes on under its number. -/
theorem offer (h : s.Sound) (hopen : ∀ u, s.offers j = some u → u.verdict = none)
    (ht : t.entries = s.shard.entries) {taken : Nat} (hnext : t.nextGeneration = stamp taken)
    {u : Offer α} (hnumbered : Numbered taken (s.offers.put j u)) :
    ({ s.thin t with taken := taken, offers := s.offers.put j u } : Race α).Sound where
  ordered := (Shard.Thins.of_entries h.ordered ht).ordered
  next := hnext
  numbered := hnumbered
  held := by
    intro key e he
    obtain ⟨j, hwriter, w, time, hstored, hsame, htime⟩ :=
      h.held key e ((Shard.find?_congr ht key).symm.trans he)
    exact ⟨j, hwriter, w, time, hstored.put hopen u, hsame, Nat.lt_succ_of_lt htime⟩
  seen := by
    intro i x hx
    obtain ⟨j, w, time, horigin, hstored, hrest⟩ := h.seen i x hx
    exact ⟨j, w, time, horigin, hstored.put hopen u, hrest⟩
  gone := by
    intro r hr
    obtain ⟨j, w, time, hstored, hgeneration, hgone⟩ := h.gone r hr
    refine ⟨j, w, time, hstored.put hopen u, hgeneration, ?_⟩
    intro key e he
    exact hgone key e ((Shard.find?_congr ht key).symm.trans he)
  once := h.once

theorem draw (h : s.Sound) (hnew : s.offers j = none) (key : String) (value : α)
    (expiresAt now : UInt64) : (s.draw j key value expiresAt now).Sound := by
  have hopen : ∀ u, s.offers j = some u → u.verdict = none := by
    intro u hu
    rw [hnew] at hu
    simp at hu
  have hnext : s.shard.nextGeneration + 1 = stamp (s.taken + 1) := by
    rw [h.next, stamp_succ]
  exact h.offer (t := s.shard.takeGeneration.2) hopen rfl hnext (h.numbered.draw j h.next)

theorem refuse (h : s.Sound) (hw : s.offers j = some w) (hopen : w.verdict = none) :
    (s.refuse j w).Sound := by
  have hopen : ∀ u, s.offers j = some u → u.verdict = none := by
    intro u hu
    rwa [Option.some.inj (hu.symm.trans hw)]
  exact h.offer hopen rfl h.next (h.numbered.judge hw _)

/-- A store brings an entry that no removal was asked for, since no other store has its
generation. -/
theorem store (h : s.Sound) (hsize : s.taken < UInt64.size) (hw : s.offers j = some w)
    (hopen : w.verdict = none) (policy : Policy) : (s.store j w policy).Sound := by
  let u : Offer α := { w with verdict := some ⟨true, s.time⟩ }
  have hopen : ∀ v, s.offers j = some v → v.verdict = none := by
    intro v hv
    rwa [Option.some.inj (hv.symm.trans hw)]
  have hnow : Stored (s.offers.put j u) j u s.time := ⟨Roster.put_self _ _ _, rfl⟩
  have hfind : ∀ key e, (s.store j w policy).shard.find? key = some e →
      key = w.entry.key ∧ e = w.entry ∨ key ≠ w.entry.key ∧ s.shard.find? key = some e := by
    intro key e he
    have he := (Shard.find?_store _ _ _ _ _).symm.trans he
    split at he
    · next hkey => exact .inl ⟨hkey, (Option.some.inj he).symm⟩
    · next hkey =>
      split at he
      · simp at he
      · exact .inr ⟨hkey, he⟩
  refine ⟨h.ordered.store _ _ _, ?_, h.numbered.judge hw _, ?_, ?_, ?_, h.once⟩
  · exact (Shard.nextGeneration_store _ _ _ _).trans h.next
  · intro key e he
    rcases hfind key e he with ⟨hkey, rfl⟩ | ⟨hkey, hold⟩
    · exact ⟨j, if_pos hkey, u, s.time, hnow, Entry.SameStore.refl _, Nat.lt_succ_self _⟩
    · obtain ⟨k, hwriter, v, time, hstored, hsame, htime⟩ := h.held key e hold
      exact ⟨k, (if_neg hkey).trans hwriter, v, time, hstored.put hopen u, hsame,
        Nat.lt_succ_of_lt htime⟩
  · intro i x hx
    obtain ⟨k, v, time, horigin, hstored, hrest⟩ := h.seen i x hx
    exact ⟨k, v, time, horigin, hstored.put hopen u, hrest⟩
  · intro r hr
    obtain ⟨k, v, time, hstored, hgeneration, hgone⟩ := h.gone r hr
    refine ⟨k, v, time, hstored.put hopen u, hgeneration, ?_⟩
    intro key e he
    rcases hfind key e he with ⟨-, rfl⟩ | ⟨-, hold⟩
    · intro hsame
      obtain rfl := h.numbered.apart hsize hw hstored.offer (hsame.trans hgeneration.symm)
      have hnone := hopen v hstored.offer
      rw [hstored.verdict] at hnone
      simp at hnone
    · exact hgone key e hold

/-- A lookup knows the store that left what it finds expired. -/
theorem look (h : s.Sound) (i : Nat) (key : String) (now : UInt64) : (s.look i key now).Sound := by
  have hthin := h.thin (Shard.thins_lookup h.ordered key now)
    (Shard.nextGeneration_lookup s.shard key now)
  refine ⟨hthin.ordered, hthin.next, hthin.numbered, hthin.held, ?_, hthin.gone, hthin.once⟩
  intro k x hx
  simp only [Race.look] at hx
  rw [Shard.lookup_fst] at hx
  cases hfound : s.shard.find? key with
  | none =>
    rw [hfound] at hx
    exact h.seen k x hx
  | some e =>
    rw [hfound] at hx
    by_cases hexpired : e.isExpired now = true
    · simp only [hexpired, if_true] at hx
      rcases Roster.put_eq_some_iff.mp hx with ⟨-, rfl⟩ | ⟨-, hold⟩
      · obtain ⟨j, hwriter, w, time, hstored, hsame, htime⟩ := h.held key e hfound
        exact ⟨j, w, time, hwriter, hstored, hsame.key.symm.trans (Shard.key_of_find? hfound),
          hsame.generation.symm, htime⟩
      · exact h.seen k x hold
    · simp only [hexpired] at hx
      exact h.seen k x hx

/-- What a removal takes is held no more, and was not taken before. -/
theorem report (h : s.Sound) (hsize : s.taken < UInt64.size) (key : String)
    (generation : UInt64) :
    (s.report key generation (s.shard.removeGeneration key generation)).Sound := by
  have hthins := Shard.thins_removeGeneration h.ordered key generation
  have hthin := h.thin hthins (Shard.nextGeneration_removeGeneration _ _ _)
  refine ⟨hthin.ordered, hthin.next, hthin.numbered, hthin.held, hthin.seen, ?_, ?_⟩
  · intro r hr
    simp only [Race.report] at hr
    split at hr
    · next hremoved =>
      rcases List.mem_cons.mp hr with rfl | hold
      · obtain ⟨e, he, hsame⟩ := Shard.removeGeneration_fst_iff.mp hremoved
        obtain ⟨j, -, w, time, hstored, hentry, -⟩ := h.held key e he
        refine ⟨j, w, time, hstored, hentry.generation.symm.trans hsame, ?_⟩
        intro k e' he' hgeneration
        obtain ⟨e₀, he₀, hback⟩ := hthins.held k e' he'
        obtain ⟨l, -, u, _, hstored', hentry', -⟩ := h.held k e₀ he₀
        have hsame' : u.entry.generation = w.entry.generation := by
          rw [← hentry'.generation, ← hback.generation, hgeneration, ← hentry.generation, hsame]
        obtain rfl := h.numbered.apart hsize hstored'.offer hstored.offer hsame'
        obtain rfl := Option.some.inj (hstored'.offer.symm.trans hstored.offer)
        have hkey : k = key := by
          rw [← Shard.key_of_find? he₀, hentry'.key, ← hentry.key, Shard.key_of_find? he]
        have hleft := (Shard.find?_removeGeneration _ _ _ _).symm.trans he'
        rw [if_pos hkey] at hleft
        have hkept := (Option.filter_eq_some_iff.mp hleft).2
        simp [hgeneration] at hkept
      · exact hthin.gone r hold
    · exact hthin.gone r hr
  · simp only [Race.report]
    split
    · next hremoved =>
      refine List.nodup_cons.mpr ⟨?_, h.once⟩
      intro hmem
      obtain ⟨e, he, hsame⟩ := Shard.removeGeneration_fst_iff.mp hremoved
      obtain ⟨_, _, _, _, _, hgone⟩ := h.gone _ hmem
      exact hgone key e he hsame
    · exact h.once

theorem step (h : s.Sound) (hsize : s.taken < UInt64.size) (a : Action α) : (s.step a).Sound := by
  cases a with
  | draw j key value expiresAt now =>
    rw [Race.step]
    split
    · next hnew => exact h.draw hnew key value expiresAt now
    · exact h.idle
  | settle j policy admitted =>
    rw [Race.step]
    split
    · next entry number hw =>
      split
      · exact h.store hsize hw rfl policy
      · exact h.refuse hw rfl
    · exact h.idle
  | look i key now =>
    rw [Race.step]
    split
    · exact h.look i key now
    · exact h.idle
  | remove key generation => exact h.report hsize key generation
  | tryRemove busy key generation =>
    cases busy with
    | true => exact h.thin (t := s.shard.mark) (.of_entries h.ordered rfl) rfl
    | false => exact h.report hsize key generation
  | purge now => exact h.thin (Shard.thins_purge h.ordered now) rfl
  | sweep now =>
    have hunmarked : s.shard.Thins s.shard.takeMark.2 := .of_entries h.ordered rfl
    have hpurged := Shard.thins_purge hunmarked.ordered now
    rw [Race.step]
    split
    · next t hmark =>
      obtain rfl : s.shard.takeMark.2 = t := congrArg Prod.snd hmark
      exact h.thin ⟨hpurged.ordered, hpurged.held⟩ rfl
    · next t hmark =>
      obtain rfl : s.shard.takeMark.2 = t := congrArg Prod.snd hmark
      exact h.thin hunmarked rfl
  | clear => exact h.thin (Shard.thins_clear s.shard) rfl

end Sound

theorem taken_step (s : Race α) (a : Action α) :
    (s.step a).taken = s.taken ∨ (s.step a).taken = s.taken + 1 := by
  cases a with
  | draw j key value expiresAt now =>
    rw [step]
    split
    · exact .inr rfl
    · exact .inl rfl
  | settle j policy admitted =>
    rw [step]
    split
    · split <;> exact .inl rfl
    · exact .inl rfl
  | look i key now =>
    rw [step]
    split <;> exact .inl rfl
  | remove key generation => exact .inl rfl
  | tryRemove busy key generation => cases busy <;> exact .inl rfl
  | purge now => exact .inl rfl
  | sweep now =>
    rw [step]
    split <;> exact .inl rfl
  | clear => exact .inl rfl

theorem taken_run_le (maxItems : Nat) (actions : List (Action α)) :
    (run maxItems actions).taken ≤ actions.length := by
  induction actions using List.reverseRecOn with
  | nil => exact Nat.le_refl 0
  | append_singleton actions a ih =>
    rw [run_append, List.length_append, List.length_singleton]
    rcases taken_step (run maxItems actions) a with hsame | hmore <;> omega

theorem sound_run (maxItems : Nat) (actions : List (Action α))
    (hsize : (run maxItems actions).taken < UInt64.size) : (run maxItems actions).Sound := by
  induction actions using List.reverseRecOn with
  | nil => exact .start maxItems
  | append_singleton actions a ih =>
    rw [run_append] at hsize ⊢
    have hbefore : (run maxItems actions).taken < UInt64.size := by
      rcases taken_step (run maxItems actions) a with hsame | hmore <;> omega
    exact (ih hbefore).step hbefore a

/-- A removal by key and generation, which waits for the lock or does not. -/
inductive Action.Removes (key : String) (generation : UInt64) : Action α → Prop
  | remove : Removes key generation (.remove key generation)
  | tryRemove (busy : Bool) : Removes key generation (.tryRemove busy key generation)

/-- What can be relied on while removals are under way.  The number of the next generation is
one more than the number of generations taken, and the shard has its word; below the largest
number the words compare as the numbers do. -/
structure Safe (s : Race α) : Prop where
  distinct : (s.shard.entries.map (·.generation)).Nodup
  next : s.shard.nextGeneration = UInt64.ofNat (s.taken + 1)
  below : ∀ e ∈ s.shard.entries, e.generation.toNat < s.taken + 1
  belowWord : s.taken + 1 < UInt64.size →
    ∀ e ∈ s.shard.entries, e.generation < s.shard.nextGeneration
  /-- A removal takes nothing but the entry that the lookup saw. -/
  own : ∀ i x, s.seen i = some x → ∀ a, Action.Removes x.key x.generation a →
    ∀ e ∈ s.shard.entries, e ∉ (s.step a).shard.entries →
      e.key = x.key ∧ e.generation = x.generation ∧ s.writer e.key = x.origin
  /-- What was stored under the key after the lookup stays. -/
  later : ∀ i x, s.seen i = some x → ∀ a, Action.Removes x.key x.generation a →
    ∀ j w time, Stored s.offers j w time → x.time < time → s.writer x.key = some j →
      (s.step a).shard.find? x.key = s.shard.find? x.key
  /-- At most one execution of a removal reports that it removed an entry. -/
  once : s.removed.Nodup

theorem find?_step_removes {a : Action α} (ha : a.Removes key generation) (k : String) :
    (s.step a).shard.find? k = (s.shard.removeGeneration key generation).2.find? k ∨
      (s.step a).shard.find? k = s.shard.find? k := by
  cases ha with
  | remove => exact .inl rfl
  | tryRemove busy =>
    cases busy with
    | true => exact .inr (Shard.find?_congr rfl k)
    | false => exact .inl rfl

namespace Sound

variable {i : Nat} {x : Seen} {e : Entry α} {a : Action α}

theorem stamped (h : s.Sound) (he : e ∈ s.shard.entries) :
    ∃ n < s.taken, e.generation = stamp n := by
  obtain ⟨_, -, w, _, hstored, hsame, -⟩ :=
    h.held e.key e (h.ordered.find?_eq_some_iff.mpr ⟨he, rfl⟩)
  obtain ⟨hnumber, hstamp⟩ := h.numbered.stamped _ w hstored.offer
  exact ⟨w.number, hnumber, hsame.generation.trans hstamp⟩

theorem toNat_generation_lt (h : s.Sound) (hsize : s.taken < UInt64.size)
    (he : e ∈ s.shard.entries) : e.generation.toNat < s.taken + 1 := by
  obtain ⟨n, hn, hstamp⟩ := h.stamped he
  rw [hstamp, stamp, UInt64.toNat_ofNat_of_lt' (by omega)]
  omega

/-- Entries under different keys come from different stores. -/
theorem nodup_generations (h : s.Sound) (hsize : s.taken < UInt64.size) :
    (s.shard.entries.map (·.generation)).Nodup := by
  have hkeys : s.shard.entries.Pairwise fun a b => a.key < b.key := List.pairwise_map.mp h.ordered
  refine List.pairwise_map.mpr (hkeys.imp_of_mem ?_)
  intro a b ha hb hlt hsame
  obtain ⟨_, -, w, _, hw, hwa, -⟩ := h.held a.key a (h.ordered.find?_eq_some_iff.mpr ⟨ha, rfl⟩)
  obtain ⟨_, -, u, _, hu, hub, -⟩ := h.held b.key b (h.ordered.find?_eq_some_iff.mpr ⟨hb, rfl⟩)
  have hgeneration : w.entry.generation = u.entry.generation := by
    rw [← hwa.generation, hsame, hub.generation]
  obtain rfl := h.numbered.apart hsize hw.offer hu.offer hgeneration
  obtain rfl := Option.some.inj (hw.offer.symm.trans hu.offer)
  rw [hwa.key, hub.key] at hlt
  exact String.lt_irrefl _ hlt

/-- The store that left an entry of the generation is the one that the lookup knew. -/
theorem writer_eq_origin (h : s.Sound) (hsize : s.taken < UInt64.size) (hx : s.seen i = some x)
    (he : s.shard.find? key = some e) (hsame : e.generation = x.generation) :
    s.writer key = x.origin := by
  obtain ⟨j, hwriter, w, _, hw, hentry, -⟩ := h.held key e he
  obtain ⟨k, u, _, horigin, hu, -, hgeneration, -⟩ := h.seen i x hx
  have heq : w.entry.generation = u.entry.generation := by
    rw [← hentry.generation, hsame, hgeneration]
  rw [hwriter, horigin, h.numbered.apart hsize hw.offer hu.offer heq]

theorem own (h : s.Sound) (hsize : s.taken < UInt64.size) (hx : s.seen i = some x)
    (ha : a.Removes x.key x.generation) (he : e ∈ s.shard.entries)
    (hlost : e ∉ (s.step a).shard.entries) :
    e.key = x.key ∧ e.generation = x.generation ∧ s.writer e.key = x.origin := by
  have hfound : s.shard.find? e.key = some e := h.ordered.find?_eq_some_iff.mpr ⟨he, rfl⟩
  have hgone : (s.step a).shard.find? e.key ≠ some e := fun h => hlost (Shard.mem_of_find? h)
  rcases find?_step_removes (s := s) ha e.key with hremoved | hsame
  · rw [hremoved, Shard.find?_removeGeneration, hfound] at hgone
    by_cases hkey : e.key = x.key
    · have hgeneration : e.generation = x.generation := by
        simpa [hkey, Option.filter] using hgone
      exact ⟨hkey, hgeneration, h.writer_eq_origin hsize hx hfound hgeneration⟩
    · simp [hkey] at hgone
  · exact absurd (hsame.trans hfound) hgone

theorem later (h : s.Sound) (hsize : s.taken < UInt64.size) (hx : s.seen i = some x)
    (ha : a.Removes x.key x.generation) {time : Nat} (hw : Stored s.offers j w time)
    (hlater : x.time < time) (hwriter : s.writer x.key = some j) :
    (s.step a).shard.find? x.key = s.shard.find? x.key := by
  rcases find?_step_removes (s := s) ha x.key with hremoved | hsame
  · rw [hremoved, Shard.find?_removeGeneration, if_pos rfl]
    cases he : s.shard.find? x.key with
    | none => rfl
    | some e =>
      obtain ⟨k, u, _, horigin, hu, -, -, hbefore⟩ := h.seen i x hx
      have hne : e.generation ≠ x.generation := by
        intro hgeneration
        have hsame := h.writer_eq_origin hsize hx he hgeneration
        obtain rfl : j = k := Option.some.inj (hwriter.symm.trans (hsame.trans horigin))
        obtain rfl := Option.some.inj (hw.offer.symm.trans hu.offer)
        have htime := congrArg Verdict.time (Option.some.inj (hw.verdict.symm.trans hu.verdict))
        simp only at htime
        omega
      simp [Option.filter, hne]
  · exact hsame

theorem safe (h : s.Sound) (hsize : s.taken < UInt64.size) : s.Safe where
  distinct := h.nodup_generations hsize
  next := h.next
  below := fun e he => h.toNat_generation_lt hsize he
  belowWord := by
    intro hword e he
    have hlt := h.toNat_generation_lt hsize he
    rw [UInt64.lt_iff_toNat_lt, h.next, stamp, UInt64.toNat_ofNat_of_lt' hword]
    exact hlt
  own := fun i x hx a ha e he hlost => h.own hsize hx ha he hlost
  later := fun i x hx a ha j w time hw hlater hwriter => h.later hsize hx ha hw hlater hwriter
  once := h.once

end Sound

/-- As long as the generations of a shard do not come round, removals take only what they
were asked for, however late and however often they are carried out. -/
theorem safe_run (maxItems : Nat) (actions : List (Action α))
    (hsize : (run maxItems actions).taken < UInt64.size) : (run maxItems actions).Safe :=
  (sound_run maxItems actions hsize).safe hsize

/-- Two stores of a key take their generations before either is stored, the second is stored
first, and a removal of the first is carried out twice. -/
def crossedStores : List (Action Nat) :=
  [.draw 0 "a" 1 10 0, .draw 1 "a" 2 12 1, .settle 1 .standard true, .look 0 "a" 13,
    .settle 0 .standard true, .remove "a" 2, .tryRemove false "a" 2]

theorem safe_crossedStores :
    (run 1 crossedStores).taken < UInt64.size ∧ (run 1 crossedStores).Safe := by
  have hsize : (run 1 crossedStores).taken < UInt64.size :=
    Nat.lt_of_le_of_lt (taken_run_le 1 crossedStores) (by decide)
  exact ⟨hsize, safe_run 1 crossedStores hsize⟩

end Race

end ArtifactPlane.Cache
