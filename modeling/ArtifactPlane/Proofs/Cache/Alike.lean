import Mathlib.Data.List.InsertIdx
import ArtifactPlane.Proofs.Cache.Bare
import ArtifactPlane.Proofs.Cache.Lossy
import ArtifactPlane.Proofs.Cache.Product

/-!
Caches that go on alike.  Main statement: two caches that differ in generations only, and
whose requests are for the same entries, stay so whatever happens to both.

What a removal does is decided by whether its request is for the entry that its key holds.
A store makes its entry the one of no earlier request, since generations number the stores of
a shard, and nothing else makes a request one for an entry that it was not for.
-/

namespace ArtifactPlane.Cache

variable {α : Type} {c d b c' d' : Cache α} {key : String} {now : UInt64}

/-- What happens to a cache at work.  A clear and a purge may be met between any two of their
steps. -/
inductive Event (α : Type) where
  | act (a : Act α)
  | bump
  | emptyShard (i : Nat)
  | countClear
  | purgeShard (now : UInt64) (i : Nat)

namespace Event

def apply (c : Cache α) : Event α → Cache α
  | act a => a.apply c
  | bump => c.bumpEpoch
  | emptyShard i => c.clearShard i
  | countClear => c.recordClear
  | purgeShard now i => c.purgeShard now i

/-- Whether an event is a store of a key of a shard, when there are `count` of them. -/
def storesAt (count i : Nat) : Event α → Bool
  | act (.call (.store s)) => Hash.shard s.key count == i
  | _ => false

theorem shardCount_apply (c : Cache α) (event : Event α) :
    (event.apply c).shardCount = c.shardCount := by
  cases event with
  | act a => exact a.shardCount_apply c
  | bump => rfl
  | emptyShard i => exact shardCount_setShard c i _
  | countClear => rfl
  | purgeShard now i => exact shardCount_setShard c i _

theorem wellPlaced_apply (h : c.WellPlaced) (event : Event α) : (event.apply c).WellPlaced := by
  cases event with
  | act a => exact a.wellPlaced_apply h
  | bump => exact ⟨h.shardCount_pos, h.ordered, h.home⟩
  | emptyShard i => exact (thins_clearShard h i).placed
  | countClear => exact h.congr rfl rfl
  | purgeShard now i => exact (thins_purgeShard h now i).placed

theorem addressed_apply (h : c.Addressed) (event : Event α) : (event.apply c).Addressed := by
  have hcount := event.shardCount_apply c
  cases event with
  | act a => exact h.apply a
  | bump => exact h.of_mem hcount fun r hr => Or.inl hr
  | emptyShard i => exact h.of_mem hcount fun r hr => Or.inl hr
  | countClear => exact h.of_mem hcount fun r hr => Or.inl hr
  | purgeShard now i => exact h.of_mem hcount fun r hr => Or.inl hr

end Event

/-- A cache after some events. -/
def through (c : Cache α) (events : List (Event α)) : Cache α := events.foldl Event.apply c

/-- Nothing was stored: entries and new requests have generations that entries had before. -/
structure Quiet (c d : Cache α) : Prop where
  next : ∀ i, d.nextGeneration i = c.nextGeneration i
  held : ∀ k e', d.find? k = some e' → ∃ e, c.find? k = some e ∧ e'.generation = e.generation
  asked : ∀ r ∈ d.queue, r ∈ c.queue ∨ ∃ e, c.find? r.key = some e ∧ e.generation = r.generation

theorem Quiet.of_thins (h : c.Thins d) (hnext : ∀ i, d.nextGeneration i = c.nextGeneration i)
    (hasked : ∀ r ∈ d.queue,
      r ∈ c.queue ∨ ∃ e, c.find? r.key = some e ∧ e.generation = r.generation) : c.Quiet d := by
  refine ⟨hnext, fun k e' he' => ?_, hasked⟩
  obtain ⟨e, he, hsame⟩ := h.held k e' he'
  exact ⟨e, he, hsame.generation⟩

theorem Quiet.trans (hcd : c.Quiet d) (hdb : d.Quiet b) : c.Quiet b := by
  refine ⟨fun i => (hdb.next i).trans (hcd.next i), fun k e he => ?_, fun r hr => ?_⟩
  · obtain ⟨e₁, he₁, hsame₁⟩ := hdb.held k e he
    obtain ⟨e₂, he₂, hsame₂⟩ := hcd.held k e₁ he₁
    exact ⟨e₂, he₂, hsame₁.trans hsame₂⟩
  · rcases hdb.asked r hr with hold | ⟨e₁, he₁, hsame₁⟩
    · exact hcd.asked r hold
    · obtain ⟨e₂, he₂, hsame₂⟩ := hcd.held r.key e₁ he₁
      exact Or.inr ⟨e₂, he₂, hsame₂.symm.trans hsame₁⟩

theorem Quiet.of_shards (hshards : d.shards = c.shards) (hqueue : d.queue = c.queue) :
    c.Quiet d := by
  refine ⟨nextGeneration_congr hshards, fun k e he => ?_, fun r hr => Or.inl (hqueue ▸ hr)⟩
  rw [find?_congr hshards] at he
  exact ⟨e, he, rfl⟩

theorem Quiet.of_setShard (h : c.Thins d) {i : Nat} (s : Shard α)
    (hnext : s.nextGeneration = (c.shardAt i).nextGeneration)
    (hshards : d.shards = (c.setShard i s).shards) (hqueue : d.queue = c.queue) : c.Quiet d := by
  refine .of_thins h (fun j => ?_) fun r hr => Or.inl (hqueue ▸ hr)
  rw [nextGeneration_congr hshards]
  exact same_setShard Shard.nextGeneration hnext j

theorem queue_scheduleWhile_of_full (h : ¬ c.HasRoom) (busy : Bool) (r : ReapRequest) :
    (c.scheduleWhile busy r).queue = c.queue := by
  rw [scheduleWhile_of_full h]
  cases busy with
  | true => rfl
  | false => exact queue_reap _ r

theorem nextGeneration_scheduleWhile (busy : Bool) (c : Cache α) (r : ReapRequest) (i : Nat) :
    (c.scheduleWhile busy r).nextGeneration i = c.nextGeneration i := by
  by_cases hroom : c.HasRoom
  · rw [scheduleWhile_of_hasRoom hroom]
    rfl
  · rw [scheduleWhile_of_full hroom]
    cases busy with
    | true =>
      exact same_setShard (s := (c.shardAt r.shard).mark) Shard.nextGeneration rfl i
    | false => exact nextGeneration_reap _ r i

theorem quiet_look (h : c.WellPlaced) (key : String) (now : UInt64) :
    c.Quiet (c.look key now).2 :=
  .of_thins (thins_look h key now) (nextGeneration_look c key now)
    fun _ hr => Or.inl ((queue_look c key now).1 ▸ hr)

theorem exists_of_due {r : ReapRequest} (h : c.due r = true) :
    ∃ e, c.find? r.key = some e ∧ e.generation = r.generation := by
  obtain ⟨e, he, hsame⟩ := (Option.any_eq_true _ _).mp h
  exact ⟨e, he, beq_iff_eq.mp hsame⟩

theorem quiet_scheduleWhile (h : c.WellPlaced) (busy : Bool) {r : ReapRequest}
    (hdue : c.due r = true) : c.Quiet (c.scheduleWhile busy r) := by
  refine .of_thins (thins_scheduleWhile h busy r) (nextGeneration_scheduleWhile busy c r) ?_
  intro x hx
  rcases mem_queue_scheduleWhile hx with hold | rfl
  · exact Or.inl hold
  · exact Or.inr (exists_of_due hdue)

/-- A lookup asks for the removal of the entry that it found. -/
theorem due_of_staleRequest? (h : c.WellPlaced) {r : ReapRequest}
    (hr : c.staleRequest? key now = some r) : (c.look key now).2.due r = true := by
  rw [staleRequest?_eq] at hr
  obtain ⟨e, he, rfl⟩ := Option.map_eq_some_iff.mp hr
  obtain ⟨he, -⟩ := Option.filter_eq_some_iff.mp he
  rw [due, find?_look h.shardCount_pos]
  simp [he]

theorem quiet_getWhile (h : c.WellPlaced) (busy : Bool) (key : String) (now : UInt64) :
    c.Quiet (c.getWhile busy key now).2 := by
  have hlook := quiet_look h key now
  rw [getWhile_snd]
  cases hrequest : c.staleRequest? key now with
  | none => exact hlook
  | some r =>
    exact hlook.trans (quiet_scheduleWhile (h.look key now) busy (due_of_staleRequest? h hrequest))

theorem quiet_reapAt (h : c.WellPlaced) (n : Nat) : c.Quiet (c.reapAt n) := by
  rw [reapAt]
  cases c.queue[n]? with
  | none => exact .of_shards rfl rfl
  | some r =>
    have hpopped : c.Thins { c with queue := c.queue.eraseIdx n } := .of_eq h rfl rfl
    refine .of_thins (hpopped.trans (thins_reap hpopped.placed r)) (nextGeneration_reap _ r) ?_
    intro x hx
    rw [queue_reap] at hx
    exact Or.inl (List.mem_of_mem_eraseIdx hx)

theorem quiet_purge (h : c.WellPlaced) (now : Instant) : c.Quiet (c.purge now).2 := by
  refine ⟨nextGeneration_purge c now, fun k e he => ?_, fun r hr => Or.inl hr⟩
  rw [h.find?_purge] at he
  exact ⟨e, (Option.filter_eq_some_iff.mp he).1, rfl⟩

theorem quiet_clear (c : Cache α) : c.Quiet c.clear := by
  refine ⟨nextGeneration_clear c, fun k e he => ?_, fun r hr => ?_⟩
  · rw [find?_clear] at he
    simp at he
  · rw [queue_clear] at hr
    exact Or.inl hr

theorem quiet_sweepShard (h : c.WellPlaced) (now : Instant) (i : Nat) :
    c.Quiet (c.sweepShard now i) := by
  have hthins := thins_sweepShard h now i
  rw [sweepShard, Shard.takeMark] at hthins ⊢
  cases hmark : (c.shardAt i).sweepPending with
  | false => exact .of_shards rfl rfl
  | true =>
    rw [hmark] at hthins
    exact .of_setShard hthins ((c.shardAt i).takeMark.2.purge now.millis).2 rfl rfl rfl

/-- Every event but a store. -/
theorem Event.quiet (h : c.WellPlaced) {event : Event α}
    (hevent : ∀ s, event ≠ .act (.call (.store s))) : c.Quiet (event.apply c) := by
  cases event with
  | act a =>
    cases a with
    | getBusy key now => exact quiet_getWhile h true key now
    | sweep now i => exact quiet_sweepShard h now i
    | call op =>
      cases op with
      | store s => exact absurd rfl (hevent s)
      | get key now => exact quiet_getWhile h false key now
      | purge now => exact quiet_purge h now
      | clear => exact quiet_clear c
      | reap n => exact quiet_reapAt h n
  | bump => exact .of_shards rfl rfl
  | emptyShard i => exact .of_setShard (thins_clearShard h i) (c.shardAt i).clear rfl rfl rfl
  | countClear => exact .of_shards rfl rfl
  | purgeShard now i =>
    exact .of_setShard (thins_purgeShard h now i) ((c.shardAt i).purge now).2 rfl rfl rfl

/-- Every generation is that of one of the stores which the shard has taken so far. -/
structure Numbered (taken : Nat → Nat) (c : Cache α) : Prop where
  placed : c.WellPlaced
  addressed : c.Addressed
  next : ∀ i, c.nextGeneration i = stamp (taken i)
  entries : ∀ k e, c.find? k = some e → ∃ m < taken (c.shardOf k), e.generation = stamp m
  asked : ∀ r ∈ c.queue, ∃ m < taken (c.shardOf r.key), r.generation = stamp m

variable {taken : Nat → Nat}

theorem numbered_ofConfig (config : Config) :
    (ofConfig config : Cache α).Numbered fun _ => 0 := by
  refine ⟨.ofConfig config, addressed_ofConfig config, fun i => ?_, fun k e he => ?_,
    fun r hr => absurd hr List.not_mem_nil⟩
  · unfold nextGeneration shardAt ofConfig
    rw [Array.getD_eq_getD_getElem?, Array.getElem?_replicate]
    split <;> rfl
  · exact absurd (Shard.stores_of_find? he) (not_stores_ofConfig config _ k e.value)

theorem Numbered.of_quiet (h : c.Numbered taken) (hquiet : c.Quiet d)
    (hcount : d.shardCount = c.shardCount) (hplaced : d.WellPlaced)
    (haddressed : d.Addressed) : d.Numbered taken := by
  refine ⟨hplaced, haddressed, fun i => (hquiet.next i).trans (h.next i), fun k e' he' => ?_,
    fun r hr => ?_⟩
  · obtain ⟨e, he, hsame⟩ := hquiet.held k e' he'
    rw [shardOf_congr hcount, hsame]
    exact h.entries k e he
  · rw [shardOf_congr hcount]
    rcases hquiet.asked r hr with hold | ⟨e, he, hsame⟩
    · exact h.asked r hold
    · rw [← hsame]
      exact h.entries r.key e he

/-- How many stores the shards have taken after one more of a key. -/
def oneMore (taken : Nat → Nat) (i : Nat) : Nat → Nat :=
  fun j => taken j + if i == j then 1 else 0

theorem le_oneMore (taken : Nat → Nat) (i j : Nat) : taken j ≤ oneMore taken i j :=
  Nat.le_add_right _ _

theorem Numbered.setIf (h : c.Numbered taken) (key : String) (value : α) (expiresAt now : UInt64)
    (admitted : Bool) : (c.setIf key value expiresAt now admitted).2.Numbered
      (oneMore taken (c.shardOf key)) := by
  have hpos := h.placed.shardCount_pos
  have hcount : (c.setIf key value expiresAt now admitted).2.shardCount = c.shardCount :=
    (shardCount_congr (shards_setIf c key value expiresAt now admitted)).trans
      (shardCount_setShard _ _ _)
  have hqueue := queue_setIf c key value expiresAt now admitted
  have hmore : ∀ k m, m < taken (c.shardOf k) → m < oneMore taken (c.shardOf key) (c.shardOf k) :=
    fun k m hm => Nat.lt_of_lt_of_le hm (le_oneMore taken _ _)
  refine ⟨h.placed.setIf key value expiresAt now admitted, ?_, fun i => ?_, fun k e he => ?_,
    fun r hr => ?_⟩
  · exact h.addressed.of_mem hcount fun r hr => Or.inl (hqueue ▸ hr)
  · rw [nextGeneration_setIf hpos, h.next]
    by_cases hown : i = c.shardOf key
    · simp [oneMore, hown, stamp_succ]
    · simp [oneMore, hown, Ne.symm hown]
  · rw [shardOf_congr hcount]
    rw [find?_setIf hpos] at he
    split at he
    · next hown =>
      obtain rfl := Option.some.inj he
      rw [hown.2]
      refine ⟨taken (c.shardOf key), ?_, h.next _⟩
      simp [oneMore]
    · split at he
      · simp at he
      · obtain ⟨m, hm, hstamp⟩ := h.entries k e he
        exact ⟨m, hmore k m hm, hstamp⟩
  · rw [hqueue] at hr
    rw [shardOf_congr hcount]
    obtain ⟨m, hm, hstamp⟩ := h.asked r hr
    exact ⟨m, hmore r.key m hm, hstamp⟩

/-- No request is for the entry that the next store leaves, as long as generations do not
come round. -/
theorem Numbered.fresh (h : c.Numbered taken) {r : ReapRequest} (hr : r ∈ c.queue)
    (hroom : taken (c.shardOf r.key) < UInt64.size) :
    c.nextGeneration (c.shardOf r.key) ≠ r.generation := by
  obtain ⟨m, hm, hstamp⟩ := h.asked r hr
  rw [h.next, hstamp]
  intro heq
  have hsame := stamp_inj hroom (Nat.lt_trans hm hroom) heq
  omega

/-- The queued requests, each with whether it is for the entry that its key holds. -/
def requests (c : Cache α) : List (ReapRequest × Bool) :=
  c.queue.map fun r => (r.bare, c.due r)

/-- The caches differ in generations only, and their requests are for the same entries. -/
structure Alike (c d : Cache α) : Prop where
  bare : c.bare = d.bare
  requests : c.requests = d.requests

theorem contains_eq (c : Cache α) (key : String) : c.contains key = (c.find? key).isSome := rfl

theorem contains_of_bare (h : c.bare = d.bare) (key : String) :
    c.contains key = d.contains key := by
  have hfound := congrArg Option.isSome (find?_of_bare h key)
  simpa [contains_eq] using hfound

/-- A request stays for the entry of its key until that entry goes. -/
theorem Quiet.due (h : c.Quiet d) (r : ReapRequest) : d.due r = (c.due r && d.contains r.key) := by
  rw [Cache.due, Cache.due, contains_eq]
  cases he' : d.find? r.key with
  | none => simp
  | some e' =>
    obtain ⟨e, he, hsame⟩ := h.held r.key e' he'
    simp [he, hsame]

/-- Requests that are for the same entries stay so while nothing is stored. -/
theorem map_requests_congr (hc : c.Quiet c') (hd : d.Quiet d') (hbare : c'.bare = d'.bare)
    {xs ys : List ReapRequest}
    (h : xs.map (fun r => (r.bare, c.due r)) = ys.map fun r => (r.bare, d.due r)) :
    xs.map (fun r => (r.bare, c'.due r)) = ys.map fun r => (r.bare, d'.due r) := by
  have hleft : ∀ zs : List ReapRequest, zs.map (fun r => (r.bare, c'.due r)) =
      (zs.map fun r => (r.bare, c.due r)).map fun p => (p.1, p.2 && c'.contains p.1.key) := by
    simp [Function.comp_def, hc.due, ReapRequest.bare]
  have hright : ∀ zs : List ReapRequest, zs.map (fun r => (r.bare, d'.due r)) =
      (zs.map fun r => (r.bare, d.due r)).map fun p => (p.1, p.2 && d'.contains p.1.key) := by
    simp [Function.comp_def, hd.due, ReapRequest.bare]
  rw [hleft, hright, h]
  simp only [contains_of_bare hbare]

theorem Alike.of_quiet (h : c.Alike d) (hc : c.Quiet c') (hd : d.Quiet d')
    (hbare : c'.bare = d'.bare) (hcq : c'.queue = c.queue) (hdq : d'.queue = d.queue) :
    c'.Alike d' := by
  refine ⟨hbare, ?_⟩
  rw [Cache.requests, Cache.requests, hcq, hdq]
  exact map_requests_congr hc hd hbare h.requests

theorem Alike.scheduleWhile (h : c.Alike d) (hc : c.WellPlaced) (hd : d.WellPlaced) (busy : Bool)
    {r x : ReapRequest} (hrx : r.bare = x.bare) (hr : r.shard = c.shardOf r.key)
    (hcr : c.due r = true) (hdx : d.due x = true) :
    (c.scheduleWhile busy r).Alike (d.scheduleWhile busy x) := by
  have hbare := scheduleWhile_congr h.bare busy hrx hr (hcr.trans hdx.symm)
  have hcq := quiet_scheduleWhile hc busy hcr
  have hdq := quiet_scheduleWhile hd busy hdx
  by_cases hroom : c.HasRoom
  · refine ⟨hbare, ?_⟩
    have hqueues : (c.queue ++ [r]).map (fun r => (r.bare, c.due r)) =
        (d.queue ++ [x]).map fun r => (r.bare, d.due r) := by
      rw [List.map_append, List.map_append, List.map_singleton, List.map_singleton, hrx, hcr, hdx]
      exact congrArg (· ++ _) h.requests
    have hrequests := map_requests_congr hcq hdq hbare hqueues
    rw [scheduleWhile_of_hasRoom hroom,
      scheduleWhile_of_hasRoom ((hasRoom_of_bare h.bare).mp hroom)] at hrequests ⊢
    exact hrequests
  · exact h.of_quiet hcq hdq hbare (queue_scheduleWhile_of_full hroom busy r)
      (queue_scheduleWhile_of_full (mt (hasRoom_of_bare h.bare).mpr hroom) busy x)

theorem staleRequest?_congr (h : c.bare = d.bare) (key : String) (now : UInt64) :
    (c.staleRequest? key now).map ReapRequest.bare =
      (d.staleRequest? key now).map ReapRequest.bare := by
  have hfound := (look_congr h key now).1
  have hown := shardOf_of_bare h key
  rw [staleRequest?, staleRequest?, hown]
  generalize (c.look key now).1 = x at hfound
  generalize (d.look key now).1 = y at hfound
  cases x <;> cases y <;> first | rfl | exact absurd hfound (by simp [Lookup.bare])

theorem Alike.getWhile (h : c.Alike d) (hc : c.WellPlaced) (hd : d.WellPlaced) (busy : Bool)
    (key : String) (now : UInt64) :
    (c.getWhile busy key now).2.Alike (d.getWhile busy key now).2 := by
  have hlooked : (c.look key now).2.Alike (d.look key now).2 :=
    h.of_quiet (quiet_look hc key now) (quiet_look hd key now) (look_congr h.bare key now).2
      (queue_look c key now).1 (queue_look d key now).1
  have hrequests := staleRequest?_congr h.bare key now
  rw [getWhile_snd, getWhile_snd]
  cases hcr : c.staleRequest? key now with
  | none =>
    rw [hcr] at hrequests
    rw [Option.map_eq_none_iff.mp hrequests.symm]
    exact hlooked
  | some r =>
    rw [hcr] at hrequests
    obtain ⟨x, hdx, hxr⟩ := Option.map_eq_some_iff.mp hrequests.symm
    rw [hdx]
    refine hlooked.scheduleWhile (hc.look key now) (hd.look key now) busy hxr.symm ?_
      (due_of_staleRequest? hc hcr) (due_of_staleRequest? hd hdx)
    rw [shardOf_look]
    exact shard_of_staleRequest? hcr

theorem queue_reapAt (c : Cache α) (n : Nat) : (c.reapAt n).queue = c.queue.eraseIdx n := by
  rw [Cache.reapAt]
  cases hn : c.queue[n]? with
  | none => exact (List.eraseIdx_of_length_le (List.getElem?_eq_none_iff.mp hn)).symm
  | some r => exact queue_reap _ r

theorem Alike.reapAt (h : c.Alike d) (hc : c.WellPlaced) (hd : d.WellPlaced)
    (haddressed : c.Addressed) (n : Nat) : (c.reapAt n).Alike (d.reapAt n) := by
  have hrest : (c.queue.eraseIdx n).map (fun r => (r.bare, c.due r)) =
      (d.queue.eraseIdx n).map fun r => (r.bare, d.due r) := by
    rw [← List.eraseIdx_map, ← List.eraseIdx_map]
    exact congrArg (·.eraseIdx n) h.requests
  have hbare : (c.reapAt n).bare = (d.reapAt n).bare := by
    have hnth := congrArg (·[n]?) h.requests
    simp only [Cache.requests, List.getElem?_map] at hnth
    rw [Cache.reapAt, Cache.reapAt]
    cases hr : c.queue[n]? with
    | none =>
      rw [hr] at hnth
      rw [Option.map_eq_none_iff.mp hnth.symm]
      exact h.bare
    | some r =>
      rw [hr] at hnth
      obtain ⟨x, hx, hxr⟩ := Option.map_eq_some_iff.mp hnth.symm
      obtain ⟨hxr, hdue⟩ := Prod.mk.inj hxr
      rw [hx]
      have hpopped : ({ c with queue := c.queue.eraseIdx n } : Cache α).bare =
          ({ d with queue := d.queue.eraseIdx n } : Cache α).bare := by
        change { c.bare with queue := (c.queue.eraseIdx n).map ReapRequest.bare } =
          { d.bare with queue := (d.queue.eraseIdx n).map ReapRequest.bare }
        rw [← List.eraseIdx_map, ← List.eraseIdx_map, queue_of_bare h.bare, h.bare]
      exact reap_congr hpopped hxr.symm (haddressed r (List.mem_of_getElem? hr)) hdue.symm
  refine ⟨hbare, ?_⟩
  rw [Cache.requests, Cache.requests, queue_reapAt, queue_reapAt]
  exact map_requests_congr (quiet_reapAt hc n) (quiet_reapAt hd n) hbare hrest

/-- Of a cache that differs in generations only, a store reads the same. -/
theorem Store.attempt?_of_bare (h : c.bare = d.bare) (s : Store α) :
    s.attempt? c = s.attempt? d := by
  rw [Store.attempt?_eq, Store.attempt?_eq, epoch_of_bare h]

/-- A store is for none of the requests that were there, so these are for the entry of their
key if they were, and if it is still held. -/
theorem Numbered.due_setIf {taken : Nat → Nat} (h : c.Numbered taken) {r : ReapRequest}
    (hr : r ∈ c.queue) (hroom : taken (c.shardOf r.key) < UInt64.size) (key : String) (value : α)
    (expiresAt now : UInt64) (admitted : Bool) :
    (c.setIf key value expiresAt now admitted).2.due r = (c.due r && !(admitted && r.key == key) &&
      (c.setIf key value expiresAt now admitted).2.contains r.key) := by
  rw [due, due, contains_eq, find?_setIf h.placed.shardCount_pos]
  by_cases hown : admitted = true ∧ r.key = key
  · have hne := h.fresh hr hroom
    obtain ⟨rfl, rfl⟩ := hown
    have hnew : ¬ (c.shardAt (c.shardOf r.key)).nextGeneration = r.generation := hne
    simp [Entry.fresh, hnew]
  · have hother : (admitted && r.key == key) = false := by
      simpa using hown
    rw [if_neg hown, hother]
    split
    · simp
    · cases c.find? r.key <;> simp

theorem Numbered.requests_setIf {taken : Nat → Nat} (h : c.Numbered taken)
    (hroom : ∀ i, taken i < UInt64.size) (key : String) (value : α) (expiresAt now : UInt64)
    (admitted : Bool) :
    (c.setIf key value expiresAt now admitted).2.requests = c.requests.map fun p =>
      (p.1, p.2 && !(admitted && p.1.key == key) &&
        (c.setIf key value expiresAt now admitted).2.contains p.1.key) := by
  rw [Cache.requests, Cache.requests, queue_setIf, List.map_map]
  refine List.map_congr_left fun r hr => ?_
  rw [h.due_setIf hr (hroom _)]
  rfl

theorem Alike.setIf {tc td : Nat → Nat} (h : c.Alike d) (hc : c.Numbered tc) (hd : d.Numbered td)
    (hcroom : ∀ i, tc i < UInt64.size) (hdroom : ∀ i, td i < UInt64.size) (key : String) (value : α)
    (expiresAt now : UInt64) (admitted : Bool) :
    (c.setIf key value expiresAt now admitted).2.Alike
      (d.setIf key value expiresAt now admitted).2 := by
  have hbare := (setIf_congr h.bare key value expiresAt now admitted).2
  refine ⟨hbare, ?_⟩
  rw [hc.requests_setIf hcroom, hd.requests_setIf hdroom, h.requests]
  simp only [contains_of_bare hbare]

theorem Alike.store {tc td : Nat → Nat} (h : c.Alike d) (hc : c.Numbered tc) (hd : d.Numbered td)
    (hcroom : ∀ i, tc i < UInt64.size) (hdroom : ∀ i, td i < UInt64.size) (s : Store α) :
    (s.apply c).Alike (s.apply d) := by
  rw [Store.apply_eq, Store.apply_eq, ← Store.attempt?_of_bare h.bare]
  cases s.attempt? c with
  | none => exact h
  | some a => exact h.setIf hc hd hcroom hdroom a.key a.value a.expiresAt a.now a.admitted

/-- Caches that are alike stay so, whatever happens to both. -/
theorem Alike.apply {tc td : Nat → Nat} (h : c.Alike d) (hc : c.Numbered tc) (hd : d.Numbered td)
    (hcroom : ∀ i, tc i < UInt64.size) (hdroom : ∀ i, td i < UInt64.size) (event : Event α) :
    (event.apply c).Alike (event.apply d) := by
  have hcp := hc.placed
  have hdp := hd.placed
  cases event with
  | act a =>
    cases a with
    | getBusy key now => exact h.getWhile hcp hdp true key now
    | sweep now i =>
      exact h.of_quiet (quiet_sweepShard hcp now i) (quiet_sweepShard hdp now i)
        (sweepShard_congr h.bare now i) (queue_sweepShard now c i) (queue_sweepShard now d i)
    | call op =>
      cases op with
      | store s => exact h.store hc hd hcroom hdroom s
      | get key now => exact h.getWhile hcp hdp false key now
      | purge now =>
        have hpurge := congrArg (·.purge now) h.bare
        simp only [purge_bare, Prod.mk.injEq] at hpurge
        exact h.of_quiet (quiet_purge hcp now) (quiet_purge hdp now) hpurge.2 rfl rfl
      | clear =>
        refine h.of_quiet (quiet_clear c) (quiet_clear d) ?_ (queue_clear c) (queue_clear d)
        rw [Event.apply, Event.apply, Act.apply, Act.apply, Op.apply, Op.apply, bare_clear,
          bare_clear, h.bare]
      | reap n => exact h.reapAt hcp hdp hc.addressed n
  | bump =>
    exact h.of_quiet (.of_shards rfl rfl) (.of_shards rfl rfl) (congrArg bumpEpoch h.bare) rfl rfl
  | emptyShard i =>
    exact h.of_quiet (Event.quiet hcp (by simp)) (Event.quiet hdp (by simp))
      (clearShard_congr h.bare i) rfl rfl
  | countClear =>
    exact h.of_quiet (.of_shards rfl rfl) (.of_shards rfl rfl) (congrArg recordClear h.bare) rfl rfl
  | purgeShard now i =>
    exact h.of_quiet (Event.quiet hcp (by simp)) (Event.quiet hdp (by simp))
      (purgeShard_congr h.bare now i) rfl rfl

/-- The stores that some events make in a shard. -/
def storesAt (count : Nat) (events : List (Event α)) (i : Nat) : Nat :=
  events.countP (·.storesAt count i)

theorem storesAt_cons (count : Nat) (event : Event α) (events : List (Event α)) (i : Nat) :
    storesAt count (event :: events) i =
      storesAt count events i + if event.storesAt count i then 1 else 0 :=
  List.countP_cons

theorem storesAt_append (count : Nat) (xs ys : List (Event α)) (i : Nat) :
    storesAt count (xs ++ ys) i = storesAt count xs i + storesAt count ys i :=
  List.countP_append

theorem Numbered.apply {taken : Nat → Nat} (h : c.Numbered taken) (event : Event α) :
    ∃ t, (event.apply c).Numbered t ∧
      ∀ i, t i ≤ taken i + if event.storesAt c.shardCount i then 1 else 0 := by
  by_cases hstore : ∃ s, event = .act (.call (.store s))
  · obtain ⟨s, rfl⟩ := hstore
    simp only [Event.apply, Act.apply, Op.apply, Store.apply_eq, Store.attempt?_eq]
    cases hattempt : s.attemptAt? c.epoch with
    | none => exact ⟨taken, h, fun i => Nat.le_add_right _ _⟩
    | some a =>
      refine ⟨_, h.setIf a.key a.value a.expiresAt a.now a.admitted, fun i => Nat.le_of_eq ?_⟩
      have hkey : c.shardOf a.key = Hash.shard s.key c.shardCount := by
        rw [Store.key_of_attemptAt? hattempt]
        rfl
      rw [oneMore, hkey, Event.storesAt]
  · have hquiet : c.Quiet (event.apply c) := Event.quiet h.placed fun s hs => hstore ⟨s, hs⟩
    refine ⟨taken, h.of_quiet hquiet (event.shardCount_apply c) (event.wellPlaced_apply h.placed)
      (event.addressed_apply h.addressed), fun i => Nat.le_add_right _ _⟩

theorem shardCount_through (c : Cache α) (events : List (Event α)) :
    (c.through events).shardCount = c.shardCount := by
  induction events generalizing c with
  | nil => rfl
  | cons event events ih => exact (ih _).trans (event.shardCount_apply c)

theorem Numbered.through {taken : Nat → Nat} (h : c.Numbered taken) (events : List (Event α)) :
    ∃ t, (c.through events).Numbered t ∧
      ∀ i, t i ≤ taken i + storesAt c.shardCount events i := by
  induction events generalizing c taken with
  | nil => exact ⟨taken, h, fun i => Nat.le_refl _⟩
  | cons event events ih =>
    obtain ⟨t, ht, hle⟩ := h.apply event
    obtain ⟨u, hu, hrest⟩ := ih ht
    refine ⟨u, hu, fun i => ?_⟩
    have hfirst := hle i
    have hlast := hrest i
    rw [event.shardCount_apply] at hlast
    rw [storesAt_cons]
    omega

/-- Caches that are alike go on alike, as long as generations do not come round. -/
theorem Alike.through {tc td : Nat → Nat} (h : c.Alike d) (hc : c.Numbered tc) (hd : d.Numbered td)
    (events : List (Event α))
    (hcroom : ∀ i, tc i + storesAt c.shardCount events i < UInt64.size)
    (hdroom : ∀ i, td i + storesAt d.shardCount events i < UInt64.size) :
    (c.through events).Alike (d.through events) := by
  induction events generalizing c d tc td with
  | nil => exact h
  | cons event events ih =>
    have happly := h.apply hc hd (fun i => Nat.lt_of_le_of_lt (Nat.le_add_right _ _) (hcroom i))
      (fun i => Nat.lt_of_le_of_lt (Nat.le_add_right _ _) (hdroom i)) event
    obtain ⟨t, ht, htle⟩ := hc.apply event
    obtain ⟨u, hu, hule⟩ := hd.apply event
    refine ih happly ht hu (fun i => ?_) fun i => ?_
    · have hroom := hcroom i
      have hle := htle i
      rw [storesAt_cons] at hroom
      rw [event.shardCount_apply]
      omega
    · have hroom := hdroom i
      have hle := hule i
      rw [storesAt_cons] at hroom
      rw [event.shardCount_apply]
      omega

end ArtifactPlane.Cache
