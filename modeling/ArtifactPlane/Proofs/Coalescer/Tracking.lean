import ArtifactPlane.Proofs.Coalescer.Flight

/-!
What is true of a flight at any time.  The registry holds exactly the tasks that are not
yet unregistered (`Tracked`); a caller takes part in a task of its own key and is given
what that task recorded (`Shared`).  Beside them stands what a single move does to one
caller and to one task.
-/

namespace ArtifactPlane.Coalescer

theorem call_lead (c : Coalescer) (key : String) (n : Nat) :
    (c.lead key).2.call n = c.call n := by
  simp only [call, lead, Array.getD_eq_getD_getElem?, Array.getElem?_push]
  split
  · next h => simp [h]
  · rfl

theorem call_record (c : Coalescer) {n : Nat} (hn : n < c.calls.size) (r : Loaded) (m : Nat) :
    (c.record n r).call m = if m = n then (c.call n).complete r else c.call m := by
  simp only [call, record, Array.getD_eq_getD_getElem?, Array.getElem?_modify]
  by_cases hm : m = n
  · subst hm
    simp [hn]
  · simp [hm, Ne.symm hm]

namespace Flight

variable {f g : Flight} {a : Action}

/-- The registry holds the tasks that are not yet unregistered, and every task has the
call that its stage says. -/
structure Tracked (f : Flight) : Prop where
  wellPlaced : f.coalescer.WellPlaced
  tasks_eq_none_iff : ∀ n, f.tasks n = none ↔ f.coalescer.calls.size ≤ n
  registered?_eq_some_iff : ∀ key n, f.coalescer.registered? key = some n ↔
    ∃ owner stage, f.tasks n = some ⟨key, owner, stage⟩ ∧ stage.isRegistered = true
  call_eq : ∀ n t, f.tasks n = some t → f.coalescer.call n = t.call

namespace Tracked

theorem lt_size (hf : f.Tracked) {n : Nat} {t : Task} (ht : f.tasks n = some t) :
    n < f.coalescer.calls.size := by
  apply Nat.lt_of_not_le
  intro hle
  have hnone := (hf.tasks_eq_none_iff n).mpr hle
  simp [ht] at hnone

theorem start (count : Nat) : (Flight.start count).Tracked := by
  refine ⟨wellPlaced_ofShards count, ?_, ?_, ?_⟩
  · intro n
    simp [Flight.start, Ledger.empty, Roster.empty, ofShards]
  · intro key n
    have hnone := registered?_ofShards count key
    simp [Flight.start, Ledger.empty, Roster.empty, hnone]
  · intro n t ht
    simp [Flight.start, Ledger.empty, Roster.empty] at ht

/-- Only registrations, calls and tasks matter. -/
theorem congr (hf : f.Tracked) (hshards : g.coalescer.shards = f.coalescer.shards)
    (hcalls : g.coalescer.calls = f.coalescer.calls) (htasks : g.tasks = f.tasks) :
    g.Tracked := by
  obtain ⟨⟨callers, tasks, log⟩, ⟨shards, calls, executions, coalesced⟩⟩ := g
  dsimp only at hshards hcalls htasks
  subst hshards hcalls htasks
  have hplaced := hf.wellPlaced
  exact ⟨⟨hplaced.shardCount_pos, hplaced.shardOf_eq, hplaced.keys_nodup⟩,
    hf.tasks_eq_none_iff, hf.registered?_eq_some_iff, hf.call_eq⟩

/-- What the registry says of a task. -/
theorem registered?_task (hf : f.Tracked) {n : Nat} {t : Task} (ht : f.tasks n = some t)
    (key : String) :
    f.coalescer.registered? key = some n ↔ key = t.key ∧ t.stage.isRegistered = true := by
  rw [hf.registered?_eq_some_iff, ht]
  constructor
  · rintro ⟨owner, stage, heq, hstage⟩
    obtain rfl := Option.some.inj heq
    exact ⟨rfl, hstage⟩
  · rintro ⟨rfl, hstage⟩
    exact ⟨t.owner, t.stage, rfl, hstage⟩

/-- A task moves on: its key stays, and the coalescer differs from before only in what
concerns the task. -/
theorem advance (hf : f.Tracked) {n : Nat} {t : Task} (ht : f.tasks n = some t)
    (u : Task) (hkey : u.key = t.key) (c : Coalescer)
    (hsize : c.calls.size = f.coalescer.calls.size)
    (hplaced : c.WellPlaced)
    (hregistered : ∀ key m, c.registered? key = some m ↔
      if m = n then key = t.key ∧ u.stage.isRegistered = true
      else f.coalescer.registered? key = some m)
    (hcall : ∀ m, c.call m = if m = n then u.call else f.coalescer.call m) :
    (f.advance n u c).Tracked := by
  refine ⟨hplaced, ?_, ?_, ?_⟩
  · intro m
    have hold := hf.tasks_eq_none_iff m
    simp only [Flight.advance, hsize]
    by_cases hm : m = n
    · subst hm
      simpa using hf.lt_size ht
    · rw [Roster.put_of_ne hm, hold]
  · intro key m
    have hold := hf.registered?_eq_some_iff key m
    simp only [Flight.advance, hregistered]
    by_cases hm : m = n
    · subst hm
      rw [if_pos rfl, Roster.put_self]
      constructor
      · rintro ⟨rfl, hstage⟩
        exact ⟨u.owner, u.stage, by rw [← hkey], hstage⟩
      · rintro ⟨owner, stage, heq, hstage⟩
        obtain rfl := Option.some.inj heq
        exact ⟨hkey, hstage⟩
    · rw [if_neg hm, Roster.put_of_ne hm, hold]
  · intro m w hw
    simp only [Flight.advance, Roster.put_eq_some_iff] at hw ⊢
    rw [hcall]
    rcases hw with ⟨rfl, rfl⟩ | ⟨hm, hw⟩
    · exact if_pos rfl
    · rw [if_neg hm]
      exact hf.call_eq m w hw

theorem launch (hf : f.Tracked) {key : String} (hnone : f.coalescer.registered? key = none)
    (i : Nat) :
    (f.launch i key f.coalescer.calls.size (f.coalescer.lead key).2).Tracked := by
  have hfresh : f.tasks f.coalescer.calls.size = none :=
    (hf.tasks_eq_none_iff _).mpr (Nat.le_refl _)
  refine ⟨hf.wellPlaced.lead hnone, ?_, ?_, ?_⟩
  · intro n
    have hold := hf.tasks_eq_none_iff n
    simp only [Flight.launch, attach, Flight.advance, Coalescer.lead, Array.size_push]
    by_cases hn : n = f.coalescer.calls.size
    · simp [hn]
    · rw [Roster.put_of_ne hn, hold]
      omega
  · intro k n
    have hold := hf.registered?_eq_some_iff k n
    simp only [Flight.launch, attach, Flight.advance, hf.wellPlaced.registered?_lead]
    by_cases hn : n = f.coalescer.calls.size
    · subst hn
      have hno : f.coalescer.registered? k ≠ some f.coalescer.calls.size := by
        simp [hold, hfresh]
      by_cases hk : k = key
      · simp [hk, TaskStage.isRegistered]
      · simp [hk, Ne.symm hk, hno]
    · rw [Roster.put_of_ne hn, ← hold]
      by_cases hk : k = key
      · simp [hk, hnone, Ne.symm hn]
      · simp [hk]
  · intro n t ht
    simp only [Flight.launch, attach, Flight.advance, Roster.put_eq_some_iff] at ht ⊢
    rw [call_lead]
    rcases ht with ⟨rfl, rfl⟩ | ⟨-, ht⟩
    · simp [call, Task.call]
    · exact hf.call_eq n t ht

theorem finish (hf : f.Tracked) {n : Nat} {key : String} {owner : Nat}
    (htask : f.tasks n = some ⟨key, owner, .running⟩) (e : Ending) :
    (f.advance n ⟨key, owner, .ended e⟩ f.coalescer).Tracked := by
  have hcall := hf.call_eq n _ htask
  refine hf.advance htask ⟨key, owner, .ended e⟩ rfl f.coalescer rfl hf.wellPlaced ?_ ?_
  · intro k m
    split
    · next hm => exact hm ▸ hf.registered?_task htask k
    · rfl
  · intro m
    split
    · next hm => exact hm ▸ hcall
    · rfl

theorem unregister (hf : f.Tracked) {n : Nat} {key : String} {owner : Nat} {e : Ending}
    (htask : f.tasks n = some ⟨key, owner, .ended e⟩) :
    (f.advance n ⟨key, owner, .unregistered e⟩ (f.coalescer.unregister key n)).Tracked := by
  have hcall := hf.call_eq n _ htask
  have hn := (hf.registered?_task htask key).mpr ⟨rfl, rfl⟩
  refine hf.advance htask ⟨key, owner, .unregistered e⟩ rfl (f.coalescer.unregister key n)
    rfl (hf.wellPlaced.unregister key n) ?_ ?_
  · intro k m
    rw [hf.wellPlaced.registered?_unregister]
    by_cases hkey : k = key
    · subst hkey
      by_cases hm : m = n
      · simp [hn, hm, TaskStage.isRegistered]
      · simp [hn, hm, Ne.symm hm]
    · have hk := (hf.registered?_task htask k).not.mpr (by simp [hkey])
      by_cases hm : m = n
      · simp [hkey, hm, hk]
      · simp [hkey, hm]
  · intro m
    split
    · next hm => exact hm ▸ hcall
    · rfl

theorem record (hf : f.Tracked) {n : Nat} {key : String} {owner : Nat} {e : Ending}
    (htask : f.tasks n = some ⟨key, owner, .unregistered e⟩) :
    (f.advance n ⟨key, owner, .recorded e⟩
      (f.coalescer.record n (e.result key))).Tracked := by
  have hplaced := hf.wellPlaced
  refine hf.advance htask ⟨key, owner, .recorded e⟩ rfl
    (f.coalescer.record n (e.result key)) (by simp [Coalescer.record])
    ⟨hplaced.shardCount_pos, hplaced.shardOf_eq, hplaced.keys_nodup⟩ ?_ ?_
  · intro k m
    change f.coalescer.registered? k = some m ↔ _
    split
    · next hm => exact hm ▸ hf.registered?_task htask k
    · rfl
  · intro m
    rw [call_record _ (hf.lt_size htask), hf.call_eq n _ htask]
    rfl

theorem moves (hf : f.Tracked) (h : f.Moves a g) : g.Tracked := by
  cases h with
  | arrive | miss | wake | leave | joinAtOnce | joinLater => exact hf.congr rfl rfl rfl
  | lead i key hcaller hnone => exact hf.launch hnone i
  | finish n key owner e htask => exact hf.finish htask e
  | unregister n key owner e htask => exact (hf.unregister htask).congr rfl rfl rfl
  | record n key owner e htask => exact hf.record htask

end Tracked

theorem callOf_setCaller (f : Flight) (i : Nat) (c : Caller) (j : Nat) :
    (f.setCaller i c).callOf j = if j = i then c.stage.call? else f.callOf j := by
  simp only [callOf, setCaller, Roster.put]
  split <;> rfl

theorem callOf_attach (f : Flight) (i : Nat) (key : String) (role : Role) (n : Nat)
    (c : Coalescer) (j : Nat) :
    (f.attach i key role n c).callOf j = if j = i then some n else f.callOf j := by
  simp only [callOf, attach, Roster.put]
  split <;> rfl

theorem callOf_launch (f : Flight) (i : Nat) (key : String) (n : Nat) (c : Coalescer)
    (j : Nat) : (f.launch i key n c).callOf j = if j = i then some n else f.callOf j :=
  callOf_attach f i key .leading n c j

theorem callOf_eq_some_iff {i n : Nat} :
    f.callOf i = some n ↔ ∃ key stage, f.callers i = some ⟨key, stage⟩ ∧ stage.call? = some n := by
  rw [callOf, Option.bind_eq_some_iff]
  constructor
  · rintro ⟨⟨key, stage⟩, hcaller, hstage⟩
    exact ⟨key, stage, hcaller, hstage⟩
  · rintro ⟨key, stage, hcaller, hstage⟩
    exact ⟨⟨key, stage⟩, hcaller, hstage⟩

namespace Moves

/-- A task keeps its key and its owner, and a recorded task changes no more. -/
theorem task (h : f.Moves a g) (hf : f.Tracked) {n : Nat} {key : String} {owner : Nat}
    {stage : TaskStage} (ht : f.tasks n = some ⟨key, owner, stage⟩) :
    ∃ stage', g.tasks n = some ⟨key, owner, stage'⟩ ∧
      ∀ e, stage = .recorded e → stage' = .recorded e := by
  cases h with
  | arrive | miss | wake | leave | joinAtOnce | joinLater => exact ⟨stage, ht, fun _ h => h⟩
  | lead i k hcaller hnone =>
    have hne : n ≠ f.coalescer.calls.size := Nat.ne_of_lt (hf.lt_size ht)
    exact ⟨stage, by simpa [launch, attach, advance, Roster.put_of_ne hne] using ht,
      fun _ h => h⟩
  | finish m k o e htask | unregister m k o e htask | record m k o e htask =>
    by_cases hm : n = m
    · subst hm
      obtain ⟨rfl, rfl, rfl⟩ : key = k ∧ owner = o ∧ stage = _ := by
        simpa [ht] using htask
      exact ⟨_, Roster.put_self _ _ _, by simp⟩
    · exact ⟨stage, by simpa [advance, Roster.put_of_ne hm] using ht, fun _ h => h⟩

/-- A caller keeps its key, and the load that it takes part in. -/
theorem caller (h : f.Moves a g) {i : Nat} {key : String} {stage : CallerStage}
    (hi : f.callers i = some ⟨key, stage⟩) :
    ∃ stage', g.callers i = some ⟨key, stage'⟩ ∧
      ∀ n, stage.call? = some n → stage'.call? = some n := by
  cases h with
  | arrive j k hfree =>
    have hne : i ≠ j := by
      rintro rfl
      simp [hi] at hfree
    exact ⟨stage, by simpa [setCaller, Roster.put_of_ne hne] using hi, fun _ h => h⟩
  | finish | unregister | record => exact ⟨stage, hi, fun _ h => h⟩
  | joinAtOnce j k n hcaller | miss j k hcaller | joinLater j k n hcaller | lead j k hcaller
  | wake j k n r hcaller | leave j k old hcaller =>
    by_cases hj : i = j
    · subst hj
      obtain ⟨rfl, rfl⟩ : key = k ∧ stage = _ := by simpa [hi] using hcaller
      exact ⟨_, Roster.put_self _ _ _, by simp [CallerStage.call?]⟩
    · exact ⟨stage, by simpa [launch, attach, advance, setCaller, Roster.put_of_ne hj] using hi,
        fun _ h => h⟩

/-- A caller is there before a move, or it arrives. -/
theorem arrived (h : f.Moves a g) {i : Nat} {key : String} {stage : CallerStage}
    (hi : g.callers i = some ⟨key, stage⟩) :
    (∃ old, f.callers i = some ⟨key, old⟩) ∨ a = .arrive i key := by
  cases h with
  | finish | unregister | record => exact Or.inl ⟨stage, hi⟩
  | arrive j k hcaller =>
    rcases Roster.put_eq_some_iff.mp hi with ⟨rfl, heq⟩ | ⟨-, hold⟩
    · obtain ⟨rfl, -⟩ : k = key ∧ .arrived = stage := by simpa using heq
      exact Or.inr rfl
    · exact Or.inl ⟨stage, hold⟩
  | joinAtOnce j k n hcaller | miss j k hcaller | joinLater j k n hcaller | lead j k hcaller
  | wake j k n r hcaller | leave j k old hcaller =>
    rcases Roster.put_eq_some_iff.mp hi with ⟨rfl, heq⟩ | ⟨-, hold⟩
    · obtain ⟨rfl, -⟩ : k = key ∧ _ = stage := by simpa using heq
      exact Or.inl ⟨_, hcaller⟩
    · exact Or.inl ⟨stage, hold⟩

/-- A caller that takes part in no load begins to when it looks, and only where a load of
its key is registered or with a load of its own. -/
theorem callOf (h : f.Moves a g) (i : Nat) :
    g.callOf i = f.callOf i ∨
    f.callOf i = none ∧ (a = .look i ∨ a = .enter i) ∧
      ∃ key n, (∃ stage, f.callers i = some ⟨key, stage⟩) ∧
      g.callOf i = some n ∧ (f.coalescer.registered? key = some n ∨
        n = f.coalescer.calls.size ∧ g.tasks n = some ⟨key, i, .running⟩) := by
  cases h with
  | finish | unregister | record => exact Or.inl rfl
  | arrive j k hcaller | miss j k hcaller | wake j k n r hcaller | leave j k old hcaller =>
    left
    rw [callOf_setCaller]
    split
    · next hj => simp [hj, Flight.callOf, hcaller, CallerStage.call?]
    · rfl
  | joinAtOnce j k n hcaller hjoin | joinLater j k n hcaller hjoin =>
    rw [callOf_attach]
    split
    · next hj =>
      subst hj
      exact Or.inr ⟨by simp [Flight.callOf, hcaller, CallerStage.call?], by simp,
        k, n, ⟨_, hcaller⟩, rfl, Or.inl hjoin⟩
    · exact Or.inl rfl
  | lead j k hcaller hnone =>
    rw [callOf_launch]
    split
    · next hj =>
      subst hj
      exact Or.inr ⟨by simp [Flight.callOf, hcaller, CallerStage.call?], Or.inr rfl,
        k, _, ⟨_, hcaller⟩, rfl, Or.inr ⟨rfl, by simp [launch, attach, advance]⟩⟩
    · exact Or.inl rfl

end Moves

/-- A caller takes part in a task of its own key, what it was given is how that task
ended, and every task was begun by a caller of its key. -/
structure Shared (f : Flight) : Prop where
  task_of_callOf : ∀ i key stage n, f.callers i = some ⟨key, stage⟩ → stage.call? = some n →
    ∃ owner st, f.tasks n = some ⟨key, owner, st⟩
  returned : ∀ i key n r, f.callers i = some ⟨key, .returned n r⟩ →
    ∃ owner e, f.tasks n = some ⟨key, owner, .recorded e⟩ ∧ r = e.result key
  owner : ∀ n key owner st, f.tasks n = some ⟨key, owner, st⟩ →
    ∃ stage, f.callers owner = some ⟨key, stage⟩

namespace Shared

theorem start (count : Nat) : (Flight.start count).Shared := by
  refine ⟨?_, ?_, ?_⟩ <;> intros <;> simp_all [Flight.start, Ledger.empty, Roster.empty]

theorem task_of_callOf_moves (hf : f.Shared) (ht : f.Tracked) (h : f.Moves a g) {i : Nat}
    {key : String} {stage : CallerStage} {n : Nat} (hi : g.callers i = some ⟨key, stage⟩)
    (hn : stage.call? = some n) : ∃ owner st, g.tasks n = some ⟨key, owner, st⟩ := by
  have hg : g.callOf i = some n := callOf_eq_some_iff.mpr ⟨key, stage, hi, hn⟩
  rcases h.callOf i with hold | ⟨-, -, k, m, ⟨old, hcaller⟩, hm, hattached⟩
  · rw [hold] at hg
    obtain ⟨k, old, hcaller, hcall⟩ := callOf_eq_some_iff.mp hg
    obtain ⟨stage', hi', -⟩ := h.caller hcaller
    obtain ⟨owner, st, htask⟩ := hf.task_of_callOf i k old n hcaller hcall
    obtain ⟨st', htask', -⟩ := h.task ht htask
    obtain ⟨rfl, -⟩ : k = key ∧ stage' = stage := by simpa [hi] using hi'.symm
    exact ⟨owner, st', htask'⟩
  · obtain ⟨stage', hi', -⟩ := h.caller hcaller
    obtain ⟨rfl, -⟩ : k = key ∧ stage' = stage := by simpa [hi] using hi'.symm
    obtain rfl : m = n := by simpa [hg] using hm.symm
    rcases hattached with hregistered | ⟨-, hown⟩
    · obtain ⟨owner, st, htask, -⟩ := (ht.registered?_eq_some_iff k m).mp hregistered
      obtain ⟨st', htask', -⟩ := h.task ht htask
      exact ⟨owner, st', htask'⟩
    · exact ⟨i, .running, hown⟩

/-- Only a recorded task has anything to give. -/
theorem recorded_of_outcome (ht : f.Tracked) {n owner : Nat} {key : String} {st : TaskStage}
    (htask : f.tasks n = some ⟨key, owner, st⟩) {r : Loaded}
    (hr : (f.coalescer.call n).outcome? key = some r) :
    ∃ e, st = .recorded e ∧ r = e.result key := by
  rw [ht.call_eq n _ htask] at hr
  cases st with
  | recorded e => exact ⟨e, rfl, by simpa [Task.call, Call.outcome?, eq_comm] using hr⟩
  | running | ended | unregistered => simp [Task.call, Call.outcome?, Call.new] at hr

theorem returned_moves (hf : f.Shared) (ht : f.Tracked) (h : f.Moves a g) {i : Nat}
    {key : String} {n : Nat} {r : Loaded} (hi : g.callers i = some ⟨key, .returned n r⟩) :
    ∃ owner e, g.tasks n = some ⟨key, owner, .recorded e⟩ ∧ r = e.result key := by
  have hbefore : f.callers i = some ⟨key, .returned n r⟩ →
      ∃ owner e, g.tasks n = some ⟨key, owner, .recorded e⟩ ∧ r = e.result key := by
    intro hold
    obtain ⟨owner, e, htask, hr⟩ := hf.returned i key n r hold
    obtain ⟨st, htask', hst⟩ := h.task ht htask
    exact ⟨owner, e, (hst e rfl) ▸ htask', hr⟩
  cases h with
  | finish | unregister | record => exact hbefore hi
  | arrive j k | joinAtOnce j k | miss j k | joinLater j k | lead j k | leave j k =>
    simp only [launch, advance, attach, setCaller, Roster.put_eq_some_iff] at hi
    rcases hi with ⟨-, hi⟩ | ⟨-, hi⟩
    · simp at hi
    · exact hbefore hi
  | wake j k m r' hcaller hout =>
    simp only [setCaller, Roster.put_eq_some_iff] at hi
    rcases hi with ⟨rfl, hi⟩ | ⟨-, hi⟩
    · obtain ⟨rfl, rfl, rfl⟩ : k = key ∧ m = n ∧ r' = r := by simpa using hi
      obtain ⟨owner, st, htask⟩ := hf.task_of_callOf i k _ m hcaller rfl
      obtain ⟨e, rfl, hr⟩ := recorded_of_outcome ht htask hout
      exact ⟨owner, e, htask, hr⟩
    · exact hbefore hi

theorem owner_moves (hf : f.Shared) (h : f.Moves a g) {n owner : Nat} {key : String}
    {st : TaskStage} (hn : g.tasks n = some ⟨key, owner, st⟩) :
    ∃ stage, g.callers owner = some ⟨key, stage⟩ := by
  have hbefore : ∀ old, f.tasks n = some ⟨key, owner, old⟩ →
      ∃ stage, g.callers owner = some ⟨key, stage⟩ := by
    intro old hold
    obtain ⟨stage, hcaller⟩ := hf.owner n key owner old hold
    obtain ⟨stage', hcaller', -⟩ := h.caller hcaller
    exact ⟨stage', hcaller'⟩
  cases h with
  | arrive | joinAtOnce | miss | joinLater | wake | leave => exact hbefore st hn
  | lead j k hcaller =>
    simp only [launch, advance, attach, Roster.put_eq_some_iff] at hn
    rcases hn with ⟨-, hn⟩ | ⟨-, hn⟩
    · obtain ⟨rfl, rfl, -⟩ : k = key ∧ j = owner ∧ .running = st := by simpa using hn
      exact ⟨_, Roster.put_self _ _ _⟩
    · exact hbefore st hn
  | finish m k o e htask | unregister m k o e htask | record m k o e htask =>
    simp only [advance, Roster.put_eq_some_iff] at hn
    rcases hn with ⟨rfl, hn⟩ | ⟨-, hn⟩
    · obtain ⟨rfl, rfl, -⟩ : k = key ∧ o = owner ∧ _ = st := by simpa using hn
      exact hbefore _ htask
    · exact hbefore st hn

theorem moves (hf : f.Shared) (ht : f.Tracked) (h : f.Moves a g) : g.Shared :=
  ⟨fun _ _ _ _ hi hn => hf.task_of_callOf_moves ht h hi hn,
    fun _ _ _ _ hi => hf.returned_moves ht h hi,
    fun _ _ _ _ hn => hf.owner_moves h hn⟩

end Shared

end Flight

end ArtifactPlane.Coalescer
