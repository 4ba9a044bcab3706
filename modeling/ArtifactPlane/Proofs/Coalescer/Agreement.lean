import ArtifactPlane.Proofs.Coalescer.SingleFlight

/-!
Agreement and freshness.  What a caller is given is how one loader of its key ended, a
loader that was its own or still registered when it looked.  Once anybody was given the
result of a load, nobody who takes no part in it by then ever will: the registration is
gone before the result is there.
-/

namespace ArtifactPlane.Coalescer.Flight

variable {f g : Flight} {a : Action}

/-- A task is said to have ended a way only by the end of its loader. -/
theorem Moves.ending (h : f.Moves a g) {n : Nat} {key : String} {owner : Nat}
    {st : TaskStage} {e : Ending} (hn : g.tasks n = some ⟨key, owner, st⟩)
    (he : st.ending? = some e) :
    (∃ old, f.tasks n = some ⟨key, owner, old⟩ ∧ old.ending? = some e) ∨
      a = .finish n e ∧ f.tasks n = some ⟨key, owner, .running⟩ := by
  cases h with
  | arrive | joinAtOnce | miss | joinLater | wake | leave => exact Or.inl ⟨st, hn, he⟩
  | lead i k hcaller hnone =>
    rcases Roster.put_eq_some_iff.mp hn with ⟨-, heq⟩ | ⟨-, hold⟩
    · obtain ⟨-, -, rfl⟩ : k = key ∧ i = owner ∧ .running = st := by simpa using heq
      simp [TaskStage.ending?] at he
    · exact Or.inl ⟨st, hold, he⟩
  | finish m k o d htask =>
    rcases Roster.put_eq_some_iff.mp hn with ⟨rfl, heq⟩ | ⟨-, hold⟩
    · obtain ⟨rfl, rfl, rfl⟩ : k = key ∧ o = owner ∧ .ended d = st := by simpa using heq
      obtain rfl : d = e := by simpa [TaskStage.ending?] using he
      exact Or.inr ⟨rfl, htask⟩
    · exact Or.inl ⟨st, hold, he⟩
  | unregister m k o d htask | record m k o d htask =>
    rcases Roster.put_eq_some_iff.mp hn with ⟨rfl, heq⟩ | ⟨-, hold⟩
    · obtain ⟨rfl, rfl, rfl⟩ : k = key ∧ o = owner ∧ _ = st := by simpa using heq
      obtain rfl : d = e := by simpa [TaskStage.ending?] using he
      exact Or.inl ⟨_, htask, rfl⟩
    · exact Or.inl ⟨st, hold, he⟩

/-- A loader that has ended did so at some point of the history, while its task ran. -/
theorem exists_finish (shards : Nat) (actions : List Action) {n : Nat} {key : String}
    {owner : Nat} {st : TaskStage} {e : Ending}
    (hn : ((start shards).run actions).tasks n = some ⟨key, owner, st⟩)
    (he : st.ending? = some e) :
    ∃ before after, actions = before ++ .finish n e :: after ∧
      ((start shards).run before).tasks n = some ⟨key, owner, .running⟩ := by
  let ended (h : Flight) : Prop :=
    ∃ st, h.tasks n = some ⟨key, owner, st⟩ ∧ st.ending? = some e
  obtain ⟨before, a, after, rfl, hnot, st', hn', he'⟩ :=
    exists_turning_action step ended actions (start shards)
      (by simp [ended, start, Ledger.empty, Roster.empty]) ⟨st, hn, he⟩
  rcases (before.foldl step (start shards)).step_eq_or_moves a with heq | hmove
  · rw [heq] at hn'
    exact absurd ⟨st', hn', he'⟩ hnot
  · rcases hmove.ending hn' he' with hold | ⟨rfl, hrunning⟩
    · exact absurd hold hnot
    · exact ⟨before, after, rfl, hrunning⟩

/-- A caller keeps its key. -/
theorem callers_run {i : Nat} {key : String} {stage : CallerStage}
    (hi : f.callers i = some ⟨key, stage⟩) (actions : List Action) :
    ∃ stage', (f.run actions).callers i = some ⟨key, stage'⟩ := by
  refine run_induction (P := fun g => ∃ stage', g.callers i = some ⟨key, stage'⟩) ?_
    ⟨stage, hi⟩ actions
  rintro g b h ⟨stage', hg⟩ hmove
  obtain ⟨next, hh, -⟩ := hmove.caller hg
  exact ⟨next, hh⟩

/-- A caller that takes part in a load began to at some point of the history, when it
looked: the load was registered then, or it was begun there. -/
theorem exists_attachment (shards : Nat) (actions : List Action) {i n : Nat} {key : String}
    {stage : CallerStage} (hi : ((start shards).run actions).callers i = some ⟨key, stage⟩)
    (hn : stage.call? = some n) :
    ∃ before a after, actions = before ++ a :: after ∧ (a = .look i ∨ a = .enter i) ∧
      ((start shards).run before).callOf i = none ∧
      (((start shards).run before).step a).callOf i = some n ∧
      (((start shards).run before).coalescer.registered? key = some n ∨
        ((start shards).run before).tasks n = none ∧
        (((start shards).run before).step a).tasks n = some ⟨key, i, .running⟩) := by
  obtain ⟨before, a, after, rfl, hnot, hcall⟩ :=
    exists_turning_action step (fun g => g.callOf i = some n) actions (start shards)
      (by simp [callOf, start, Ledger.empty, Roster.empty])
      (callOf_eq_some_iff.mpr ⟨key, stage, hi, hn⟩)
  have hsound : ((start shards).run before).Sound := (Sound.start shards).run before
  change ¬ ((start shards).run before).callOf i = some n at hnot
  change (((start shards).run before).step a).callOf i = some n at hcall
  refine ⟨before, a, after, rfl, ?_⟩
  generalize hg : (start shards).run before = g at *
  rcases g.step_eq_or_moves a with heq | hmove
  · rw [heq] at hcall
    exact absurd hcall hnot
  · rcases hmove.callOf i with hold | ⟨hnone, ha, k, m, ⟨old, hcaller⟩, hm, hattached⟩
    · exact absurd (hold.symm.trans hcall) hnot
    · obtain rfl : m = n := Option.some.inj (hm.symm.trans hcall)
      obtain ⟨last, hlast⟩ := callers_run hcaller (a :: after)
      rw [run_append, hg, hlast] at hi
      obtain ⟨rfl, -⟩ : k = key ∧ last = stage := by simpa using hi
      refine ⟨ha, hnone, hcall, ?_⟩
      rcases hattached with hregistered | ⟨rfl, hown⟩
      · exact Or.inl hregistered
      · exact Or.inr ⟨(hsound.tracked.tasks_eq_none_iff _).mpr (Nat.le_refl _), hown⟩

/-- A recorded load takes in no more callers. -/
theorem callOf_ne_of_recorded (hf : f.Sound) {n : Nat} {key : String} {owner : Nat}
    {e : Ending} (htask : f.tasks n = some ⟨key, owner, .recorded e⟩) {j : Nat}
    (hj : f.callOf j ≠ some n) (actions : List Action) :
    (f.run actions).callOf j ≠ some n := by
  let closed (h : Flight) : Prop :=
    h.Sound ∧ h.tasks n = some ⟨key, owner, .recorded e⟩ ∧ h.callOf j ≠ some n
  have hclosed : closed (f.run actions) := by
    refine run_induction ?_ (P := closed) ⟨hf, htask, hj⟩ actions
    rintro g b h ⟨hg, hrecorded, hout⟩ hmove
    obtain ⟨st, hnext, hst⟩ := hmove.task hg.tracked hrecorded
    obtain rfl := hst e rfl
    refine ⟨hg.moves hmove, hnext, ?_⟩
    rcases hmove.callOf j with hold | ⟨-, -, k, m, -, hm, hattached⟩
    · rwa [hold]
    · rw [hm]
      rintro heq
      obtain rfl := Option.some.inj heq
      rcases hattached with hregistered | ⟨hsize, -⟩
      · simpa [TaskStage.isRegistered] using
          (hg.tracked.registered?_task hrecorded k).mp hregistered
      · exact absurd hsize (Nat.ne_of_lt (hg.tracked.lt_size hrecorded))
  exact hclosed.2.2

/-- What callers are given after a history that begins with a flight. -/
structure Agreement (f : Flight) (actions : List Action) : Prop where
  /-- The result is how the loader of one task of the key ended. -/
  outcome : ∀ i key n r, (f.run actions).callers i = some ⟨key, .returned n r⟩ →
    ∃ owner e before after, actions = before ++ .finish n e :: after ∧
      (f.run before).tasks n = some ⟨key, owner, .running⟩ ∧
      (f.run actions).tasks n = some ⟨key, owner, .recorded e⟩ ∧
      (e = .delivered r ∨ e = .panicked ∧ r = .error (.io key .loaderPanicked))
  /-- The task was registered by the caller, or was still registered when it looked. -/
  attachment : ∀ i key n r, (f.run actions).callers i = some ⟨key, .returned n r⟩ →
    ∃ before a after, actions = before ++ a :: after ∧ (a = .look i ∨ a = .enter i) ∧
      (f.run before).callOf i = none ∧ ((f.run before).step a).callOf i = some n ∧
      ((f.run before).coalescer.registered? key = some n ∨
        (f.run before).tasks n = none ∧
        ((f.run before).step a).tasks n = some ⟨key, i, .running⟩)
  agree : ∀ i j k l n r s, (f.run actions).callers i = some ⟨k, .returned n r⟩ →
    (f.run actions).callers j = some ⟨l, .returned n s⟩ → k = l ∧ r = s
  /-- Who takes no part in a load when somebody was given its result never does. -/
  fresh : ∀ earlier later i key n r, actions = earlier ++ later →
    (f.run earlier).callers i = some ⟨key, .returned n r⟩ →
    ∀ j, (f.run earlier).callOf j ≠ some n → (f.run actions).callOf j ≠ some n

theorem delivered_or_panicked {key : String} {e : Ending} {r : Loaded} (hr : r = e.result key) :
    e = .delivered r ∨ e = .panicked ∧ r = .error (.io key .loaderPanicked) := by
  cases e with
  | delivered s => exact Or.inl (congrArg Ending.delivered hr.symm)
  | panicked => exact Or.inr ⟨rfl, hr⟩

/-- Whatever the number of shards and the order of steps, callers of a coalescer agree on
what their loads delivered, and results are fresh. -/
theorem agreement_run (shards : Nat) (actions : List Action) :
    (start shards).Agreement actions := by
  have hf : ((start shards).run actions).Sound := (Sound.start shards).run actions
  refine ⟨?_, ?_, ?_, ?_⟩
  · intro i key n r hi
    obtain ⟨owner, e, htask, hr⟩ := hf.shared.returned i key n r hi
    obtain ⟨before, after, heq, hrunning⟩ := exists_finish shards actions htask rfl
    exact ⟨owner, e, before, after, heq, hrunning, htask, delivered_or_panicked hr⟩
  · intro i key n r hi
    exact exists_attachment shards actions hi rfl
  · intro i j k l n r s hi hj
    obtain ⟨owner, e, hn, rfl⟩ := hf.shared.returned i k n r hi
    obtain ⟨owner', e', hn', rfl⟩ := hf.shared.returned j l n s hj
    obtain ⟨rfl, -, he⟩ : k = l ∧ owner = owner' ∧ TaskStage.recorded e = .recorded e' := by
      simpa [hn] using hn'
    exact ⟨rfl, by rw [TaskStage.recorded.inj he]⟩
  · intro earlier later i key n r heq hi j hj
    have hearlier : ((start shards).run earlier).Sound := (Sound.start shards).run earlier
    obtain ⟨owner, e, htask, -⟩ := hearlier.shared.returned i key n r hi
    rw [heq, run_append]
    exact callOf_ne_of_recorded hearlier htask hj later

end ArtifactPlane.Coalescer.Flight
