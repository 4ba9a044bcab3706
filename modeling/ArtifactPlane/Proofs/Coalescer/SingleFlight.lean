import ArtifactPlane.Proofs.Coalescer.Tracking

/-!
Single flight.  Whatever the order of steps, no two loaders of one key run at a time, a
caller joins one load or starts one of its own, and the counters of the coalescer agree
with what the log of the flight remembers.
-/

namespace ArtifactPlane.Coalescer.Flight

variable {f g : Flight} {a : Action}

/-- Each attachment in the log is that of its caller, to a task that the caller owns
exactly if it started it; each task is in the log; no caller is there twice. -/
structure Attributed (f : Flight) : Prop where
  attached : ∀ i role n, .attached i role n ∈ f.log → f.callOf i = some n ∧
    ∃ key owner st, f.tasks n = some ⟨key, owner, st⟩ ∧ (role = .leading ↔ owner = i)
  started : ∀ n key owner st, f.tasks n = some ⟨key, owner, st⟩ →
    .attached owner .leading n ∈ f.log
  once : ∀ i, f.log.countP (Event.isOf i) = if (f.callOf i).isSome then 1 else 0

namespace Attributed

theorem start (count : Nat) : (Flight.start count).Attributed := by
  refine ⟨?_, ?_, ?_⟩ <;> intros <;>
    simp_all [Flight.start, Ledger.empty, Roster.empty, callOf]

/-- A move that attaches nobody and begins no task. -/
theorem quiet (hf : f.Attributed) (ht : f.Tracked) (h : f.Moves a g)
    (hlog : ∀ i role n, .attached i role n ∈ g.log ↔ .attached i role n ∈ f.log)
    (hcount : ∀ i, g.log.countP (Event.isOf i) = f.log.countP (Event.isOf i))
    (hcall : ∀ i, g.callOf i = f.callOf i)
    (hback : ∀ n key owner st, g.tasks n = some ⟨key, owner, st⟩ →
      ∃ old, f.tasks n = some ⟨key, owner, old⟩) : g.Attributed := by
  refine ⟨?_, ?_, ?_⟩
  · intro i role n hmem
    obtain ⟨hi, key, owner, st, htask, hrole⟩ := hf.attached i role n ((hlog i role n).mp hmem)
    obtain ⟨st', htask', -⟩ := h.task ht htask
    exact ⟨(hcall i).trans hi, key, owner, st', htask', hrole⟩
  · intro n key owner st hn
    obtain ⟨old, hold⟩ := hback n key owner st hn
    exact (hlog owner .leading n).mpr (hf.started n key owner old hold)
  · intro i
    rw [hcount, hcall, hf.once i]

/-- A caller without a load joins one of its key. -/
theorem join (hf : f.Attributed) (ht : f.Tracked) {i : Nat} {key : String} {n : Nat}
    (hi : f.callOf i = none) (hn : f.coalescer.registered? key = some n) (c : Coalescer) :
    (f.attach i key .joined n c).Attributed := by
  obtain ⟨owner, st, htask, -⟩ := (ht.registered?_eq_some_iff key n).mp hn
  have howner : owner ≠ i := by
    rintro rfl
    have hown := (hf.attached owner .leading n (hf.started n key owner st htask)).1
    simp [hi] at hown
  refine ⟨?_, ?_, ?_⟩
  · intro j role m hmem
    rw [callOf_attach]
    rcases List.mem_cons.mp hmem with heq | hold
    · obtain ⟨rfl, rfl, rfl⟩ : j = i ∧ role = .joined ∧ m = n := by simpa using heq
      exact ⟨if_pos rfl, key, owner, st, htask, by simp [howner]⟩
    · have hj := hf.attached j role m hold
      have hne : j ≠ i := by
        rintro rfl
        simp [hi] at hj
      exact ⟨(if_neg hne).trans hj.1, hj.2⟩
  · intro m k o s hm
    exact List.mem_cons_of_mem _ (hf.started m k o s hm)
  · intro j
    have hold := hf.once j
    rw [callOf_attach]
    by_cases hj : j = i
    · subst hj
      simp [attach, Event.isOf, hold, hi]
    · simp [attach, Event.isOf, hold, hj, Ne.symm hj]

/-- A caller without a load starts its own. -/
theorem launch (hf : f.Attributed) (ht : f.Tracked) {i : Nat} (hi : f.callOf i = none)
    (key : String) (c : Coalescer) :
    (f.launch i key f.coalescer.calls.size c).Attributed := by
  have hne : ∀ {m t}, f.tasks m = some t → m ≠ f.coalescer.calls.size :=
    fun hm => Nat.ne_of_lt (ht.lt_size hm)
  refine ⟨?_, ?_, ?_⟩
  · intro j role m hmem
    rw [callOf_launch]
    rcases List.mem_cons.mp hmem with heq | hold
    · obtain ⟨rfl, rfl, rfl⟩ : j = i ∧ role = .leading ∧ m = f.coalescer.calls.size := by
        simpa using heq
      exact ⟨if_pos rfl, key, j, .running, Roster.put_self _ _ _, by simp⟩
    · obtain ⟨hj, k, o, s, htask, hrole⟩ := hf.attached j role m hold
      have hji : j ≠ i := by
        rintro rfl
        simp [hi] at hj
      exact ⟨(if_neg hji).trans hj, k, o, s,
        (Roster.put_of_ne (hne htask) _).trans htask, hrole⟩
  · intro m k o s hm
    rcases Roster.put_eq_some_iff.mp hm with ⟨rfl, heq⟩ | ⟨-, hold⟩
    · obtain ⟨-, rfl, -⟩ : key = k ∧ i = o ∧ .running = s := by simpa using heq
      exact List.mem_cons_self
    · exact List.mem_cons_of_mem _ (hf.started m k o s hold)
  · intro j
    have hold := hf.once j
    rw [callOf_launch]
    by_cases hj : j = i
    · subst hj
      simp [Flight.launch, advance, attach, Event.isOf, hold, hi]
    · simp [Flight.launch, advance, attach, Event.isOf, hold, hj, Ne.symm hj]

theorem moves (hf : f.Attributed) (ht : f.Tracked) (h : f.Moves a g) : g.Attributed := by
  have hmove := h
  cases h with
  | joinAtOnce i key n hcaller hjoin | joinLater i key n hcaller hjoin =>
    exact hf.join ht (by simp [callOf, hcaller, CallerStage.call?]) hjoin _
  | lead i key hcaller hnone =>
    exact hf.launch ht (by simp [callOf, hcaller, CallerStage.call?]) key _
  | arrive i key hcaller | miss i key hcaller | wake i key n r hcaller | leave i key s hcaller =>
    refine hf.quiet ht hmove (fun _ _ _ => Iff.rfl) (fun _ => rfl) ?_
      (fun _ _ _ st hn => ⟨st, hn⟩)
    intro j
    rw [callOf_setCaller]
    split
    · next hj => simp [hj, callOf, hcaller, CallerStage.call?]
    · rfl
  | finish n key owner e htask | record n key owner e htask =>
    refine hf.quiet ht hmove (fun _ _ _ => Iff.rfl) (fun _ => rfl) (fun _ => rfl) ?_
    intro m k o s hm
    rcases Roster.put_eq_some_iff.mp hm with ⟨rfl, heq⟩ | ⟨-, hold⟩
    · obtain ⟨rfl, rfl, -⟩ : key = k ∧ owner = o ∧ _ = s := by simpa using heq
      exact ⟨_, htask⟩
    · exact ⟨s, hold⟩
  | unregister n key owner e htask =>
    refine hf.quiet ht hmove (by simp) (fun _ => by simp [Event.isOf]) (fun _ => rfl) ?_
    intro m k o s hm
    rcases Roster.put_eq_some_iff.mp hm with ⟨rfl, heq⟩ | ⟨-, hold⟩
    · obtain ⟨rfl, rfl, -⟩ : key = k ∧ owner = o ∧ _ = s := by simpa using heq
      exact ⟨_, htask⟩
    · exact ⟨s, hold⟩

end Attributed

/-- The counters of the coalescer agree with the log. -/
structure Counted (f : Flight) : Prop where
  calls : f.coalescer.calls.size = f.log.countP Event.isStart
  executions : f.coalescer.executions = UInt64.ofNat (f.log.countP Event.isStart)
  coalesced : f.coalescer.coalesced = UInt64.ofNat (f.log.countP Event.isJoin)
  inFlight : f.coalescer.inFlight + f.log.countP Event.isUnregistration =
    f.log.countP Event.isStart

namespace Counted

theorem start (count : Nat) : (Flight.start count).Counted :=
  ⟨rfl, rfl, rfl, inFlight_ofShards count⟩

theorem moves (hf : f.Counted) (ht : f.Tracked) (h : f.Moves a g) : g.Counted := by
  obtain ⟨hcalls, hexecutions, hcoalesced, hinFlight⟩ := hf
  cases h with
  | arrive | miss | wake | leave | finish =>
    exact ⟨hcalls, hexecutions, hcoalesced, hinFlight⟩
  | record n key owner e htask =>
    exact ⟨by simpa [advance, Coalescer.record] using hcalls, hexecutions, hcoalesced, hinFlight⟩
  | joinAtOnce i key n | joinLater i key n =>
    refine ⟨hcalls, hexecutions, ?_, hinFlight⟩
    have hcount : (f.attach i key .joined n f.coalescer).log.countP Event.isJoin =
        f.log.countP Event.isJoin + 1 := List.countP_cons_of_pos rfl
    calc f.coalescer.coalesced + 1
        = UInt64.ofNat (f.log.countP Event.isJoin) + UInt64.ofNat 1 := by rw [hcoalesced]; rfl
      _ = UInt64.ofNat (f.log.countP Event.isJoin + 1) := (UInt64.ofNat_add _ _).symm
      _ = _ := congrArg UInt64.ofNat hcount.symm
  | lead i key =>
    have hlead := ht.wellPlaced.inFlight_lead key
    have hcount : (f.launch i key f.coalescer.calls.size f.coalescer).log.countP
        Event.isStart = f.log.countP Event.isStart + 1 := List.countP_cons_of_pos rfl
    refine ⟨?_, ?_, ?_, ?_⟩
    · calc (f.coalescer.calls.push .new).size
          = f.log.countP Event.isStart + 1 := by rw [Array.size_push, hcalls]
        _ = _ := hcount.symm
    · calc f.coalescer.executions + 1
          = UInt64.ofNat (f.log.countP Event.isStart) + UInt64.ofNat 1 := by
            rw [hexecutions]; rfl
        _ = UInt64.ofNat (f.log.countP Event.isStart + 1) := (UInt64.ofNat_add _ _).symm
        _ = _ := congrArg UInt64.ofNat hcount.symm
    · simpa [launch, advance, attach, lead, Event.isJoin] using hcoalesced
    · simp only [launch, advance, attach, hlead, Event.isStart, Event.isUnregistration,
        List.countP_cons]
      simp
      omega
  | unregister n key owner e htask =>
    have hregistered := (ht.registered?_task htask key).mpr ⟨rfl, rfl⟩
    have hdrop := ht.wellPlaced.inFlight_unregister hregistered
    refine ⟨?_, ?_, ?_, ?_⟩
    · simpa [advance, unregister, Event.isStart] using hcalls
    · simpa [advance, unregister, Event.isStart] using hexecutions
    · simpa [advance, unregister, Event.isJoin] using hcoalesced
    · simp only [advance, Event.isStart, Event.isUnregistration, List.countP_cons]
      simp
      omega

end Counted

/-- What holds of a flight at any time. -/
structure Sound (f : Flight) : Prop where
  tracked : f.Tracked
  shared : f.Shared
  attributed : f.Attributed
  counted : f.Counted

namespace Sound

theorem start (count : Nat) : (Flight.start count).Sound :=
  ⟨.start count, .start count, .start count, .start count⟩

theorem moves (hf : f.Sound) (h : f.Moves a g) : g.Sound :=
  ⟨hf.tracked.moves h, hf.shared.moves hf.tracked h, hf.attributed.moves hf.tracked h,
    hf.counted.moves hf.tracked h⟩

theorem step (hf : f.Sound) (a : Action) : (f.step a).Sound := by
  rcases f.step_eq_or_moves a with heq | hmove
  · exact heq.symm ▸ hf
  · exact hf.moves hmove

theorem run (hf : f.Sound) (actions : List Action) : (f.run actions).Sound :=
  run_induction (P := Sound) (fun _ _ _ hf h => hf.moves h) hf actions

end Sound

/-- How often a caller started its loader. -/
def starts (f : Flight) (i : Nat) : Nat := f.log.countP fun e => e.isStart && e.isOf i

/-- How often a caller joined the load of another. -/
def joins (f : Flight) (i : Nat) : Nat := f.log.countP fun e => e.isJoin && e.isOf i

/-- The removal of every registration, each by its own task. -/
def withdrawals (f : Flight) : List Action :=
  (List.range f.coalescer.calls.size).map .unregister

/-- No two loaders of one key run at a time, every caller that got so far as to take part
in a load started it once or joined it once, and the counters say so. -/
structure SingleFlight (f : Flight) : Prop where
  one_running : ∀ n m key o p, f.tasks n = some ⟨key, o, .running⟩ →
    f.tasks m = some ⟨key, p, .running⟩ → n = m
  registered : ∀ n key o, f.tasks n = some ⟨key, o, .running⟩ →
    f.coalescer.registered? key = some n
  unattached : ∀ i, f.callOf i = none → f.starts i = 0 ∧ f.joins i = 0
  attached : ∀ i n, f.callOf i = some n → ∃ key stage owner st,
    f.callers i = some ⟨key, stage⟩ ∧ f.tasks n = some ⟨key, owner, st⟩ ∧
    (owner = i ∧ f.starts i = 1 ∧ f.joins i = 0 ∨
      owner ≠ i ∧ f.starts i = 0 ∧ f.joins i = 1)
  started : ∀ n, (f.tasks n).isSome ↔ n < f.log.countP Event.isStart
  executions : f.coalescer.executions = UInt64.ofNat (f.log.countP Event.isStart)
  coalesced : f.coalescer.coalesced = UInt64.ofNat (f.log.countP Event.isJoin)
  inFlight : f.coalescer.inFlight + f.log.countP Event.isUnregistration =
    f.log.countP Event.isStart
  idle : (∀ n t, f.tasks n = some t → t.stage.isRegistered = false) →
    f.coalescer.inFlight = 0
  /-- Once every loader has ended, the tasks have only to remove their registrations. -/
  settles : (∀ n t, f.tasks n = some t → t.stage.ending?.isSome) →
    (f.run f.withdrawals).coalescer.inFlight = 0

theorem starts_add_joins (f : Flight) (i : Nat) :
    f.starts i + f.joins i = f.log.countP (Event.isOf i) := by
  obtain ⟨⟨callers, tasks, log⟩, c⟩ := f
  simp only [starts, joins]
  induction log with
  | nil => rfl
  | cons e rest ih =>
    simp only [List.countP_cons, ← ih]
    cases e with
    | unregistered n => simp [Event.isOf]
    | attached j role n =>
      cases role <;> simp [Event.isStart, Event.isJoin] <;> omega

theorem Sound.role_of_callOf (hf : f.Sound) {i n : Nat} (hi : f.callOf i = some n) :
    ∃ key stage owner st, f.callers i = some ⟨key, stage⟩ ∧ f.tasks n = some ⟨key, owner, st⟩ ∧
      (owner = i ∧ f.starts i = 1 ∧ f.joins i = 0 ∨
        owner ≠ i ∧ f.starts i = 0 ∧ f.joins i = 1) := by
  obtain ⟨key, stage, hcaller, hstage⟩ := callOf_eq_some_iff.mp hi
  obtain ⟨owner, st, htask⟩ := hf.shared.task_of_callOf i key stage n hcaller hstage
  refine ⟨key, stage, owner, st, hcaller, htask, ?_⟩
  have hsum : f.starts i + f.joins i = 1 := by
    simpa [hi, hf.attributed.once i] using starts_add_joins f i
  have hpos : 0 < f.log.countP (Event.isOf i) := by simp [hf.attributed.once i, hi]
  obtain ⟨e, hmem, hof⟩ := List.countP_pos_iff.mp hpos
  cases e with
  | unregistered m => simp [Event.isOf] at hof
  | attached j role m =>
    obtain rfl : j = i := by simpa [Event.isOf] using hof
    obtain ⟨hj, k, o, s, htask', hrole⟩ := hf.attributed.attached j role m hmem
    obtain rfl : m = n := by simpa [hi] using hj.symm
    obtain ⟨-, rfl, -⟩ : k = key ∧ o = owner ∧ s = st := by simpa [htask] using htask'.symm
    cases role with
    | leading =>
      have hstart : 0 < f.starts j :=
        List.countP_pos_iff.mpr ⟨_, hmem, by simp [Event.isStart, Event.isOf]⟩
      exact Or.inl ⟨hrole.mp rfl, by omega, by omega⟩
    | joined =>
      have hjoin : 0 < f.joins j :=
        List.countP_pos_iff.mpr ⟨_, hmem, by simp [Event.isJoin, Event.isOf]⟩
      refine Or.inr ⟨?_, by omega, by omega⟩
      intro howner
      simpa using hrole.mpr howner

theorem Sound.inFlight_eq_zero (hf : f.Sound)
    (hidle : ∀ n t, f.tasks n = some t → t.stage.isRegistered = false) :
    f.coalescer.inFlight = 0 := by
  rw [hf.tracked.wellPlaced.inFlight_eq_zero_iff]
  intro key
  cases hkey : f.coalescer.registered? key with
  | none => rfl
  | some n =>
    obtain ⟨owner, stage, htask, hstage⟩ := (hf.tracked.registered?_eq_some_iff key n).mp hkey
    simp [hidle n _ htask] at hstage

/-- One task removes its registration, where every loader has ended. -/
theorem task_of_unregister (hended : ∀ n t, f.tasks n = some t → t.stage.ending?.isSome)
    {n m : Nat} {t : Task} (ht : (f.step (.unregister n)).tasks m = some t) :
    t.stage.ending?.isSome ∧
      (t.stage.isRegistered = true → f.tasks m = some t ∧ m ≠ n) := by
  rcases f.step_eq_or_moves (.unregister n) with heq | hmove
  · rw [heq] at ht
    refine ⟨hended m t ht, fun hstage => ⟨ht, ?_⟩⟩
    rintro rfl
    obtain ⟨key, owner, stage⟩ := t
    cases stage with
    | running => simpa [TaskStage.ending?] using hended m _ ht
    | ended e => simpa [step, ht, advance] using congrArg (fun g => g.log.length) heq
    | unregistered | recorded => simp [TaskStage.isRegistered] at hstage
  · generalize f.step (.unregister n) = g at ht hmove
    cases hmove with
    | unregister n key owner e htask =>
      rcases Roster.put_eq_some_iff.mp ht with ⟨rfl, rfl⟩ | ⟨hne, hold⟩
      · exact ⟨rfl, by simp [TaskStage.isRegistered]⟩
      · exact ⟨hended m t hold, fun _ => ⟨hold, hne⟩⟩

/-- Tasks remove their registrations one after another, where every loader has ended. -/
theorem task_of_unregistrations (ns : List Nat) (f : Flight)
    (hended : ∀ n t, f.tasks n = some t → t.stage.ending?.isSome) {m : Nat} {t : Task}
    (ht : (f.run (ns.map .unregister)).tasks m = some t)
    (hstage : t.stage.isRegistered = true) : f.tasks m = some t ∧ m ∉ ns := by
  induction ns generalizing f with
  | nil => exact ⟨ht, List.not_mem_nil⟩
  | cons n rest ih =>
    obtain ⟨hnext, hrest⟩ := ih (f.step (.unregister n))
      (fun _ _ hu => (task_of_unregister hended hu).1) ht
    obtain ⟨hold, hne⟩ := (task_of_unregister hended hnext).2 hstage
    exact ⟨hold, by simp [hne, hrest]⟩

theorem Sound.inFlight_withdrawals (hf : f.Sound)
    (hended : ∀ n t, f.tasks n = some t → t.stage.ending?.isSome) :
    (f.run f.withdrawals).coalescer.inFlight = 0 := by
  apply (hf.run f.withdrawals).inFlight_eq_zero
  intro m t ht
  by_contra hstage
  obtain ⟨hold, hmem⟩ := task_of_unregistrations _ f hended ht (by simpa using hstage)
  exact hmem (List.mem_range.mpr (hf.tracked.lt_size hold))

/-- Whatever the number of shards and the order of steps, a coalescer is single-flight. -/
theorem singleFlight_run (shards : Nat) (actions : List Action) :
    ((start shards).run actions).SingleFlight := by
  have hf : ((start shards).run actions).Sound := (Sound.start shards).run actions
  generalize (start shards).run actions = f at hf
  have hregistered : ∀ n key o, f.tasks n = some ⟨key, o, .running⟩ →
      f.coalescer.registered? key = some n := by
    intro n key o htask
    exact (hf.tracked.registered?_task htask key).mpr ⟨rfl, rfl⟩
  refine ⟨?_, hregistered, ?_, fun i n => hf.role_of_callOf, ?_, hf.counted.executions,
    hf.counted.coalesced, hf.counted.inFlight, hf.inFlight_eq_zero, hf.inFlight_withdrawals⟩
  · intro n m key o p hn hm
    have hsame := (hregistered n key o hn).symm.trans (hregistered m key p hm)
    exact Option.some.inj hsame
  · intro i hi
    have hsum : f.starts i + f.joins i = 0 := by
      simpa [hi, hf.attributed.once i] using starts_add_joins f i
    omega
  · intro n
    have hnone := hf.tracked.tasks_eq_none_iff n
    rw [← hf.counted.calls, ← Nat.not_le, ← hnone, ← Option.ne_none_iff_isSome]

end ArtifactPlane.Coalescer.Flight
