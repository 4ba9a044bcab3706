import ArtifactPlane.Proofs.Coalescer.Tracking

/-!
A load and one of its callers, whatever goes on around them.  Only its own task moves a load,
and a caller that takes part in one only wakes or leaves; what these steps do depends on the
task and on the caller alone.
-/

namespace ArtifactPlane.Coalescer

/-- The steps of a task and of a caller that takes part in its load. -/
def Action.Concerns (n i : Nat) : Action → Prop
  | .wake j => j = i
  | .leave j => j = i
  | .finish m _ => m = n
  | .unregister m => m = n
  | .record m => m = n
  | _ => False

namespace Flight

variable {f g : Flight} {a : Action} {n i : Nat} {task : Task}

/-- A task, and a caller. -/
def vantage (f : Flight) (n i : Nat) : Option Task × Option Caller := (f.tasks n, f.callers i)

theorem vantage_eq_iff : g.vantage n i = f.vantage n i ↔
    g.tasks n = f.tasks n ∧ g.callers i = f.callers i := by
  rw [vantage, vantage, Prod.mk.injEq]

theorem Moves.vantage (h : f.Moves a g) (hf : f.Tracked) (hn : f.tasks n = some task)
    (hi : f.callOf i = some n) (ha : ¬ a.Concerns n i) : g.vantage n i = f.vantage n i := by
  obtain ⟨key, stage, hcaller, hcall⟩ := callOf_eq_some_iff.mp hi
  have hne : ∀ {j : Nat} {k : String} {old : CallerStage}, f.callers j = some ⟨k, old⟩ →
      old.call? = none → i ≠ j := by
    rintro j k old hj hold rfl
    obtain ⟨-, rfl⟩ : key = k ∧ stage = old := by simpa [hcaller] using hj
    simp [hold] at hcall
  cases h with
  | arrive j k hfree =>
    have hj : i ≠ j := by
      rintro rfl
      simp [hcaller] at hfree
    simp [Flight.vantage, setCaller, Roster.put_of_ne hj]
  | joinAtOnce j k m hj | joinLater j k m hj =>
    simp [Flight.vantage, attach, Roster.put_of_ne (hne hj rfl)]
  | miss j k hj => simp [Flight.vantage, setCaller, Roster.put_of_ne (hne hj rfl)]
  | lead j k hj =>
    have hfresh : n ≠ f.coalescer.calls.size := Nat.ne_of_lt (hf.lt_size hn)
    simp [Flight.vantage, launch, attach, advance, Roster.put_of_ne (hne hj rfl),
      Roster.put_of_ne hfresh]
  | wake j | leave j =>
    have hj : i ≠ j := Ne.symm ha
    simp [Flight.vantage, setCaller, Roster.put_of_ne hj]
  | finish m | unregister m | record m =>
    have hm : n ≠ m := Ne.symm ha
    simp [Flight.vantage, advance, Roster.put_of_ne hm]

/-- A step of others leaves a task and a caller of it alone. -/
theorem vantage_step (hf : f.Tracked) (hn : f.tasks n = some task) (hi : f.callOf i = some n)
    (ha : ¬ a.Concerns n i) : (f.step a).vantage n i = f.vantage n i := by
  rcases f.step_eq_or_moves a with heq | hmove
  · rw [heq]
  · exact hmove.vantage hf hn hi ha

/-- Nobody changes the load that it takes part in. -/
theorem callOf_step (hi : f.callOf i = some n) (a : Action) : (f.step a).callOf i = some n := by
  rcases f.step_eq_or_moves a with heq | hmove
  · rwa [heq]
  · rcases hmove.callOf i with hsame | ⟨hnone, -⟩
    · exact hsame.trans hi
    · simp [hi] at hnone

/-- A task that has ended never runs again. -/
theorem running_of_step (hf : f.Tracked) (hn : f.tasks n = some task) {key : String}
    {owner : Nat} (h : (f.step a).tasks n = some ⟨key, owner, .running⟩) :
    f.tasks n = some ⟨key, owner, .running⟩ := by
  rcases f.step_eq_or_moves a with heq | hmove
  · rwa [heq] at h
  · generalize f.step a = g at h hmove
    cases hmove with
    | arrive | joinAtOnce | miss | joinLater | wake | leave => exact h
    | lead =>
      have hfresh : n ≠ f.coalescer.calls.size := Nat.ne_of_lt (hf.lt_size hn)
      simpa [launch, attach, advance, Roster.put_of_ne hfresh] using h
    | finish | unregister | record =>
      rcases Roster.put_eq_some_iff.mp h with ⟨-, hended⟩ | ⟨-, hold⟩
      · simp at hended
      · exact hold

end Flight

end ArtifactPlane.Coalescer
