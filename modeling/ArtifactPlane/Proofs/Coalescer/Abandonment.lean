import ArtifactPlane.Proofs.Coalescer.Tracking

/-!
Abandoned callers are not noticed.  A history with abandonments and the same history without
them are run side by side.  The two differ in the abandoned callers alone: where one run has a
caller that left, the other has it wait for the same load or given its result.  Everything
else, the loads, the registry and the counters, never looks at callers that wait.
-/

namespace ArtifactPlane.Coalescer

/-- Whether an action abandons a caller. -/
def Action.isLeave : Action → Bool
  | .leave _ => true
  | _ => false

/-- A history without its abandonments. -/
def patient (actions : List Action) : List Action := actions.filter fun a => !a.isLeave

namespace Flight

variable {f g : Flight} {left : Nat → Prop} {i : Nat}

/-- A call looks, enters and begins to wait without a pause, and only where it waits can it be
dropped; so a caller is abandoned only once it takes part in a load. -/
def permits (f : Flight) : Action → Bool
  | .leave i => (f.callOf i).isSome
  | _ => true

/-- Whether every abandonment of a history may come where it does. -/
def permitsAll (f : Flight) : List Action → Bool
  | [] => true
  | a :: rest => f.permits a && (f.step a).permitsAll rest

theorem permitsAll_of_append {before later : List Action}
    (h : f.permitsAll (before ++ later) = true) : f.permitsAll before = true := by
  induction before generalizing f with
  | nil => rfl
  | cons a before ih =>
    rw [List.cons_append, permitsAll, Bool.and_eq_true] at h
    rw [permitsAll, Bool.and_eq_true]
    exact ⟨h.1, ih h.2⟩

/-- A caller that left one run, and that takes part in the same load in the other. -/
def Gone (one other : Option Caller) : Prop :=
  ∃ key n stage, one = some ⟨key, .left (some n)⟩ ∧ other = some ⟨key, stage⟩ ∧
    stage.call? = some n

/-- Two runs that differ in callers that have left one of them, and in nothing else. -/
structure Shadows (left : Nat → Prop) (f g : Flight) : Prop where
  coalescer : f.coalescer = g.coalescer
  tasks : f.tasks = g.tasks
  log : f.log = g.log
  callers : ∀ i, f.callers i = g.callers i ∨ left i ∧ Gone (f.callers i) (g.callers i)

namespace Shadows

theorem refl (left : Nat → Prop) (f : Flight) : Shadows left f f :=
  ⟨rfl, rfl, rfl, fun _ => Or.inl rfl⟩

theorem put_callers (h : Shadows left f g) (i : Nat) (c : Caller) (j : Nat) :
    f.callers.put i c j = g.callers.put i c j ∨
      left j ∧ Gone (f.callers.put i c j) (g.callers.put i c j) := by
  by_cases hj : j = i
  · subst hj
    exact Or.inl (by rw [Roster.put_self, Roster.put_self])
  · rw [Roster.put_of_ne hj, Roster.put_of_ne hj]
    exact h.callers j

theorem setCaller (h : Shadows left f g) (i : Nat) (c : Caller) :
    Shadows left (f.setCaller i c) (g.setCaller i c) :=
  ⟨h.coalescer, h.tasks, h.log, h.put_callers i c⟩

theorem attach (h : Shadows left f g) (i : Nat) (key : String) (role : Role) (n : Nat)
    (c : Coalescer) : Shadows left (f.attach i key role n c) (g.attach i key role n c) :=
  ⟨rfl, h.tasks, congrArg (List.cons (Event.attached i role n)) h.log, h.put_callers i _⟩

theorem advance (h : Shadows left f g) (n : Nat) (t : Task) (c : Coalescer) :
    Shadows left (f.advance n t c) (g.advance n t c) :=
  ⟨rfl, congrArg (·.put n t) h.tasks, h.log, h.callers⟩

theorem launch (h : Shadows left f g) (i : Nat) (key : String) (n : Nat) (c : Coalescer) :
    Shadows left (f.launch i key n c) (g.launch i key n c) :=
  (h.attach i key .leading n c).advance n _ c

/-- A caller that has left takes no more steps, whatever it does in the other run. -/
theorem stall (h : Shadows left f g) (hi : left i) {c : Caller}
    (hgone : Gone (f.callers i) (some c)) : Shadows left f (g.setCaller i c) := by
  refine ⟨h.coalescer, h.tasks, h.log, ?_⟩
  intro j
  by_cases hj : j = i
  · subst hj
    exact Or.inr ⟨hi, by simpa [Flight.setCaller] using hgone⟩
  · simpa [Flight.setCaller, Roster.put_of_ne hj] using h.callers j

/-- A task moves on in both runs alike. -/
theorem step_task (h : Shadows left f g) (n : Nat) (e : Ending) :
    Shadows left (f.step (.finish n e)) (g.step (.finish n e)) ∧
      Shadows left (f.step (.unregister n)) (g.step (.unregister n)) ∧
      Shadows left (f.step (.record n)) (g.step (.record n)) := by
  simp only [Flight.step, h.tasks, h.coalescer]
  refine ⟨?_, ?_, ?_⟩
  · split
    · exact h.advance n _ _
    · exact h
  · split
    · obtain ⟨hcoalescer, htasks, hlog, hcallers⟩ := h.advance n _ _
      exact ⟨hcoalescer, htasks, congrArg (List.cons (.unregistered n)) hlog, hcallers⟩
    · exact h
  · split
    · exact h.advance n _ _
    · exact h

/-- A caller that both runs have at the same stage looks and enters alike. -/
theorem step_seek (h : Shadows left f g) (i : Nat) :
    Shadows left (f.step (.look i)) (g.step (.look i)) ∧
      Shadows left (f.step (.enter i)) (g.step (.enter i)) := by
  rcases h.callers i with hsame | ⟨-, key, n, stage, hone, hother, hn⟩
  · simp only [Flight.step, hsame, h.coalescer]
    refine ⟨?_, ?_⟩
    · split
      · split
        · exact h.attach i _ _ _ _
        · exact h.setCaller i _
      · exact h
    · split
      · split
        · exact h.attach i _ _ _ _
        · exact h.launch i _ _ _
      · exact h
  · cases stage with
    | arrived | missed => simp [CallerStage.call?] at hn
    | waiting | returned | left => simpa only [Flight.step, hone, hother, and_self] using h

theorem step_wake (h : Shadows left f g) (i : Nat) :
    Shadows left (f.step (.wake i)) (g.step (.wake i)) := by
  rcases h.callers i with hsame | ⟨hi, key, n, stage, hone, hother, hn⟩
  · simp only [Flight.step, hsame, h.coalescer]
    split
    · split
      · exact h.setCaller i _
      · exact h
    · exact h
  · cases stage with
    | arrived | missed => simp [CallerStage.call?] at hn
    | returned | left => simpa only [Flight.step, hone, hother] using h
    | waiting m =>
      simp only [Flight.step, hone, hother]
      split
      · exact h.stall hi ⟨key, n, _, hone, rfl, hn⟩
      · exact h

theorem step_arrive (h : Shadows left f g) (i : Nat) (key : String) :
    Shadows left (f.step (.arrive i key)) (g.step (.arrive i key)) := by
  rcases h.callers i with hsame | ⟨-, k, n, stage, hone, hother, -⟩
  · simp only [Flight.step, hsame]
    split
    · exact h.setCaller i _
    · exact h
  · simpa only [Flight.step, hone, hother] using h

/-- Whatever is no abandonment happens in both runs alike. -/
theorem step (h : Shadows left f g) {a : Action} (ha : a.isLeave = false) :
    Shadows left (f.step a) (g.step a) := by
  cases a with
  | arrive i key => exact h.step_arrive i key
  | look i => exact (h.step_seek i).1
  | enter i => exact (h.step_seek i).2
  | wake i => exact h.step_wake i
  | leave i => exact absurd ha Bool.noConfusion
  | finish n e => exact (h.step_task n e).1
  | unregister n => exact (h.step_task n .panicked).2.1
  | record n => exact (h.step_task n .panicked).2.2

/-- An abandonment happens in one run only. -/
theorem leave (h : Shadows left f g) (hi : left i) (hcall : (f.callOf i).isSome = true) :
    Shadows left (f.step (.leave i)) g := by
  obtain ⟨n, hn⟩ := Option.isSome_iff_exists.mp hcall
  obtain ⟨key, stage, hone, hstage⟩ := callOf_eq_some_iff.mp hn
  have hother : ∃ other, g.callers i = some ⟨key, other⟩ ∧ other.call? = some n := by
    rcases h.callers i with hsame | ⟨-, k, m, other, hleft, hother, hm⟩
    · exact ⟨stage, hsame ▸ hone, hstage⟩
    · obtain ⟨rfl, rfl⟩ : key = k ∧ stage = .left (some m) := by simpa [hone] using hleft
      obtain rfl : m = n := by simpa [CallerStage.call?] using hstage
      exact ⟨other, hother, hm⟩
  obtain ⟨other, hother, hcallother⟩ := hother
  have hleft : Shadows left (f.setCaller i ⟨key, .left (some n)⟩) g := by
    refine ⟨h.coalescer, h.tasks, h.log, ?_⟩
    intro j
    by_cases hj : j = i
    · subst hj
      exact Or.inr ⟨hi, key, n, other, Roster.put_self _ _ _, hother, hcallother⟩
    · simpa [Flight.setCaller, Roster.put_of_ne hj] using h.callers j
  cases stage with
  | arrived | missed => simp [CallerStage.call?] at hstage
  | returned => simpa only [Flight.step, hone] using h
  | waiting | left => simpa only [Flight.step, hone, hstage] using hleft

/-- Two runs side by side, one of them without the abandonments of the other. -/
theorem run (h : Shadows left f g) {actions : List Action}
    (hleft : ∀ i, .leave i ∈ actions → left i) (hpermits : f.permitsAll actions = true) :
    Shadows left (f.run actions) (g.run (patient actions)) := by
  induction actions generalizing f g with
  | nil => exact h
  | cons a rest ih =>
    rw [permitsAll, Bool.and_eq_true] at hpermits
    have hrest : ∀ i, .leave i ∈ rest → left i := fun i hi =>
      hleft i (List.mem_cons_of_mem a hi)
    cases hleave : a.isLeave with
    | false =>
      have hkept : patient (a :: rest) = a :: patient rest := by simp [patient, hleave]
      rw [hkept]
      exact ih (h.step hleave) hrest hpermits.2
    | true =>
      have hskipped : patient (a :: rest) = patient rest := by simp [patient, hleave]
      rw [hskipped]
      cases a with
      | leave i => exact ih (h.leave (hleft i List.mem_cons_self) hpermits.1) hrest hpermits.2
      | _ => exact absurd hleave Bool.noConfusion

end Shadows

/-- What nobody but the abandoned callers can tell apart: the other callers, each with the
result it was given so far, the loads with the callers whose loaders run and how far these
have come, the order in which they began, and the counters. -/
structure Unnoticed (actions : List Action) (f g : Flight) : Prop where
  others : ∀ i, .leave i ∉ actions → f.callers i = g.callers i
  loads : f.tasks = g.tasks
  order : f.log = g.log
  stats : f.coalescer.stats = g.coalescer.stats

/-- Abandoned callers are not noticed: at every point of a history all that is not theirs is
as it is without the abandonments. -/
theorem unnoticed_run (count : Nat) (actions : List Action)
    (hpermits : (start count).permitsAll actions = true) :
    ∀ before later, actions = before ++ later →
      Unnoticed before ((start count).run before) ((start count).run (patient before)) := by
  rintro before later rfl
  have hbefore := permitsAll_of_append hpermits
  have hshadows := (Shadows.refl (fun i => .leave i ∈ before) (start count)).run
    (fun _ hi => hi) hbefore
  refine ⟨?_, hshadows.tasks, hshadows.log, congrArg Coalescer.stats hshadows.coalescer⟩
  intro i hi
  rcases hshadows.callers i with hsame | ⟨hleft, -⟩
  · exact hsame
  · exact absurd hleft hi

/-- The caller that leads a load and one that joins it are abandoned, and a third is given the
result; later every caller of the key is abandoned, and its load runs to its end. -/
def forsaken : List Action :=
  [.arrive 0 "k", .look 0, .enter 0, .leave 0, .arrive 1 "k", .look 1, .arrive 2 "k", .look 2,
    .leave 1, .finish 0 (.delivered (.ok [7])), .unregister 0, .record 0, .wake 2,
    .arrive 3 "k", .look 3, .enter 3, .leave 3, .finish 1 .panicked, .unregister 1, .record 1]

theorem unnoticed_forsaken :
    (start 1).permitsAll forsaken = true ∧
      ∀ before later, forsaken = before ++ later →
        Unnoticed before ((start 1).run before) ((start 1).run (patient before)) := by
  have hpermits : (start 1).permitsAll forsaken = true := by decide +kernel
  exact ⟨hpermits, unnoticed_run 1 forsaken hpermits⟩

end Flight

end ArtifactPlane.Coalescer
