import ArtifactPlane.Proofs.Plane.Outlook

/-!
Two services in step.  A load under way goes on in the same way wherever its outlook is the same,
so it fares alike in histories that differ in the steps of others only.
-/

namespace ArtifactPlane.Service

open Coalescer (Ending Flight)

variable {s t : Service} {n i : Nat}

section Requests

variable (hon : s.Underway n i) (hs : s.Orderly)
include hon hs

/-- A step of the coalescer leaves a load under way. -/
theorem Underway.fly (b : Coalescer.Action) : (s.fly b).Underway n i := by
  refine ⟨⟨?_, ?_⟩, ?_, ?_⟩
  · intro g hg
    rw [flight?_fly] at hg
    obtain ⟨f, hf, rfl⟩ := Option.map_eq_some_iff.mp hg
    exact Flight.callOf_step (hon.called f hf) b
  · intro hg
    rw [flight?_fly, Option.map_eq_none_iff] at hg
    exact hon.alone hg
  · rw [load?_fly]
    exact hon.loaded
  · intro owner load hrunning
    rw [progress_fly]
    cases hf : s.flight? with
    | none =>
      have hsame : s.fly b = s := by simp only [Service.fly, hf]
      exact hon.looked owner load (hsame ▸ hrunning)
    | some f =>
      have hg : (s.fly b).flight? = some (f.step b) := by rw [flight?_fly, hf, Option.map_some]
      obtain ⟨⟨key, hafter⟩, hload⟩ := running?_flight hg hrunning
      obtain ⟨k, o, stage, l, htask, -⟩ := hon.task hs hf
      have hbefore := Flight.running_of_step (hs.flight f hf).1.tracked htask hafter
      rw [load?_fly] at hload
      exact hon.looked owner load (by simp [running?, hf, hbefore, hload])

omit hs in
theorem Underway.setProgress {p : Progress} (hp : p ≠ .begun) :
    (s.setProgress n p).Underway n i := by
  refine ⟨⟨hon.called, hon.alone⟩, hon.loaded, fun owner load _ => ?_⟩
  change (if n = n then p else s.progress n) ≠ .begun
  rwa [if_pos rfl]

/-- A request that is routed goes on. -/
theorem Underway.setRequest {r old : Request} (hold : s.requests i = some old)
    (hload : r.load = old.load) (hstage : r.stage ≠ .loading) :
    (s.setRequest i r).Underway n i := by
  have hkept : ∀ old, s.requests i = some old → old.load = none ∨ r.load = old.load := by
    simp [hold, hload]
  refine ⟨⟨hon.called, hon.alone⟩, ?_, ?_⟩
  · obtain ⟨load, hi⟩ := Option.isSome_iff_exists.mp hon.loaded
    rw [load?_setRequest hkept hi]
    rfl
  · intro owner load hrunning
    cases hf : s.flight? with
    | some f =>
      obtain ⟨k, o, stage, l, htask, howner⟩ := hon.task hs hf
      obtain ⟨⟨key, hrun⟩, hafter⟩ := running?_flight (s := s.setRequest i r) hf hrunning
      obtain ⟨rfl, rfl, rfl⟩ : k = key ∧ o = owner ∧ stage = .running := by
        simpa [htask] using hrun
      exact hon.looked o l (by simp [running?, hf, htask, howner])
    | none =>
      obtain ⟨rfl, q, hq, hloading, -⟩ := running?_alone (s := s.setRequest i r) hf hrunning
      obtain rfl := hon.alone hf
      obtain rfl : r = q := by simpa [Service.setRequest] using hq
      exact absurd hloading hstage

theorem Underway.conclude (e : Ending) : (s.conclude n e).Underway n i := by
  unfold Service.conclude
  split
  · exact hon.fly hs _
  · next r hf hr =>
    obtain rfl := hon.alone hf
    exact hon.setRequest hs hr rfl (by simp)
  · exact hon

theorem Underway.carry {d : Deed} (hd : d ≠ .goes .begun) : (s.carry n d).Underway n i := by
  cases d with
  | goes p => exact hon.setProgress fun hp => hd (by rw [hp])
  | ends e => exact hon.conclude hs e

theorem Underway.step (a : Action) : (s.step a).Underway n i := by
  by_cases ha : a.Touches n i
  · have hloader : a.loader? = some n → (s.step a).Underway n i := by
      intro hn
      cases hdeed : s.deed? n a with
      | none => rwa [step_of_deed?_eq_none hn hdeed]
      | some d =>
        obtain ⟨u, hu, horderly, heq⟩ := step_of_deed?_eq_some hs hn hdeed
        rw [heq]
        refine (hon.congr (hu n i)).carry horderly ?_
        rintro rfl
        exact deed?_ne_begun s n a hdeed
    cases a with
    | call | stamp | route | look | enter | clear | reload | bump | empty | reap | sweep =>
      exact ha.elim
    | wake j => exact hon.fly hs _
    | unregister m | record m => exact hon.fly hs _
    | lookUp m | dispose m | ask m | read m | keep m => exact hloader (congrArg some ha)
    | leave j =>
      obtain rfl : j = i := ha
      simp only [Service.step]
      split
      · next r hr _ =>
        have hleft := hon.setRequest hs (r := { r with stage := .left }) hr rfl (by simp)
        exact hleft.fly (hs.abandon hr) _
      · exact hon
    | replace medium => exact ⟨⟨hon.called, hon.alone⟩, hon.loaded, hon.looked⟩
  · exact hon.congr (outlook_step_of_not_touches hon hs ha)

theorem Underway.happen (e : Happening) : (s.happen e).Underway n i := by
  cases e with
  | act a => exact hon.step hs a
  | swap | openStream | share => exact hon.congr (outlook_happen_upkeep rfl)

variable (ht : t.Orderly) (h : t.outlook n i = s.outlook n i)
include ht h

end Requests

theorem Underway.after (hon : s.Underway n i) (hs : s.Orderly) (events : List Happening) :
    (s.after events).Underway n i := by
  induction events generalizing s with
  | nil => exact hon
  | cons e events ih => exact ih (hon.happen hs e) (hs.happen e)

end ArtifactPlane.Service
