import ArtifactPlane.Proofs.Plane.Outlook

/-!
Nobody waits for ever.  In every state that a plane can come to, the steps of a load that are
still to be taken bring whoever waits for it an answer, whatever became of the tree in force and
of the cache.
-/

namespace ArtifactPlane

namespace Coalescer.Flight

variable {f : Flight} {n i owner : Nat} {key k : String} {stage : TaskStage}

/-- A task that has ended is recorded within two steps, and its callers are given the result. -/
theorem returned_of_ended (hf : f.Sound) (hn : f.tasks n = some ⟨k, owner, stage⟩)
    (hstage : stage ≠ .running) (hi : f.callers i = some ⟨key, .waiting n⟩) :
    ∃ r, (f.run [.unregister n, .record n, .wake i]).callers i = some ⟨key, .returned n r⟩ := by
  have hrecorded : ∃ e, ((f.step (.unregister n)).step (.record n)).tasks n =
      some ⟨k, owner, .recorded e⟩ := by
    cases stage with
    | running => exact absurd rfl hstage
    | ended e | unregistered e | recorded e => exact ⟨e, by simp [step, advance, hn]⟩
  have hwaiting : ((f.step (.unregister n)).step (.record n)).callers i = f.callers i := by
    cases stage <;> simp [step, advance, hn]
  obtain ⟨e, htask⟩ := hrecorded
  have hcall := ((hf.step (.unregister n)).step (.record n)).tracked.call_eq n _ htask
  refine ⟨e.result k, ?_⟩
  change (((f.step (.unregister n)).step (.record n)).step (.wake i)).callers i = _
  rw [step.eq_def]
  simp [hwaiting, hi, hcall, Task.call, Call.outcome?, setCaller]

end Coalescer.Flight

namespace Service

open Coalescer (Ending Flight)

variable {s t : Service} {n i m : Nat}

/-- A request that waits for a load. -/
structure Awaits (s : Service) (i n : Nat) : Prop where
  loaded : (s.load? i).isSome
  loading : ∃ r, s.requests i = some r ∧ r.stage = .loading
  /-- With a coalescer, as a caller. -/
  waiting : ∀ f, s.flight? = some f → ∃ key, f.callers i = some ⟨key, .waiting n⟩
  /-- Without one, for a load of its own. -/
  alone : s.flight? = none → i = n

/-- The steps of a load from its beginning, and the return of a caller. -/
def finishing (n i : Nat) (now : Instant) : List Action :=
  [.lookUp n now, .dispose n false, .ask n, .read n, .keep n now now, .unregister n, .record n,
    .wake i]

/-- A loader that still runs has come so far. -/
def Past (s : Service) (n k : Nat) : Prop :=
  ∀ owner load, s.running? n = some (owner, load) → k ≤ (s.progress n).rank

theorem running?_conclude (s : Service) (n : Nat) (e : Ending) :
    (s.conclude n e).running? n = none := by
  cases hf : s.flight? with
  | none =>
    cases hr : s.requests n with
    | none => simp [conclude, running?, hf, hr]
    | some r =>
      have hflight : (s.setRequest n { r with stage := .answered e }).flight? = none := hf
      simp only [conclude, hf, hr, running?, hflight]
      simp [setRequest]
  | some f =>
    have hflight : (s.fly (.finish n e)).flight? = some (f.step (.finish n e)) := by
      rw [flight?_fly, hf, Option.map_some]
    rw [Wired.conclude_eq_fly hf]
    simp only [running?, hflight]
    rcases hn : f.tasks n with _ | ⟨key, owner, stage⟩
    · simp [Flight.step, hn]
    · cases stage <;> simp [Flight.step, Flight.advance, hn]

/-- A step is due where the loader runs and has come just so far. -/
theorem isSome_deed? {a : Action} {owner : Nat} {load : PendingLoad}
    (hrunning : s.running? n = some (owner, load)) (hrank : a.rank? = some (s.progress n).rank) :
    (s.deed? n a).isSome := by
  cases hp : s.progress n <;> cases a <;>
    simp [deed?, hrunning, hp, Action.rank?, Progress.rank] at hrank ⊢

theorem Past.step {k : Nat} {a : Action} (h : s.Past n k) (hs : s.Orderly)
    (ha : a.loader? = some n) (hrank : a.rank? = some k) : (s.step a).Past n (k + 1) := by
  cases hdeed : s.deed? n a with
  | none =>
    rw [step_of_deed?_eq_none ha hdeed]
    intro owner load hrunning
    have hle := h owner load hrunning
    have hne : (s.progress n).rank ≠ k := by
      intro heq
      have hdue := isSome_deed? hrunning (hrank.trans (congrArg some heq.symm))
      simp [hdeed] at hdue
    omega
  | some d =>
    obtain ⟨u, -, -, heq⟩ := step_of_deed?_eq_some hs ha hdeed
    rw [heq]
    intro owner load hrunning
    cases d with
    | goes p =>
      obtain ⟨j, hj, hlt⟩ := rank_of_deed? hdeed
      obtain rfl : k = j := Option.some.inj (hrank.symm.trans hj)
      simpa [carry, setProgress] using Nat.succ_le_of_lt hlt
    | ends e => simp [carry, running?_conclude] at hrunning

namespace Awaits

theorem congr (h : s.Awaits i n) (hsame : t.outlook n i = s.outlook n i) : t.Awaits i n := by
  obtain ⟨-, -, -, hrequest, -⟩ := outlook_eq_iff.mp hsame
  have hflight := flight?_of_outlook hsame.symm
  refine ⟨?_, hrequest ▸ h.loading, ?_, fun hg => h.alone (hflight.1 hg)⟩
  · simpa only [load?, ticket?, hrequest] using h.loaded
  · intro g hg
    obtain ⟨f, hf, hvantage⟩ := hflight.2 g hg
    rw [← (Flight.vantage_eq_iff.mp hvantage).2]
    exact h.waiting f hf

/-- The end of a loader answers the request, or leaves it to the coalescer. -/
theorem carry (h : s.Awaits i n) (d : Deed) : (s.carry n d).Awaits i n ∨
    (s.carry n d).flight? = none ∧ i = n ∧ ((s.carry n d).answer? n).isSome := by
  cases d with
  | goes p => exact Or.inl ⟨h.loaded, h.loading, h.waiting, h.alone⟩
  | ends e =>
    cases hf : s.flight? with
    | none =>
      obtain rfl := h.alone hf
      obtain ⟨r, hr, -⟩ := h.loading
      right
      simp only [Service.carry, conclude, hf, hr]
      refine ⟨hf, trivial, ?_⟩
      simp [answer?, setRequest]
    | some f =>
      left
      have hcallers : (f.step (.finish n e)).callers = f.callers := by
        rcases hn : f.tasks n with _ | ⟨key, owner, stage⟩
        · simp [Flight.step, hn]
        · cases stage <;> simp [Flight.step, Flight.advance, hn]
      simp only [Service.carry, Wired.conclude_eq_fly hf]
      refine ⟨by rw [load?_fly]; exact h.loaded, by rw [requests_fly]; exact h.loading, ?_, ?_⟩
      · intro g hg
        rw [flight?_fly, hf, Option.map_some] at hg
        obtain rfl := Option.some.inj hg
        rw [hcallers]
        exact h.waiting f hf
      · intro hg
        simp [flight?_fly, hf] at hg

end Awaits

/-- A request whose loader has come so far, or that has its answer already. -/
def Nears (s : Service) (i n k : Nat) : Prop :=
  s.Awaits i n ∧ s.Past n k ∨ s.flight? = none ∧ i = n ∧ (s.answer? n).isSome

/-- Nothing runs any more for a request that has its answer. -/
theorem running?_of_answer? (hf : s.flight? = none) (hanswer : (s.answer? n).isSome) :
    s.running? n = none := by
  rcases hr : s.requests n with _ | ⟨ticket, stage⟩
  · simp [running?, hf, hr]
  · cases stage <;> simp [answer?, running?, hf, hr] at hanswer ⊢

theorem Nears.step {k : Nat} {a : Action} (h : s.Nears i n k) (hs : s.Orderly)
    (ha : a.loader? = some n) (hrank : a.rank? = some k) : (s.step a).Nears i n (k + 1) := by
  rcases h with ⟨hawaits, hpast⟩ | ⟨hf, rfl, hanswer⟩
  · cases hdeed : s.deed? n a with
    | none =>
      have hafter := hpast.step hs ha hrank
      rw [step_of_deed?_eq_none ha hdeed] at hafter ⊢
      exact Or.inl ⟨hawaits, hafter⟩
    | some d =>
      have hafter := hpast.step hs ha hrank
      obtain ⟨u, hu, -, heq⟩ := step_of_deed?_eq_some hs ha hdeed
      rw [heq] at hafter ⊢
      exact ((hawaits.congr (hu n i)).carry d).imp_left fun h => ⟨h, hafter⟩
  · have hdeed : s.deed? i a = none := by
      simp only [deed?, running?_of_answer? hf hanswer]
    rw [step_of_deed?_eq_none ha hdeed]
    exact Or.inr ⟨hf, rfl, hanswer⟩

theorem Awaits.takesPart (h : s.Awaits i n) : s.TakesPart i n := by
  refine ⟨fun f hf => ?_, h.alone⟩
  obtain ⟨key, hcaller⟩ := h.waiting f hf
  exact Flight.callOf_eq_some_iff.mpr ⟨key, _, hcaller, rfl⟩

/-- Once the loader has ended, there are only the steps of the coalescer left. -/
theorem Awaits.answered_of_ended (h : s.Awaits i n) (hs : s.Orderly)
    (hended : s.running? n = none) :
    ((s.run [.unregister n, .record n, .wake i]).answer? i).isSome := by
  obtain ⟨r, hr, hloading⟩ := h.loading
  cases hf : s.flight? with
  | none =>
    obtain rfl := h.alone hf
    have hload : r.load.isSome := by simpa [load?, ticket?, hr] using h.loaded
    obtain ⟨load, hload⟩ := Option.isSome_iff_exists.mp hload
    simp [running?, hf, hr, hloading, hload] at hended
  | some f =>
    obtain ⟨k, owner, stage, load, htask, hload⟩ := h.takesPart.task hs hf
    have hstage : stage ≠ .running := by
      rintro rfl
      simp [running?, hf, htask, hload] at hended
    obtain ⟨key, hwaiting⟩ := h.waiting f hf
    obtain ⟨result, hreturned⟩ :=
      Flight.returned_of_ended (hs.flight f hf).1 htask hstage hwaiting
    have hflight : (s.run [.unregister n, .record n, .wake i]).flight? =
        some (f.run [.unregister n, .record n, .wake i]) := by
      simp [run, Service.step, flight?_fly, hf, Flight.run]
    have hrequest : (s.run [.unregister n, .record n, .wake i]).requests i = some r := by
      simp [run, Service.step, hr]
    simp [answer?, hrequest, hloading, hflight, hreturned]

theorem Past.ended (h : s.Past n 5) : s.running? n = none := by
  rcases hrunning : s.running? n with _ | ⟨owner, load⟩
  · rfl
  · have hle := h owner load hrunning
    cases hp : s.progress n <;> simp [hp, Progress.rank] at hle

theorem Nears.answered (h : s.Nears i n 5) (hs : s.Orderly) :
    ((s.run [.unregister n, .record n, .wake i]).answer? i).isSome := by
  rcases h with ⟨hawaits, hpast⟩ | ⟨hf, rfl, hanswer⟩
  · exact hawaits.answered_of_ended hs hpast.ended
  · have hstill : s.run [.unregister i, .record i, .wake i] = s := by
      simp [run, Service.step, Service.fly, hf]
    rw [hstill]
    exact hanswer

/-- In every state, whoever waits for a load is given an answer once the load's steps that are
still due are taken. -/
theorem Awaits.answered (h : s.Awaits i n) (hs : s.Orderly) (now : Instant) :
    ((s.run (finishing n i now)).answer? i).isSome := by
  have hbegun : s.Nears i n 0 := Or.inl ⟨h, fun _ _ _ => Nat.zero_le _⟩
  have hlooked := hbegun.step hs (a := .lookUp n now) rfl rfl
  have hs₁ := hs.step (.lookUp n now)
  have hdisposed := hlooked.step hs₁ (a := .dispose n false) rfl rfl
  have hs₂ := hs₁.step (.dispose n false)
  have hasked := hdisposed.step hs₂ (a := .ask n) rfl rfl
  have hs₃ := hs₂.step (.ask n)
  have hread := hasked.step hs₃ (a := .read n) rfl rfl
  have hs₄ := hs₃.step (.read n)
  have hkept := hread.step hs₄ (a := .keep n now now) rfl rfl
  exact hkept.answered (hs₄.step (.keep n now now))

end Service

end ArtifactPlane
