import ArtifactPlane.Proofs.Coalescer.Registry
import ArtifactPlane.Proofs.Roster

/-!
A coalescer among its callers and the tasks of its loads, one critical section at a time.
A caller looks for a registered load without exclusive access and, if there is none,
enters with it, and so joins a load or starts one; then it waits.  The task of a load runs
its loader, removes the registration, and records the result.  A history is any order of
such steps, and `Moves` lists what each of them does.
-/

namespace ArtifactPlane.Coalescer

/-- How far a caller has come. -/
inductive CallerStage where
  /-- Before its first look. -/
  | arrived
  /-- Its first look found nothing; before its second. -/
  | missed
  | waiting (call : Nat)
  | returned (call : Nat) (result : Loaded)
  /-- It was abandoned, perhaps while it waited for a load. -/
  | left (call : Option Nat)

/-- The load that a caller takes part in. -/
def CallerStage.call? : CallerStage → Option Nat
  | .arrived => none
  | .missed => none
  | .waiting n => some n
  | .returned n _ => some n
  | .left n => n

/-- A caller of `run`. -/
structure Caller where
  key : String
  stage : CallerStage

/-- How far the task of a load has come. -/
inductive TaskStage where
  | running
  /-- The loader has ended. -/
  | ended (e : Ending)
  | unregistered (e : Ending)
  | recorded (e : Ending)

/-- Whether the registration of the load still stands. -/
def TaskStage.isRegistered : TaskStage → Bool
  | .running => true
  | .ended _ => true
  | .unregistered _ => false
  | .recorded _ => false

/-- How the loader ended, once it has. -/
def TaskStage.ending? : TaskStage → Option Ending
  | .running => none
  | .ended e => some e
  | .unregistered e => some e
  | .recorded e => some e

/-- The task of a load, which runs the loader of the caller that registered it. -/
structure Task where
  key : String
  owner : Nat
  stage : TaskStage

/-- The call of a task: open until the result is recorded. -/
def Task.call (t : Task) : Call :=
  match t.stage with
  | .recorded e => ⟨some (e.result t.key), false⟩
  | _ => .new

/-- What is remembered of a history. -/
inductive Event where
  /-- A caller joined a load or started its own. -/
  | attached (caller : Nat) (role : Role) (call : Nat)
  | unregistered (call : Nat)

namespace Event

/-- A caller joined a load. -/
def isJoin : Event → Bool
  | .attached _ .joined _ => true
  | _ => false

/-- A caller started its loader. -/
def isStart : Event → Bool
  | .attached _ .leading _ => true
  | _ => false

/-- A load was unregistered. -/
def isUnregistration : Event → Bool
  | .unregistered _ => true
  | _ => false

/-- What a caller did, if it is its event. -/
def isOf (i : Nat) : Event → Bool
  | .attached j _ _ => j == i
  | .unregistered _ => false

end Event

/-- The callers and tasks of a coalescer, with their history. -/
structure Ledger where
  callers : Roster Caller
  tasks : Roster Task
  log : List Event

/-- A coalescer with its callers and tasks. -/
structure Flight extends Ledger where
  coalescer : Coalescer

/-- One step of a caller or of a task, or an event that reaches it. -/
inductive Action where
  | arrive (i : Nat) (key : String)
  /-- The first look. -/
  | look (i : Nat)
  /-- The second look. -/
  | enter (i : Nat)
  /-- The caller is given its result. -/
  | wake (i : Nat)
  | leave (i : Nat)
  /-- The loader ends. -/
  | finish (n : Nat) (e : Ending)
  | unregister (n : Nat)
  | record (n : Nat)

/-- Nobody has called and nothing is loaded. -/
def Ledger.empty : Ledger := ⟨.empty, .empty, []⟩

namespace Flight

/-- A coalescer before its first caller. -/
def start (count : Nat) : Flight := { Ledger.empty with coalescer := ofShards count }

/-- The load that a caller takes part in. -/
def callOf (f : Flight) (i : Nat) : Option Nat := (f.callers i).bind fun c => c.stage.call?

def setCaller (f : Flight) (i : Nat) (c : Caller) : Flight :=
  { f with callers := f.callers.put i c }

/-- A task moves on, with what it does to the coalescer. -/
def advance (f : Flight) (n : Nat) (t : Task) (c : Coalescer) : Flight :=
  { f with
    coalescer := c
    tasks := f.tasks.put n t }

/-- A caller begins to wait for a load. -/
def attach (f : Flight) (i : Nat) (key : String) (role : Role) (n : Nat) (c : Coalescer) :
    Flight :=
  { f with
    coalescer := c
    callers := f.callers.put i ⟨key, .waiting n⟩
    log := .attached i role n :: f.log }

/-- A caller starts a load of its own. -/
def launch (f : Flight) (i : Nat) (key : String) (n : Nat) (c : Coalescer) : Flight :=
  (f.attach i key .leading n c).advance n ⟨key, i, .running⟩ c

/-- Take a step; a step that is not due changes nothing. -/
def step (f : Flight) : Action → Flight
  | .arrive i key =>
    match f.callers i with
    | none => f.setCaller i ⟨key, .arrived⟩
    | some _ => f
  | .look i =>
    match f.callers i with
    | some ⟨key, .arrived⟩ =>
      match f.coalescer.join? key with
      | some (n, c) => f.attach i key .joined n c
      | none => f.setCaller i ⟨key, .missed⟩
    | _ => f
  | .enter i =>
    match f.callers i with
    | some ⟨key, .missed⟩ =>
      match f.coalescer.joinOrLead key with
      | (.joined, n, c) => f.attach i key .joined n c
      | (.leading, n, c) => f.launch i key n c
    | _ => f
  | .wake i =>
    match f.callers i with
    | some ⟨key, .waiting n⟩ =>
      match (f.coalescer.call n).outcome? key with
      | some r => f.setCaller i ⟨key, .returned n r⟩
      | none => f
    | _ => f
  | .leave i =>
    match f.callers i with
    | some ⟨_, .returned _ _⟩ => f
    | some ⟨key, stage⟩ => f.setCaller i ⟨key, .left stage.call?⟩
    | none => f
  | .finish n e =>
    match f.tasks n with
    | some ⟨key, owner, .running⟩ => f.advance n ⟨key, owner, .ended e⟩ f.coalescer
    | _ => f
  | .unregister n =>
    match f.tasks n with
    | some ⟨key, owner, .ended e⟩ =>
      { f.advance n ⟨key, owner, .unregistered e⟩ (f.coalescer.unregister key n) with
        log := .unregistered n :: f.log }
    | _ => f
  | .record n =>
    match f.tasks n with
    | some ⟨key, owner, .unregistered e⟩ =>
      f.advance n ⟨key, owner, .recorded e⟩ (f.coalescer.record n (e.result key))
    | _ => f

/-- The flight after a history. -/
def run (f : Flight) (actions : List Action) : Flight := actions.foldl step f

theorem run_append (f : Flight) (before after : List Action) :
    f.run (before ++ after) = (f.run before).run after :=
  List.foldl_append

/-- What a step that is due does. -/
inductive Moves (f : Flight) : Action → Flight → Prop where
  | arrive (i : Nat) (key : String) (hfree : f.callers i = none) :
    Moves f (.arrive i key) (f.setCaller i ⟨key, .arrived⟩)
  | joinAtOnce (i : Nat) (key : String) (n : Nat) (hcaller : f.callers i = some ⟨key, .arrived⟩)
    (hjoin : f.coalescer.registered? key = some n) :
    Moves f (.look i) (f.attach i key .joined n
      { f.coalescer with coalesced := f.coalescer.coalesced + 1 })
  | miss (i : Nat) (key : String) (hcaller : f.callers i = some ⟨key, .arrived⟩)
    (hnone : f.coalescer.registered? key = none) :
    Moves f (.look i) (f.setCaller i ⟨key, .missed⟩)
  | joinLater (i : Nat) (key : String) (n : Nat) (hcaller : f.callers i = some ⟨key, .missed⟩)
    (hjoin : f.coalescer.registered? key = some n) :
    Moves f (.enter i) (f.attach i key .joined n
      { f.coalescer with coalesced := f.coalescer.coalesced + 1 })
  | lead (i : Nat) (key : String) (hcaller : f.callers i = some ⟨key, .missed⟩)
    (hnone : f.coalescer.registered? key = none) :
    Moves f (.enter i)
      (f.launch i key f.coalescer.calls.size (f.coalescer.lead key).2)
  | wake (i : Nat) (key : String) (n : Nat) (r : Loaded)
    (hcaller : f.callers i = some ⟨key, .waiting n⟩)
    (houtcome : (f.coalescer.call n).outcome? key = some r) :
    Moves f (.wake i) (f.setCaller i ⟨key, .returned n r⟩)
  | leave (i : Nat) (key : String) (stage : CallerStage)
    (hcaller : f.callers i = some ⟨key, stage⟩) (hstage : ∀ n r, stage ≠ .returned n r) :
    Moves f (.leave i) (f.setCaller i ⟨key, .left stage.call?⟩)
  | finish (n : Nat) (key : String) (owner : Nat) (e : Ending)
    (htask : f.tasks n = some ⟨key, owner, .running⟩) :
    Moves f (.finish n e) (f.advance n ⟨key, owner, .ended e⟩ f.coalescer)
  | unregister (n : Nat) (key : String) (owner : Nat) (e : Ending)
    (htask : f.tasks n = some ⟨key, owner, .ended e⟩) :
    Moves f (.unregister n)
      { f.advance n ⟨key, owner, .unregistered e⟩ (f.coalescer.unregister key n) with
        log := .unregistered n :: f.log }
  | record (n : Nat) (key : String) (owner : Nat) (e : Ending)
    (htask : f.tasks n = some ⟨key, owner, .unregistered e⟩) :
    Moves f (.record n)
      (f.advance n ⟨key, owner, .recorded e⟩ (f.coalescer.record n (e.result key)))

/-- A step is not due, or it is one of the moves. -/
theorem step_eq_or_moves (f : Flight) (a : Action) : f.step a = f ∨ f.Moves a (f.step a) := by
  cases a with
  | arrive i key =>
    cases hcaller : f.callers i with
    | none => exact Or.inr (by simpa [step, hcaller] using Moves.arrive i key hcaller)
    | some c => exact Or.inl (by simp [step, hcaller])
  | look i =>
    rcases hcaller : f.callers i with _ | ⟨key, stage⟩
    · exact Or.inl (by simp [step, hcaller])
    · cases stage with
      | arrived =>
        right
        cases hkey : f.coalescer.registered? key with
        | none => simpa [step, hcaller, join?, hkey] using Moves.miss i key hcaller hkey
        | some n => simpa [step, hcaller, join?, hkey] using Moves.joinAtOnce i key n hcaller hkey
      | _ => exact Or.inl (by simp [step, hcaller])
  | enter i =>
    rcases hcaller : f.callers i with _ | ⟨key, stage⟩
    · exact Or.inl (by simp [step, hcaller])
    · cases stage with
      | missed =>
        right
        cases hkey : f.coalescer.registered? key with
        | none =>
          simpa [step, hcaller, joinOrLead, join?, hkey, Coalescer.lead] using
            Moves.lead i key hcaller hkey
        | some n =>
          simpa [step, hcaller, joinOrLead, join?, hkey] using Moves.joinLater i key n hcaller hkey
      | _ => exact Or.inl (by simp [step, hcaller])
  | wake i =>
    rcases hcaller : f.callers i with _ | ⟨key, stage⟩
    · exact Or.inl (by simp [step, hcaller])
    · cases stage with
      | waiting n =>
        cases hout : (f.coalescer.call n).outcome? key with
        | none => exact Or.inl (by simp [step, hcaller, hout])
        | some r =>
          exact Or.inr (by simpa [step, hcaller, hout] using Moves.wake i key n r hcaller hout)
      | _ => exact Or.inl (by simp [step, hcaller])
  | leave i =>
    rcases hcaller : f.callers i with _ | ⟨key, stage⟩
    · exact Or.inl (by simp [step, hcaller])
    · have hmove := Moves.leave (f := f) i key stage hcaller
      cases stage with
      | returned n r => exact Or.inl (by simp [step, hcaller])
      | _ => exact Or.inr (by simpa [step, hcaller] using hmove (by simp))
  | finish n e =>
    rcases htask : f.tasks n with _ | ⟨key, owner, stage⟩
    · exact Or.inl (by simp [step, htask])
    · cases stage with
      | running => exact Or.inr (by simpa [step, htask] using Moves.finish n key owner e htask)
      | _ => exact Or.inl (by simp [step, htask])
  | unregister n =>
    rcases htask : f.tasks n with _ | ⟨key, owner, stage⟩
    · exact Or.inl (by simp [step, htask])
    · cases stage with
      | ended e => exact Or.inr (by simpa [step, htask] using Moves.unregister n key owner e htask)
      | _ => exact Or.inl (by simp [step, htask])
  | record n =>
    rcases htask : f.tasks n with _ | ⟨key, owner, stage⟩
    · exact Or.inl (by simp [step, htask])
    · cases stage with
      | unregistered e =>
        exact Or.inr (by simpa [step, htask] using Moves.record n key owner e htask)
      | _ => exact Or.inl (by simp [step, htask])

/-- What holds before a history and is kept by every move holds after it. -/
theorem run_induction {P : Flight → Prop} (hmoves : ∀ f a g, P f → f.Moves a g → P g)
    {f : Flight} (hf : P f) (actions : List Action) : P (f.run actions) := by
  refine List.foldlRecOn actions step hf ?_
  intro g hg a _
  rcases g.step_eq_or_moves a with heq | hmove
  · exact heq.symm ▸ hg
  · exact hmoves g a _ hg hmove

end Flight

end ArtifactPlane.Coalescer
