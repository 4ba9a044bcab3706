import ArtifactPlane.Proofs.Coalescer.SingleFlight
import ArtifactPlane.Proofs.Plane.Phases

/-!
A routed plane at work, one atomic step at a time.  A request reads the clear epoch, is
routed, and then waits for a load of its artifact: its own, or with a coalescer the one
that the coalescer gives it.  A loader looks into the cache, reads storage where it finds
nothing, which it asks for and then receives, and stores what it read unless the cache was
cleared.  A clear advances the epoch and then empties one shard after another; a reload puts
a tree in force first.  A history is any order of such steps, and `Moves` lists what each of
them does.
-/

namespace ArtifactPlane

open Coalescer (Ending Ledger Flight)

namespace Service

/-- What a request has read and where it was routed. -/
structure Ticket where
  path : String
  epoch : Option UInt64 := none
  load : Option PendingLoad := none
  /-- How often the epoch had been advanced when the request read it. -/
  bumps : Nat := 0
  /-- How many trees had been put in force when it was routed. -/
  era : Nat := 0

/-- How far a request has come. -/
inductive RequestStage where
  | called
  /-- It has read the clear epoch. -/
  | stamped
  | loading
  | answered (e : Ending)
  | left

/-- Whether a request was routed and is not abandoned. -/
def RequestStage.isRouted : RequestStage → Bool
  | .loading => true
  | .answered _ => true
  | _ => false

/-- A call for the content at a path. -/
structure Request extends Ticket where
  stage : RequestStage := .called

/-- How far a loader has come. -/
inductive Progress where
  | begun
  /-- It has found an expired entry, whose removal it has yet to ask for. -/
  | expired (generation : UInt64)
  | missed
  /-- Its read from storage has begun. -/
  | reading
  | fetched (content : Octets)

/-- How far a clear has come. -/
inductive ClearStage where
  | begun
  /-- The epoch is advanced, and the shards below are empty. -/
  | emptying (shard : Nat)
  | done
deriving DecidableEq

/-- A clear of the cache, or a reload with the number of the tree that it put in force. -/
structure Clear where
  era : Option Nat
  stage : ClearStage := .begun
deriving DecidableEq

end Service

/-- A plane with its requests, its loaders and its clears. -/
structure Service where
  plane : Plane
  /-- The callers and tasks of the coalescer, if there is one. -/
  ledger : Ledger
  requests : Roster Service.Request
  /-- Loaders have the numbers of their tasks, or of their requests without a coalescer. -/
  progress : Nat → Service.Progress
  clears : Roster Service.Clear
  /-- How many trees were put in force. -/
  era : Nat
  /-- How often the clear epoch was advanced. -/
  bumps : Nat
  /-- The request whose load last stored something under a key. -/
  writer : String → Option Nat

namespace Service

inductive Action where
  | call (i : Nat) (path : String)
  /-- The request reads the clear epoch. -/
  | stamp (i : Nat)
  | route (i : Nat)
  | look (i : Nat)
  | enter (i : Nat)
  | wake (i : Nat)
  /-- The request is abandoned. -/
  | leave (i : Nat)
  | lookUp (n : Nat) (now : Instant)
  | dispose (n : Nat) (busy : Bool)
  /-- The loader begins to read storage. -/
  | ask (n : Nat)
  /-- Its read ends. -/
  | read (n : Nat)
  | keep (n : Nat) (now later : Instant)
  | unregister (n : Nat)
  | record (n : Nat)
  | clear (r : Nat)
  /-- Put the tree of an index in force, to clear the cache afterwards. -/
  | reload (r : Nat) (index : Octets)
  | bump (r : Nat)
  /-- Empty the next shard, or end the clear after the last. -/
  | empty (r : Nat)
  | reap
  | sweep (shard : Nat) (now : Instant)
  /-- Other objects in storage. -/
  | replace (medium : Medium)

/-- A plane before its first request. -/
def start (storage : Storage) (root : RouteTree) (cache : Option Cache.Config)
    (shards : Option Nat) (ttl : Duration) : Service where
  plane := .routed storage
    ⟨⟨root⟩, cache.map Cache.ofConfig, shards.map Coalescer.ofShards, ttl⟩
  ledger := .empty
  requests := .empty
  progress := fun _ => .begun
  clears := .empty
  era := 0
  bumps := 0
  writer := fun _ => none

variable (s : Service)

def ticket? (i : Nat) : Option Ticket := (s.requests i).map (·.toTicket)

/-- The load of a request, once it is routed. -/
def load? (i : Nat) : Option PendingLoad := (s.ticket? i).bind (·.load)

/-- The coalescer with its callers and tasks. -/
def flight? : Option Flight := s.plane.coalescer?.map fun c => ⟨s.ledger, c⟩

def withPlane (p : Plane) : Service := { s with plane := p }

def setRequest (i : Nat) (r : Request) : Service := { s with requests := s.requests.put i r }

def setProgress (n : Nat) (p : Progress) : Service :=
  { s with progress := fun m => if m = n then p else s.progress m }

def setClear (r : Nat) (c : Clear) : Service := { s with clears := s.clears.put r c }

/-- Remember who stored something under a key, where it was stored. -/
def sign (stored : Bool) (key : String) (i : Nat) : Service :=
  { s with writer := fun k => if stored = true ∧ k = key then some i else s.writer k }

/-- A step of the coalescer, where there is one. -/
def fly (a : Coalescer.Action) : Service :=
  match s.flight? with
  | none => s
  | some f =>
    { s with
      ledger := (f.step a).toLedger
      plane := s.plane.setCoalescer (f.step a).coalescer }

/-- What a request was given, once it has returned. -/
def answer? (i : Nat) : Option Ending :=
  match s.requests i with
  | some r =>
    match r.stage with
    | .answered e => some e
    | .loading =>
      match s.flight?.bind fun f => f.callers i with
      | some ⟨_, .returned _ result⟩ => some (.delivered result)
      | _ => none
    | _ => none
  | none => none

/-- The load of a loader that runs, and the request that began it. -/
def running? (n : Nat) : Option (Nat × PendingLoad) :=
  match s.flight? with
  | some f =>
    match f.tasks n with
    | some ⟨_, owner, .running⟩ => (s.load? owner).map fun load => (owner, load)
    | _ => none
  | none =>
    match s.requests n with
    | some r =>
      match r.stage with
      | .loading => r.load.map fun load => (n, load)
      | _ => none
    | none => none

/-- A loader ends: the task of the coalescer does, or its request returns. -/
def conclude (n : Nat) (e : Ending) : Service :=
  match s.flight?, s.requests n with
  | some _, _ => s.fly (.finish n e)
  | none, some r => s.setRequest n { r with stage := .answered e }
  | none, none => s

/-- The number of shards of the cache; none without a cache. -/
def shardCount : Nat := (s.plane.cache?.map (·.shardCount)).getD 0

/-- Take a step; a step that is not due changes nothing. -/
def step (s : Service) : Action → Service
  | .call i path =>
    match s.requests i with
    | none => s.setRequest i { path }
    | some _ => s
  | .stamp i =>
    match s.requests i with
    | some r =>
      match r.stage with
      | .called =>
        s.setRequest i { r with stage := .stamped, epoch := s.plane.epoch?, bumps := s.bumps }
      | _ => s
    | none => s
  | .route i =>
    match s.requests i with
    | some r =>
      match r.stage, s.plane.route r.path r.epoch with
      | .stamped, .ok load =>
        (s.setRequest i { r with stage := .loading, load := some load, era := s.era }).fly
          (.arrive i load.object)
      | .stamped, .error e => s.setRequest i { r with stage := .answered (.delivered (.error e)) }
      | _, _ => s
    | none => s
  | .look i => s.fly (.look i)
  | .enter i => s.fly (.enter i)
  | .wake i => s.fly (.wake i)
  | .leave i =>
    match s.requests i, s.answer? i with
    | some r, none => (s.setRequest i { r with stage := .left }).fly (.leave i)
    | _, _ => s
  | .lookUp n now =>
    match s.running? n, s.progress n with
    | some (_, load), .begun =>
      match s.plane.lookUp load now with
      | (.hit content, p) => (s.withPlane p).conclude n (.delivered (.ok content))
      | (.expired generation, p) => (s.withPlane p).setProgress n (.expired generation)
      | (.miss, p) => (s.withPlane p).setProgress n .missed
    | _, _ => s
  | .dispose n busy =>
    match s.running? n, s.progress n with
    | some (_, load), .expired generation =>
      (s.withPlane (s.plane.dispose load generation busy)).setProgress n .missed
    | _, _ => s
  | .ask n =>
    match s.running? n, s.progress n with
    | some _, .missed => (s.withPlane s.plane.askObject).setProgress n .reading
    | _, _ => s
  | .read n =>
    match s.running? n, s.progress n with
    | some (_, load), .reading =>
      match s.plane.receiveObject load with
      | (.ok content, p) => (s.withPlane p).setProgress n (.fetched content)
      | (.error e, p) => (s.withPlane p).conclude n (.delivered (.error e))
    | _, _ => s
  | .keep n now later =>
    match s.running? n, s.progress n with
    | some (i, load), .fetched content =>
      match s.plane.store? load content now later with
      | some (stored, p) =>
        ((s.withPlane p).sign stored load.object i).conclude n (.delivered (.ok content))
      | none => s.conclude n .panicked
    | _, _ => s
  | .unregister n => s.fly (.unregister n)
  | .record n => s.fly (.record n)
  | .clear r =>
    match s.clears r with
    | none => s.setClear r ⟨none, .begun⟩
    | some _ => s
  | .reload r index =>
    match s.clears r, s.plane.install index with
    | none, .ok p => { s.withPlane p with era := s.era + 1 }.setClear r ⟨some (s.era + 1), .begun⟩
    | _, _ => s
  | .bump r =>
    match s.clears r with
    | some ⟨era, .begun⟩ =>
      { s.withPlane (s.plane.mapCache Cache.bumpEpoch) with bumps := s.bumps + 1 }.setClear r
        ⟨era, .emptying 0⟩
    | _ => s
  | .empty r =>
    match s.clears r with
    | some ⟨era, .emptying k⟩ =>
      if k < s.shardCount then
        (s.withPlane (s.plane.mapCache fun c => c.clearShard k)).setClear r ⟨era, .emptying (k + 1)⟩
      else (s.withPlane (s.plane.mapCache Cache.recordClear)).setClear r ⟨era, .done⟩
    | _ => s
  | .reap => s.withPlane (s.plane.mapCache Cache.reapNext)
  | .sweep shard now => s.withPlane (s.plane.mapCache fun c => c.sweepShard now shard)
  | .replace medium => s.withPlane { s.plane with storage := { s.plane.storage with medium } }

/-- The service after a history. -/
def run (s : Service) (actions : List Action) : Service := actions.foldl step s

/-- A step of the coalescer that brings in no caller, ends no loader and abandons nobody. -/
def isInner : Coalescer.Action → Bool
  | .arrive _ _ => false
  | .finish _ _ => false
  | .leave _ => false
  | _ => true

/-- What a step that is due does. -/
inductive Moves (s : Service) : Action → Service → Prop where
  | call (i : Nat) (path : String) (hfree : s.requests i = none) :
    Moves s (.call i path) (s.setRequest i { path })
  | stamp (i : Nat) (r : Request) (hrequest : s.requests i = some r)
    (hstage : r.stage = .called) :
    Moves s (.stamp i)
      (s.setRequest i { r with stage := .stamped, epoch := s.plane.epoch?, bumps := s.bumps })
  | refuse (i : Nat) (r : Request) (e : Error) (hrequest : s.requests i = some r)
    (hstage : r.stage = .stamped) (hroute : s.plane.route r.path r.epoch = .error e) :
    Moves s (.route i) (s.setRequest i { r with stage := .answered (.delivered (.error e)) })
  | depart (i : Nat) (r : Request) (load : PendingLoad) (hrequest : s.requests i = some r)
    (hstage : r.stage = .stamped) (hroute : s.plane.route r.path r.epoch = .ok load) :
    Moves s (.route i)
      ((s.setRequest i { r with stage := .loading, load := some load, era := s.era }).fly
        (.arrive i load.object))
  | fly (a : Action) (b : Coalescer.Action) (hinner : isInner b = true) : Moves s a (s.fly b)
  | leave (i : Nat) (r : Request) (hrequest : s.requests i = some r)
    (hanswer : s.answer? i = none) :
    Moves s (.leave i) ((s.setRequest i { r with stage := .left }).fly (.leave i))
  | hit (n : Nat) (now : Instant) (i : Nat) (load : PendingLoad) (content : Octets)
    (hrunning : s.running? n = some (i, load))
    (hlook : (s.plane.lookUp load now).1 = .hit content) :
    Moves s (.lookUp n now)
      ((s.withPlane (s.plane.lookUp load now).2).conclude n (.delivered (.ok content)))
  | expire (n : Nat) (now : Instant) (load : PendingLoad) (generation : UInt64) :
    Moves s (.lookUp n now)
      ((s.withPlane (s.plane.lookUp load now).2).setProgress n (.expired generation))
  | miss (n : Nat) (now : Instant) (load : PendingLoad) :
    Moves s (.lookUp n now)
      ((s.withPlane (s.plane.lookUp load now).2).setProgress n .missed)
  | dispose (n : Nat) (busy : Bool) (load : PendingLoad) (generation : UInt64) :
    Moves s (.dispose n busy)
      ((s.withPlane (s.plane.dispose load generation busy)).setProgress n .missed)
  | ask (n : Nat) :
    Moves s (.ask n) ((s.withPlane s.plane.askObject).setProgress n .reading)
  | fail (n i : Nat) (load : PendingLoad) (e : Error)
    (hrunning : s.running? n = some (i, load))
    (hread : (s.plane.receiveObject load).1 = .error e) :
    Moves s (.read n)
      ((s.withPlane (s.plane.receiveObject load).2).conclude n (.delivered (.error e)))
  | fetch (n i : Nat) (load : PendingLoad) (content : Octets)
    (hrunning : s.running? n = some (i, load))
    (hread : (s.plane.receiveObject load).1 = .ok content) :
    Moves s (.read n)
      ((s.withPlane (s.plane.receiveObject load).2).setProgress n (.fetched content))
  | keep (n : Nat) (now later : Instant) (i : Nat) (load : PendingLoad) (content : Octets)
    (stored : Bool) (p : Plane) (hrunning : s.running? n = some (i, load))
    (hprogress : s.progress n = .fetched content)
    (hstore : s.plane.store? load content now later = some (stored, p)) :
    Moves s (.keep n now later)
      (((s.withPlane p).sign stored load.object i).conclude n (.delivered (.ok content)))
  | breakDown (n : Nat) (now later : Instant) (i : Nat) (load : PendingLoad) (content : Octets)
    (hrunning : s.running? n = some (i, load))
    (hstore : s.plane.store? load content now later = none) :
    Moves s (.keep n now later) (s.conclude n .panicked)
  | clear (r : Nat) (hfree : s.clears r = none) : Moves s (.clear r) (s.setClear r ⟨none, .begun⟩)
  | reload (r : Nat) (index : Octets) (p : Plane) (hfree : s.clears r = none)
    (hinstall : s.plane.install index = .ok p) :
    Moves s (.reload r index)
      ({ s.withPlane p with era := s.era + 1 }.setClear r ⟨some (s.era + 1), .begun⟩)
  | bump (r : Nat) (era : Option Nat) (hclear : s.clears r = some ⟨era, .begun⟩) :
    Moves s (.bump r)
      ({ s.withPlane (s.plane.mapCache Cache.bumpEpoch) with bumps := s.bumps + 1 }.setClear r
        ⟨era, .emptying 0⟩)
  | empty (r : Nat) (era : Option Nat) (k : Nat) (hclear : s.clears r = some ⟨era, .emptying k⟩) :
    Moves s (.empty r)
      ((s.withPlane (s.plane.mapCache fun c => c.clearShard k)).setClear r ⟨era, .emptying (k + 1)⟩)
  | settle (r : Nat) (era : Option Nat) (k : Nat) (hclear : s.clears r = some ⟨era, .emptying k⟩)
    (hk : s.shardCount ≤ k) :
    Moves s (.empty r)
      ((s.withPlane (s.plane.mapCache Cache.recordClear)).setClear r ⟨era, .done⟩)
  | reap : Moves s .reap (s.withPlane (s.plane.mapCache Cache.reapNext))
  | sweep (shard : Nat) (now : Instant) :
    Moves s (.sweep shard now) (s.withPlane (s.plane.mapCache fun c => c.sweepShard now shard))
  | replace (medium : Medium) :
    Moves s (.replace medium)
      (s.withPlane { s.plane with storage := { s.plane.storage with medium } })

/-- A step is not due, or it is one of the moves. -/
theorem step_eq_or_moves (s : Service) (a : Action) : s.step a = s ∨ s.Moves a (s.step a) := by
  cases a with
  | call i path =>
    cases hrequest : s.requests i with
    | none => exact Or.inr (by simpa [step, hrequest] using Moves.call i path hrequest)
    | some r => exact Or.inl (by simp [step, hrequest])
  | stamp i =>
    rcases hrequest : s.requests i with _ | ⟨ticket, stage⟩
    · exact Or.inl (by simp [step, hrequest])
    · cases stage with
      | called => exact Or.inr (by simpa [step, hrequest] using Moves.stamp i _ hrequest rfl)
      | _ => exact Or.inl (by simp [step, hrequest])
  | route i =>
    rcases hrequest : s.requests i with _ | ⟨ticket, stage⟩
    · exact Or.inl (by simp [step, hrequest])
    · cases stage with
      | stamped =>
        right
        cases hroute : s.plane.route ticket.path ticket.epoch with
        | error e =>
          simpa [step, hrequest, hroute] using Moves.refuse i _ e hrequest rfl hroute
        | ok load =>
          simpa [step, hrequest, hroute] using Moves.depart i _ load hrequest rfl hroute
      | _ => exact Or.inl (by simp [step, hrequest])
  | look i => exact Or.inr (.fly _ (.look i) rfl)
  | enter i => exact Or.inr (.fly _ (.enter i) rfl)
  | wake i => exact Or.inr (.fly _ (.wake i) rfl)
  | unregister n => exact Or.inr (.fly _ (.unregister n) rfl)
  | record n => exact Or.inr (.fly _ (.record n) rfl)
  | leave i =>
    cases hrequest : s.requests i with
    | none => exact Or.inl (by simp [step, hrequest])
    | some r =>
      cases hanswer : s.answer? i with
      | none =>
        exact Or.inr (by simpa [step, hrequest, hanswer] using Moves.leave i r hrequest hanswer)
      | some e => exact Or.inl (by simp [step, hrequest, hanswer])
  | lookUp n now =>
    rcases hrunning : s.running? n with _ | ⟨i, load⟩
    · exact Or.inl (by simp [step, hrunning])
    · cases hprogress : s.progress n with
      | begun =>
        right
        rcases hlook : s.plane.lookUp load now with ⟨found, p⟩
        cases found with
        | hit content =>
          simpa [step, hrunning, hprogress, hlook] using
            Moves.hit n now i load content hrunning (by rw [hlook])
        | expired generation =>
          simpa [step, hrunning, hprogress, hlook] using Moves.expire (s := s) n now load generation
        | miss => simpa [step, hrunning, hprogress, hlook] using Moves.miss (s := s) n now load
      | _ => exact Or.inl (by simp [step, hrunning, hprogress])
  | dispose n busy =>
    rcases hrunning : s.running? n with _ | ⟨i, load⟩
    · exact Or.inl (by simp [step, hrunning])
    · cases hprogress : s.progress n with
      | expired generation =>
        exact Or.inr (by
          simpa [step, hrunning, hprogress] using Moves.dispose (s := s) n busy load generation)
      | _ => exact Or.inl (by simp [step, hrunning, hprogress])
  | ask n =>
    rcases hrunning : s.running? n with _ | ⟨i, load⟩
    · exact Or.inl (by simp [step, hrunning])
    · cases hprogress : s.progress n with
      | missed => exact Or.inr (by simpa [step, hrunning, hprogress] using Moves.ask (s := s) n)
      | _ => exact Or.inl (by simp [step, hrunning, hprogress])
  | read n =>
    rcases hrunning : s.running? n with _ | ⟨i, load⟩
    · exact Or.inl (by simp [step, hrunning])
    · cases hprogress : s.progress n with
      | reading =>
        right
        rcases hread : s.plane.receiveObject load with ⟨r, p⟩
        cases r with
        | error e =>
          simpa [step, hrunning, hprogress, hread] using
            Moves.fail n i load e hrunning (by rw [hread])
        | ok content =>
          simpa [step, hrunning, hprogress, hread] using
            Moves.fetch n i load content hrunning (by rw [hread])
      | _ => exact Or.inl (by simp [step, hrunning, hprogress])
  | keep n now later =>
    rcases hrunning : s.running? n with _ | ⟨i, load⟩
    · exact Or.inl (by simp [step, hrunning])
    · cases hprogress : s.progress n with
      | fetched content =>
        right
        rcases hstore : s.plane.store? load content now later with _ | ⟨stored, p⟩
        · simpa [step, hrunning, hprogress, hstore] using
            Moves.breakDown n now later i load content hrunning hstore
        · simpa [step, hrunning, hprogress, hstore] using
            Moves.keep n now later i load content stored p hrunning hprogress hstore
      | _ => exact Or.inl (by simp [step, hrunning, hprogress])
  | clear r =>
    cases hclear : s.clears r with
    | none => exact Or.inr (by simpa [step, hclear] using Moves.clear r hclear)
    | some c => exact Or.inl (by simp [step, hclear])
  | reload r index =>
    cases hclear : s.clears r with
    | some c => exact Or.inl (by simp [step, hclear])
    | none =>
      cases hinstall : s.plane.install index with
      | error e => exact Or.inl (by simp [step, hclear, hinstall])
      | ok p =>
        exact Or.inr (by
          simpa [step, hclear, hinstall] using Moves.reload r index p hclear hinstall)
  | bump r =>
    rcases hclear : s.clears r with _ | ⟨era, stage⟩
    · exact Or.inl (by simp [step, hclear])
    · cases stage with
      | begun => exact Or.inr (by simpa [step, hclear] using Moves.bump r era hclear)
      | _ => exact Or.inl (by simp [step, hclear])
  | empty r =>
    rcases hclear : s.clears r with _ | ⟨era, stage⟩
    · exact Or.inl (by simp [step, hclear])
    · cases stage with
      | emptying k =>
        right
        by_cases hk : k < s.shardCount
        · simpa [step, hclear, hk] using Moves.empty r era k hclear
        · simpa [step, hclear, hk] using Moves.settle r era k hclear (Nat.le_of_not_lt hk)
      | _ => exact Or.inl (by simp [step, hclear])
  | reap => exact Or.inr .reap
  | sweep shard now => exact Or.inr (.sweep shard now)
  | replace medium => exact Or.inr (.replace medium)

/-- What holds before a history and is kept by every move with an action of the history
holds after it. -/
theorem run_induction {P : Service → Prop} (actions : List Action)
    (hmoves : ∀ s a t, a ∈ actions → P s → s.Moves a t → P t) {s : Service} (hs : P s) :
    P (s.run actions) := by
  refine List.foldlRecOn actions step hs ?_
  intro t ht a ha
  rcases t.step_eq_or_moves a with heq | hmove
  · exact heq.symm ▸ ht
  · exact hmoves t a _ ha ht hmove

end Service

end ArtifactPlane
