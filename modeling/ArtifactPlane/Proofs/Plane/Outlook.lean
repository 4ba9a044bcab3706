import ArtifactPlane.Proofs.Coalescer.Vantage
import ArtifactPlane.Proofs.Plane.Histories

/-!
What becomes of a load under way.  Once a load has looked into the cache, what it delivers
depends on its own steps, on storage, and on whether there is a cache that keeps what was read;
it does not depend on the tree in force, on anything in the cache, or on other requests.  A load
waits for nothing before that look, so every load that is suspended at a read is one of these.
Its `outlook` for one of its callers gathers what matters: steps of others leave it alone, and
equal outlooks stay equal.
-/

namespace ArtifactPlane

namespace Plane

/-- What a plane has to offer to a load that has looked into its cache. -/
structure Offer where
  medium : Medium
  cached : Bool
  ttl? : Option Duration

def offer (p : Plane) : Offer := ⟨p.storage.medium, p.cache?.isSome, p.ttl?⟩

variable {p q : Plane}

theorem offer_eq_iff : q.offer = p.offer ↔ q.storage.medium = p.storage.medium ∧
    q.cache?.isSome = p.cache?.isSome ∧ q.ttl? = p.ttl? := by
  simp only [offer, Offer.mk.injEq]

theorem Rerouted.offer (h : p.Rerouted q) : q.offer = p.offer := by
  rw [offer_eq_iff, h.storage, h.cache?, h.ttl?]
  exact ⟨rfl, rfl, rfl⟩

theorem Steady.offer (h : p.Steady q) (hcache : q.cache?.isSome = p.cache?.isSome) :
    q.offer = p.offer :=
  offer_eq_iff.mpr ⟨h.medium, hcache, h.ttl?⟩

theorem offer_mapCache (f : Cache Octets → Cache Octets) (p : Plane) :
    (p.mapCache f).offer = p.offer :=
  (steady_mapCache f p).offer (isSome_cache?_mapCache f p)

theorem offer_lookUp (p : Plane) (load : PendingLoad) (now : Instant) :
    (p.lookUp load now).2.offer = p.offer :=
  (keeps_lookUp p load now).toSteady.offer (isSome_cache?_lookUp p load now)

theorem offer_openStream (p : Plane) (path : String) : (p.openStream path).2.offer = p.offer :=
  (steady_openStream p path).offer (congrArg Option.isSome (cache?_openStream p path))

theorem offer_askObject (p : Plane) : p.askObject.offer = p.offer :=
  (keeps_askObject p).toSteady.offer rfl

theorem offer_receiveObject (p : Plane) (load : PendingLoad) :
    (p.receiveObject load).2.offer = p.offer :=
  (keeps_receiveObject p load).toSteady.offer rfl

theorem offer_store {load : PendingLoad} {content : Octets} {now later : Instant} {stored : Bool}
    (h : p.store? load content now later = some (stored, q)) : q.offer = p.offer :=
  (steady_store h).offer (isSome_cache?_store h)

end Plane

namespace Service

open Coalescer (Ending Flight Task Caller)

variable {s t : Service} {n i : Nat}

/-- The load of a task, as its owner has it. -/
def carried? (s : Service) (n : Nat) : Option PendingLoad :=
  s.flight?.bind fun f => (f.tasks n).bind fun t => s.load? t.owner

/-- What the fate of a load and of one of its callers depends on. -/
structure Outlook where
  offer : Plane.Offer
  /-- With a coalescer, the task and the caller. -/
  vantage : Option (Option Task × Option Caller)
  load : Option PendingLoad
  request : Option Request
  progress : Progress

def outlook (s : Service) (n i : Nat) : Outlook where
  offer := s.plane.offer
  vantage := s.flight?.map fun f => f.vantage n i
  load := s.carried? n
  request := s.requests i
  progress := s.progress n

/-- A request that takes part in a load. -/
structure TakesPart (s : Service) (i n : Nat) : Prop where
  /-- With a coalescer, it is a caller of the load. -/
  called : ∀ f, s.flight? = some f → f.callOf i = some n
  /-- Without one, the load is its own. -/
  alone : s.flight? = none → i = n

/-- A request that takes part in a load whose loader has looked into the cache, or has ended. -/
structure Underway (s : Service) (n i : Nat) : Prop extends s.TakesPart i n where
  loaded : (s.load? i).isSome
  looked : ∀ owner load, s.running? n = some (owner, load) → s.progress n ≠ .begun

theorem outlook_eq_iff : t.outlook n i = s.outlook n i ↔
    t.plane.offer = s.plane.offer ∧
      (t.flight?.map fun f => f.vantage n i) = (s.flight?.map fun f => f.vantage n i) ∧
      t.carried? n = s.carried? n ∧ t.requests i = s.requests i ∧
      t.progress n = s.progress n := by
  simp only [outlook, Outlook.mk.injEq]

/-- Services with one outlook have both no coalescer, or both one where the task and the caller
are the same. -/
theorem flight?_of_outlook (h : t.outlook n i = s.outlook n i) :
    (s.flight? = none → t.flight? = none) ∧
      ∀ f, s.flight? = some f → ∃ g, t.flight? = some g ∧ g.vantage n i = f.vantage n i := by
  obtain ⟨-, hvantage, -⟩ := outlook_eq_iff.mp h
  refine ⟨fun hf => ?_, fun f hf => ?_⟩
  · rwa [hf, Option.map_none, Option.map_eq_none_iff] at hvantage
  · rwa [hf, Option.map_some, Option.map_eq_some_iff] at hvantage

/-- With a coalescer, the load has a task, whose owner has a load. -/
theorem TakesPart.task (hi : s.TakesPart i n) (hs : s.Orderly) {f : Flight}
    (hf : s.flight? = some f) : ∃ key owner stage load,
      f.tasks n = some ⟨key, owner, stage⟩ ∧ s.load? owner = some load := by
  obtain ⟨hsound, hlinked⟩ := hs.flight f hf
  obtain ⟨key, stage, hcaller, hcall⟩ := Flight.callOf_eq_some_iff.mp (hi.called f hf)
  obtain ⟨owner, st, htask⟩ := hsound.shared.task_of_callOf i key stage n hcaller hcall
  obtain ⟨old, howner⟩ := hsound.shared.owner n key owner st htask
  obtain ⟨load, hload, -⟩ := hlinked owner key old howner
  exact ⟨key, owner, st, load, htask, hload⟩

/-- The request was routed. -/
theorem Underway.request (hon : s.Underway n i) (hs : s.Orderly) :
    ∃ r, s.requests i = some r ∧ r.stage ≠ .called ∧ r.stage ≠ .stamped := by
  obtain ⟨load, hload⟩ := Option.isSome_iff_exists.mp hon.loaded
  obtain ⟨ticket, hticket, hticketed⟩ := Option.bind_eq_some_iff.mp hload
  obtain ⟨r, hr, rfl⟩ := Option.map_eq_some_iff.mp hticket
  have hrouted : ¬ (r.stage = .called ∨ r.stage = .stamped) := by
    intro hstage
    simp [hs.unrouted i r hr hstage] at hticketed
  exact ⟨r, hr, fun h => hrouted (Or.inl h), fun h => hrouted (Or.inr h)⟩

theorem running?_congr (h : t.outlook n i = s.outlook n i) (halone : s.flight? = none → i = n) :
    t.running? n = s.running? n := by
  obtain ⟨-, -, hload, hrequest, -⟩ := outlook_eq_iff.mp h
  cases hf : s.flight? with
  | none =>
    obtain rfl := halone hf
    simp only [running?, hf, (flight?_of_outlook h).1 hf, hrequest]
  | some f =>
    obtain ⟨g, hg, hvantage⟩ := (flight?_of_outlook h).2 f hf
    obtain ⟨htask, -⟩ := Flight.vantage_eq_iff.mp hvantage
    simp only [carried?, hf, hg, Option.bind_some, htask] at hload
    simp only [running?, hf, hg, htask]
    rcases hn : f.tasks n with _ | ⟨key, owner, stage⟩
    · rfl
    · have howner : t.load? owner = s.load? owner := by simpa [hn] using hload
      cases stage with
      | running => simp only [howner]
      | ended | unregistered | recorded => rfl

theorem Underway.congr (hon : s.Underway n i) (h : t.outlook n i = s.outlook n i) :
    t.Underway n i := by
  obtain ⟨-, -, -, hrequest, hprogress⟩ := outlook_eq_iff.mp h
  refine ⟨⟨?_, fun hg => hon.alone ((flight?_of_outlook h.symm).1 hg)⟩, ?_, ?_⟩
  · intro g hg
    obtain ⟨f, hf, hvantage⟩ := (flight?_of_outlook h.symm).2 g hg
    obtain ⟨-, hcaller⟩ := Flight.vantage_eq_iff.mp hvantage
    rw [Flight.callOf, ← hcaller]
    exact hon.called f hf
  · simpa only [load?, ticket?, hrequest] using hon.loaded
  · rw [running?_congr h hon.alone, hprogress]
    exact hon.looked

/-- The request that takes a step, up to its routing, or that is abandoned. -/
def Action.requester? : Action → Option Nat
  | .call j _ => some j
  | .stamp j => some j
  | .route j => some j
  | .leave j => some j
  | _ => none

/-- The loader that takes a step. -/
def Action.loader? : Action → Option Nat
  | .lookUp m _ => some m
  | .dispose m _ => some m
  | .ask m => some m
  | .read m => some m
  | .keep m _ _ => some m
  | _ => none

/-- Clears, reloads and the upkeep of the cache. -/
def Action.isUpkeep : Action → Bool
  | .clear _ => true
  | .reload _ _ => true
  | .bump _ => true
  | .empty _ => true
  | .reap => true
  | .sweep _ _ => true
  | _ => false

/-- The steps of a load, those of a request that waits for it, and other objects in storage. -/
def Action.Touches (n i : Nat) : Action → Prop
  | .wake j => j = i
  | .leave j => j = i
  | .lookUp m _ => m = n
  | .dispose m _ => m = n
  | .ask m => m = n
  | .read m => m = n
  | .keep m _ _ => m = n
  | .unregister m => m = n
  | .record m => m = n
  | .replace _ => True
  | _ => False

theorem Aside.offer (h : s.Aside t) : t.plane.offer = s.plane.offer := by
  rw [Plane.offer_eq_iff, h.storage, h.cache?, h.ttl?]
  exact ⟨rfl, rfl, rfl⟩

theorem outlook_withPlane {p : Plane} (hoffer : p.offer = s.plane.offer)
    (hcoalescer : p.coalescer? = s.plane.coalescer?) :
    (s.withPlane p).outlook n i = s.outlook n i := by
  have hflight := flight?_withPlane hcoalescer
  refine outlook_eq_iff.mpr ⟨hoffer, by rw [hflight], ?_, rfl, rfl⟩
  simp only [carried?, hflight]
  rfl

theorem outlook_mapCache (g : Cache Octets → Cache Octets) :
    (s.withPlane (s.plane.mapCache g)).outlook n i = s.outlook n i :=
  outlook_withPlane (Plane.offer_mapCache g s.plane) (Plane.steady_mapCache g s.plane).coalescer?

theorem outlook_setProgress {m : Nat} (hm : n ≠ m) (p : Progress) :
    (s.setProgress m p).outlook n i = s.outlook n i :=
  outlook_eq_iff.mpr ⟨rfl, rfl, rfl, rfl, if_neg hm⟩

/-- How far a loader has come, as a number. -/
def Progress.rank : Progress → Nat
  | .begun => 0
  | .expired _ => 1
  | .missed => 2
  | .reading => 3
  | .fetched _ => 4

/-- How far a loader must have come for a step of it. -/
def Action.rank? : Action → Option Nat
  | .lookUp _ _ => some 0
  | .dispose _ _ => some 1
  | .ask _ => some 2
  | .read _ => some 3
  | .keep _ _ _ => some 4
  | _ => none

/-- What a step of a loader comes to. -/
inductive Deed where
  | goes (p : Progress)
  | ends (e : Ending)

/-- A loader goes on, or ends. -/
def carry (s : Service) (n : Nat) : Deed → Service
  | .goes p => s.setProgress n p
  | .ends e => s.conclude n e

/-- What a step of a loader comes to, if it is due. -/
def deed? (s : Service) (n : Nat) (a : Action) : Option Deed :=
  match s.running? n with
  | none => none
  | some (_, load) =>
    match a, s.progress n with
    | .lookUp _ now, .begun =>
      some (match (s.plane.lookUp load now).1 with
        | .hit content => .ends (.delivered (.ok content))
        | .expired generation => .goes (.expired generation)
        | .miss => .goes .missed)
    | .dispose _ _, .expired _ => some (.goes .missed)
    | .ask _, .missed => some (.goes .reading)
    | .read _, .reading =>
      some (match (s.plane.receiveObject load).1 with
        | .ok content => .goes (.fetched content)
        | .error e => .ends (.delivered (.error e)))
    | .keep _ now later, .fetched content =>
      some (.ends (if (s.plane.store? load content now later).isSome then .delivered (.ok content)
        else .panicked))
    | _, _ => none

/-- A step that does not end its loader brings it further. -/
theorem rank_of_deed? {a : Action} {p : Progress} (h : s.deed? n a = some (.goes p)) :
    ∃ k, a.rank? = some k ∧ k < p.rank := by
  unfold deed? at h
  split at h
  · simp at h
  · split at h
    · split at h <;> simp at h
      · exact ⟨0, rfl, by simp [← h, Progress.rank]⟩
      · exact ⟨0, rfl, by simp [← h, Progress.rank]⟩
    · exact ⟨1, rfl, by simp at h; simp [← h, Progress.rank]⟩
    · exact ⟨2, rfl, by simp at h; simp [← h, Progress.rank]⟩
    · split at h <;> simp at h
      exact ⟨3, rfl, by simp [← h, Progress.rank]⟩
    · simp at h
    · simp at h

/-- No loader goes back to its beginning. -/
theorem deed?_ne_begun (s : Service) (n : Nat) (a : Action) :
    s.deed? n a ≠ some (.goes .begun) := by
  intro h
  obtain ⟨k, -, hlt⟩ := rank_of_deed? h
  exact absurd hlt (Nat.not_lt_zero k)

theorem step_of_deed?_eq_none {a : Action} {m : Nat} (ha : a.loader? = some m)
    (h : s.deed? m a = none) : s.step a = s := by
  cases a with
  | lookUp k | dispose k | ask k | read k | keep k =>
    obtain rfl := Option.some.inj ha
    simp only [step]
    split
    · next hrunning hprogress => simp [deed?, hrunning, hprogress] at h
    · rfl
  | _ => simp [Action.loader?] at ha

/-- A step of a loader comes to its deed, in a service that looks the same to every load. -/
theorem step_of_deed?_eq_some (hs : s.Orderly) {a : Action} {m : Nat} {d : Deed}
    (ha : a.loader? = some m) (h : s.deed? m a = some d) :
    ∃ u : Service, (∀ n i, u.outlook n i = s.outlook n i) ∧ u.Orderly ∧
      s.step a = u.carry m d := by
  have hplane : ∀ {p : Plane}, p.offer = s.plane.offer → p.coalescer? = s.plane.coalescer? →
      (∀ n i, (s.withPlane p).outlook n i = s.outlook n i) ∧ (s.withPlane p).Orderly :=
    fun hoffer hcoalescer =>
      ⟨fun _ _ => outlook_withPlane hoffer hcoalescer, hs.withPlane hcoalescer⟩
  rcases hrunning : s.running? m with _ | ⟨owner, load⟩
  · simp [deed?, hrunning] at h
  · cases a with
    | lookUp k now =>
      obtain rfl := Option.some.inj ha
      cases hprogress : s.progress k with
      | begun =>
        obtain ⟨hu, horderly⟩ := hplane (Plane.offer_lookUp s.plane load now)
          (Plane.keeps_lookUp s.plane load now).coalescer?
        refine ⟨_, hu, horderly, ?_⟩
        simp only [deed?, hrunning, hprogress, Option.some.injEq] at h
        rcases hlook : s.plane.lookUp load now with ⟨found, p⟩
        cases found <;> simp [step, hrunning, hprogress, hlook, ← h, carry]
      | _ => simp [deed?, hrunning, hprogress] at h
    | dispose k busy =>
      obtain rfl := Option.some.inj ha
      cases hprogress : s.progress k with
      | expired generation =>
        obtain ⟨hu, horderly⟩ := hplane (Plane.offer_mapCache _ s.plane)
          (Plane.keeps_dispose s.plane load generation busy).coalescer?
        refine ⟨_, hu, horderly, ?_⟩
        simp only [deed?, hrunning, hprogress, Option.some.injEq] at h
        simp only [step, hrunning, hprogress, ← h, carry]
        rfl
      | _ => simp [deed?, hrunning, hprogress] at h
    | ask k =>
      obtain rfl := Option.some.inj ha
      cases hprogress : s.progress k with
      | missed =>
        obtain ⟨hu, horderly⟩ := hplane (Plane.offer_askObject s.plane)
          (Plane.keeps_askObject s.plane).coalescer?
        refine ⟨_, hu, horderly, ?_⟩
        simp only [deed?, hrunning, hprogress, Option.some.injEq] at h
        simp only [step, hrunning, hprogress, ← h, carry]
      | _ => simp [deed?, hrunning, hprogress] at h
    | read k =>
      obtain rfl := Option.some.inj ha
      cases hprogress : s.progress k with
      | reading =>
        obtain ⟨hu, horderly⟩ := hplane (Plane.offer_receiveObject s.plane load)
          (Plane.keeps_receiveObject s.plane load).coalescer?
        refine ⟨_, hu, horderly, ?_⟩
        simp only [deed?, hrunning, hprogress, Option.some.injEq] at h
        rcases hread : s.plane.receiveObject load with ⟨found, p⟩
        cases found <;> simp [step, hrunning, hprogress, hread, ← h, carry]
      | _ => simp [deed?, hrunning, hprogress] at h
    | keep k now later =>
      obtain rfl := Option.some.inj ha
      cases hprogress : s.progress k with
      | fetched content =>
        simp only [deed?, hrunning, hprogress, Option.some.injEq] at h
        rcases hstore : s.plane.store? load content now later with _ | ⟨stored, p⟩
        · exact ⟨s, fun _ _ => rfl, hs, by
            simp [step, hrunning, hprogress, hstore, ← h, carry]⟩
        · obtain ⟨hu, horderly⟩ := hplane (Plane.offer_store hstore)
            (Plane.steady_store hstore).coalescer?
          exact ⟨(s.withPlane p).sign stored load.object owner, hu, horderly.congr rfl rfl, by
            simp [step, hrunning, hprogress, hstore, ← h, carry]⟩
      | _ => simp [deed?, hrunning, hprogress] at h
    | _ => simp [Action.loader?] at ha

section Requests

variable (hon : s.Underway n i) (hs : s.Orderly)
include hon hs

theorem carried?_setRequest {j : Nat} {r : Request}
    (hkept : ∀ old, s.requests j = some old → old.load = none ∨ r.load = old.load) :
    (s.setRequest j r).carried? n = s.carried? n := by
  change (s.flight?.bind fun f => (f.tasks n).bind fun t => (s.setRequest j r).load? t.owner) = _
  cases hf : s.flight? with
  | none => simp [carried?, hf]
  | some f =>
    obtain ⟨key, owner, stage, load, htask, hload⟩ := hon.task hs hf
    simp [carried?, hf, htask, hload, load?_setRequest hkept hload]

theorem outlook_setRequest {j : Nat} {r : Request} (hj : i ≠ j)
    (hkept : ∀ old, s.requests j = some old → old.load = none ∨ r.load = old.load) :
    (s.setRequest j r).outlook n i = s.outlook n i :=
  outlook_eq_iff.mpr ⟨rfl, rfl, carried?_setRequest hon hs hkept, Roster.put_of_ne hj _, rfl⟩

theorem carried?_fly (b : Coalescer.Action) : (s.fly b).carried? n = s.carried? n := by
  simp only [carried?, flight?_fly, load?_fly]
  cases hf : s.flight? with
  | none => rfl
  | some f =>
    obtain ⟨key, owner, stage, load, htask, -⟩ := hon.task hs hf
    have hafter : ∃ stage', (f.step b).tasks n = some ⟨key, owner, stage'⟩ := by
      rcases f.step_eq_or_moves b with heq | hmove
      · exact ⟨stage, by rw [heq, htask]⟩
      · obtain ⟨stage', htask', -⟩ := hmove.task (hs.flight f hf).1.tracked htask
        exact ⟨stage', htask'⟩
    obtain ⟨stage', htask'⟩ := hafter
    simp [htask, htask']

theorem outlook_fly {b : Coalescer.Action} (hb : ¬ b.Concerns n i) :
    (s.fly b).outlook n i = s.outlook n i := by
  refine outlook_eq_iff.mpr ⟨?_, ?_, carried?_fly hon hs b, by rw [requests_fly],
    by rw [progress_fly]⟩
  · exact (aside_fly s b).offer
  · rw [flight?_fly]
    cases hf : s.flight? with
    | none => rfl
    | some f =>
      obtain ⟨key, owner, stage, load, htask, -⟩ := hon.task hs hf
      exact congrArg some
        (Flight.vantage_step (hs.flight f hf).1.tracked htask (hon.called f hf) hb)

/-- The end of another loader. -/
theorem outlook_conclude {m : Nat} (hm : n ≠ m) (e : Ending) :
    (s.conclude m e).outlook n i = s.outlook n i := by
  unfold conclude
  split
  · exact outlook_fly hon hs fun h => hm h.symm
  · next r hf hr =>
    have hi : i ≠ m := by rwa [hon.alone hf]
    exact outlook_setRequest hon hs hi (by simp [hr])
  · rfl

theorem outlook_step_request {a : Action} {j : Nat} (ha : a.requester? = some j) (hj : i ≠ j) :
    (s.step a).outlook n i = s.outlook n i := by
  cases a with
  | call k path =>
    obtain rfl := Option.some.inj ha
    simp only [step]
    split
    · next hfree => exact outlook_setRequest hon hs hj (by simp [hfree])
    · rfl
  | stamp k =>
    obtain rfl := Option.some.inj ha
    simp only [step]
    split
    · next r hr =>
      split
      · exact outlook_setRequest hon hs hj (by simp [hr])
      · rfl
    · rfl
  | route k =>
    obtain rfl := Option.some.inj ha
    simp only [step]
    split
    · next r hr =>
      split
      · next load hstage hroute =>
        have hnone := hs.unrouted k r hr (Or.inr hstage)
        have hkept : ∀ old, s.requests k = some old → old.load = none ∨ some load = old.load := by
          simp [hr, hnone]
        have hset := outlook_setRequest hon hs
          (r := { r with stage := .loading, load := some load, era := s.era }) hj hkept
        exact (outlook_fly (hon.congr hset) (hs.setRequest hkept (by simp) (by simp)) id).trans hset
      · exact outlook_setRequest hon hs hj (by simp [hr])
      · rfl
    · rfl
  | leave k =>
    obtain rfl := Option.some.inj ha
    simp only [step]
    split
    · next r hr _ =>
      have hset := outlook_setRequest hon hs (r := { r with stage := .left }) hj (by simp [hr])
      refine (outlook_fly (hon.congr hset) (hs.abandon hr) ?_).trans hset
      exact Ne.symm hj
    · rfl
  | _ => simp [Action.requester?] at ha

theorem outlook_carry {m : Nat} (hm : n ≠ m) (d : Deed) :
    (s.carry m d).outlook n i = s.outlook n i := by
  cases d with
  | goes p => exact outlook_setProgress hm p
  | ends e => exact outlook_conclude hon hs hm e

theorem outlook_step_loader {a : Action} {m : Nat} (ha : a.loader? = some m) (hm : n ≠ m) :
    (s.step a).outlook n i = s.outlook n i := by
  cases hdeed : s.deed? m a with
  | none => rw [step_of_deed?_eq_none ha hdeed]
  | some d =>
    obtain ⟨u, hu, horderly, heq⟩ := step_of_deed?_eq_some hs ha hdeed
    rw [heq, outlook_carry (hon.congr (hu n i)) horderly hm, hu]

omit hon hs in
theorem outlook_step_upkeep {a : Action} (ha : a.isUpkeep = true) :
    (s.step a).outlook n i = s.outlook n i := by
  cases a with
  | clear r =>
    simp only [step]
    split <;> rfl
  | reload r index =>
    simp only [step]
    split
    · next p hfree hinstall =>
      have hrerouted := Plane.rerouted_install hinstall
      exact outlook_withPlane hrerouted.offer hrerouted.coalescer?
    · rfl
  | bump r =>
    simp only [step]
    split
    · exact outlook_mapCache _
    · rfl
  | empty r =>
    simp only [step]
    split
    · split
      · exact outlook_mapCache _
      · exact outlook_mapCache _
    · rfl
  | reap | sweep => exact outlook_mapCache _
  | _ => simp [Action.isUpkeep] at ha

/-- What is neither the step of a request nor that of a loader. -/
def Happening.isUpkeep : Happening → Bool
  | .act a => a.isUpkeep
  | _ => true

omit hon hs in
theorem outlook_happen_upkeep {e : Happening} (he : e.isUpkeep = true) :
    (s.happen e).outlook n i = s.outlook n i := by
  cases e with
  | act a => exact outlook_step_upkeep he
  | swap root =>
    have hrerouted := Plane.rerouted_swap s.plane root
    exact outlook_withPlane hrerouted.offer hrerouted.coalescer?
  | openStream path =>
    exact outlook_withPlane (Plane.offer_openStream s.plane path)
      (Plane.steady_openStream s.plane path).coalescer?
  | share f => exact outlook_mapCache f

/-- A step of anybody else leaves a load under way and its caller alone. -/
theorem outlook_step_of_not_touches {a : Action} (ha : ¬ a.Touches n i) :
    (s.step a).outlook n i = s.outlook n i := by
  obtain ⟨own, hown, hcalled, hstamped⟩ := hon.request hs
  cases a with
  | call j path =>
    by_cases hj : i = j
    · subst hj
      simp [step, hown]
    · exact outlook_step_request hon hs rfl hj
  | stamp j =>
    by_cases hj : i = j
    · subst hj
      cases hstage : own.stage <;> simp_all [step]
    · exact outlook_step_request hon hs rfl hj
  | route j =>
    by_cases hj : i = j
    · subst hj
      cases hstage : own.stage <;> simp_all [step]
    · exact outlook_step_request hon hs rfl hj
  | leave j => exact outlook_step_request hon hs rfl (Ne.symm ha)
  | look j | enter j => exact outlook_fly hon hs id
  | wake j => exact outlook_fly hon hs ha
  | unregister m | record m => exact outlook_fly hon hs ha
  | lookUp m | dispose m | ask m | read m | keep m =>
    exact outlook_step_loader hon hs rfl (Ne.symm ha)
  | clear | reload | bump | empty | reap | sweep => exact outlook_step_upkeep rfl
  | replace => exact absurd trivial ha

end Requests

end Service

end ArtifactPlane
