import ArtifactPlane.Proofs.Plane.Wiring

/-!
Planes of every set-up: direct ones, and routed ones with or without a cache and a coalescer.
Beside the steps of requests, loaders, clears and reloads, a history may hold trees that are put
in force by themselves, streams, and anything that whoever shares the cache does to it.
`Orderly` is what all of them keep.
-/

namespace ArtifactPlane

namespace Plane

variable {p q : Plane}

/-- Planes that differ in their routers only. -/
structure Rerouted (p q : Plane) : Prop where
  storage : q.storage = p.storage
  cache? : q.cache? = p.cache?
  coalescer? : q.coalescer? = p.coalescer?
  ttl? : q.ttl? = p.ttl?

theorem rerouted_setRouter (p : Plane) (r : Router) : p.Rerouted (p.setRouter r) :=
  ⟨storage_mapRouting _ p, cache?_setRouter p r, coalescer?_setRouter p r, ttl?_setRouter p r⟩

theorem rerouted_install {index : Octets} (h : p.install index = .ok q) : p.Rerouted q := by
  obtain ⟨old, new, -, -, rfl⟩ := install_eq_ok h
  exact rerouted_setRouter p new

/-- Only a routed plane takes another tree. -/
theorem swap_snd (p : Plane) (root : RouteTree) :
    (p.swap root).2 = p.router?.elim p fun _ => p.setRouter ⟨root⟩ := by
  unfold swap
  cases p.router? <;> rfl

theorem steady_openStream (p : Plane) (path : String) : p.Steady (p.openStream path).2 := by
  unfold openStream
  split
  · exact Steady.refl p
  · next object _ =>
    refine ⟨?_, rfl, rfl, rfl⟩
    change (p.storage.openStream object).2.medium = p.storage.medium
    unfold Storage.openStream
    split <;> rfl

theorem cache?_openStream (p : Plane) (path : String) :
    (p.openStream path).2.cache? = p.cache? := by
  unfold openStream
  split <;> rfl

theorem rerouted_swap (p : Plane) (root : RouteTree) : p.Rerouted (p.swap root).2 := by
  rw [swap_snd]
  cases p.router? with
  | none => exact ⟨rfl, rfl, rfl, rfl⟩
  | some old => exact rerouted_setRouter p ⟨root⟩

end Plane

namespace Service

open Coalescer (Ending Flight)

variable {s t : Service} {i n : Nat} {load : PendingLoad}

/-- What happens to a plane. -/
inductive Happening where
  | act (a : Action)
  /-- Another tree is put in force, and the cache stays as it is. -/
  | swap (root : RouteTree)
  | openStream (path : String)
  /-- Whoever shares the cache works on it. -/
  | share (f : Cache Octets → Cache Octets)

/-- The service after an event. -/
def happen (s : Service) : Happening → Service
  | .act a => s.step a
  | .swap root => s.withPlane (s.plane.swap root).2
  | .openStream path => s.withPlane (s.plane.openStream path).2
  | .share f => s.withPlane (s.plane.mapCache f)

/-- The service after a history. -/
def after (s : Service) (events : List Happening) : Service := events.foldl happen s

theorem after_append (s : Service) (before later : List Happening) :
    s.after (before ++ later) = (s.after before).after later :=
  List.foldl_append

theorem after_map (s : Service) (actions : List Action) :
    s.after (actions.map .act) = s.run actions :=
  List.foldl_map

/-- Requests have loads once they are routed, callers of the coalescer are requests with a load,
and only through it are such requests answered, where there is one. -/
structure Orderly (s : Service) : Prop where
  unrouted : s.Unrouted
  flight : ∀ f, s.flight? = some f → f.Sound ∧ s.Linked f
  refused : ∀ i r e, s.requests i = some r → r.stage = .answered e →
    s.flight? = none ∨ r.load = none

namespace Orderly

theorem start (storage : Storage) (root : RouteTree) (cache : Option Cache.Config)
    (shards : Option Nat) (ttl : Duration) : (start storage root cache shards ttl).Orderly := by
  refine ⟨Unrouted.start storage root cache shards ttl, fun f hf => ?_, fun _ _ _ h => nomatch h⟩
  obtain ⟨c, hc, rfl⟩ := Option.map_eq_some_iff.mp hf
  obtain ⟨count, -, rfl⟩ := Option.map_eq_some_iff.mp hc
  exact ⟨Flight.Sound.start count, fun _ _ _ h => nomatch h⟩

/-- Only the requests and the flight matter. -/
theorem congr (hs : s.Orderly) (hflight : t.flight? = s.flight?)
    (hrequests : t.requests = s.requests) : t.Orderly := by
  refine ⟨fun i r hr => hs.unrouted i r (hrequests ▸ hr), fun f hf => ?_, fun i r e hr => ?_⟩
  · obtain ⟨hsound, hlinked⟩ := hs.flight f (hflight ▸ hf)
    refine ⟨hsound, fun i key stage hi => ?_⟩
    simpa only [load?, ticket?, hrequests] using hlinked i key stage hi
  · rw [hflight]
    exact hs.refused i r e (hrequests ▸ hr)

theorem withPlane (hs : s.Orderly) {p : Plane} (hp : p.coalescer? = s.plane.coalescer?) :
    (s.withPlane p).Orderly :=
  hs.congr (flight?_withPlane hp) rfl

theorem mapCache (hs : s.Orderly) (g : Cache Octets → Cache Octets) :
    (s.withPlane (s.plane.mapCache g)).Orderly :=
  hs.withPlane (Plane.steady_mapCache g s.plane).coalescer?

/-- A request goes on.  A load that it has it keeps. -/
theorem setRequest (hs : s.Orderly) {r : Request}
    (hkept : ∀ old, s.requests i = some old → old.load = none ∨ r.load = old.load)
    (hr : r.stage = .called ∨ r.stage = .stamped → r.load = none)
    (hanswered : ∀ e, r.stage = .answered e → s.flight? = none ∨ r.load = none) :
    (s.setRequest i r).Orderly := by
  refine ⟨hs.unrouted.setRequest hr, fun f hf => ?_, fun j q e hq hstage => ?_⟩
  · obtain ⟨hsound, hlinked⟩ := hs.flight f hf
    refine ⟨hsound, fun j key stage hj => ?_⟩
    obtain ⟨load, hload, hkey⟩ := hlinked j key stage hj
    exact ⟨load, load?_setRequest hkept hload, hkey⟩
  · rcases Roster.put_eq_some_iff.mp hq with ⟨-, rfl⟩ | ⟨-, hold⟩
    · exact hanswered e hstage
    · exact hs.refused j q e hold hstage

theorem abandon (hs : s.Orderly) {r : Request} (hr : s.requests i = some r) :
    (s.setRequest i { r with stage := .left }).Orderly :=
  hs.setRequest (by simp [hr]) (by simp) (by simp)

/-- A step of the coalescer, where callers arrive with the objects of their loads. -/
theorem fly (hs : s.Orderly) {b : Coalescer.Action}
    (harrive : ∀ i key, b = .arrive i key → ∃ load, s.load? i = some load ∧ load.object = key) :
    (s.fly b).Orderly := by
  refine ⟨hs.unrouted.fly b, fun g hg => ?_, ?_⟩
  · rw [flight?_fly] at hg
    obtain ⟨f, hf, rfl⟩ := Option.map_eq_some_iff.mp hg
    obtain ⟨hsound, hlinked⟩ := hs.flight f hf
    refine ⟨hsound.step b, fun i key stage hi => ?_⟩
    rw [load?_fly]
    rcases f.step_eq_or_moves b with heq | hmove
    · exact hlinked i key stage (heq ▸ hi)
    · rcases hmove.arrived hi with ⟨old, hold⟩ | harrived
      · exact hlinked i key old hold
      · exact harrive i key harrived
  · rw [requests_fly, flight?_fly, Option.map_eq_none_iff]
    exact hs.refused

theorem conclude (hs : s.Orderly) (n : Nat) (e : Ending) : (s.conclude n e).Orderly := by
  unfold Service.conclude
  split
  · exact hs.fly (by simp)
  · next r hf hr => exact hs.setRequest (by simp [hr]) (by simp) fun _ _ => Or.inl hf
  · exact hs

theorem moves {a : Action} (hs : s.Orderly) (h : s.Moves a t) : t.Orderly := by
  cases h with
  | call i path hfree => exact hs.setRequest (by simp [hfree]) (by simp) (by simp)
  | stamp i r hrequest hstage =>
    exact hs.setRequest (by simp [hrequest])
      (fun _ => hs.unrouted i r hrequest (Or.inl hstage)) (by simp)
  | refuse i r e hrequest hstage =>
    exact hs.setRequest (by simp [hrequest]) (by simp)
      fun _ _ => Or.inr (hs.unrouted i r hrequest (Or.inr hstage))
  | depart i r load hrequest hstage =>
    have hnone := hs.unrouted i r hrequest (Or.inr hstage)
    refine fly (hs.setRequest (by simp [hrequest, hnone]) (by simp) (by simp)) ?_
    intro j key harrive
    obtain ⟨rfl, rfl⟩ : i = j ∧ load.object = key := by simpa using harrive
    exact ⟨load, by simp [load?, ticket?_setRequest], rfl⟩
  | fly a b hinner =>
    apply hs.fly
    rintro i key rfl
    simp [isInner] at hinner
  | leave i r hrequest =>
    exact (hs.abandon hrequest).fly (by simp)
  | hit n now i load =>
    exact (hs.withPlane (Plane.keeps_lookUp s.plane load now).coalescer?).conclude n _
  | expire n now load | miss n now load =>
    exact (hs.withPlane (Plane.keeps_lookUp s.plane load now).coalescer?).congr rfl rfl
  | dispose n busy load generation => exact (hs.mapCache _).congr rfl rfl
  | fail n i load =>
    exact (hs.withPlane (Plane.keeps_receiveObject s.plane load).coalescer?).conclude n _
  | ask n => exact (hs.withPlane (Plane.keeps_askObject s.plane).coalescer?).congr rfl rfl
  | fetch n i load =>
    exact (hs.withPlane (Plane.keeps_receiveObject s.plane load).coalescer?).congr rfl rfl
  | keep n now later i load content stored p hrunning hprogress hstore =>
    exact ((hs.withPlane (Plane.steady_store hstore).coalescer?).congr (t :=
      (s.withPlane p).sign stored load.object i) rfl rfl).conclude n _
  | breakDown n => exact hs.conclude n _
  | clear => exact hs.congr rfl rfl
  | reload r index p hfree hinstall =>
    exact (hs.withPlane (Plane.rerouted_install hinstall).coalescer?).congr rfl rfl
  | bump | empty | settle => exact (hs.mapCache _).congr rfl rfl
  | reap | sweep => exact hs.mapCache _
  | replace => exact hs.withPlane rfl

theorem step (hs : s.Orderly) (a : Action) : (s.step a).Orderly := by
  rcases s.step_eq_or_moves a with heq | hmove
  · rwa [heq]
  · exact hs.moves hmove

theorem happen (hs : s.Orderly) (e : Happening) : (s.happen e).Orderly := by
  cases e with
  | act a => exact hs.step a
  | swap root => exact hs.withPlane (Plane.rerouted_swap s.plane root).coalescer?
  | openStream path => exact hs.withPlane (Plane.steady_openStream s.plane path).coalescer?
  | share f => exact hs.mapCache f

theorem after (hs : s.Orderly) (events : List Happening) : (s.after events).Orderly :=
  List.foldlRecOn events Service.happen hs fun _ ht e _ => ht.happen e

end Orderly

theorem Moves.load? {a : Action} (h : s.Moves a t) (hu : s.Unrouted)
    (hi : s.load? i = some load) : t.load? i = some load := by
  have hsame : t.ticket? i = s.ticket? i → t.load? i = some load := by
    intro hticket
    rw [Service.load?, hticket]
    exact hi
  cases h with
  | call j path hfree => exact load?_setRequest (by simp [hfree]) hi
  | stamp j r hrequest | refuse j r e hrequest => exact load?_setRequest (by simp [hrequest]) hi
  | depart j r l hrequest hstage =>
    have hnone := hu j r hrequest (Or.inr hstage)
    rw [load?_fly]
    exact load?_setRequest (by simp [hrequest, hnone]) hi
  | leave j r hrequest =>
    rw [load?_fly]
    exact load?_setRequest (by simp [hrequest]) hi
  | fly a b => exact hsame (ticket?_fly s b i)
  | hit n now k l content => exact hsame ((aside_conclude (s.withPlane _) n _).ticket? i)
  | fail n k l e => exact hsame ((aside_conclude (s.withPlane _) n _).ticket? i)
  | keep n now later k l content stored p =>
    exact hsame ((aside_conclude ((s.withPlane p).sign stored l.object k) n _).ticket? i)
  | breakDown n => exact hsame ((aside_conclude s n _).ticket? i)
  | expire | miss | dispose | ask | fetch | clear | reload | bump | empty | settle | reap
  | sweep | replace => exact hi

theorem Orderly.load?_happen (hs : s.Orderly) (e : Happening) (hi : s.load? i = some load) :
    (s.happen e).load? i = some load := by
  cases e with
  | act a =>
    rcases s.step_eq_or_moves a with heq | hmove
    · exact (congrArg (Service.load? · i) heq).trans hi
    · exact hmove.load? hs.unrouted hi
  | swap | openStream | share => exact hi

theorem Orderly.load?_after (hs : s.Orderly) (events : List Happening)
    (hi : s.load? i = some load) : (s.after events).load? i = some load := by
  induction events generalizing s with
  | nil => exact hi
  | cons e events ih => exact ih (hs.happen e) (hs.load?_happen e hi)

end Service

end ArtifactPlane
