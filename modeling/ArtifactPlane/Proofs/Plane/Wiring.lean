import ArtifactPlane.Proofs.Plane.Frames

/-!
A plane with both a cache and a coalescer.  Callers of the coalescer are requests that have a
load, and every load carries the epoch that its request read.
-/

namespace ArtifactPlane

namespace Plane

variable {p q : Plane} {load : PendingLoad}

theorem setCoalescer_self {c : Coalescer} (hc : p.coalescer? = some c) :
    p.setCoalescer c = p := by
  obtain ⟨storage, source⟩ := p
  cases source with
  | direct => rfl
  | routed r =>
    obtain ⟨router, cache, coalescer, ttl⟩ := r
    obtain rfl : coalescer = some c := hc
    rfl

/-- With a cache, a load that carries an epoch is looked up there. -/
theorem lookUp_eq {c : Cache Octets} (hc : p.cache? = some c) (hload : load.epoch.isSome)
    (now : Instant) : p.lookUp load now =
      ((c.look load.object now.millis).1, p.setCache (c.look load.object now.millis).2) := by
  obtain ⟨epoch, hepoch⟩ := Option.isSome_iff_exists.mp hload
  simp only [lookUp, hc, hepoch]

end Plane

namespace Service

open Coalescer (Ending Flight)

variable {s t : Service} {f : Flight} {i n : Nat} {load : PendingLoad} {key : String}

/-- Every caller of a flight is a request with a load of the key that it waits for. -/
def Linked (s : Service) (f : Flight) : Prop :=
  ∀ i key stage, f.callers i = some ⟨key, stage⟩ →
    ∃ load, s.load? i = some load ∧ load.object = key

/-- A request without a load has not come to the coalescer. -/
theorem Linked.callers_eq_none (hs : s.Linked f) (hnone : s.load? i = none) :
    f.callers i = none := by
  cases hcaller : f.callers i with
  | none => rfl
  | some c =>
    obtain ⟨load, hload, -⟩ := hs i c.key c.stage hcaller
    simp [hnone] at hload

/-- A cache and a coalescer stand behind every request. -/
structure Wired (s : Service) : Prop where
  cache : s.plane.cache?.isSome
  flight : ∃ f, s.flight? = some f ∧ f.Sound ∧ s.Linked f
  stamped : ∀ i r, s.requests i = some r → r.stage = .stamped → r.epoch.isSome
  timed : ∀ i load, s.load? i = some load → load.epoch.isSome

namespace Wired

theorem start (storage : Storage) (root : RouteTree) (config : Cache.Config) (shards : Nat)
    (ttl : Duration) : (start storage root (some config) (some shards) ttl).Wired where
  cache := rfl
  flight := ⟨Flight.start shards, rfl, .start shards, fun _ _ _ h => nomatch h⟩
  stamped := fun _ _ h => nomatch h
  timed := fun _ _ h => nomatch h

/-- Only the requests and the parts of the plane matter. -/
theorem congr (hs : s.Wired) (hcache : t.plane.cache?.isSome) (hflight : t.flight? = s.flight?)
    (hrequests : t.requests = s.requests) : t.Wired := by
  have hload : ∀ i, t.load? i = s.load? i := by
    intro i
    simp only [load?, ticket?, hrequests]
  obtain ⟨f, hf, hsound, hlinked⟩ := hs.flight
  refine ⟨hcache, ⟨f, hflight.trans hf, hsound, ?_⟩, hrequests ▸ hs.stamped, ?_⟩
  · intro i key stage hi
    rw [hload]
    exact hlinked i key stage hi
  · intro i load hi
    exact hs.timed i load ((hload i).symm.trans hi)

theorem withPlane (hs : s.Wired) {p : Plane} (hcache : p.cache?.isSome)
    (hcoalescer : p.coalescer? = s.plane.coalescer?) : (s.withPlane p).Wired :=
  hs.congr hcache (flight?_withPlane hcoalescer) rfl

theorem mapCache (hs : s.Wired) (g : Cache Octets → Cache Octets) :
    (s.withPlane (s.plane.mapCache g)).Wired := by
  refine hs.withPlane ?_ (Plane.steady_mapCache g s.plane).coalescer?
  rw [Plane.cache?_mapCache, Option.isSome_map]
  exact hs.cache

/-- A request goes on.  A load that it has it keeps. -/
theorem setRequest (hs : s.Wired) {r : Request}
    (hkept : ∀ old, s.requests i = some old → old.load = none ∨ r.load = old.load)
    (hstamped : r.stage = .stamped → r.epoch.isSome)
    (htimed : ∀ load, r.load = some load → load.epoch.isSome) : (s.setRequest i r).Wired := by
  obtain ⟨f, hf, hsound, hlinked⟩ := hs.flight
  refine ⟨hs.cache, ⟨f, hf, hsound, ?_⟩, ?_, ?_⟩
  · intro j key stage hj
    obtain ⟨load, hload, hkey⟩ := hlinked j key stage hj
    exact ⟨load, load?_setRequest hkept hload, hkey⟩
  · intro j old hold hstage
    rcases Roster.put_eq_some_iff.mp hold with ⟨-, rfl⟩ | ⟨-, hold⟩
    · exact hstamped hstage
    · exact hs.stamped j old hold hstage
  · intro j load hj
    rw [load?, ticket?_setRequest] at hj
    split at hj
    · exact htimed load hj
    · exact hs.timed j load hj

/-- A step of the coalescer, where callers arrive with the objects of their loads. -/
theorem fly (hs : s.Wired) {b : Coalescer.Action}
    (harrive : ∀ i key, b = .arrive i key → ∃ load, s.load? i = some load ∧ load.object = key) :
    (s.fly b).Wired := by
  obtain ⟨f, hf, hsound, hlinked⟩ := hs.flight
  have haside := aside_fly s b
  refine ⟨?_, ⟨f.step b, ?_, hsound.step b, ?_⟩, ?_, ?_⟩
  · rw [haside.cache?]
    exact hs.cache
  · rw [flight?_fly, hf, Option.map_some]
  · intro i key stage hi
    rw [load?_fly]
    rcases f.step_eq_or_moves b with heq | hmove
    · exact hlinked i key stage (heq ▸ hi)
    · rcases hmove.arrived hi with ⟨old, hold⟩ | harrived
      · exact hlinked i key old hold
      · exact harrive i key harrived
  · rw [requests_fly]
    exact hs.stamped
  · intro i load hi
    rw [load?_fly] at hi
    exact hs.timed i load hi

theorem conclude_eq_fly (hf : s.flight? = some f) (n : Nat) (e : Ending) :
    s.conclude n e = s.fly (.finish n e) := by
  simp only [conclude, hf]

theorem conclude (hs : s.Wired) (n : Nat) (e : Ending) : (s.conclude n e).Wired := by
  obtain ⟨f, hf, -⟩ := hs.flight
  rw [conclude_eq_fly hf]
  exact hs.fly fun i key h => nomatch h

theorem moves {a : Action} (hs : s.Wired) (hu : s.Unrouted) (h : s.Moves a t) : t.Wired := by
  have hstage : ∀ {i : Nat} {r q : Request}, s.requests i = some r → q.load = r.load →
      (q.stage = .stamped → q.epoch.isSome) → (s.setRequest i q).Wired := by
    intro i r q hrequest hload hstamped
    refine hs.setRequest (fun old hold => .inr ?_) hstamped ?_
    · rw [hload, Option.some.inj (hrequest.symm.trans hold)]
    · intro load hq
      exact hs.timed i load (by simp [load?, ticket?, hrequest, ← hload, hq])
  cases h with
  | call i path hfree => exact hs.setRequest (by simp [hfree]) (by simp) (by simp)
  | stamp i r hrequest =>
    refine hstage hrequest rfl fun _ => ?_
    simpa [Plane.epoch?] using hs.cache
  | refuse i r e hrequest => exact hstage hrequest rfl (by simp)
  | depart i r load hrequest hat hroute =>
    obtain ⟨-, hepoch⟩ := Plane.route_eq_ok.mp hroute
    have hnone := hu i r hrequest (Or.inr hat)
    refine fly (hs.setRequest (by simp [hrequest, hnone]) (by simp) ?_) ?_
    · intro l hl
      obtain rfl : load = l := by simpa using hl
      rw [hepoch]
      exact hs.stamped i r hrequest hat
    · intro j key harrive
      obtain ⟨rfl, rfl⟩ : i = j ∧ load.object = key := by simpa using harrive
      exact ⟨load, by simp [load?, ticket?_setRequest], rfl⟩
  | fly a b hinner =>
    apply hs.fly
    rintro i key rfl
    simp [isInner] at hinner
  | leave i r hrequest =>
    exact fly (hstage (q := { r with stage := .left }) hrequest rfl (by simp)) (by simp)
  | hit n now i load =>
    exact (hs.withPlane ((Plane.isSome_cache?_lookUp s.plane load now).trans hs.cache)
      (Plane.keeps_lookUp s.plane load now).coalescer?).conclude n _
  | expire n now load | miss n now load =>
    exact (hs.withPlane ((Plane.isSome_cache?_lookUp s.plane load now).trans hs.cache)
      (Plane.keeps_lookUp s.plane load now).coalescer?).congr
        ((Plane.isSome_cache?_lookUp s.plane load now).trans hs.cache) rfl rfl
  | dispose n busy load generation => exact (hs.mapCache _).congr (hs.mapCache _).cache rfl rfl
  | fail n i load =>
    exact (hs.withPlane (p := (s.plane.receiveObject load).2) hs.cache
      (Plane.keeps_receiveObject s.plane load).coalescer?).conclude n _
  | ask n =>
    exact (hs.withPlane hs.cache (Plane.keeps_askObject s.plane).coalescer?).congr
      hs.cache rfl rfl
  | fetch n i load =>
    exact (hs.withPlane hs.cache (Plane.keeps_receiveObject s.plane load).coalescer?).congr
      hs.cache rfl rfl
  | keep n now later i load content stored p hrunning hprogress hstore =>
    have hcache := (Plane.isSome_cache?_store hstore).trans hs.cache
    exact ((hs.withPlane hcache (Plane.steady_store hstore).coalescer?).congr (t :=
      (s.withPlane p).sign stored load.object i) hcache rfl rfl).conclude n _
  | breakDown n => exact hs.conclude n _
  | clear => exact hs.congr hs.cache rfl rfl
  | reload r index p hfree hinstall =>
    obtain ⟨old, new, -, -, rfl⟩ := Plane.install_eq_ok hinstall
    have hcache : (s.plane.setRouter new).cache?.isSome := by
      rw [Plane.cache?_setRouter]
      exact hs.cache
    exact (hs.withPlane hcache (Plane.coalescer?_setRouter s.plane new)).congr hcache rfl rfl
  | bump | empty | settle => exact (hs.mapCache _).congr (hs.mapCache _).cache rfl rfl
  | reap | sweep => exact hs.mapCache _
  | replace medium => exact hs.withPlane hs.cache rfl

end Wired

theorem wired_run (storage : Storage) (root : RouteTree) (config : Cache.Config) (shards : Nat)
    (ttl : Duration) (actions : List Action) :
    ((start storage root (some config) (some shards) ttl).run actions).Wired := by
  have hboth := run_induction (P := fun s => s.Unrouted ∧ s.Wired) actions
    (fun _ _ _ _ hs h => ⟨hs.1.moves h, hs.2.moves hs.1 h⟩)
    ⟨Unrouted.start storage root (some config) (some shards) ttl,
      Wired.start storage root config shards ttl⟩
  exact hboth.2

end Service

end ArtifactPlane
