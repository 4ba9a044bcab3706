import ArtifactPlane.Plane.Assembly
import ArtifactPlane.Proofs.Plane.Rest
import ArtifactPlane.Proofs.Plane.Transparency

/-!
What accepted settings serve.  A plane in production mode begins at rest, so calls one after
another are each answered.  No check bounds the time to live, though: with a cache, a call
whose clock reading lies too late for the expiry to be represented (`Outlasts`) breaks down
unless the artifact is cached.  Any other call is answered plainly.
-/

namespace ArtifactPlane

open Coalescer (Ending)
open Service (plainAnswer)

/-- Whether a load broke down and its caller with it. -/
def Coalescer.Ending.isPanicked : Ending → Bool
  | .delivered _ => false
  | .panicked => true

theorem Coalescer.Ending.isPanicked_iff {e : Ending} : e.isPanicked = true ↔ e = .panicked := by
  cases e <;> simp [isPanicked]

/-- The end of a span of seconds is beyond the clock by the seconds of both alone. -/
theorem Instant.add?_ofSecs_eq_none_iff {now : Instant} {secs : Nat} :
    now.add? (.ofSecs secs) = none ↔ lastSecond < now.nanos / 1000000000 + secs := by
  have hsecs : (now.nanos + (secs : Int) * 1000000000) / 1000000000 =
      now.nanos / 1000000000 + secs := by
    omega
  simp [add?, Duration.ofSecs, hsecs]

namespace Plane

/-- A call that is routed loads the artifact that the tree has at its path. -/
theorem begin_eq {p : Plane} {router : Router} (hrouter : p.router? = some router)
    (path : String) : p.begin path = match router.root.resolve path with
      | some artifact => .ok ⟨artifact.location, p.epoch?⟩
      | none => .error (.notFound path) := by
  rw [begin, route, locate_eq hrouter, Router.route?, Router.artifact?]
  cases router.root.resolve path <;> rfl

/-- Whether the cache of a plane holds a live value of an object. -/
def Holds (p : Plane) (object : String) (now : Instant) : Prop :=
  ∃ content, (p.lookUp ⟨object, p.epoch?⟩ now).1 = .hit content

end Plane

namespace Settings

/-- With a cache, what is loaded now would expire beyond what the clock can represent. -/
def Outlasts (s : Settings) (now : Instant) : Prop :=
  s.cache.enabled = true ∧ now.add? s.cache.ttl = none

theorem outlasts_iff {s : Settings} {now : Instant} :
    s.Outlasts now ↔
      s.cache.enabled = true ∧ Instant.lastSecond < now.nanos / 1000000000 + s.cache.ttlSecs := by
  rw [Outlasts, CacheSettings.ttl, Instant.add?_ofSecs_eq_none_iff]

/-- What a caller is given when the load of an object breaks down. -/
def breakdown (s : Settings) (object : String) : Ending :=
  if s.coalescer.enabled then .delivered (.error (.ofCause object .loaderPanicked))
  else .panicked

/-- The plane in production mode over a router and a storage, on a machine with so many
processors. -/
def plane (s : Settings) (processors : Nat) (router : Router) (storage : Storage) : Plane :=
  .routed storage
    { router
      cache := if s.cache.enabled then some (.ofConfig (s.cache.config processors)) else none
      coalescer := if s.coalescer.enabled then some (.ofShards s.coalescer.shardCount) else none
      ttl := s.cache.ttl }

variable {s : Settings} {processors : Nat} {router : Router} {storage : Storage} {files : Files}
  {p : Plane}

/-- In production mode, the plane is over the router of the index file. -/
theorem ofSettings_eq_ok (hp : Plane.ofSettings s files processors = .ok p)
    (hproduction : s.production = true) :
    ∃ router, Router.loadFile files s.paths.indexFile = .ok router ∧
      p = s.plane processors router (.ofDirectory s.paths.distRoot files) := by
  rw [Plane.ofSettings] at hp
  cases hchecked : s.checked with
  | error e => simp [hchecked, bind, Except.bind] at hp
  | ok t =>
    obtain ⟨rfl, -⟩ := capacity_pos_of_checked hchecked
    cases hrouter : Router.loadFile files t.paths.indexFile with
    | error e => simp [hchecked, hproduction, hrouter, bind, Except.bind] at hp
    | ok router =>
      simp only [hchecked, hproduction, hrouter, bind, Except.bind, if_true] at hp
      exact ⟨router, rfl, (Except.ok.inj hp).symm⟩

theorem isSome_cache?_plane :
    (s.plane processors router storage).cache?.isSome = s.cache.enabled := by
  cases h : s.cache.enabled <;> simp [plane, Plane.cache?, Plane.routing?, Plane.routed, h]

theorem isSome_coalescer?_plane :
    (s.plane processors router storage).coalescer?.isSome = s.coalescer.enabled := by
  cases h : s.coalescer.enabled <;>
    simp [plane, Plane.coalescer?, Plane.routing?, Plane.routed, h]

/-- The cache begins empty. -/
theorem not_stores_plane {c : Cache Octets}
    (hc : (s.plane processors router storage).cache? = some c) (i : Nat) (key : String)
    (value : Octets) : ¬ c.Stores i key value := by
  have hcache : (if s.cache.enabled then some (Cache.ofConfig (s.cache.config processors))
      else none) = some c := hc
  split at hcache
  · obtain rfl := Option.some.inj hcache
    exact Cache.not_stores_ofConfig _ i key value
  · exact nomatch hcache

/-- Settings make a plane at rest. -/
theorem atRest_plane (s : Settings) (processors : Nat) (router : Router) (storage : Storage) :
    (Traffic.ofPlane (s.plane processors router storage)).AtRest := by
  have hcoalescer : ∀ c, (s.plane processors router storage).coalescer? = some c →
      c = .ofShards s.coalescer.shardCount := by
    intro c hc
    have hshards : (if s.coalescer.enabled then some (.ofShards s.coalescer.shardCount)
        else none) = some c := hc
    split at hshards
    · exact (Option.some.inj hshards).symm
    · exact nomatch hshards
  refine ⟨⟨fun c hc i key v hstores => absurd hstores (not_stores_plane hc i key v), ?_, ?_⟩,
    rfl, rfl⟩
  · intro c hc
    rw [hcoalescer c hc]
    exact Coalescer.wellPlaced_ofShards _
  · intro c hc
    rw [hcoalescer c hc]
    exact Coalescer.registered?_ofShards _

theorem outlasts_of_overruns {q : Plane} (hq : (s.plane processors router storage).Alike q)
    {load : PendingLoad} {now : Instant} (h : q.Overruns load now) : s.Outlasts now := by
  obtain ⟨ttl, httl, hlate⟩ := h.late
  obtain rfl : s.cache.ttl = ttl := Option.some.inj (hq.ttl?.symm.trans httl)
  exact ⟨isSome_cache?_plane.symm.trans (hq.cache?.symm.trans h.cache), hlate⟩

/-- The answer is the plain one, or the load of the artifact overruns the clock. -/
theorem plain_or_breakdown {q : Plane} (hq : (s.plane processors router storage).Alike q)
    {path : String} {now : Instant} {e : Ending} (h : q.Answers path now e) :
    (e = .delivered (plainAnswer router.root storage path) ∧
      ∀ artifact, router.root.resolve path = some artifact →
        ¬ q.Overruns ⟨artifact.location, q.epoch?⟩ now) ∨
    ∃ artifact, router.root.resolve path = some artifact ∧
      q.Overruns ⟨artifact.location, q.epoch?⟩ now ∧ e = s.breakdown artifact.location := by
  have hrouter : q.router? = some router := hq.router?
  have hbegins := Plane.begin_eq hrouter path
  have hshared : q.coalescer?.isSome = s.coalescer.enabled :=
    hq.coalescer?.trans isSome_coalescer?_plane
  cases hresolve : router.root.resolve path with
  | none =>
    left
    simp only [hresolve] at hbegins
    cases h with
    | refuse e hbegin =>
      obtain rfl := Except.error.inj (hbegins.symm.trans hbegin)
      exact ⟨by rw [plainAnswer, hresolve], by simp⟩
    | serve load hbegin | breakDown load hbegin | report load hbegin =>
      exact nomatch hbegins.symm.trans hbegin
  | some artifact =>
    simp only [hresolve] at hbegins
    cases h with
    | refuse e hbegin => exact nomatch hbegins.symm.trans hbegin
    | serve load hbegin htimely =>
      obtain rfl := Except.ok.inj (hbegins.symm.trans hbegin)
      refine Or.inl ⟨?_, fun other hother => by rwa [← Option.some.inj hother]⟩
      simp only [plainAnswer, hresolve, Plane.read_fst, hq.medium]
      rfl
    | breakDown load hbegin hoverrun halone =>
      obtain rfl := Except.ok.inj (hbegins.symm.trans hbegin)
      exact Or.inr ⟨artifact, rfl, hoverrun, by simp [breakdown, ← hshared, halone]⟩
    | report load hbegin hoverrun hsome =>
      obtain rfl := Except.ok.inj (hbegins.symm.trans hbegin)
      exact Or.inr ⟨artifact, rfl, hoverrun, by simp [breakdown, ← hshared, hsome]⟩

/-- The plane that settings make, after some events. -/
def planeAfter (s : Settings) (processors : Nat) (router : Router) (storage : Storage)
    (before : List Traffic.Event) : Plane :=
  ((Traffic.ofPlane (s.plane processors router storage)).after before).plane

/-- How a call is answered after other events: the plain answer, or a breakdown. -/
structure Served (s : Settings) (processors : Nat) (router : Router) (storage : Storage)
    (before : List Traffic.Event) (path : String) (now : Instant) (e : Ending) : Prop where
  /-- The clock can represent when what is loaded now would expire. -/
  timely : ¬ s.Outlasts now → e = .delivered (plainAnswer router.root storage path)
  /-- There is nothing to keep, for there is nothing to serve. -/
  refused : (∀ content, plainAnswer router.root storage path ≠ .ok content) →
    e = .delivered (plainAnswer router.root storage path)
  /-- There is nothing to keep, for it is kept already. -/
  held : ∀ artifact, router.root.resolve path = some artifact →
    (s.planeAfter processors router storage before).Holds artifact.location now →
    e = .delivered (plainAnswer router.root storage path)
  late : s.Outlasts now → ∀ artifact content, router.root.resolve path = some artifact →
    (storage.read artifact.location).1 = .ok content →
    ¬ (s.planeAfter processors router storage before).Holds artifact.location now →
    e = s.breakdown artifact.location
  /-- As long as the clock could represent no expiry, nothing has been kept. -/
  never : (∀ path now, .get path now ∈ before → s.Outlasts now) → ∀ object,
    ¬ (s.planeAfter processors router storage before).Holds object now

/-- Over any router and storage, a call after any events is served. -/
theorem served_after (s : Settings) (processors : Nat) (router : Router) (storage : Storage)
    (before : List Traffic.Event) (path : String) (now : Instant) :
    ∃ e, (((Traffic.ofPlane (s.plane processors router storage)).after before).get path now).1 =
        some e ∧
      s.Served processors router storage before path now e := by
  have hstart := atRest_plane s processors router storage
  obtain ⟨hrest, halike⟩ := hstart.after before
  obtain ⟨e, u, hget, hanswers, -⟩ := hrest.get path now
  have hnever : (∀ path now, .get path now ∈ before → s.Outlasts now) → ∀ object,
      ¬ (s.planeAfter processors router storage before).Holds object now := by
    rintro hlate object ⟨content, hhit⟩
    obtain ⟨d, hd, hstores⟩ := Plane.stores_of_lookUp hhit
    obtain ⟨c, hc, hkeeps⟩ := hstart.cachesNoMore_after rfl before
      (fun path now hmem => (hlate path now hmem).2) d hd
    exact not_stores_plane hc _ _ _ (hkeeps.stores _ _ _ hstores)
  refine ⟨e, by rw [hget], ?_⟩
  rcases plain_or_breakdown halike hanswers with ⟨hplain, htimely⟩ | ⟨a, ha, hoverrun, hbroken⟩
  · refine ⟨fun _ => hplain, fun _ => hplain, fun _ _ _ => hplain, ?_, hnever⟩
    intro hnow artifact content hresolve hread hunheld
    refine absurd ⟨?_, fun held hhit => hunheld ⟨held, hhit⟩, ⟨content, ?_⟩, s.cache.ttl,
      halike.ttl?, hnow.2⟩ (htimely artifact hresolve)
    · rw [halike.cache?]
      exact isSome_cache?_plane.trans hnow.1
    · rw [halike.medium]
      rwa [Plane.read_fst] at hread
  · have hnow := outlasts_of_overruns halike hoverrun
    refine ⟨fun hnot => absurd hnow hnot, fun hrefused => ?_, fun artifact hresolve hheld => ?_,
      fun _ artifact _ hresolve _ _ => ?_, hnever⟩
    · obtain ⟨content, hcontent⟩ := hoverrun.readable
      rw [halike.medium] at hcontent
      have hplain : plainAnswer router.root storage path = .ok content := by
        simp only [plainAnswer, ha, Plane.read_fst]
        exact hcontent
      exact absurd hplain (hrefused content)
    · obtain ⟨content, hhit⟩ := hheld
      obtain rfl := Option.some.inj (ha.symm.trans hresolve)
      exact absurd hhit (hoverrun.unheld content)
    · rw [hbroken, Option.some.inj (ha.symm.trans hresolve)]

/-- Whatever settings are accepted in production mode, and on whatever machine, every call is
answered; plainly, unless the clock cannot represent when a cached value would expire. -/
theorem answered_after (hp : Plane.ofSettings s files processors = .ok p)
    (hproduction : s.production = true) (before : List Traffic.Event) (path : String)
    (now : Instant) :
    ∃ router e, Router.loadFile files s.paths.indexFile = .ok router ∧
      (((Traffic.ofPlane p).after before).get path now).1 = some e ∧
      s.Served processors router (.ofDirectory s.paths.distRoot files) before path now e := by
  obtain ⟨router, hrouter, rfl⟩ := ofSettings_eq_ok hp hproduction
  obtain ⟨e, hget, hserved⟩ :=
    served_after s processors router (.ofDirectory s.paths.distRoot files) before path now
  exact ⟨router, e, hrouter, hget, hserved⟩

/-- Files with one artifact, of which the index has the tree. -/
def site : Files :=
  let tree := RouteTree.empty.insertPath "/x" (.new "a" ⟨0⟩)
  let index := (Index.encode tree).toOption.getD []
  (Files.none.learn "./a" (.ok (.file [1]))).learn "meta/router_binary.bin" (.ok (.file index))

/-- Settings for a day in the cache. -/
def daylong : Settings := { production := true, cache := { shardCount := some 4 } }

theorem answered_daylong : ∃ p router, Plane.ofSettings daylong site = .ok p ∧
    daylong.production = true ∧ Router.loadFile site "meta/router_binary.bin" = .ok router ∧
    (((Traffic.ofPlane p).after [.get "/x" ⟨0⟩, .reap]).get "/x" ⟨1⟩).1 =
      some (.delivered (plainAnswer router.root (.ofDirectory "." site) "/x")) := by
  have haccepted : (Plane.ofSettings daylong site).isOk = true := by decide +kernel
  rcases hp : Plane.ofSettings daylong site with e | p
  · simp [hp, Except.isOk, Except.toBool] at haccepted
  · obtain ⟨router, e, hrouter, hget, hserved⟩ :=
      answered_after hp rfl [.get "/x" ⟨0⟩, .reap] "/x" ⟨1⟩
    have hplain := hserved.timely (by rw [outlasts_iff]; decide)
    exact ⟨p, router, rfl, rfl, hrouter, by rw [hget, hplain]; rfl⟩

/-- Settings for as many seconds in the cache as can be written, without a coalescer. -/
def everlasting : Settings where
  production := true
  cache := { ttlSecs := 18446744073709551615, shardCount := some 4 }
  coalescer := { enabled := false }

/-- Accepted settings under which a call for an artifact that storage has panics. -/
theorem panics_everlasting : ∃ p, Plane.ofSettings everlasting site = .ok p ∧
    everlasting.production = true ∧ p.router?.bind (·.route? "/x") = some "a" ∧
    (p.storage.read "a").1.toOption = some [1] ∧
    ((Traffic.ofPlane p).get "/x" ⟨0⟩).1 = some .panicked := by
  have hrefutes : (Plane.ofSettings everlasting site).toOption.any (fun p =>
      p.router?.bind (·.route? "/x") = some "a" ∧ (p.storage.read "a").1.toOption = some [1] ∧
        ((Traffic.ofPlane p).get "/x" ⟨0⟩).1.any (·.isPanicked)) = true := by
    decide +kernel
  rcases hp : Plane.ofSettings everlasting site with e | p
  · simp [hp, Except.toOption] at hrefutes
  · rw [hp] at hrefutes
    obtain ⟨hroute, hread, hpanics⟩ := of_decide_eq_true hrefutes
    obtain ⟨e, hget, he⟩ := (Option.any_eq_true _ _).mp hpanics
    exact ⟨p, rfl, rfl, hroute, hread, by rw [hget, Coalescer.Ending.isPanicked_iff.mp he]⟩

end Settings

end ArtifactPlane
