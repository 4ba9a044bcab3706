import ArtifactPlane.Plane.Basic
import ArtifactPlane.Proofs.Cache.Stored

/-!
What the phases of a load leave alone.  `Steady` planes differ in their caches and access
counts only; where in addition the cache stores nothing new, the second plane `Keeps` what
the first had.
-/

namespace ArtifactPlane.Plane

/-- How long a loaded artifact may be served, in routed mode. -/
def ttl? (p : Plane) : Option Duration := p.routing?.map (·.ttl)

variable {p q r : Plane} {load : PendingLoad}

@[simp] theorem storage_mapRouting (f : Routing → Routing) (p : Plane) :
    (p.mapRouting f).storage = p.storage := by
  unfold mapRouting
  split <;> rfl

@[simp] theorem routing?_mapRouting (f : Routing → Routing) (p : Plane) :
    (p.mapRouting f).routing? = p.routing?.map f := by
  obtain ⟨storage, source⟩ := p
  cases source <;> rfl

theorem cache?_mapCache (f : Cache Octets → Cache Octets) (p : Plane) :
    (p.mapCache f).cache? = p.cache?.map f := by
  simp only [cache?, mapCache, routing?_mapRouting]
  cases p.routing? <;> rfl

theorem mapCache_mapCache (f g : Cache Octets → Cache Octets) (p : Plane) :
    (p.mapCache f).mapCache g = p.mapCache fun c => g (f c) := by
  obtain ⟨storage, source⟩ := p
  cases source with
  | direct => rfl
  | routed r => simp [mapCache, mapRouting, Function.comp_def]

/-- Only what happens to the cache of a plane matters. -/
theorem mapCache_congr {f g : Cache Octets → Cache Octets}
    (h : ∀ c, p.cache? = some c → f c = g c) : p.mapCache f = p.mapCache g := by
  obtain ⟨storage, source⟩ := p
  cases source with
  | direct => rfl
  | routed r =>
    obtain ⟨router, cache, coalescer, ttl⟩ := r
    cases cache with
    | none => rfl
    | some c => simp [mapCache, mapRouting, h c rfl]

theorem cache?_setCache {c : Cache Octets} (hc : p.cache? = some c) (d : Cache Octets) :
    (p.setCache d).cache? = some d := by
  obtain ⟨r, hr, -⟩ := Option.bind_eq_some_iff.mp hc
  simp [cache?, setCache, hr]

theorem coalescer?_setCoalescer {c : Coalescer} (hc : p.coalescer? = some c) (d : Coalescer) :
    (p.setCoalescer d).coalescer? = some d := by
  obtain ⟨r, hr, -⟩ := Option.bind_eq_some_iff.mp hc
  simp [coalescer?, setCoalescer, hr]

theorem router?_setRouter {r : Router} (hr : p.router? = some r) (new : Router) :
    (p.setRouter new).router? = some new := by
  obtain ⟨routing, hrouting, -⟩ := Option.map_eq_some_iff.mp hr
  simp [router?, setRouter, hrouting]

@[simp] theorem cache?_setCoalescer (p : Plane) (c : Coalescer) :
    (p.setCoalescer c).cache? = p.cache? := by
  simp only [cache?, setCoalescer, routing?_mapRouting]
  cases p.routing? <;> rfl

@[simp] theorem router?_setCoalescer (p : Plane) (c : Coalescer) :
    (p.setCoalescer c).router? = p.router? := by
  simp only [router?, setCoalescer, routing?_mapRouting]
  cases p.routing? <;> rfl

@[simp] theorem ttl?_setCoalescer (p : Plane) (c : Coalescer) :
    (p.setCoalescer c).ttl? = p.ttl? := by
  simp only [ttl?, setCoalescer, routing?_mapRouting]
  cases p.routing? <;> rfl

@[simp] theorem storage_setCoalescer (p : Plane) (c : Coalescer) :
    (p.setCoalescer c).storage = p.storage := storage_mapRouting _ p

@[simp] theorem cache?_setRouter (p : Plane) (r : Router) :
    (p.setRouter r).cache? = p.cache? := by
  simp only [cache?, setRouter, routing?_mapRouting]
  cases p.routing? <;> rfl

@[simp] theorem coalescer?_setRouter (p : Plane) (r : Router) :
    (p.setRouter r).coalescer? = p.coalescer? := by
  simp only [coalescer?, setRouter, routing?_mapRouting]
  cases p.routing? <;> rfl

@[simp] theorem ttl?_setRouter (p : Plane) (r : Router) : (p.setRouter r).ttl? = p.ttl? := by
  simp only [ttl?, setRouter, routing?_mapRouting]
  cases p.routing? <;> rfl

/-- Planes that differ in their caches and access counts only. -/
structure Steady (p q : Plane) : Prop where
  medium : q.storage.medium = p.storage.medium
  router? : q.router? = p.router?
  coalescer? : q.coalescer? = p.coalescer?
  ttl? : q.ttl? = p.ttl?

/-- Planes that are steady, where the second caches nothing that the first does not. -/
structure Keeps (p q : Plane) : Prop extends p.Steady q where
  cache? : ∀ d, q.cache? = some d → ∃ c, p.cache? = some c ∧ c.Keeps d

theorem steady_mapRouting {f : Routing → Routing} (hrouter : ∀ r, (f r).router = r.router)
    (hcoalescer : ∀ r, (f r).coalescer = r.coalescer) (httl : ∀ r, (f r).ttl = r.ttl)
    (p : Plane) : p.Steady (p.mapRouting f) := by
  refine ⟨by rw [storage_mapRouting], ?_, ?_, ?_⟩
  all_goals
    simp only [router?, coalescer?, ttl?, routing?_mapRouting]
    cases p.routing? <;> simp [hrouter, hcoalescer, httl]

theorem steady_mapCache (f : Cache Octets → Cache Octets) (p : Plane) :
    p.Steady (p.mapCache f) := by
  apply steady_mapRouting
  all_goals
    intro r
    rfl

theorem steady_setCache (p : Plane) (c : Cache Octets) : p.Steady (p.setCache c) := by
  apply steady_mapRouting
  all_goals
    intro r
    rfl

theorem Steady.refl (p : Plane) : p.Steady p := ⟨rfl, rfl, rfl, rfl⟩

theorem Keeps.refl (p : Plane) : p.Keeps p :=
  ⟨Steady.refl p, fun c hc => ⟨c, hc, Cache.Keeps.of_eq rfl rfl⟩⟩

theorem Steady.trans (hq : p.Steady q) (hr : q.Steady r) : p.Steady r :=
  ⟨hr.medium.trans hq.medium, hr.router?.trans hq.router?, hr.coalescer?.trans hq.coalescer?,
    hr.ttl?.trans hq.ttl?⟩

/-- Planes of which the second caches nothing that the first does not. -/
def CachesNoMore (p q : Plane) : Prop :=
  ∀ d, q.cache? = some d → ∃ c, p.cache? = some c ∧ c.Keeps d

theorem CachesNoMore.of_eq (h : q.cache? = p.cache?) : p.CachesNoMore q := by
  intro c hc
  exact ⟨c, h ▸ hc, Cache.Keeps.of_eq rfl rfl⟩

theorem CachesNoMore.trans (hq : p.CachesNoMore q) (hr : q.CachesNoMore r) :
    p.CachesNoMore r := by
  intro e he
  obtain ⟨d, hd, hkept⟩ := hr e he
  obtain ⟨c, hc, hkeeps⟩ := hq d hd
  exact ⟨c, hc, hkeeps.trans hkept⟩

theorem Keeps.trans (hq : p.Keeps q) (hr : q.Keeps r) : p.Keeps r :=
  ⟨hq.toSteady.trans hr.toSteady, CachesNoMore.trans hq.cache? hr.cache?⟩

theorem keeps_mapCache {f : Cache Octets → Cache Octets} (hf : ∀ c : Cache Octets, c.Keeps (f c))
    (p : Plane) :
    p.Keeps (p.mapCache f) := by
  refine ⟨steady_mapCache f p, fun d hd => ?_⟩
  rw [cache?_mapCache, Option.map_eq_some_iff] at hd
  obtain ⟨c, hc, rfl⟩ := hd
  exact ⟨c, hc, hf c⟩

theorem keeps_dispose (p : Plane) (load : PendingLoad) (generation : UInt64) (busy : Bool) :
    p.Keeps (p.dispose load generation busy) :=
  keeps_mapCache (fun c => Cache.keeps_scheduleWhile busy c _) p

theorem keeps_lookUp (p : Plane) (load : PendingLoad) (now : Instant) :
    p.Keeps (p.lookUp load now).2 := by
  unfold lookUp
  split
  · next c epoch hc hepoch =>
    refine ⟨steady_setCache p _, fun d hd => ?_⟩
    rw [cache?_setCache hc] at hd
    obtain rfl := Option.some.inj hd
    exact ⟨c, hc, Cache.keeps_look c load.object now.millis⟩
  · exact Keeps.refl p

/-- What a lookup finds is stored under the object of the load. -/
theorem stores_of_lookUp {now : Instant} {content : Octets}
    (h : (p.lookUp load now).1 = .hit content) :
    ∃ c, p.cache? = some c ∧ c.Stores (c.shardOf load.object) load.object content := by
  unfold lookUp at h
  split at h
  · next c epoch hc hepoch => exact ⟨c, hc, Cache.stores_of_hit h⟩
  · simp at h

theorem receive_fst (s : Storage) (path : String) :
    (s.receive path).1 = Storage.content s.medium path := by
  unfold Storage.receive
  cases hcontent : Storage.content s.medium path <;> rfl

theorem receive_medium (s : Storage) (path : String) :
    (s.receive path).2.medium = s.medium := by
  unfold Storage.receive
  cases hcontent : Storage.content s.medium path <;> rfl

theorem read_fst (s : Storage) (path : String) :
    (s.read path).1 = Storage.content s.medium path := receive_fst s.ask path

theorem openStream_fst (s : Storage) (path : String) :
    (s.openStream path).1 = Storage.stream s.medium path := by
  unfold Storage.openStream
  cases Storage.stream s.medium path <;> rfl

theorem receiveObject_fst (p : Plane) (load : PendingLoad) :
    (p.receiveObject load).1 = Storage.content p.storage.medium load.object :=
  receive_fst p.storage load.object

/-- A read in one go is a read from storage. -/
theorem readObject_eq (p : Plane) (load : PendingLoad) :
    p.readObject load = ((p.storage.read load.object).1,
      { p with storage := (p.storage.read load.object).2 }) := rfl

theorem readObject_fst (p : Plane) (load : PendingLoad) :
    (p.readObject load).1 = Storage.content p.storage.medium load.object :=
  read_fst p.storage load.object

theorem keeps_askObject (p : Plane) : p.Keeps p.askObject :=
  ⟨⟨rfl, rfl, rfl, rfl⟩, fun c hc => ⟨c, hc, Cache.Keeps.of_eq rfl rfl⟩⟩

theorem keeps_receiveObject (p : Plane) (load : PendingLoad) :
    p.Keeps (p.receiveObject load).2 :=
  ⟨⟨receive_medium p.storage load.object, rfl, rfl, rfl⟩,
    fun c hc => ⟨c, hc, Cache.Keeps.of_eq rfl rfl⟩⟩

theorem keeps_readObject (p : Plane) (load : PendingLoad) : p.Keeps (p.readObject load).2 :=
  (keeps_askObject p).trans (keeps_receiveObject p.askObject load)

/-- A store leaves the plane as it is, or it stores the content of the load unless the
cache was cleared. -/
theorem store?_eq_some {content : Octets} {now later : Instant} {stored : Bool}
    (h : p.store? load content now later = some (stored, q)) :
    stored = false ∧ q = p ∨
      ∃ c epoch expiresAt, p.cache? = some c ∧ load.epoch = some epoch ∧
        stored = (c.epoch == epoch) ∧
        q = p.setCache (c.setIf load.object content expiresAt later.millis
          (c.epoch == epoch)).2 := by
  unfold store? at h
  split at h
  · next r c epoch hr hc hepoch =>
    obtain ⟨⟨b, d⟩, hstore, heq⟩ := Option.map_eq_some_iff.mp h
    obtain ⟨expiresAt, -, hset⟩ := Option.map_eq_some_iff.mp hstore
    obtain ⟨rfl, rfl⟩ : b = stored ∧ p.setCache d = q := by simpa using heq
    have hb := Cache.setIf_fst c load.object content expiresAt.millis later.millis
      (c.epoch == epoch)
    rw [hset] at hb
    exact Or.inr ⟨c, epoch, expiresAt.millis, hc, hepoch, hb, by rw [hset]⟩
  · obtain ⟨rfl, rfl⟩ : false = stored ∧ p = q := by simpa using h
    exact Or.inl ⟨rfl, rfl⟩

theorem steady_store {content : Octets} {now later : Instant} {stored : Bool}
    (h : p.store? load content now later = some (stored, q)) : p.Steady q := by
  rcases store?_eq_some h with ⟨-, rfl⟩ | ⟨c, epoch, expiresAt, -, -, -, rfl⟩
  · exact Steady.refl q
  · exact steady_setCache p _

theorem isSome_cache?_mapCache (f : Cache Octets → Cache Octets) (p : Plane) :
    (p.mapCache f).cache?.isSome = p.cache?.isSome := by
  rw [cache?_mapCache, Option.isSome_map]

theorem isSome_cache?_setCache {c : Cache Octets} (hc : p.cache? = some c) (d : Cache Octets) :
    (p.setCache d).cache?.isSome = p.cache?.isSome := by
  rw [cache?_setCache hc, hc, Option.isSome_some, Option.isSome_some]

theorem isSome_cache?_lookUp (p : Plane) (load : PendingLoad) (now : Instant) :
    (p.lookUp load now).2.cache?.isSome = p.cache?.isSome := by
  unfold lookUp
  split
  · next hc hepoch => exact isSome_cache?_setCache hc _
  · rfl

theorem isSome_cache?_store {content : Octets} {now later : Instant} {stored : Bool}
    (h : p.store? load content now later = some (stored, q)) :
    q.cache?.isSome = p.cache?.isSome := by
  rcases store?_eq_some h with ⟨-, rfl⟩ | ⟨c, epoch, expiresAt, hc, -, -, rfl⟩
  · rfl
  · exact isSome_cache?_setCache hc _

/-- What was read is not kept exactly where a cache is to keep it beyond the clock. -/
theorem store?_eq_none_iff {content : Octets} {now later : Instant} :
    p.store? load content now later = none ↔
      p.cache?.isSome ∧ load.epoch.isSome ∧ ∃ ttl, p.ttl? = some ttl ∧ now.add? ttl = none := by
  obtain ⟨storage, source⟩ := p
  cases source with
  | direct => simp [store?, routing?, cache?]
  | routed routing =>
    obtain ⟨router, cache, coalescer, ttl⟩ := routing
    cases cache with
    | none => simp [store?, routing?, cache?]
    | some c =>
      cases he : load.epoch with
      | none => simp [store?, routing?, cache?, he]
      | some epoch => simp [store?, routing?, cache?, he, ttl?, Cache.storeUnlessCleared?]

theorem exists_store (load : PendingLoad) {ttl : Duration} (httl : p.ttl? = some ttl)
    {now : Instant} (hnow : (now.add? ttl).isSome) (content : Octets) (later : Instant) :
    ∃ stored q, p.store? load content now later = some (stored, q) := by
  rcases hstore : p.store? load content now later with _ | ⟨stored, q⟩
  · obtain ⟨-, -, ttl', httl', hlate⟩ := store?_eq_none_iff.mp hstore
    obtain rfl : ttl = ttl' := Option.some.inj (httl.symm.trans httl')
    simp [hlate] at hnow
  · exact ⟨stored, q, rfl⟩

theorem route_eq_ok {path : String} {epoch : Option UInt64} :
    p.route path epoch = .ok load ↔ p.locate path = .ok load.object ∧ load.epoch = epoch := by
  unfold route
  obtain ⟨object, e⟩ := load
  cases p.locate path with
  | error err => simp [Except.map]
  | ok o => simp [Except.map, eq_comm]

/-- A path of a routed plane leads to its artifact in the tree in force. -/
theorem locate_eq {router : Router} (hr : p.router? = some router) (path : String) :
    p.locate path = match router.route? path with
      | some object => .ok object
      | none => .error (.notFound path) := by
  obtain ⟨storage, source⟩ := p
  cases source with
  | direct => simp [router?, routing?] at hr
  | routed r =>
    obtain rfl : r.router = router := by simpa [router?, routing?] using hr
    rfl

/-- Where a path is not routed, there is nothing to be found. -/
theorem route_eq_error {path : String} {epoch : Option UInt64} {e : Error}
    (h : p.route path epoch = .error e) : e = .notFound path := by
  have hlocate : p.locate path = .error e := by
    unfold route at h
    cases hp : p.locate path with
    | error err => simpa [hp, Except.map] using h
    | ok object => simp [hp, Except.map] at h
  unfold locate at hlocate
  dsimp only at hlocate
  split at hlocate
  · simp at hlocate
  · simpa [eq_comm] using hlocate

theorem install_eq_ok {index : Octets} (h : p.install index = .ok q) :
    ∃ old new, p.router? = some old ∧ old.reload index = .ok new ∧ q = p.setRouter new := by
  unfold install at h
  split at h
  · simp at h
  · next old hold =>
    cases hreload : old.reload index with
    | error e => simp [hreload, Except.map] at h
    | ok new =>
      obtain rfl : p.setRouter new = q := by simpa [hreload, Except.map] using h
      exact ⟨old, new, hold, hreload, rfl⟩

end ArtifactPlane.Plane
