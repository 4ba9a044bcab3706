import ArtifactPlane.Proofs.Cache.Counts
import ArtifactPlane.Proofs.Plane.Census
import ArtifactPlane.Proofs.Plane.Renewal

/-!
The counters of a plane balance.  The history of events says what was routed, looked up,
read and kept; `Tallied` ties the counters of the cache and of storage to it, and `Manned`
those of the coalescer.  Every step adds its event and keeps both.
-/

namespace ArtifactPlane

namespace Plane

open Service (Event)

variable {p q r : Plane} {load : PendingLoad} {event : Option Event}

/-- What an event adds to a counter of its kind. -/
def mark (event : Option Event) (x : Event) : UInt64 := if event = some x then 1 else 0

/-- From one plane to another, an event was counted, and nothing else. -/
structure Counts (p : Plane) (event : Option Event) (q : Plane) : Prop where
  cache? : ∀ d, q.cache? = some d → ∃ c, p.cache? = some c ∧
    d.counters.hits = c.counters.hits + mark event (.looked true) ∧
    d.counters.misses = c.counters.misses + mark event (.looked false) ∧
    d.counters.inserts = c.counters.inserts + mark event (.kept true)
  reads : q.storage.counts.reads = p.storage.counts.reads + mark event .asked

/-- No counter of a cache or of storage shows the event. -/
inductive IsSilent : Option Event → Prop
  | none : IsSilent none
  | routed (i : Nat) : IsSilent (some (.routed i))
  | read (succeeded : Bool) : IsSilent (some (.read succeeded))
  | brokeDown : IsSilent (some .brokeDown)

theorem counts_of_uncounted (hevent : IsSilent event)
    (hcache : ∀ d, q.cache? = some d → ∃ c, p.cache? = some c ∧ c.Uncounted d)
    (hreads : q.storage.counts.reads = p.storage.counts.reads) : p.Counts event q := by
  have hmark : ∀ x, (x = .looked true ∨ x = .looked false ∨ x = .kept true ∨ x = .asked) →
      mark event x = 0 := by
    rintro x hx
    cases hevent <;> rcases hx with rfl | rfl | rfl | rfl <;> simp [mark]
  refine ⟨fun d hd => ?_, ?_⟩
  · obtain ⟨c, hc, hsame⟩ := hcache d hd
    refine ⟨c, hc, ?_, ?_, ?_⟩
    · rw [hmark _ (by simp), hsame.hits, UInt64.add_zero]
    · rw [hmark _ (by simp), hsame.misses, UInt64.add_zero]
    · rw [hmark _ (by simp), hsame.inserts, UInt64.add_zero]
  · rw [hmark _ (by simp), hreads, UInt64.add_zero]

theorem counts_of_eq (hevent : IsSilent event) (hcache : q.cache? = p.cache?)
    (hstorage : q.storage.counts = p.storage.counts) : p.Counts event q :=
  counts_of_uncounted hevent (fun d hd => ⟨d, hcache ▸ hd, .of_eq rfl⟩) (by rw [hstorage])

theorem Counts.refl (p : Plane) : p.Counts none p := counts_of_eq .none rfl rfl

theorem counts_mapCache {f : Cache Octets → Cache Octets}
    (hf : ∀ c : Cache Octets, c.Uncounted (f c)) (p : Plane) : p.Counts none (p.mapCache f) := by
  apply counts_of_uncounted .none
  · intro d hd
    rw [cache?_mapCache, Option.map_eq_some_iff] at hd
    obtain ⟨c, hc, rfl⟩ := hd
    exact ⟨c, hc, hf c⟩
  · rw [mapCache, storage_mapRouting]

/-- Only the cache and the storage of the second plane matter. -/
theorem Counts.congr (h : p.Counts event q) (hcache : r.cache? = q.cache?)
    (hstorage : r.storage = q.storage) : p.Counts event r := by
  refine ⟨fun d hd => h.cache? d (hcache ▸ hd), ?_⟩
  rw [hstorage]
  exact h.reads

theorem counts_lookUp {c : Cache Octets} (hc : p.cache? = some c) (hload : load.epoch.isSome)
    (now : Instant) :
    p.Counts (some (.looked (p.lookUp load now).1.isHit)) (p.lookUp load now).2 := by
  rw [lookUp_eq hc hload]
  have hcounters := Cache.counters_look c load.object now.millis
  generalize c.look load.object now.millis = found at hcounters
  obtain ⟨found, d⟩ := found
  refine ⟨fun e he => ⟨c, hc, ?_⟩, ?_⟩
  · rw [cache?_setCache hc] at he
    obtain rfl := Option.some.inj he
    dsimp only at hcounters
    rw [hcounters]
    cases found with
    | hit content => simp [mark, Cache.Lookup.isHit, Cache.Counters.recordHit]
    | expired generation => simp [mark, Cache.Lookup.isHit, Cache.Counters.recordExpired]
    | miss => simp [mark, Cache.Lookup.isHit, Cache.Counters.recordMiss]
  · have hstorage : (p.setCache d).storage = p.storage := storage_mapRouting _ p
    simp [hstorage, mark]

theorem counts_askObject (p : Plane) : p.Counts (some .asked) p.askObject := by
  refine ⟨fun d hd => ⟨d, hd, ?_⟩, rfl⟩
  simp [mark]

theorem counts_receiveObject (p : Plane) (load : PendingLoad) :
    p.Counts (some (.read (p.receiveObject load).1.isOk)) (p.receiveObject load).2 := by
  refine counts_of_uncounted (.read _) (fun d hd => ⟨d, hd, .of_eq rfl⟩) ?_
  simp only [receiveObject, Storage.receive]
  split <;> rfl

/-- With a cache, a load that carries an epoch is stored if the epoch is still that of the
cache. -/
theorem counts_store {c : Cache Octets} (hc : p.cache? = some c) {epoch : UInt64}
    (hload : load.epoch = some epoch) {content : Octets} {now later : Instant} {stored : Bool}
    (hstore : p.store? load content now later = some (stored, q)) :
    p.Counts (some (.kept (c.epoch == epoch))) q := by
  obtain ⟨r, hr, -⟩ := Option.bind_eq_some_iff.mp hc
  simp only [store?, hr, hc, hload] at hstore
  obtain ⟨⟨b, d⟩, hset, heq⟩ := Option.map_eq_some_iff.mp hstore
  obtain ⟨expiresAt, -, hset⟩ := Option.map_eq_some_iff.mp hset
  obtain ⟨-, rfl⟩ : b = stored ∧ p.setCache d = q := by simpa using heq
  have hcounters := Cache.counters_setIf c load.object content expiresAt.millis later.millis
    (c.epoch == epoch)
  rw [hset] at hcounters
  obtain ⟨hhits, hmisses, hinserts⟩ := hcounters
  have hstorage : (p.setCache d).storage = p.storage := storage_mapRouting _ p
  refine ⟨fun e he => ⟨c, hc, ?_⟩, ?_⟩
  · rw [cache?_setCache hc] at he
    obtain rfl := Option.some.inj he
    rw [hhits, hmisses, hinserts]
    cases c.epoch == epoch <;> simp [mark]
  · simp [hstorage, mark]

end Plane

namespace Service

open Coalescer (Ending Flight)

variable {s t u : Service} {first : UInt64} {h : List Event} {event : Option Event}
  {p q : Plane} {i n : Nat} {load : PendingLoad}

/-- The counters of a plane agree with a history, for storage that had been read before. -/
structure Tallied (first : UInt64) (p : Plane) (h : List Event) : Prop where
  hits : ∀ c, p.cache? = some c → c.counters.hits = .ofNat (h.count (.looked true))
  misses : ∀ c, p.cache? = some c → c.counters.misses = .ofNat (h.count (.looked false))
  inserts : ∀ c, p.cache? = some c → c.counters.inserts = .ofNat (h.count (.kept true))
  reads : p.storage.counts.reads = first + .ofNat (h.count .asked)

theorem ofNat_count (h : List Event) (event : Option Event) (x : Event) :
    UInt64.ofNat ((h ++ event.toList).count x) = .ofNat (h.count x) + Plane.mark event x := by
  rw [count_add, UInt64.ofNat_add, Plane.mark]
  split <;> rfl

theorem Tallied.counts (ht : Tallied first p h) (hcounts : p.Counts event q) :
    Tallied first q (h ++ event.toList) := by
  refine ⟨?_, ?_, ?_, ?_⟩
  · intro d hd
    obtain ⟨c, hc, hhits, -, -⟩ := hcounts.cache? d hd
    rw [hhits, ht.hits c hc, ofNat_count]
  · intro d hd
    obtain ⟨c, hc, -, hmisses, -⟩ := hcounts.cache? d hd
    rw [hmisses, ht.misses c hc, ofNat_count]
  · intro d hd
    obtain ⟨c, hc, -, -, hinserts⟩ := hcounts.cache? d hd
    rw [hinserts, ht.inserts c hc, ofNat_count]
  · rw [hcounts.reads, ht.reads, ofNat_count, UInt64.add_assoc]

theorem load?_setRequest_eq (s : Service) (i : Nat) (r : Request) (j : Nat) :
    (s.setRequest i r).load? j = if j = i then r.load else s.load? j := by
  simp only [load?, ticket?_setRequest]
  split <;> rfl

/-- A step that may route a request, or that a loader takes. -/
def Action.isTurn : Action → Bool
  | .route _ => true
  | .lookUp _ _ => true
  | .dispose _ _ => true
  | .ask _ => true
  | .read _ => true
  | .keep _ _ _ => true
  | _ => false

/-- Whether no clear advanced the epoch since a request read it. -/
def isCurrent (s : Service) (i : Nat) : Bool := (s.ticket? i).any fun t => t.bumps == s.bumps

/-- A load is still admitted exactly while its request is current. -/
theorem isCurrent_eq (hs : s.Renewed) (hbound : s.bumps < 2 ^ 64) {c : Cache Octets}
    (hc : s.plane.cache? = some c) (hload : s.load? i = some load) {epoch : UInt64}
    (hepoch : load.epoch = some epoch) : s.isCurrent i = (c.epoch == epoch) := by
  obtain ⟨ticket, hticket, hl⟩ := Option.bind_eq_some_iff.mp hload
  have hdated := hs.dated i ticket hticket
  have hread : epoch = .ofNat ticket.bumps :=
    hdated.epoch_eq epoch ((hdated.load_epoch load hl).symm.trans hepoch)
  have hticketBound := Nat.lt_of_le_of_lt hdated.bumps_le hbound
  have hwords : UInt64.ofNat s.bumps = .ofNat ticket.bumps ↔ ticket.bumps = s.bumps := by
    rw [← UInt64.toNat_inj, UInt64.toNat_ofNat_of_lt' hbound,
      UInt64.toNat_ofNat_of_lt' hticketBound, eq_comm]
  rw [Bool.eq_iff_iff]
  simp [isCurrent, hticket, hread, hs.epoch c hc, hwords]

/-- What a step adds to the history. -/
def event? (s : Service) : Action → Option Event
  | .route i =>
    match s.requests i with
    | some r =>
      match r.stage, s.plane.route r.path r.epoch with
      | .stamped, .ok _ => some (.routed i)
      | _, _ => none
    | none => none
  | .lookUp n now =>
    match s.running? n, s.progress n with
    | some (_, load), .begun => some (.looked (s.plane.lookUp load now).1.isHit)
    | _, _ => none
  | .ask n =>
    match s.running? n, s.progress n with
    | some _, .missed => some .asked
    | _, _ => none
  | .read n =>
    match s.running? n, s.progress n with
    | some (_, load), .reading => some (.read (s.plane.receiveObject load).1.isOk)
    | _, _ => none
  | .keep n now later =>
    match s.running? n, s.progress n with
    | some (i, load), .fetched content =>
      match s.plane.store? load content now later with
      | some _ => some (.kept (s.isCurrent i))
      | none => some .brokeDown
    | _, _ => none
  | _ => none

/-- The history of a run. -/
def events (s : Service) : List Action → List Event
  | [] => []
  | a :: rest => (s.event? a).toList ++ (s.step a).events rest

/-- The counters of every component agree with a history. -/
structure Balanced (first : UInt64) (s : Service) (h : List Event) : Prop where
  manned : ∀ f, s.flight? = some f → Manned f s.progress h
  known : ∀ i, i ∈ routed h ↔ (s.load? i).isSome
  tallied : Tallied first s.plane h

namespace Balanced

theorem start (storage : Storage) (root : RouteTree) (config : Cache.Config) (shards : Nat)
    (ttl : Duration) :
    Balanced storage.counts.reads (start storage root (some config) (some shards) ttl) [] := by
  refine ⟨?_, ?_, ?_⟩
  · intro f hf
    obtain rfl : Flight.start shards = f := Option.some.inj hf
    exact .start shards
  · intro i
    simp [routed, load?, ticket?, Service.start, Roster.empty]
  · have hfresh : ∀ c, (some (Cache.ofConfig config) : Option (Cache Octets)) = some c →
        c.counters = {} := by
      rintro c hc
      obtain rfl := Option.some.inj hc
      rfl
    refine ⟨?_, ?_, ?_, ?_⟩
    on_goal 4 => exact (UInt64.add_zero _).symm
    all_goals
      intro c hc
      rw [hfresh c hc]
      rfl

/-- A step that no counter shows. -/
theorem still (hs : s.Balanced first h) (hflight : t.flight? = s.flight?)
    (hprogress : t.progress = s.progress) (hload : ∀ i, t.load? i = s.load? i)
    (hcounts : s.plane.Counts none t.plane) : t.Balanced first h := by
  refine ⟨?_, ?_, ?_⟩
  · rw [hflight, hprogress]
    exact hs.manned
  · intro i
    rw [hload]
    exact hs.known i
  · simpa using hs.tallied.counts hcounts

/-- Callers of the coalescer are requests that were routed. -/
theorem mem_routed (hs : s.Balanced first h) {f : Flight} (hlinked : s.Linked f)
    (i : Nat) (c : Coalescer.Caller) (hi : f.callers i = some c) : i ∈ routed h := by
  obtain ⟨load, hload, -⟩ := hlinked i c.key c.stage hi
  rw [hs.known, hload, Option.isSome_some]

/-- A step of the coalescer in which nobody arrives and no loader ends. -/
theorem fly (hs : s.Balanced first h) {f : Flight} (hf : s.flight? = some f) (hsound : f.Sound)
    (hmembers : ∀ i c, f.callers i = some c → i ∈ routed h) {b : Coalescer.Action}
    (harrive : ∀ i key, b ≠ .arrive i key) (hfinish : ∀ n e, b ≠ .finish n e) :
    (s.fly b).Balanced first h := by
  have haside := aside_fly s b
  refine ⟨?_, ?_, ?_⟩
  · intro g hg
    obtain rfl : f.step b = g := by simpa [flight?_fly, hf] using hg
    rw [progress_fly]
    rcases f.step_eq_or_moves b with heq | hmove
    · exact heq.symm ▸ hs.manned f hf
    · exact (hs.manned f hf).moves hsound.tracked hmembers harrive hfinish hmove
  · intro i
    rw [load?_fly]
    exact hs.known i
  · have hcounts := Plane.counts_of_eq .none haside.cache? (congrArg (·.counts) haside.storage)
    simpa using hs.tallied.counts hcounts

/-- A request is routed. -/
theorem depart (hs : s.Balanced first h) (hw : s.Wired) (hu : s.Unrouted) {r : Request}
    (hrequest : s.requests i = some r) (hstage : r.stage = .stamped) (load : PendingLoad) :
    ((s.setRequest i { r with stage := .loading, load := some load, era := s.era }).fly
      (.arrive i load.object)).Balanced first (h ++ [.routed i]) := by
  obtain ⟨f, hf, -, hlinked⟩ := hw.flight
  let q : Request := { r with stage := .loading, load := some load, era := s.era }
  have haside := aside_fly (s.setRequest i q) (.arrive i load.object)
  have hnone : s.load? i = none := by
    simp [load?, ticket?, hrequest, hu i r hrequest (Or.inr hstage)]
  have hi : i ∉ routed h := by simp [hs.known, hnone]
  have hfree := hlinked.callers_eq_none hnone
  refine ⟨?_, ?_, ?_⟩
  · intro g hg
    have hflight : (s.setRequest i q).flight? = some f := hf
    obtain rfl : f.setCaller i ⟨load.object, .arrived⟩ = g := by
      simpa [flight?_fly, hflight, Flight.step, hfree, q] using hg
    rw [progress_fly]
    exact (hs.manned f hf).arrive hi hfree load.object
  · intro j
    have hmem : j ∈ routed (h ++ [.routed i]) ↔ j ∈ routed h ∨ j = i := by
      simp [routed, Event.request?]
    rw [hmem, hs.known, load?_fly, load?_setRequest_eq]
    by_cases hj : j = i <;> simp [hj]
  · have hcounts : s.plane.Counts (some (.routed i)) _ :=
      Plane.counts_of_eq (.routed i) haside.cache? (congrArg (·.counts) haside.storage)
    exact hs.tallied.counts hcounts

/-- A loader goes on. -/
theorem goOn (hs : s.Balanced first h) (hw : s.Wired) (hrunning : s.running? n = some (i, load))
    (hcoalescer : q.coalescer? = s.plane.coalescer?) {x : Progress}
    (hturn : Turn (s.progress n).phase x.phase event) (hcounts : s.plane.Counts event q) :
    ((s.withPlane q).setProgress n x).Balanced first (h ++ event.toList) := by
  obtain ⟨f, hf, hsound, -⟩ := hw.flight
  obtain ⟨⟨key, htask⟩, -⟩ := running?_flight hf hrunning
  refine ⟨?_, ?_, hs.tallied.counts hcounts⟩
  · intro g hg
    have hflight : (s.withPlane q).flight? = some f := (flight?_withPlane hcoalescer).trans hf
    obtain rfl : f = g := Option.some.inj (hflight.symm.trans hg)
    exact (hs.manned f hf).goOn hsound.tracked htask hturn
  · intro j
    rw [hturn.routed]
    exact hs.known j

/-- A loader ends. -/
theorem conclude (hs : s.Balanced first h) (hw : s.Wired)
    (hrunning : s.running? n = some (i, load)) (hflight : u.flight? = s.flight?)
    (hprogress : u.progress = s.progress) (hload : ∀ j, u.load? j = s.load? j)
    (hturn : Turn (s.progress n).phase .ended event) (hcounts : s.plane.Counts event u.plane)
    (e : Ending) : (u.conclude n e).Balanced first (h ++ event.toList) := by
  obtain ⟨f, hf, hsound, -⟩ := hw.flight
  obtain ⟨⟨key, htask⟩, -⟩ := running?_flight hf hrunning
  have hu : u.flight? = some f := hflight.trans hf
  have haside := aside_fly u (.finish n e)
  rw [Wired.conclude_eq_fly hu]
  refine ⟨?_, ?_, hs.tallied.counts (hcounts.congr haside.cache? haside.storage)⟩
  · intro g hg
    obtain rfl : f.advance n ⟨key, i, .ended e⟩ f.coalescer = g := by
      simpa [flight?_fly, hu, Flight.step, htask] using hg
    rw [progress_fly, hprogress]
    exact (hs.manned f hf).finish hsound.tracked htask hturn e
  · intro j
    rw [hturn.routed, load?_fly, hload]
    exact hs.known j

/-- A request goes on and keeps the load that it has. -/
theorem setRequest (hs : s.Balanced first h) {r q : Request} (hrequest : s.requests i = some r)
    (hload : q.load = r.load) : (s.setRequest i q).Balanced first h := by
  refine hs.still rfl rfl (fun j => ?_) (.refl _)
  rw [load?_setRequest_eq, hload]
  split
  · next hj => simp [hj, load?, ticket?, hrequest]
  · rfl

/-- A step of the cache other than a lookup and a store. -/
theorem mapCache (hs : s.Balanced first h) {f : Cache Octets → Cache Octets}
    (hf : ∀ c : Cache Octets, c.Uncounted (f c)) :
    (s.withPlane (s.plane.mapCache f)).Balanced first h :=
  hs.still (flight?_withPlane (Plane.steady_mapCache f s.plane).coalescer?) rfl (fun _ => rfl)
    (Plane.counts_mapCache hf s.plane)

/-- A step that routes no request and that no loader takes. -/
theorem quiet (hs : s.Balanced first h) (hw : s.Wired) {a : Action} (ha : a.isTurn = false)
    (hmove : s.Moves a t) : t.Balanced first h := by
  obtain ⟨f, hf, hsound, hlinked⟩ := hw.flight
  have hmembers := hs.mem_routed hlinked
  cases hmove with
  | call i path hfree =>
    refine hs.still rfl rfl (fun j => ?_) (.refl _)
    rw [load?_setRequest_eq]
    split
    · next hj => simp [hj, load?, ticket?, hfree]
    · rfl
  | stamp i r hrequest => exact hs.setRequest hrequest rfl
  | leave i r hrequest =>
    exact (hs.setRequest (q := { r with stage := .left }) hrequest rfl).fly hf hsound hmembers
      (by simp) (by simp)
  | fly a b hinner =>
    apply hs.fly hf hsound hmembers
    · rintro i key rfl
      simp [isInner] at hinner
    · rintro n e rfl
      simp [isInner] at hinner
  | clear => exact hs.still rfl rfl (fun _ => rfl) (.refl _)
  | reload r index p hfree hinstall =>
    obtain ⟨old, new, -, -, rfl⟩ := Plane.install_eq_ok hinstall
    exact hs.still (flight?_withPlane (Plane.coalescer?_setRouter s.plane new)) rfl (fun _ => rfl)
      (Plane.counts_of_eq .none (Plane.cache?_setRouter s.plane new)
        (congrArg (·.counts) (Plane.storage_mapRouting _ s.plane)))
  | bump =>
    exact (hs.mapCache Cache.uncounted_bumpEpoch).still rfl rfl (fun _ => rfl) (.refl _)
  | empty r era k =>
    exact (hs.mapCache fun c => Cache.uncounted_clearShard c k).still rfl rfl (fun _ => rfl)
      (.refl _)
  | settle =>
    exact (hs.mapCache Cache.uncounted_recordClear).still rfl rfl (fun _ => rfl) (.refl _)
  | reap => exact hs.mapCache Cache.uncounted_reapNext
  | sweep shard now => exact hs.mapCache fun c => Cache.uncounted_sweepShard now c shard
  | replace => exact hs.still rfl rfl (fun _ => rfl) (Plane.counts_of_eq .none rfl rfl)
  | refuse | depart | hit | expire | miss | dispose | ask | fail | fetch | keep | breakDown =>
    simp [Action.isTurn] at ha

theorem route (hs : s.Balanced first h) (hw : s.Wired) (hu : s.Unrouted) (i : Nat) :
    (s.step (.route i)).Balanced first (h ++ (s.event? (.route i)).toList) := by
  rcases hrequest : s.requests i with _ | ⟨ticket, stage⟩
  · simpa [step, event?, hrequest] using hs
  · cases stage with
    | stamped =>
      cases hroute : s.plane.route ticket.path ticket.epoch with
      | error e =>
        have hrefused := hs.setRequest (q := ⟨ticket, .answered (.delivered (.error e))⟩)
          hrequest rfl
        simpa [step, event?, hrequest, hroute] using hrefused
      | ok load => simpa [step, event?, hrequest, hroute] using hs.depart hw hu hrequest rfl load
    | called | loading | answered | left => simpa [step, event?, hrequest] using hs

theorem lookUp (hs : s.Balanced first h) (hw : s.Wired) (n : Nat) (now : Instant) :
    (s.step (.lookUp n now)).Balanced first (h ++ (s.event? (.lookUp n now)).toList) := by
  rcases hrunning : s.running? n with _ | ⟨i, load⟩
  · simpa [step, event?, hrunning] using hs
  · cases hprogress : s.progress n with
    | begun =>
      obtain ⟨c, hc⟩ := Option.isSome_iff_exists.mp hw.cache
      have hcounts := Plane.counts_lookUp hc (hw.timed i load (load?_of_running hrunning)) now
      have hcoalescer := (Plane.keeps_lookUp s.plane load now).coalescer?
      rcases hlook : s.plane.lookUp load now with ⟨found, q⟩
      rw [hlook] at hcounts hcoalescer
      cases found with
      | hit content =>
        have hturn : Turn (s.progress n).phase .ended (some (.looked true)) := hprogress ▸ .hit
        have hends := hs.conclude (u := s.withPlane q) hw hrunning
          (flight?_withPlane hcoalescer) rfl (fun _ => rfl) hturn hcounts
        simpa [step, event?, hrunning, hprogress, hlook, Cache.Lookup.isHit] using
          hends (.delivered (.ok content))
      | expired generation =>
        have hturn : Turn (s.progress n).phase (Progress.expired generation).phase
            (some (.looked false)) := hprogress ▸ .expire
        have hgoes := hs.goOn hw hrunning hcoalescer hturn hcounts
        simpa [step, event?, hrunning, hprogress, hlook, Cache.Lookup.isHit] using hgoes
      | miss =>
        have hturn : Turn (s.progress n).phase Progress.missed.phase (some (.looked false)) :=
          hprogress ▸ .miss
        have hgoes := hs.goOn hw hrunning hcoalescer hturn hcounts
        simpa [step, event?, hrunning, hprogress, hlook, Cache.Lookup.isHit] using hgoes
    | expired | missed | reading | fetched =>
      simpa [step, event?, hrunning, hprogress] using hs

theorem dispose (hs : s.Balanced first h) (hw : s.Wired) (n : Nat) (busy : Bool) :
    (s.step (.dispose n busy)).Balanced first (h ++ (s.event? (.dispose n busy)).toList) := by
  rcases hrunning : s.running? n with _ | ⟨i, load⟩
  · simpa [step, event?, hrunning] using hs
  · cases hprogress : s.progress n with
    | expired generation =>
      have hturn : Turn (s.progress n).phase Progress.missed.phase none := hprogress ▸ .dispose
      have hgoes := hs.goOn hw hrunning
        (Plane.keeps_dispose s.plane load generation busy).coalescer? hturn
        (Plane.counts_mapCache (fun c => Cache.uncounted_scheduleWhile busy c _) s.plane)
      simpa [step, event?, hrunning, hprogress] using hgoes
    | begun | missed | reading | fetched => simpa [step, event?, hrunning, hprogress] using hs

theorem ask (hs : s.Balanced first h) (hw : s.Wired) (n : Nat) :
    (s.step (.ask n)).Balanced first (h ++ (s.event? (.ask n)).toList) := by
  rcases hrunning : s.running? n with _ | ⟨i, load⟩
  · simpa [step, event?, hrunning] using hs
  · cases hprogress : s.progress n with
    | missed =>
      have hturn : Turn (s.progress n).phase Progress.reading.phase (some .asked) :=
        hprogress ▸ .ask
      have hgoes := hs.goOn hw hrunning (Plane.keeps_askObject s.plane).coalescer? hturn
        (Plane.counts_askObject s.plane)
      simpa [step, event?, hrunning, hprogress] using hgoes
    | begun | expired | reading | fetched => simpa [step, event?, hrunning, hprogress] using hs

theorem read (hs : s.Balanced first h) (hw : s.Wired) (n : Nat) :
    (s.step (.read n)).Balanced first (h ++ (s.event? (.read n)).toList) := by
  rcases hrunning : s.running? n with _ | ⟨i, load⟩
  · simpa [step, event?, hrunning] using hs
  · cases hprogress : s.progress n with
    | reading =>
      have hcounts := Plane.counts_receiveObject s.plane load
      have hcoalescer := (Plane.keeps_receiveObject s.plane load).coalescer?
      rcases hread : s.plane.receiveObject load with ⟨result, q⟩
      rw [hread] at hcounts hcoalescer
      cases result with
      | error e =>
        have hturn : Turn (s.progress n).phase .ended (some (.read false)) := hprogress ▸ .fail
        have hends := hs.conclude (u := s.withPlane q) hw hrunning
          (flight?_withPlane hcoalescer) rfl (fun _ => rfl) hturn hcounts
        simpa [step, event?, hrunning, hprogress, hread, Except.isOk, Except.toBool] using
          hends (.delivered (.error e))
      | ok content =>
        have hturn : Turn (s.progress n).phase (Progress.fetched content).phase
            (some (.read true)) := hprogress ▸ .fetch
        have hgoes := hs.goOn hw hrunning hcoalescer hturn hcounts
        simpa [step, event?, hrunning, hprogress, hread, Except.isOk, Except.toBool] using hgoes
    | begun | expired | missed | fetched => simpa [step, event?, hrunning, hprogress] using hs

theorem keep (hs : s.Balanced first h) (hw : s.Wired) (hr : s.Renewed)
    (hbound : s.bumps < 2 ^ 64) (n : Nat) (now later : Instant) :
    (s.step (.keep n now later)).Balanced first
      (h ++ (s.event? (.keep n now later)).toList) := by
  rcases hrunning : s.running? n with _ | ⟨i, load⟩
  · simpa [step, event?, hrunning] using hs
  · cases hprogress : s.progress n with
    | fetched content =>
      have hload := load?_of_running hrunning
      cases hstore : s.plane.store? load content now later with
      | none =>
        have hturn : Turn (s.progress n).phase .ended (some .brokeDown) := hprogress ▸ .breakDown
        have hends := hs.conclude hw hrunning rfl rfl (fun _ => rfl) hturn
          (Plane.counts_of_eq .brokeDown rfl rfl) .panicked
        simpa [step, event?, hrunning, hprogress, hstore] using hends
      | some result =>
        obtain ⟨stored, q⟩ := result
        obtain ⟨c, hc⟩ := Option.isSome_iff_exists.mp hw.cache
        obtain ⟨epoch, hepoch⟩ := Option.isSome_iff_exists.mp (hw.timed i load hload)
        have hcounts := Plane.counts_store hc hepoch hstore
        rw [← isCurrent_eq hr hbound hc hload hepoch] at hcounts
        have hturn : Turn (s.progress n).phase .ended (some (.kept (s.isCurrent i))) :=
          hprogress ▸ .keep _
        have hends := hs.conclude (u := (s.withPlane q).sign stored load.object i) hw hrunning
          (flight?_withPlane (Plane.steady_store hstore).coalescer?) rfl (fun _ => rfl) hturn
          hcounts (.delivered (.ok content))
        simpa [step, event?, hrunning, hprogress, hstore] using hends
    | begun | expired | missed | reading => simpa [step, event?, hrunning, hprogress] using hs

theorem step (hs : s.Balanced first h) (hw : s.Wired) (hu : s.Unrouted) (hr : s.Renewed)
    (hbound : s.bumps < 2 ^ 64) (a : Action) :
    (s.step a).Balanced first (h ++ (s.event? a).toList) := by
  have hquiet : a.isTurn = false → (s.step a).Balanced first h := by
    intro ha
    rcases s.step_eq_or_moves a with heq | hmove
    · exact heq.symm ▸ hs
    · exact hs.quiet hw ha hmove
  cases a with
  | route i => exact hs.route hw hu i
  | lookUp n now => exact hs.lookUp hw n now
  | dispose n busy => exact hs.dispose hw n busy
  | ask n => exact hs.ask hw n
  | read n => exact hs.read hw n
  | keep n now later => exact hs.keep hw hr hbound n now later
  | call | stamp | look | enter | wake | leave | unregister | record | clear | reload | bump
  | empty | reap | sweep | replace => simpa [event?] using hquiet rfl

end Balanced

end Service

end ArtifactPlane
