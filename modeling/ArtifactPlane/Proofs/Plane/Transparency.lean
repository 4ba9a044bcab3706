import ArtifactPlane.Proofs.Coalescer.Agreement
import ArtifactPlane.Proofs.Plane.Frames

/-!
Cache and coalescer never change an answer.  Over storage whose objects stay the same,
every request that returns is given what storage holds where the tree in force at its
routing leads, whatever other requests, clears, reloads and removals of expired entries do
in the meantime.
-/

namespace ArtifactPlane

open Coalescer (Ending Flight)

namespace Service

variable {s t : Service} {m : Medium} {i n : Nat} {load : PendingLoad}

/-- What a request with a ticket is to be given, once it is routed. -/
def Ticket.due (m : Medium) (t : Ticket) : Loaded :=
  match t.load with
  | none => .error (.notFound t.path)
  | some load => Storage.content m load.object

/-- Everything that a cache, a loader or a load holds is what storage holds. -/
structure Honest (m : Medium) (s : Service) : Prop where
  medium : s.plane.storage.medium = m
  stored : ∀ c, s.plane.cache? = some c → ∀ i key v, c.Stores i key v →
    Storage.content m key = .ok v
  sound : ∀ f, s.flight? = some f → f.Sound
  linked : ∀ f, s.flight? = some f → ∀ i key stage, f.callers i = some ⟨key, stage⟩ →
    ∃ load, s.load? i = some load ∧ load.object = key
  ended : ∀ f, s.flight? = some f → ∀ n key owner stage e,
    f.tasks n = some ⟨key, owner, stage⟩ → stage.ending? = some e →
    e = .delivered (Storage.content m key)
  fetched : ∀ n v, s.progress n = .fetched v →
    ∃ key, s.object? n = some key ∧ Storage.content m key = .ok v
  answered : ∀ i r e, s.requests i = some r → r.stage = .answered e →
    e = .delivered (r.due m)

namespace Honest

theorem start (storage : Storage) (root : RouteTree) (cache : Option Cache.Config)
    (shards : Option Nat) (ttl : Duration) :
    (start storage root cache shards ttl).Honest storage.medium := by
  refine ⟨rfl, ?_, ?_, ?_, ?_, ?_, ?_⟩
  · intro c hc i key v hstores
    obtain ⟨config, -, rfl⟩ := Option.map_eq_some_iff.mp hc
    exact absurd hstores (Cache.not_stores_ofConfig config i key v)
  · intro f hf
    obtain ⟨c, hc, rfl⟩ := Option.map_eq_some_iff.mp hf
    obtain ⟨count, -, rfl⟩ := Option.map_eq_some_iff.mp hc
    exact Flight.Sound.start count
  · intro f hf i key stage hi
    obtain ⟨c, -, rfl⟩ := Option.map_eq_some_iff.mp hf
    simp [Service.start, Coalescer.Ledger.empty, Roster.empty] at hi
  · intro f hf n key owner stage e hn
    obtain ⟨c, -, rfl⟩ := Option.map_eq_some_iff.mp hf
    simp [Service.start, Coalescer.Ledger.empty, Roster.empty] at hn
  · intro n v hn
    simp [Service.start] at hn
  · intro i r e hr
    simp [Service.start, Roster.empty] at hr

/-- The plane changes, though not its storage or its coalescer. -/
theorem withPlane (hs : s.Honest m) {p : Plane} (hmedium : p.storage.medium = m)
    (hcoalescer : p.coalescer? = s.plane.coalescer?)
    (hstored : ∀ c, p.cache? = some c → ∀ i key v, c.Stores i key v →
      Storage.content m key = .ok v) : (s.withPlane p).Honest m := by
  have hflight := flight?_withPlane hcoalescer
  refine ⟨hmedium, hstored, ?_, ?_, ?_, ?_, hs.answered⟩
  · rw [hflight]
    exact hs.sound
  · rw [hflight]
    exact hs.linked
  · rw [hflight]
    exact hs.ended
  · intro n v hn
    simp only [object?, hflight]
    exact hs.fetched n v hn

theorem keeps (hs : s.Honest m) {p : Plane} (hp : s.plane.Keeps p) :
    (s.withPlane p).Honest m := by
  refine hs.withPlane (hp.medium.trans hs.medium) hp.coalescer? ?_
  intro d hd i key v hstores
  obtain ⟨c, hc, hkeeps⟩ := hp.cache? d hd
  exact hs.stored c hc i key v (hkeeps.stores i key v hstores)

/-- A cache changes, and stores at most what it stored. -/
theorem mapCache (hs : s.Honest m) {f : Cache Octets → Cache Octets}
    (hf : ∀ c i key v, (f c).Stores i key v → c.Stores i key v) :
    (s.withPlane (s.plane.mapCache f)).Honest m := by
  have hsteady := Plane.steady_mapCache f s.plane
  refine hs.withPlane (hsteady.medium.trans hs.medium) hsteady.coalescer? ?_
  intro d hd i key v hstores
  rw [Plane.cache?_mapCache, Option.map_eq_some_iff] at hd
  obtain ⟨c, hc, rfl⟩ := hd
  exact hs.stored c hc i key v (hf c i key v hstores)

theorem setProgress (hs : s.Honest m) {p : Progress}
    (hp : ∀ v, p = .fetched v → ∃ key, s.object? n = some key ∧ Storage.content m key = .ok v) :
    (s.setProgress n p).Honest m := by
  refine ⟨hs.medium, hs.stored, hs.sound, hs.linked, hs.ended, ?_, hs.answered⟩
  intro k v hk
  change (if k = n then p else s.progress k) = .fetched v at hk
  by_cases hkn : k = n
  · subst hkn
    exact hp v (by simpa using hk)
  · exact hs.fetched k v (by simpa [hkn] using hk)

/-- A request goes on.  A load that it has it keeps. -/
theorem setRequest (hs : s.Honest m) {r : Request}
    (hkept : ∀ old, s.requests i = some old → old.load = none ∨ r.load = old.load)
    (hanswered : ∀ e, r.stage = .answered e → e = .delivered (r.due m)) :
    (s.setRequest i r).Honest m := by
  refine ⟨hs.medium, hs.stored, hs.sound, ?_, hs.ended, ?_, ?_⟩
  · intro f hf j key stage hj
    obtain ⟨load, hload, hkey⟩ := hs.linked f hf j key stage hj
    exact ⟨load, load?_setRequest hkept hload, hkey⟩
  · intro n v hn
    obtain ⟨key, hobject, hcontent⟩ := hs.fetched n v hn
    exact ⟨key, object?_setRequest hkept hobject, hcontent⟩
  · intro j old e hold hstage
    rcases Roster.put_eq_some_iff.mp hold with ⟨-, rfl⟩ | ⟨-, hold⟩
    · exact hanswered e hstage
    · exact hs.answered j old e hold hstage

theorem fly_linked (hs : s.Honest m) {b : Coalescer.Action}
    (harrive : ∀ i key, b = .arrive i key → ∃ load, s.load? i = some load ∧ load.object = key)
    {f g : Flight} (hf : s.flight? = some f) (hmove : f.Moves b g) {key : String}
    {stage : Coalescer.CallerStage} (hi : g.callers i = some ⟨key, stage⟩) :
    ∃ load, s.load? i = some load ∧ load.object = key := by
  rcases hmove.arrived hi with ⟨old, hold⟩ | harrived
  · exact hs.linked f hf i key old hold
  · exact harrive i key harrived

theorem fly_ended (hs : s.Honest m) {b : Coalescer.Action} {f g : Flight}
    (hf : s.flight? = some f)
    (hfinish : ∀ n e, b = .finish n e → ∀ key owner,
      f.tasks n = some ⟨key, owner, .running⟩ → e = .delivered (Storage.content m key))
    (hmove : f.Moves b g) {key : String} {owner : Nat} {stage : Coalescer.TaskStage}
    {e : Ending} (hn : g.tasks n = some ⟨key, owner, stage⟩) (he : stage.ending? = some e) :
    e = .delivered (Storage.content m key) := by
  rcases hmove.ending hn he with ⟨old, hold, hending⟩ | ⟨rfl, hrunning⟩
  · exact hs.ended f hf n key owner old e hold hending
  · exact hfinish n e rfl key owner hrunning

/-- A step of the coalescer, where callers arrive with the objects of their loads and
loaders end with the contents of theirs. -/
theorem fly (hs : s.Honest m) {b : Coalescer.Action}
    (harrive : ∀ i key, b = .arrive i key → ∃ load, s.load? i = some load ∧ load.object = key)
    (hfinish : ∀ f, s.flight? = some f → ∀ n e, b = .finish n e → ∀ key owner,
      f.tasks n = some ⟨key, owner, .running⟩ → e = .delivered (Storage.content m key)) :
    (s.fly b).Honest m := by
  have haside := aside_fly s b
  have hflight := flight?_fly s b
  have hmedium : (s.fly b).plane.storage.medium = m := by
    rw [haside.storage]
    exact hs.medium
  cases hf : s.flight? with
  | none =>
    have hsame : s.fly b = s := by simp only [Service.fly, hf]
    rw [hsame]
    exact hs
  | some f =>
    have hnext : (s.fly b).flight? = some (f.step b) := by rw [hflight, hf]; rfl
    have hstep := f.step_eq_or_moves b
    refine ⟨hmedium, ?_, ?_, ?_, ?_, ?_, ?_⟩
    · rw [haside.cache?]
      exact hs.stored
    · intro g hg
      obtain rfl := Option.some.inj (hnext.symm.trans hg)
      exact (hs.sound f hf).step b
    · intro g hg j key stage hj
      obtain rfl := Option.some.inj (hnext.symm.trans hg)
      rw [load?_fly]
      rcases hstep with heq | hmove
      · exact hs.linked f hf j key stage (heq ▸ hj)
      · exact hs.fly_linked harrive hf hmove hj
    · intro g hg k key owner stage e hk he
      obtain rfl := Option.some.inj (hnext.symm.trans hg)
      rcases hstep with heq | hmove
      · exact hs.ended f hf k key owner stage e (heq ▸ hk) he
      · exact hs.fly_ended hf (hfinish f hf) hmove hk he
    · intro k v hk
      rw [progress_fly] at hk
      obtain ⟨key, hobject, hcontent⟩ := hs.fetched k v hk
      exact ⟨key, object?_fly hs.sound b hobject, hcontent⟩
    · intro j r e hr
      rw [requests_fly] at hr
      exact hs.answered j r e hr

theorem fly_inner (hs : s.Honest m) {b : Coalescer.Action} (hinner : isInner b = true) :
    (s.fly b).Honest m := by
  apply hs.fly
  · rintro i key rfl
    simp [isInner] at hinner
  · rintro f - n e rfl
    simp [isInner] at hinner

/-- The object of the load that a loader runs is what its task is about. -/
theorem key_of_running (hs : s.Honest m) {f : Flight} (hf : s.flight? = some f)
    (hrunning : s.running? n = some (i, load)) {key : String} {owner : Nat}
    {stage : Coalescer.TaskStage} (htask : f.tasks n = some ⟨key, owner, stage⟩) :
    key = load.object := by
  obtain ⟨⟨k, hk⟩, hload⟩ := running?_flight hf hrunning
  obtain ⟨rfl, rfl, -⟩ : key = k ∧ owner = i ∧ _ := by simpa [htask] using hk
  obtain ⟨old, hcaller⟩ := (hs.sound f hf).shared.owner n key owner stage htask
  obtain ⟨load', hload', hkey⟩ := hs.linked f hf owner key old hcaller
  obtain rfl : load = load' := by simpa [hload] using hload'
  exact hkey.symm

theorem object?_of_running (hs : s.Honest m) (hrunning : s.running? n = some (i, load)) :
    s.object? n = some load.object := by
  unfold object?
  cases hf : s.flight? with
  | some f =>
    obtain ⟨⟨key, htask⟩, -⟩ := running?_flight hf hrunning
    simp [htask, hs.key_of_running hf hrunning htask]
  | none =>
    obtain ⟨rfl, r, hr, -, hload⟩ := running?_alone hf hrunning
    simp [load?, ticket?, hr, hload]

/-- A loader ends with the content of its object. -/
theorem conclude (hs : s.Honest m) (hrunning : s.running? n = some (i, load)) {e : Ending}
    (he : e = .delivered (Storage.content m load.object)) : (s.conclude n e).Honest m := by
  unfold Service.conclude
  cases hf : s.flight? with
  | some f =>
    apply hs.fly
    · intro j key harrive
      simp at harrive
    · intro g hg k d hfinish key owner htask
      obtain ⟨rfl, rfl⟩ : n = k ∧ e = d := by simpa using hfinish
      rw [he, hs.key_of_running hg hrunning htask]
  | none =>
    obtain ⟨rfl, r, hr, hstage, hload⟩ := running?_alone hf hrunning
    simp only [hr]
    apply hs.setRequest
    · intro old hold
      obtain rfl : r = old := by simpa [hr] using hold
      exact Or.inr rfl
    · intro d hd
      obtain rfl : e = d := by simpa using hd
      simpa [Ticket.due, hload] using he

/-- Clears, eras and writers do not matter. -/
theorem ghosts (hs : s.Honest m) (clears : Roster Clear) (era bumps : Nat)
    (writer : String → Option Nat) :
    ({ s with clears := clears, era := era, bumps := bumps, writer := writer } : Service).Honest
      m :=
  ⟨hs.medium, hs.stored, hs.sound, hs.linked, hs.ended, hs.fetched, hs.answered⟩

theorem keep (hs : s.Honest m) {p : Plane} {content : Octets} {now later : Instant}
    {stored : Bool} (hcontent : Storage.content m load.object = .ok content)
    (hstore : s.plane.store? load content now later = some (stored, p)) :
    (s.withPlane p).Honest m := by
  have hsteady := Plane.steady_store hstore
  refine hs.withPlane (hsteady.medium.trans hs.medium) hsteady.coalescer? ?_
  intro d hd i key v hstores
  rcases Plane.store?_eq_some hstore with ⟨-, rfl⟩ | ⟨c, epoch, expiresAt, hc, -, -, rfl⟩
  · exact hs.stored d hd i key v hstores
  · rw [Plane.cache?_setCache hc] at hd
    obtain rfl := Option.some.inj hd
    rcases Cache.stores_setIf hstores with hold | ⟨-, -, rfl, rfl⟩
    · exact hs.stored c hc i key v hold
    · exact hcontent

theorem moves (hs : s.Honest m) (hu : s.Unrouted) {a : Action} (h : s.Moves a t)
    (hfixed : ∀ medium, a ≠ .replace medium) {ttl : Duration} (httl : s.plane.ttl? = some ttl)
    (hclock : ∀ n now later, a = .keep n now later → (now.add? ttl).isSome) : t.Honest m := by
  cases h with
  | call i path hfree =>
    exact hs.setRequest (by simp [hfree]) (by simp)
  | stamp i r hrequest hstage =>
    exact hs.setRequest (by simp [hrequest]) (by simp)
  | refuse i r e hrequest hstage hroute =>
    apply hs.setRequest (by simp [hrequest])
    intro d hd
    have hnone := hu i r hrequest (Or.inr hstage)
    obtain rfl : .delivered (.error e) = d := by simpa using hd
    simp [Ticket.due, hnone, Plane.route_eq_error hroute]
  | depart i r load hrequest hstage hroute =>
    have hnone := hu i r hrequest (Or.inr hstage)
    apply fly
    · exact hs.setRequest (by simp [hrequest, hnone]) (by simp)
    · intro j key harrive
      obtain ⟨rfl, rfl⟩ : i = j ∧ load.object = key := by simpa using harrive
      exact ⟨load, by simp [load?, ticket?_setRequest], rfl⟩
    · intro f hf n e hfinish
      simp at hfinish
  | leave i r hrequest hanswer =>
    apply fly
    · exact hs.setRequest (by simp [hrequest]) (by simp)
    · intro j key harrive
      simp at harrive
    · intro f hf n e hfinish
      simp at hfinish
  | fly a b hinner => exact hs.fly_inner hinner
  | hit n now i load content hrunning hlook =>
    obtain ⟨c, hc, hstores⟩ := Plane.stores_of_lookUp hlook
    have hkeeps := Plane.keeps_lookUp s.plane load now
    apply (hs.keeps hkeeps).conclude ((running?_withPlane hkeeps.coalescer? n).trans hrunning)
    rw [hs.stored c hc _ _ _ hstores]
  | expire n now load generation | miss n now load =>
    exact (hs.keeps (Plane.keeps_lookUp s.plane load now)).setProgress (by simp)
  | dispose n busy load generation =>
    exact (hs.keeps (Plane.keeps_dispose s.plane load generation busy)).setProgress (by simp)
  | ask n => exact (hs.keeps (Plane.keeps_askObject s.plane)).setProgress (by simp)
  | fail n i load e hrunning hread =>
    have hkeeps := Plane.keeps_receiveObject s.plane load
    apply (hs.keeps hkeeps).conclude ((running?_withPlane hkeeps.coalescer? n).trans hrunning)
    rw [← hread, Plane.receiveObject_fst, hs.medium]
  | fetch n i load content hrunning hread =>
    have hkeeps := Plane.keeps_receiveObject s.plane load
    apply (hs.keeps hkeeps).setProgress
    intro v hv
    obtain rfl : content = v := by simpa using hv
    refine ⟨load.object, ?_, ?_⟩
    · exact (hs.keeps hkeeps).object?_of_running
        ((running?_withPlane hkeeps.coalescer? n).trans hrunning)
    · rw [← hread, Plane.receiveObject_fst, hs.medium]
  | keep n now later i load content stored p hrunning hprogress hstore =>
    obtain ⟨key, hobject, hcontent⟩ := hs.fetched n content hprogress
    obtain rfl : load.object = key := by
      simpa [hs.object?_of_running hrunning] using hobject
    have hp := (Plane.steady_store hstore).coalescer?
    have hrunning' : ((s.withPlane p).sign stored load.object i).running? n = some (i, load) :=
      (running?_withPlane hp n).trans hrunning
    have hkept : ((s.withPlane p).sign stored load.object i).Honest m :=
      (hs.keep hcontent hstore).ghosts _ _ _ _
    exact hkept.conclude hrunning' (by rw [hcontent])
  | breakDown n now later i load content hrunning hstore =>
    obtain ⟨stored, p, hsome⟩ := Plane.exists_store load httl (hclock n now later rfl) content later
    simp [hstore] at hsome
  | clear r hfree => exact hs.ghosts _ _ _ _
  | reload r index p hfree hinstall =>
    obtain ⟨old, new, -, -, rfl⟩ := Plane.install_eq_ok hinstall
    have hrouter : (s.withPlane (s.plane.setRouter new)).Honest m := by
      refine hs.withPlane ?_ (Plane.coalescer?_setRouter s.plane new) ?_
      · exact (congrArg Storage.medium (Plane.storage_mapRouting _ s.plane)).trans hs.medium
      · rw [Plane.cache?_setRouter]
        exact hs.stored
    exact hrouter.ghosts _ _ _ _
  | bump r era =>
    have hold : ∀ (c : Cache Octets) i key v, c.bumpEpoch.Stores i key v → c.Stores i key v :=
      fun _ _ _ _ h => h
    exact (hs.mapCache hold).ghosts _ _ _ _
  | empty r era k =>
    have hold : ∀ (c : Cache Octets) i key v, (c.clearShard k).Stores i key v →
        c.Stores i key v := fun _ _ _ _ h => (Cache.stores_clearShard h).2
    exact (hs.mapCache hold).ghosts _ _ _ _
  | settle r era =>
    have hold : ∀ (c : Cache Octets) i key v, c.recordClear.Stores i key v → c.Stores i key v :=
      fun _ _ _ _ h => h
    exact (hs.mapCache hold).ghosts _ _ _ _
  | reap => exact hs.mapCache fun c => (Cache.keeps_reapNext c).stores
  | sweep shard now => exact hs.mapCache fun c => (Cache.keeps_sweepShard now c shard).stores
  | replace medium => exact absurd rfl (hfixed medium)

/-- What a request is given is what its ticket is due, and it was routed. -/
theorem answer? (hs : s.Honest m) {e : Ending} (he : s.answer? i = some e) :
    ∃ r, s.requests i = some r ∧ r.stage.isRouted = true ∧ e = .delivered (r.due m) := by
  unfold Service.answer? at he
  rcases hr : s.requests i with _ | ⟨ticket, stage⟩
  · simp [hr] at he
  · simp only [hr] at he
    cases stage with
    | called | stamped | left => simp at he
    | answered d =>
      obtain rfl : d = e := by simpa using he
      exact ⟨_, rfl, rfl, hs.answered i _ d hr rfl⟩
    | loading =>
      refine ⟨_, rfl, rfl, ?_⟩
      dsimp only at he
      split at he
      · next key k result hcaller =>
        obtain ⟨f, hf, hi⟩ := Option.bind_eq_some_iff.mp hcaller
        obtain rfl : .delivered result = e := by simpa using he
        obtain ⟨owner, d, htask, hresult⟩ := (hs.sound f hf).shared.returned i key k result hi
        obtain ⟨load, hload, rfl⟩ := hs.linked f hf i key _ hi
        replace hload : ticket.load = some load := by simpa [load?, ticket?, hr] using hload
        have hd := hs.ended f hf k load.object owner _ d htask rfl
        simp [Ticket.due, hload, hresult, hd, Ending.result]
      · simp at he

end Honest

/-- The answer for a path under a tree, straight from storage. -/
def plainAnswer (root : RouteTree) (storage : Storage) (path : String) : Loaded :=
  match root.resolve path with
  | none => .error (.notFound path)
  | some artifact => (storage.read artifact.location).1

/-- What a routed request is due is the plain answer under the tree that routed it. -/
theorem due_eq_plainAnswer {p : Plane} {router : Router} (hrouter : p.router? = some router)
    {storage : Storage} {ticket : Ticket} {epoch : Option UInt64}
    (hload : ticket.load = (p.route ticket.path epoch).toOption) :
    ticket.due storage.medium = plainAnswer router.root storage ticket.path := by
  unfold Plane.route at hload
  rw [Plane.locate_eq hrouter] at hload
  unfold Router.route? Router.artifact? at hload
  unfold plainAnswer
  cases hresolve : router.root.resolve ticket.path with
  | none =>
    simp only [hresolve, Option.map_none] at hload
    simp [Ticket.due, hload, Except.map, Except.toOption]
  | some artifact =>
    simp only [hresolve, Option.map_some] at hload
    simp [Ticket.due, hload, Except.map, Except.toOption, Plane.read_fst]

/-- What holds at every point of a history over storage that stays the same and a clock
that can represent every expiry. -/
structure Plain (m : Medium) (ttl : Duration) (s : Service) : Prop where
  honest : s.Honest m
  unrouted : s.Unrouted
  ttl? : s.plane.ttl? = some ttl
  router? : ∃ router, s.plane.router? = some router

theorem plain_run (storage : Storage) (root : RouteTree) (cache : Option Cache.Config)
    (shards : Option Nat) (ttl : Duration) (actions : List Action)
    (hfixed : ∀ medium, .replace medium ∉ actions)
    (hclock : ∀ n now later, .keep n now later ∈ actions → (now.add? ttl).isSome) :
    ((start storage root cache shards ttl).run actions).Plain storage.medium ttl := by
  have hstart : (start storage root cache shards ttl).Plain storage.medium ttl :=
    ⟨Honest.start storage root cache shards ttl, Unrouted.start storage root cache shards ttl,
      rfl, _, rfl⟩
  refine run_induction actions ?_ hstart
  intro s a t ha hs h
  obtain ⟨httl, hrouter⟩ := h.settings
  refine ⟨?_, hs.unrouted.moves h, httl.trans hs.ttl?, ?_⟩
  · apply hs.honest.moves hs.unrouted h _ hs.ttl?
    · rintro n now later rfl
      exact hclock n now later ha
    · rintro medium rfl
      exact hfixed medium ha
  · rcases hrouter with heq | ⟨old, new, -, hnew⟩
    · rw [heq]
      exact hs.router?
    · exact ⟨new, hnew⟩

/-- Whatever the cache, the coalescer and the order of steps, a request that returns is
given the plain answer for its path under the tree in force when it was routed. -/
theorem answer?_eq_plainAnswer (storage : Storage) (root : RouteTree)
    (cache : Option Cache.Config) (shards : Option Nat) (ttl : Duration)
    (actions : List Action) (hfixed : ∀ medium, .replace medium ∉ actions)
    (hclock : ∀ n now later, .keep n now later ∈ actions → (now.add? ttl).isSome)
    (i : Nat) (e : Ending)
    (hanswer : ((start storage root cache shards ttl).run actions).answer? i = some e) :
    ∃ before after r router, actions = before ++ .route i :: after ∧
      .call i r.path ∈ before ∧
      ((start storage root cache shards ttl).run before).requests i = some r ∧
      ((start storage root cache shards ttl).run before).plane.router? = some router ∧
      e = .delivered (plainAnswer router.root storage r.path) := by
  have hend := plain_run storage root cache shards ttl actions hfixed hclock
  obtain ⟨last, hlast, hrouted, rfl⟩ := hend.honest.answer? hanswer
  let routed (s : Service) : Prop :=
    ∃ r, s.requests i = some r ∧ r.stage.isRouted = true ∧ r.toTicket = last.toTicket
  obtain ⟨before, a, after, rfl, hnot, next, hnext, hstage, hticket⟩ :=
    exists_turning_action step routed actions (start storage root cache shards ttl)
      (by simp [routed, start, Roster.empty]) ⟨last, hlast, hrouted, rfl⟩
  have hbefore : ((start storage root cache shards ttl).run before).Plain storage.medium ttl := by
    apply plain_run
    · intro medium hmem
      exact hfixed medium (List.mem_append_left _ hmem)
    · intro n now later hmem
      exact hclock n now later (List.mem_append_left _ hmem)
  change ¬ routed ((start storage root cache shards ttl).run before) at hnot
  change (((start storage root cache shards ttl).run before).step a).requests i = some next at hnext
  obtain ⟨router, hrouter⟩ := hbefore.router?
  rcases ((start storage root cache shards ttl).run before).step_eq_or_moves a with heq | hmove
  · exact absurd ⟨next, heq ▸ hnext, hstage, hticket⟩ hnot
  · rcases hmove.request hbefore.unrouted hnext with ⟨-, hcalled⟩ | ⟨r, hr, hpath, hturn⟩
    · simp [hcalled, RequestStage.isRouted] at hstage
    · rcases hturn hstage with ⟨hold, hsame⟩ | ⟨rfl, -, hload⟩
      · exact absurd ⟨r, hr, hold, hsame.trans hticket⟩ hnot
      · refine ⟨before, after, r, router, rfl, call_mem _ _ _ _ _ _ hr, hr, hrouter, ?_⟩
        have hlast : last.load =
            (((start storage root cache shards ttl).run before).plane.route last.path
              r.epoch).toOption := by
          rw [← hticket, ← hpath]
          exact hload
        rw [due_eq_plainAnswer hrouter hlast, hpath, hticket]

/-- Two requests for one path, of which the second joins the load of the first. -/
def joinedHistory : List Action :=
  [.call 0 "/x", .stamp 0, .route 0, .look 0, .enter 0, .lookUp 0 ⟨0⟩, .ask 0, .read 0,
    .call 1 "/x", .stamp 1, .route 1, .look 1, .keep 0 ⟨0⟩ ⟨0⟩, .unregister 0, .record 0, .wake 1]

/-- A plane with one artifact, with room for one object in its cache. -/
def joinedStart : Service :=
  start (Storage.inMemory.insert "a" [1]) (RouteTree.empty.insertPath "/x" (.new "a" ⟨0⟩))
    (some { capacity := 1 }) (some 2) (.ofSecs 60)

theorem plainAnswer_of_joined :
    ∃ before after r router, joinedHistory = before ++ .route 1 :: after ∧
      .call 1 r.path ∈ before ∧
      (joinedStart.run before).requests 1 = some r ∧
      (joinedStart.run before).plane.router? = some router ∧
      .delivered (.ok [1]) = Ending.delivered
        (plainAnswer router.root (Storage.inMemory.insert "a" [1]) r.path) := by
  apply answer?_eq_plainAnswer _ _ _ _ (.ofSecs 60) joinedHistory
  · simp [joinedHistory]
  · intro n now later hmem
    obtain ⟨rfl, rfl, rfl⟩ : n = 0 ∧ now = ⟨0⟩ ∧ later = ⟨0⟩ := by
      simpa [joinedHistory] using hmem
    decide
  · rfl

end Service

end ArtifactPlane
