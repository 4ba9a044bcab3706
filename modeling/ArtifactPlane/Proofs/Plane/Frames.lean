import ArtifactPlane.Proofs.Plane.Service

/-!
What parts of a step leave alone.  A step of the coalescer and the end of a loader touch
only the flight and how far requests have come (`Aside`); a request keeps its load, and a
loader its object.  `Moves.request` says where a request comes from.  A clear or a reload
whose steps nobody interrupts is that of the plane.
-/

namespace ArtifactPlane.Service

open Coalescer (Ending Flight)

variable {s t : Service} {i n : Nat} {load : PendingLoad}

theorem flight?_eq_some {f : Flight} (hf : s.flight? = some f) :
    s.plane.coalescer? = some f.coalescer ∧ s.ledger = f.toLedger := by
  obtain ⟨c, hc, rfl⟩ := Option.map_eq_some_iff.mp hf
  exact ⟨hc, rfl⟩

theorem flight?_fly (s : Service) (a : Coalescer.Action) :
    (s.fly a).flight? = s.flight?.map fun f => f.step a := by
  unfold fly
  cases hf : s.flight? with
  | none => exact hf
  | some f =>
    obtain ⟨hc, -⟩ := flight?_eq_some hf
    simp [flight?, Plane.coalescer?_setCoalescer hc]

theorem flight?_withPlane {p : Plane} (hp : p.coalescer? = s.plane.coalescer?) :
    (s.withPlane p).flight? = s.flight? := by
  simp only [flight?, withPlane, hp]

@[simp] theorem requests_fly (s : Service) (a : Coalescer.Action) :
    (s.fly a).requests = s.requests := by
  unfold fly
  split <;> rfl

@[simp] theorem progress_fly (s : Service) (a : Coalescer.Action) :
    (s.fly a).progress = s.progress := by
  unfold fly
  split <;> rfl

@[simp] theorem ticket?_fly (s : Service) (a : Coalescer.Action) (i : Nat) :
    (s.fly a).ticket? i = s.ticket? i := by
  simp only [ticket?, requests_fly]

theorem ticket?_setRequest (s : Service) (i : Nat) (r : Request) (j : Nat) :
    (s.setRequest i r).ticket? j = if j = i then some r.toTicket else s.ticket? j := by
  simp only [ticket?, setRequest, Roster.put]
  split <;> rfl

/-- Services that differ in their flights and in how far their requests have come. -/
structure Aside (s t : Service) : Prop where
  storage : t.plane.storage = s.plane.storage
  router? : t.plane.router? = s.plane.router?
  cache? : t.plane.cache? = s.plane.cache?
  ttl? : t.plane.ttl? = s.plane.ttl?
  ticket? : ∀ i, t.ticket? i = s.ticket? i
  clears : t.clears = s.clears
  era : t.era = s.era
  bumps : t.bumps = s.bumps
  writer : t.writer = s.writer

theorem aside_fly (s : Service) (a : Coalescer.Action) : s.Aside (s.fly a) := by
  refine ⟨?_, ?_, ?_, ?_, ticket?_fly s a, ?_, ?_, ?_, ?_⟩
  all_goals
    unfold fly
    split <;> simp

/-- A request goes on with the same ticket. -/
theorem aside_setRequest {r : Request} (hi : s.ticket? i = some r.toTicket) :
    s.Aside (s.setRequest i r) := by
  refine ⟨rfl, rfl, rfl, rfl, fun j => ?_, rfl, rfl, rfl, rfl⟩
  rw [ticket?_setRequest]
  split
  · next hj => rw [hj, hi]
  · rfl

theorem aside_conclude (s : Service) (n : Nat) (e : Ending) : s.Aside (s.conclude n e) := by
  unfold conclude
  split
  · exact aside_fly s _
  · next r _ hr => exact aside_setRequest (by simp [Service.ticket?, hr])
  · exact ⟨rfl, rfl, rfl, rfl, fun _ => rfl, rfl, rfl, rfl, rfl⟩

/-- A request that was not routed has no load. -/
def Unrouted (s : Service) : Prop :=
  ∀ i r, s.requests i = some r → r.stage = .called ∨ r.stage = .stamped → r.load = none

namespace Unrouted

theorem start (storage : Storage) (root : RouteTree) (cache : Option Cache.Config)
    (shards : Option Nat) (ttl : Duration) : (start storage root cache shards ttl).Unrouted := by
  intro i r hr
  simp [Service.start, Roster.empty] at hr

theorem setRequest (hs : s.Unrouted) {r : Request}
    (hr : r.stage = .called ∨ r.stage = .stamped → r.load = none) :
    (s.setRequest i r).Unrouted := by
  intro j old hold hstage
  rcases Roster.put_eq_some_iff.mp hold with ⟨-, rfl⟩ | ⟨-, hold⟩
  · exact hr hstage
  · exact hs j old hold hstage

theorem fly (hs : s.Unrouted) (a : Coalescer.Action) : (s.fly a).Unrouted := by
  intro i r hr
  rw [requests_fly] at hr
  exact hs i r hr

theorem conclude (hs : s.Unrouted) (n : Nat) (e : Ending) : (s.conclude n e).Unrouted := by
  unfold Service.conclude
  split
  · exact hs.fly _
  · exact hs.setRequest (by simp)
  · exact hs

theorem moves {a : Action} (hs : s.Unrouted) (h : s.Moves a t) : t.Unrouted := by
  cases h with
  | call i path => exact hs.setRequest fun _ => rfl
  | stamp i r hrequest hstage => exact hs.setRequest fun _ => hs i r hrequest (Or.inl hstage)
  | refuse i r e hrequest hstage => exact hs.setRequest (by simp)
  | depart i r load hrequest hstage => exact (hs.setRequest (by simp)).fly _
  | leave i r hrequest => exact (hs.setRequest (by simp)).fly _
  | fly a b => exact hs.fly b
  | hit n now i load content hrunning hlook =>
    exact conclude (s := s.withPlane (s.plane.lookUp load now).2) hs n _
  | fail n i load e hrunning hread =>
    exact conclude (s := s.withPlane (s.plane.receiveObject load).2) hs n _
  | keep n now later i load content stored p =>
    exact conclude (s := (s.withPlane p).sign stored load.object i) hs n _
  | breakDown n => exact hs.conclude n _
  | expire | miss | dispose | ask | fetch | clear | reload | bump | empty | settle | reap
  | sweep | replace => exact hs

end Unrouted

theorem shardCount_clearShard (s : Service) (k : Nat) :
    (s.withPlane (s.plane.mapCache fun c => c.clearShard k)).shardCount = s.shardCount := by
  simp only [shardCount, withPlane, Plane.cache?_mapCache]
  cases s.plane.cache? with
  | none => rfl
  | some c => exact Cache.shardCount_setShard c k _

theorem plane_run_empty (r : Nat) (d k : Nat) (s : Service) {era : Option Nat}
    (hclear : s.clears r = some ⟨era, .emptying k⟩) (hcount : s.shardCount = k + d) :
    (s.run (List.replicate (d + 1) (.empty r))).plane = s.plane.mapCache fun c =>
      ((List.range' k d).foldl Cache.clearShard c).recordClear := by
  induction d generalizing k s with
  | zero =>
    have hk : ¬ k < s.shardCount := by omega
    simp [run, step, hclear, hk, setClear, withPlane]
  | succ d ih =>
    have hk : k < s.shardCount := by omega
    let t := (s.withPlane (s.plane.mapCache fun c => c.clearShard k)).setClear r
      ⟨era, .emptying (k + 1)⟩
    have hstep : s.step (.empty r) = t := by simp [step, hclear, hk, t]
    have hnext : t.clears r = some ⟨era, .emptying (k + 1)⟩ := Roster.put_self _ _ _
    have hsame : t.shardCount = k + 1 + d := by
      have hshards := shardCount_clearShard s k
      change t.shardCount = s.shardCount at hshards
      omega
    calc (s.run (List.replicate (d + 2) (.empty r))).plane
        = (t.run (List.replicate (d + 1) (.empty r))).plane := by rw [← hstep]; rfl
      _ = t.plane.mapCache fun c =>
          ((List.range' (k + 1) d).foldl Cache.clearShard c).recordClear := ih (k + 1) t hnext hsame
      _ = _ := Plane.mapCache_mapCache _ _ s.plane

/-- The steps of a clear that has begun. -/
def clearing (s : Service) (r : Nat) : List Action :=
  .bump r :: List.replicate (s.shardCount + 1) (.empty r)

theorem plane_run_clearing (s : Service) {r : Nat} {era : Option Nat}
    (hclear : s.clears r = some ⟨era, .begun⟩) :
    (s.run (s.clearing r)).plane = s.plane.clearCache := by
  let t := { s.withPlane (s.plane.mapCache Cache.bumpEpoch) with bumps := s.bumps + 1 }.setClear r
    ⟨era, .emptying 0⟩
  have hstep : s.step (.bump r) = t := by simp [step, hclear, t]
  have hcount : t.shardCount = 0 + s.shardCount := by
    simp only [Nat.zero_add, t, shardCount, setClear, withPlane, Plane.cache?_mapCache]
    cases s.plane.cache? <;> rfl
  calc (s.run (s.clearing r)).plane
      = (t.run (List.replicate (s.shardCount + 1) (.empty r))).plane := by rw [← hstep]; rfl
    _ = t.plane.mapCache fun c =>
        ((List.range' 0 s.shardCount).foldl Cache.clearShard c).recordClear :=
      plane_run_empty r s.shardCount 0 t (Roster.put_self _ _ _) hcount
    _ = s.plane.mapCache fun c =>
        ((List.range' 0 s.shardCount).foldl Cache.clearShard c.bumpEpoch).recordClear :=
      Plane.mapCache_mapCache _ _ s.plane
    _ = s.plane.clearCache := by
      apply Plane.mapCache_congr
      intro c hc
      simp [Cache.clear, List.range_eq_range', shardCount, hc]

/-- A clear does what the plane does in one go, if nothing comes between its steps. -/
theorem plane_run_clear (s : Service) {r : Nat} (hfree : s.clears r = none) :
    (s.run (.clear r :: s.clearing r)).plane = s.plane.clearCache := by
  have hstep : s.step (.clear r) = s.setClear r ⟨none, .begun⟩ := by simp [step, hfree]
  calc (s.run (.clear r :: s.clearing r)).plane
      = ((s.setClear r ⟨none, .begun⟩).run (s.clearing r)).plane := by rw [← hstep]; rfl
    _ = s.plane.clearCache :=
      plane_run_clearing (s.setClear r ⟨none, .begun⟩) (Roster.put_self _ _ _)

/-- A load that a request has it keeps. -/
theorem load?_setRequest {r : Request}
    (hkept : ∀ old, s.requests i = some old → old.load = none ∨ r.load = old.load) {j : Nat}
    (hj : s.load? j = some load) : (s.setRequest i r).load? j = some load := by
  unfold load? at hj ⊢
  rw [ticket?_setRequest]
  split
  · next hji =>
    subst hji
    obtain ⟨ticket, hticket, hload⟩ := Option.bind_eq_some_iff.mp hj
    obtain ⟨old, hold, rfl⟩ := Option.map_eq_some_iff.mp hticket
    rcases hkept old hold with hnone | hsame
    · simp [hload] at hnone
    · exact hsame.trans hload
  · exact hj

@[simp] theorem load?_fly (s : Service) (a : Coalescer.Action) (i : Nat) :
    (s.fly a).load? i = s.load? i := by
  simp only [load?, ticket?_fly]

/-- The object that a loader is about. -/
def object? (s : Service) (n : Nat) : Option String :=
  match s.flight? with
  | some f => (f.tasks n).map (·.key)
  | none => (s.load? n).map (·.object)

theorem object?_setRequest {r : Request}
    (hkept : ∀ old, s.requests i = some old → old.load = none ∨ r.load = old.load) {key : String}
    (hn : s.object? n = some key) : (s.setRequest i r).object? n = some key := by
  have hflight : (s.setRequest i r).flight? = s.flight? := rfl
  unfold object? at hn ⊢
  rw [hflight]
  cases hf : s.flight? with
  | some f => simpa only [hf] using hn
  | none =>
    simp only [hf] at hn ⊢
    obtain ⟨load, hload, rfl⟩ := Option.map_eq_some_iff.mp hn
    rw [load?_setRequest hkept hload]
    rfl

/-- A task keeps its key. -/
theorem object?_fly (hsound : ∀ f, s.flight? = some f → f.Sound) (b : Coalescer.Action)
    {key : String} (hn : s.object? n = some key) : (s.fly b).object? n = some key := by
  have hflight := flight?_fly s b
  unfold object? at hn ⊢
  rw [hflight]
  cases hf : s.flight? with
  | none => simpa [hf] using hn
  | some f =>
    simp only [hf, Option.map_some] at hn ⊢
    obtain ⟨⟨k, owner, stage⟩, htask, rfl⟩ := Option.map_eq_some_iff.mp hn
    rcases f.step_eq_or_moves b with heq | hmove
    · rw [heq, htask]
      rfl
    · obtain ⟨stage', htask', -⟩ := hmove.task (hsound f hf).tracked htask
      rw [htask']
      rfl

theorem running?_flight {f : Flight} (hf : s.flight? = some f)
    (hrunning : s.running? n = some (i, load)) :
    (∃ key, f.tasks n = some ⟨key, i, .running⟩) ∧ s.load? i = some load := by
  simp only [running?, hf] at hrunning
  rcases htask : f.tasks n with _ | ⟨key, owner, stage⟩
  · simp [htask] at hrunning
  · cases stage with
    | running =>
      simp only [htask] at hrunning
      obtain ⟨l, hl, heq⟩ := Option.map_eq_some_iff.mp hrunning
      obtain ⟨rfl, rfl⟩ : owner = i ∧ l = load := by simpa using heq
      exact ⟨⟨key, rfl⟩, hl⟩
    | ended | unregistered | recorded => simp [htask] at hrunning

theorem running?_alone (hf : s.flight? = none) (hrunning : s.running? n = some (i, load)) :
    i = n ∧ ∃ r, s.requests n = some r ∧ r.stage = .loading ∧ r.load = some load := by
  simp only [running?, hf] at hrunning
  rcases hrequest : s.requests n with _ | ⟨ticket, stage⟩
  · simp [hrequest] at hrunning
  · cases stage with
    | loading =>
      simp only [hrequest] at hrunning
      obtain ⟨l, hl, heq⟩ := Option.map_eq_some_iff.mp hrunning
      obtain ⟨rfl, rfl⟩ : n = i ∧ l = load := by simpa using heq
      exact ⟨rfl, _, rfl, rfl, hl⟩
    | called | stamped | answered | left => simp [hrequest] at hrunning

/-- A loader that runs is about the load of the request that began it. -/
theorem load?_of_running (hrunning : s.running? n = some (i, load)) : s.load? i = some load := by
  cases hf : s.flight? with
  | some f => exact (running?_flight hf hrunning).2
  | none =>
    obtain ⟨rfl, r, hr, -, hload⟩ := running?_alone hf hrunning
    simpa [load?, ticket?, hr] using hload

theorem running?_withPlane {p : Plane} (hp : p.coalescer? = s.plane.coalescer?) (n : Nat) :
    (s.withPlane p).running? n = s.running? n := by
  simp only [running?, flight?_withPlane hp]
  rfl

/-- How long artifacts may be served never changes, and only a reload puts another router
in the place of one. -/
theorem Moves.settings {a : Action} (h : s.Moves a t) :
    t.plane.ttl? = s.plane.ttl? ∧
      (t.plane.router? = s.plane.router? ∨ ∃ old new,
        s.plane.router? = some old ∧ t.plane.router? = some new) := by
  have hconclude : ∀ {u : Service} (n : Nat) (e : Ending), s.plane.Steady u.plane →
      (u.conclude n e).plane.ttl? = s.plane.ttl? ∧
        (u.conclude n e).plane.router? = s.plane.router? := by
    intro u n e hu
    exact ⟨(aside_conclude u n e).ttl?.trans hu.ttl?,
      (aside_conclude u n e).router?.trans hu.router?⟩
  cases h with
  | call | stamp | refuse | clear | replace => exact ⟨rfl, Or.inl rfl⟩
  | depart | leave | fly => exact ⟨(aside_fly _ _).ttl?, Or.inl (aside_fly _ _).router?⟩
  | hit n now i load content =>
    exact (hconclude (u := s.withPlane _) n _
      (Plane.keeps_lookUp s.plane load now).toSteady).imp_right Or.inl
  | fail n i load e =>
    exact (hconclude (u := s.withPlane _) n _
      (Plane.keeps_receiveObject s.plane load).toSteady).imp_right Or.inl
  | keep n now later i load content stored p hrunning hprogress hstore =>
    exact (hconclude (u := (s.withPlane p).sign stored load.object i) n _
      (Plane.steady_store hstore)).imp_right Or.inl
  | breakDown n => exact (hconclude n _ (Plane.Steady.refl s.plane)).imp_right Or.inl
  | expire n now load | miss n now load =>
    have hp := Plane.keeps_lookUp s.plane load now
    exact ⟨hp.ttl?, Or.inl hp.router?⟩
  | dispose n busy load generation =>
    have hp := Plane.keeps_dispose s.plane load generation busy
    exact ⟨hp.ttl?, Or.inl hp.router?⟩
  | ask n =>
    have hp := Plane.keeps_askObject s.plane
    exact ⟨hp.ttl?, Or.inl hp.router?⟩
  | fetch n i load =>
    have hp := Plane.keeps_receiveObject s.plane load
    exact ⟨hp.ttl?, Or.inl hp.router?⟩
  | reload r index p hfree hinstall =>
    obtain ⟨old, new, hold, -, rfl⟩ := Plane.install_eq_ok hinstall
    exact ⟨Plane.ttl?_setRouter s.plane new,
      Or.inr ⟨old, new, hold, Plane.router?_setRouter hold new⟩⟩
  | bump | empty | settle | reap | sweep =>
    exact ⟨(Plane.steady_mapCache _ s.plane).ttl?,
      Or.inl (Plane.steady_mapCache _ s.plane).router?⟩

/-- The end of a loader answers no request but one that was routed. -/
theorem requests_conclude {e : Ending} (hrunning : s.running? n = some (i, load)) {j : Nat}
    {r' : Request} (hj : (s.conclude n e).requests j = some r') :
    ∃ r, s.requests j = some r ∧ r.toTicket = r'.toTicket ∧
      (r'.stage.isRouted = true → r.stage.isRouted = true) := by
  unfold conclude at hj
  cases hf : s.flight? with
  | some f =>
    simp only [hf, requests_fly] at hj
    exact ⟨r', hj, rfl, fun h => h⟩
  | none =>
    obtain ⟨rfl, r, hr, hstage, -⟩ := running?_alone hf hrunning
    simp only [hf, hr] at hj
    rcases Roster.put_eq_some_iff.mp hj with ⟨rfl, rfl⟩ | ⟨-, hold⟩
    · exact ⟨r, hr, rfl, fun _ => by rw [hstage]; rfl⟩
    · exact ⟨r', hold, rfl, fun h => h⟩

/-- A request comes from a call, keeps its path, and has a load only where it was routed. -/
theorem Moves.request {a : Action} (h : s.Moves a t) (hu : s.Unrouted) {r' : Request}
    (hi : t.requests i = some r') :
    a = .call i r'.path ∧ r'.stage = .called ∨
    ∃ r, s.requests i = some r ∧ r.path = r'.path ∧ (r'.stage.isRouted = true →
      r.stage.isRouted = true ∧ r.toTicket = r'.toTicket ∨
      a = .route i ∧ r.stage = .stamped ∧
        r'.load = (s.plane.route r.path r.epoch).toOption) := by
  have hsame : (∃ r, s.requests i = some r ∧ r.toTicket = r'.toTicket ∧
      (r'.stage.isRouted = true → r.stage.isRouted = true)) →
      ∃ r, s.requests i = some r ∧ r.path = r'.path ∧ (r'.stage.isRouted = true →
        r.stage.isRouted = true ∧ r.toTicket = r'.toTicket ∨
        a = .route i ∧ r.stage = .stamped ∧
          r'.load = (s.plane.route r.path r.epoch).toOption) := by
    rintro ⟨r, hr, hticket, hrouted⟩
    exact ⟨r, hr, congrArg Ticket.path hticket, fun h => Or.inl ⟨hrouted h, hticket⟩⟩
  have hstays : s.requests i = some r' → ∃ r, s.requests i = some r ∧
      r.toTicket = r'.toTicket ∧ (r'.stage.isRouted = true → r.stage.isRouted = true) :=
    fun hold => ⟨r', hold, rfl, fun h => h⟩
  cases h with
  | call j path hfree =>
    rcases Roster.put_eq_some_iff.mp hi with ⟨rfl, rfl⟩ | ⟨-, hold⟩
    · exact Or.inl ⟨rfl, rfl⟩
    · exact Or.inr (hsame (hstays hold))
  | stamp j r hrequest =>
    right
    rcases Roster.put_eq_some_iff.mp hi with ⟨rfl, rfl⟩ | ⟨-, hold⟩
    · exact ⟨r, hrequest, rfl, by simp [RequestStage.isRouted]⟩
    · exact hsame (hstays hold)
  | refuse j r e hrequest hstage hroute =>
    right
    rcases Roster.put_eq_some_iff.mp hi with ⟨rfl, rfl⟩ | ⟨-, hold⟩
    · have hnone := hu i r hrequest (Or.inr hstage)
      exact ⟨r, hrequest, rfl, fun _ => Or.inr ⟨rfl, hstage, by rw [hroute]; exact hnone⟩⟩
    · exact hsame (hstays hold)
  | depart j r load hrequest hstage hroute =>
    right
    rw [requests_fly] at hi
    rcases Roster.put_eq_some_iff.mp hi with ⟨rfl, rfl⟩ | ⟨-, hold⟩
    · exact ⟨r, hrequest, rfl, fun _ => Or.inr ⟨rfl, hstage, by rw [hroute]; rfl⟩⟩
    · exact hsame (hstays hold)
  | leave j r hrequest =>
    right
    rw [requests_fly] at hi
    rcases Roster.put_eq_some_iff.mp hi with ⟨rfl, rfl⟩ | ⟨-, hold⟩
    · exact hsame ⟨r, hrequest, rfl, by simp [RequestStage.isRouted]⟩
    · exact hsame (hstays hold)
  | fly a b =>
    rw [requests_fly] at hi
    exact Or.inr (hsame (hstays hi))
  | hit n now k load content hrunning =>
    have hp := (Plane.keeps_lookUp s.plane load now).coalescer?
    exact Or.inr (hsame (requests_conclude ((running?_withPlane hp n).trans hrunning) hi))
  | fail n k load e hrunning =>
    have hp := (Plane.keeps_receiveObject s.plane load).coalescer?
    exact Or.inr (hsame (requests_conclude ((running?_withPlane hp n).trans hrunning) hi))
  | keep n now later k load content stored p hrunning hprogress hstore =>
    have hp := (Plane.steady_store hstore).coalescer?
    exact Or.inr (hsame (requests_conclude (s := (s.withPlane p).sign stored load.object k)
      ((running?_withPlane hp n).trans hrunning) hi))
  | breakDown n now later k load content hrunning =>
    exact Or.inr (hsame (requests_conclude hrunning hi))
  | expire | miss | dispose | ask | fetch | clear | reload | bump | empty | settle | reap
  | sweep | replace => exact Or.inr (hsame (hstays hi))

section History

variable (storage : Storage) (root : RouteTree) (cache : Option Cache.Config)
  (shards : Option Nat) (ttl : Duration) (actions : List Action)

theorem unrouted_run : ((start storage root cache shards ttl).run actions).Unrouted :=
  run_induction actions (fun _ _ _ _ hs h => hs.moves h)
    (Unrouted.start storage root cache shards ttl)

/-- A request was called with its path. -/
theorem call_mem {r : Request}
    (hr : ((start storage root cache shards ttl).run actions).requests i = some r) :
    .call i r.path ∈ actions := by
  let called (s : Service) : Prop := ∃ r', s.requests i = some r' ∧ r'.path = r.path
  obtain ⟨before, a, after, rfl, hnot, r', hr', hpath⟩ :=
    exists_turning_action step called actions (start storage root cache shards ttl)
      (by simp [called, start, Roster.empty]) ⟨r, hr, rfl⟩
  have hu := unrouted_run storage root cache shards ttl before
  rcases (before.foldl step (start storage root cache shards ttl)).step_eq_or_moves a with
    heq | hmove
  · exact absurd ⟨r', heq ▸ hr', hpath⟩ hnot
  · rcases hmove.request hu hr' with ⟨rfl, -⟩ | ⟨old, hold, hsame, -⟩
    · simp [hpath]
    · exact absurd ⟨old, hold, hsame.trans hpath⟩ hnot

end History

end ArtifactPlane.Service
