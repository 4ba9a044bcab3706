import Mathlib.Algebra.Group.Nat.Defs
import ArtifactPlane.Proofs.Plane.Frames

/-!
No content of an earlier build survives a reload in the cache.  A request reads the clear
epoch before it is routed, a reload puts its tree in force before it advances the epoch,
and the epoch is compared with the shard locked.  So a load that was routed before a
reload stores nothing any more once the reload has advanced the epoch, and what it stored
before is in a shard that the reload has yet to empty.
-/

namespace ArtifactPlane.Service

variable {s t : Service} {i : Nat} {load : PendingLoad}

/-- Whether a clear has yet to empty a shard. -/
def ClearStage.Pending (stage : ClearStage) (j : Nat) : Prop :=
  match stage with
  | .begun => True
  | .emptying k => k ≤ j
  | .done => False

/-- A ticket agrees with the epochs and the trees of a service. -/
structure Dated (s : Service) (ticket : Ticket) : Prop where
  bumps_le : ticket.bumps ≤ s.bumps
  era_le : ticket.era ≤ s.era
  epoch_eq : ∀ e, ticket.epoch = some e → e = UInt64.ofNat ticket.bumps
  load_epoch : ∀ load, ticket.load = some load → load.epoch = ticket.epoch
  /-- A later reload that has advanced the epoch did so after the request read it. -/
  late : ∀ load, ticket.load = some load → ∀ r k stage,
    s.clears r = some ⟨some k, stage⟩ → ticket.era < k → stage ≠ .begun →
    ticket.bumps < s.bumps
  current : ∀ load, ticket.load = some load → ticket.era = s.era →
    ∃ router, s.plane.router? = some router ∧ router.route? ticket.path = some load.object

/-- What a shard stores under a key is due to a request for it, and every later reload has
yet to empty the shard. -/
def Owned (s : Service) (j : Nat) (key : String) : Prop :=
  ∃ i ticket load, s.writer key = some i ∧ s.ticket? i = some ticket ∧
    ticket.load = some load ∧ load.object = key ∧
    ∀ r k stage, s.clears r = some ⟨some k, stage⟩ → ticket.era < k → stage.Pending j

/-- The tree and its number stay, and a reload that has advanced the epoch had done so
before, or does so now. -/
theorem Dated.congr {ticket : Ticket} (hd : s.Dated ticket) (hbumps : s.bumps ≤ t.bumps)
    (hera : t.era = s.era) (hrouter : t.plane.router? = s.plane.router?)
    (hclears : ∀ r k stage, t.clears r = some ⟨some k, stage⟩ → stage ≠ .begun →
      ∃ old, s.clears r = some ⟨some k, old⟩ ∧ (old ≠ .begun ∨ s.bumps < t.bumps)) :
    t.Dated ticket := by
  refine ⟨Nat.le_trans hd.bumps_le hbumps, hera ▸ hd.era_le, hd.epoch_eq, hd.load_epoch, ?_, ?_⟩
  · intro load hload r k stage hr hlt hstage
    obtain ⟨old, hold, hbegun | hadvanced⟩ := hclears r k stage hr hstage
    · exact Nat.lt_of_lt_of_le (hd.late load hload r k old hold hlt hbegun) hbumps
    · exact Nat.lt_of_le_of_lt hd.bumps_le hadvanced
  · rw [hera, hrouter]
    exact hd.current

/-- The writer and its ticket stay, and every reload has yet to empty the shard if it had
before. -/
theorem Owned.congr {j : Nat} {key : String} (ho : s.Owned j key)
    (hwriter : t.writer key = s.writer key)
    (hticket : ∀ i ticket load, s.ticket? i = some ticket → ticket.load = some load →
      t.ticket? i = some ticket)
    (hclears : ∀ r k stage, t.clears r = some ⟨some k, stage⟩ → stage.Pending j ∨
      ∃ old, s.clears r = some ⟨some k, old⟩ ∧ (old.Pending j → stage.Pending j)) :
    t.Owned j key := by
  obtain ⟨i, ticket, load, hsigned, hi, hload, hkey, hpending⟩ := ho
  refine ⟨i, ticket, load, hwriter.trans hsigned, hticket i ticket load hi hload, hload, hkey, ?_⟩
  intro r k stage hr hlt
  rcases hclears r k stage hr with hstage | ⟨old, hold, hstays⟩
  · exact hstage
  · exact hstays (hpending r k old hold hlt)

/-- The cache stores nothing of an earlier tree but what reloads have yet to drop. -/
structure Renewed (s : Service) : Prop where
  epoch : ∀ c, s.plane.cache? = some c → c.epoch = UInt64.ofNat s.bumps
  dated : ∀ i ticket, s.ticket? i = some ticket → s.Dated ticket
  eras : ∀ r k stage, s.clears r = some ⟨some k, stage⟩ → k ≤ s.era
  reached : s.era = 0 ∨ ∃ r stage, s.clears r = some ⟨some s.era, stage⟩
  owned : ∀ c, s.plane.cache? = some c → ∀ j key v, c.Stores j key v → s.Owned j key

namespace Renewed

theorem start (storage : Storage) (root : RouteTree) (cache : Option Cache.Config)
    (shards : Option Nat) (ttl : Duration) : (start storage root cache shards ttl).Renewed := by
  refine ⟨?_, ?_, ?_, Or.inl rfl, ?_⟩
  · intro c hc
    obtain ⟨config, -, rfl⟩ := Option.map_eq_some_iff.mp hc
    rfl
  · intro i ticket hi
    simp [ticket?, Service.start, Roster.empty] at hi
  · intro r k stage hr
    simp [Service.start, Roster.empty] at hr
  · intro c hc j key v hstores
    obtain ⟨config, -, rfl⟩ := Option.map_eq_some_iff.mp hc
    exact absurd hstores (Cache.not_stores_ofConfig config j key v)

/-- Flights and stages of requests do not matter. -/
theorem aside (hs : s.Renewed) (ha : s.Aside t) : t.Renewed := by
  refine ⟨?_, ?_, ?_, ?_, ?_⟩
  · rw [ha.cache?, ha.bumps]
    exact hs.epoch
  · intro i ticket hi
    rw [ha.ticket?] at hi
    apply (hs.dated i ticket hi).congr (Nat.le_of_eq ha.bumps.symm) ha.era ha.router?
    intro r k stage hr hstage
    exact ⟨stage, ha.clears ▸ hr, Or.inl hstage⟩
  · rw [ha.clears, ha.era]
    exact hs.eras
  · rw [ha.clears, ha.era]
    exact hs.reached
  · intro c hc j key v hstores
    rw [ha.cache?] at hc
    apply (hs.owned c hc j key v hstores).congr (congrFun ha.writer key)
    · intro i ticket load hi _
      exact (ha.ticket? i).trans hi
    · intro r k stage hr
      exact Or.inr ⟨stage, ha.clears ▸ hr, id⟩

/-- The cache stores nothing new. -/
theorem withPlane (hs : s.Renewed) {p : Plane} (hrouter : p.router? = s.plane.router?)
    (hcache : ∀ d, p.cache? = some d → ∃ c, s.plane.cache? = some c ∧ c.Keeps d) :
    (s.withPlane p).Renewed := by
  refine ⟨?_, ?_, hs.eras, hs.reached, ?_⟩
  · intro d hd
    obtain ⟨c, hc, hkeeps⟩ := hcache d hd
    exact hkeeps.epoch.trans (hs.epoch c hc)
  · intro i ticket hi
    exact (hs.dated i ticket hi).congr (Nat.le_refl _) rfl hrouter
      fun r k stage hr hstage => ⟨stage, hr, Or.inl hstage⟩
  · intro d hd j key v hstores
    obtain ⟨c, hc, hkeeps⟩ := hcache d hd
    exact hs.owned c hc j key v (hkeeps.stores j key v hstores)

/-- A request without a load goes on. -/
theorem setRequest (hs : s.Renewed) {r : Request} (hr : s.Dated r.toTicket)
    (hnone : ∀ ticket, s.ticket? i = some ticket → ticket.load = none) :
    (s.setRequest i r).Renewed := by
  refine ⟨hs.epoch, ?_, hs.eras, hs.reached, ?_⟩
  · intro j ticket hj
    rw [ticket?_setRequest] at hj
    have hdated : s.Dated ticket := by
      split at hj
      · exact Option.some.inj hj ▸ hr
      · exact hs.dated j ticket hj
    exact hdated.congr (Nat.le_refl _) rfl rfl
      fun q k stage hq hstage => ⟨stage, hq, Or.inl hstage⟩
  · intro c hc j key v hstores
    refine (hs.owned c hc j key v hstores).congr rfl ?_ ?_
    · intro k ticket load hk hload
      have hne : k ≠ i := by
        rintro rfl
        simp [hnone ticket hk] at hload
      rw [ticket?_setRequest, if_neg hne]
      exact hk
    · exact fun q k stage hq => Or.inr ⟨stage, hq, id⟩

/-- A clear begins. -/
theorem clear (hs : s.Renewed) {r : Nat} (hfree : s.clears r = none) :
    (s.setClear r ⟨none, .begun⟩).Renewed := by
  have hback : ∀ q k stage, (s.setClear r ⟨none, .begun⟩).clears q = some ⟨some k, stage⟩ →
      s.clears q = some ⟨some k, stage⟩ := by
    intro q k stage hq
    rcases Roster.put_eq_some_iff.mp hq with ⟨-, heq⟩ | ⟨-, hold⟩
    · simp at heq
    · exact hold
  refine ⟨hs.epoch, ?_, fun q k stage hq => hs.eras q k stage (hback q k stage hq), ?_, ?_⟩
  · intro i ticket hi
    exact (hs.dated i ticket hi).congr (Nat.le_refl _) rfl rfl
      fun q k stage hq hstage => ⟨stage, hback q k stage hq, Or.inl hstage⟩
  · rcases hs.reached with hzero | ⟨q, stage, hq⟩
    · exact Or.inl hzero
    · have hne : q ≠ r := by
        rintro rfl
        simp [hfree] at hq
      exact Or.inr ⟨q, stage, (Roster.put_of_ne hne _).trans hq⟩
  · intro c hc j key v hstores
    exact (hs.owned c hc j key v hstores).congr rfl (fun _ _ _ hi _ => hi)
      fun q k stage hq => Or.inr ⟨stage, hback q k stage hq, id⟩

/-- A reload puts a tree in force. -/
theorem reload (hs : s.Renewed) (r : Nat) {p : Plane} (hcache : p.cache? = s.plane.cache?) :
    ({ s.withPlane p with era := s.era + 1 }.setClear r ⟨some (s.era + 1), .begun⟩).Renewed := by
  have hback : ∀ q k stage, (s.clears.put r ⟨some (s.era + 1), .begun⟩) q = some ⟨some k, stage⟩ →
      k = s.era + 1 ∧ stage = .begun ∨ s.clears q = some ⟨some k, stage⟩ := by
    intro q k stage hq
    rcases Roster.put_eq_some_iff.mp hq with ⟨-, heq⟩ | ⟨-, hold⟩
    · obtain ⟨rfl, rfl⟩ : s.era + 1 = k ∧ .begun = stage := by simpa using heq
      exact Or.inl ⟨rfl, rfl⟩
    · exact Or.inr hold
  refine ⟨fun c hc => hs.epoch c (hcache ▸ hc), ?_, ?_, Or.inr ⟨r, .begun, Roster.put_self _ _ _⟩,
    ?_⟩
  · intro i ticket hi
    have hd := hs.dated i ticket hi
    refine ⟨hd.bumps_le, Nat.le_succ_of_le hd.era_le, hd.epoch_eq, hd.load_epoch, ?_, ?_⟩
    · intro l hl q k stage hq hlt hstage
      rcases hback q k stage hq with ⟨-, hbegun⟩ | hold
      · exact absurd hbegun hstage
      · exact hd.late l hl q k stage hold hlt hstage
    · intro l hl heq
      exact absurd heq (Nat.ne_of_lt (Nat.lt_succ_of_le hd.era_le))
  · intro q k stage hq
    rcases hback q k stage hq with ⟨rfl, -⟩ | hold
    · exact Nat.le_refl _
    · exact Nat.le_succ_of_le (hs.eras q k stage hold)
  · intro c hc j key v hstores
    refine (hs.owned c (hcache ▸ hc) j key v hstores).congr rfl (fun _ _ _ hi _ => hi) ?_
    intro q k stage hq
    rcases hback q k stage hq with ⟨-, rfl⟩ | hold
    · exact Or.inl trivial
    · exact Or.inr ⟨stage, hold, id⟩

/-- A clear goes on: it advances the epoch, or it empties a shard, or it ends. -/
theorem advance (hs : s.Renewed) {r : Nat} {era : Option Nat} {old new : ClearStage}
    (hclear : s.clears r = some ⟨era, old⟩) (f : Cache Octets → Cache Octets) (bumps : Nat)
    (hbumps : s.bumps ≤ bumps)
    (hepoch : ∀ c, s.plane.cache? = some c → (f c).epoch = UInt64.ofNat bumps)
    (hstage : new ≠ .begun → old ≠ .begun ∨ s.bumps < bumps)
    (hstored : ∀ c, s.plane.cache? = some c → ∀ j key v, (f c).Stores j key v →
      c.Stores j key v ∧ (old.Pending j → new.Pending j)) :
    ({ s.withPlane (s.plane.mapCache f) with bumps := bumps }.setClear r ⟨era, new⟩).Renewed := by
  have hrouter := (Plane.steady_mapCache f s.plane).router?
  have hcache : ∀ d, (s.plane.mapCache f).cache? = some d →
      ∃ c, s.plane.cache? = some c ∧ f c = d := by
    intro d hd
    rwa [Plane.cache?_mapCache, Option.map_eq_some_iff] at hd
  have hback : ∀ q k stage, (s.clears.put r ⟨era, new⟩) q = some ⟨some k, stage⟩ →
      stage = new ∧ s.clears q = some ⟨some k, old⟩ ∨ s.clears q = some ⟨some k, stage⟩ := by
    intro q k stage hq
    rcases Roster.put_eq_some_iff.mp hq with ⟨rfl, heq⟩ | ⟨-, hold⟩
    · obtain ⟨rfl, rfl⟩ : era = some k ∧ new = stage := by simpa using heq
      exact Or.inl ⟨rfl, hclear⟩
    · exact Or.inr hold
  refine ⟨?_, ?_, ?_, ?_, ?_⟩
  · intro d hd
    obtain ⟨c, hc, rfl⟩ := hcache d hd
    exact hepoch c hc
  · intro i ticket hi
    refine (hs.dated i ticket hi).congr hbumps rfl hrouter ?_
    intro q k stage hq hne
    rcases hback q k stage hq with ⟨rfl, hold⟩ | hold
    · exact ⟨old, hold, hstage hne⟩
    · exact ⟨stage, hold, Or.inl hne⟩
  · intro q k stage hq
    rcases hback q k stage hq with ⟨-, hold⟩ | hold
    · exact hs.eras q k old hold
    · exact hs.eras q k stage hold
  · rcases hs.reached with hzero | ⟨q, stage, hq⟩
    · exact Or.inl hzero
    · by_cases hqr : q = r
      · subst hqr
        obtain ⟨rfl, -⟩ : era = some s.era ∧ old = stage := by simpa [hclear] using hq
        exact Or.inr ⟨q, new, Roster.put_self _ _ _⟩
      · exact Or.inr ⟨q, stage, (Roster.put_of_ne hqr _).trans hq⟩
  · intro d hd j key v hstores
    obtain ⟨c, hc, rfl⟩ := hcache d hd
    obtain ⟨hold, hnew⟩ := hstored c hc j key v hstores
    refine (hs.owned c hc j key v hold).congr rfl (fun _ _ _ hi _ => hi) ?_
    intro q k stage hq
    rcases hback q k stage hq with ⟨rfl, hbefore⟩ | hbefore
    · exact Or.inr ⟨old, hbefore, hnew⟩
    · exact Or.inr ⟨stage, hbefore, id⟩

/-- A load whose epoch is still that of the cache was routed after every reload that has
advanced the epoch. -/
theorem begun_of_epoch (hs : s.Renewed) (hbound : s.bumps < 2 ^ 64) {ticket : Ticket}
    (hticket : s.ticket? i = some ticket) (hload : ticket.load = some load)
    (hepoch : load.epoch = some (UInt64.ofNat s.bumps)) {r k : Nat} {stage : ClearStage}
    (hr : s.clears r = some ⟨some k, stage⟩) (hlt : ticket.era < k) : stage = .begun := by
  have hdated := hs.dated i ticket hticket
  by_contra hstage
  have hlate := hdated.late load hload r k stage hr hlt hstage
  have heq : UInt64.ofNat s.bumps = UInt64.ofNat ticket.bumps :=
    hdated.epoch_eq _ ((hdated.load_epoch load hload).symm.trans hepoch)
  have htoNat := congrArg UInt64.toNat heq
  rw [UInt64.toNat_ofNat_of_lt' hbound,
    UInt64.toNat_ofNat_of_lt' (Nat.lt_of_le_of_lt hdated.bumps_le hbound)] at htoNat
  exact absurd hlate (by omega)

/-- A loader stores what it read, unless the cache was cleared. -/
theorem store (hs : s.Renewed) (hbound : s.bumps < 2 ^ 64) {ticket : Ticket}
    (hticket : s.ticket? i = some ticket) (hload : ticket.load = some load) {p : Plane}
    {content : Octets} {now later : Instant} {stored : Bool}
    (hstore : s.plane.store? load content now later = some (stored, p)) :
    ((s.withPlane p).sign stored load.object i).Renewed := by
  have hsteady := Plane.steady_store hstore
  have hdated : ∀ j t, s.ticket? j = some t →
      ((s.withPlane p).sign stored load.object i).Dated t := by
    intro j t ht
    exact (hs.dated j t ht).congr (Nat.le_refl _) rfl hsteady.router?
      fun r k stage hr hstage => ⟨stage, hr, Or.inl hstage⟩
  rcases Plane.store?_eq_some hstore with ⟨rfl, rfl⟩ | ⟨c, epoch, expiresAt, hc, hepoch, rfl, rfl⟩
  · refine ⟨hs.epoch, hdated, hs.eras, hs.reached, ?_⟩
    intro d hd j key v hstores
    have hsame : (if false = true ∧ key = load.object then some i else s.writer key) =
        s.writer key := by simp
    exact (hs.owned d hd j key v hstores).congr hsame (fun _ _ _ hi _ => hi)
      fun r k stage hr => Or.inr ⟨stage, hr, id⟩
  · have hcache := Plane.cache?_setCache hc
      (c.setIf load.object content expiresAt later.millis (c.epoch == epoch)).2
    have hnew : (c.epoch == epoch) = true → ∀ r k stage,
        s.clears r = some ⟨some k, stage⟩ → ticket.era < k → ∀ j, stage.Pending j := by
      intro hadmitted r k stage hr hlt j
      obtain rfl : c.epoch = epoch := by simpa using hadmitted
      rw [hs.epoch c hc] at hepoch
      obtain rfl := hs.begun_of_epoch hbound hticket hload hepoch hr hlt
      trivial
    refine ⟨?_, hdated, hs.eras, hs.reached, ?_⟩
    · intro d hd
      obtain rfl := Option.some.inj (hcache.symm.trans hd)
      exact (Cache.epoch_setIf _ _ _ _ _ _).trans (hs.epoch c hc)
    · intro d hd j key v hstores
      obtain rfl := Option.some.inj (hcache.symm.trans hd)
      by_cases hown : (c.epoch == epoch) = true ∧ key = load.object
      · obtain ⟨hadmitted, rfl⟩ := hown
        exact ⟨i, ticket, load, by simp [sign, hadmitted], hticket, hload, rfl,
          fun r k stage hr hlt => hnew hadmitted r k stage hr hlt j⟩
      · have hold : c.Stores j key v := by
          rcases Cache.stores_setIf hstores with hold | ⟨hadmitted, -, hkey, -⟩
          · exact hold
          · exact absurd ⟨hadmitted, hkey⟩ hown
        exact (hs.owned c hc j key v hold).congr (if_neg hown) (fun _ _ _ hi _ => hi)
          fun r k stage hr => Or.inr ⟨stage, hr, id⟩

theorem conclude (hs : s.Renewed) (n : Nat) (e : Coalescer.Ending) : (s.conclude n e).Renewed :=
  hs.aside (aside_conclude s n e)

theorem moves (hs : s.Renewed) (hu : s.Unrouted) (hrouter : s.plane.router?.isSome)
    (hbound : s.bumps < 2 ^ 64) {a : Action} (h : s.Moves a t) : t.Renewed := by
  have hprogress : ∀ {u : Service} (n : Nat) (p : Progress), u.Renewed →
      (u.setProgress n p).Renewed :=
    fun n p hu => hu.aside ⟨rfl, rfl, rfl, rfl, fun _ => rfl, rfl, rfl, rfl, rfl⟩
  have hkeeps : ∀ {p : Plane}, s.plane.Keeps p → (s.withPlane p).Renewed :=
    fun hp => hs.withPlane hp.router? hp.cache?
  cases h with
  | call i path hfree =>
    apply hs.setRequest
    · exact ⟨Nat.zero_le _, Nat.zero_le _, by simp, by simp, by simp, by simp⟩
    · simp [ticket?, hfree]
  | stamp i r hrequest hstage =>
    have hdated := hs.dated i r.toTicket (by simp [ticket?, hrequest])
    have hnone := hu i r hrequest (Or.inl hstage)
    apply hs.setRequest
    · refine ⟨Nat.le_refl _, hdated.era_le, ?_, by simp [hnone], by simp [hnone], by simp [hnone]⟩
      intro e he
      obtain ⟨c, hc, rfl⟩ := Option.map_eq_some_iff.mp he
      exact hs.epoch c hc
    · simp [ticket?, hrequest, hnone]
  | refuse i r e hrequest => exact hs.aside (aside_setRequest (by simp [ticket?, hrequest]))
  | depart i r load hrequest hstage hroute =>
    have hdated := hs.dated i r.toTicket (by simp [ticket?, hrequest])
    have hnone := hu i r hrequest (Or.inr hstage)
    obtain ⟨hlocate, hepoch⟩ := Plane.route_eq_ok.mp hroute
    apply aside _ (aside_fly _ _)
    apply hs.setRequest
    · refine ⟨hdated.bumps_le, Nat.le_refl _, hdated.epoch_eq, ?_, ?_, ?_⟩
      · simpa using hepoch
      · intro l hl q k stage hq hlt
        exact absurd (hs.eras q k stage hq) (Nat.not_le.mpr hlt)
      · intro l hl _
        obtain rfl : load = l := by simpa using hl
        obtain ⟨router, hr⟩ := Option.isSome_iff_exists.mp hrouter
        refine ⟨router, hr, ?_⟩
        rw [Plane.locate_eq hr] at hlocate
        cases hobject : router.route? r.path with
        | none => simp [hobject] at hlocate
        | some object => simpa [hobject] using hlocate
    · simp [ticket?, hrequest, hnone]
  | leave i r hrequest =>
    have hstays := hs.aside (aside_setRequest (r := { r with stage := .left })
      (by simp [ticket?, hrequest] : s.ticket? i = some r.toTicket))
    exact hstays.aside (aside_fly _ _)
  | fly a b => exact hs.aside (aside_fly s b)
  | hit n now i load => exact (hkeeps (Plane.keeps_lookUp s.plane load now)).conclude n _
  | expire n now load | miss n now load =>
    exact hprogress n _ (hkeeps (Plane.keeps_lookUp s.plane load now))
  | dispose n busy load generation =>
    exact hprogress n _ (hkeeps (Plane.keeps_dispose s.plane load generation busy))
  | ask n => exact hprogress n _ (hkeeps (Plane.keeps_askObject s.plane))
  | fail n i load => exact (hkeeps (Plane.keeps_receiveObject s.plane load)).conclude n _
  | fetch n i load => exact hprogress n _ (hkeeps (Plane.keeps_receiveObject s.plane load))
  | keep n now later i load content stored p hrunning hfetched hstore =>
    obtain ⟨ticket, hticket, hload⟩ := Option.bind_eq_some_iff.mp (load?_of_running hrunning)
    exact (hs.store hbound hticket hload hstore).conclude n _
  | breakDown n => exact hs.conclude n _
  | clear r hfree => exact hs.clear hfree
  | reload r index p hfree hinstall =>
    obtain ⟨old, new, -, -, rfl⟩ := Plane.install_eq_ok hinstall
    exact hs.reload r (Plane.cache?_setRouter s.plane new)
  | bump r era hclear =>
    refine hs.advance hclear Cache.bumpEpoch (s.bumps + 1) (Nat.le_succ _) ?_
      (fun _ => Or.inr (Nat.lt_succ_self _)) ?_
    · intro c hc
      change c.epoch + 1 = _
      rw [hs.epoch c hc]
      exact (UInt64.ofNat_add s.bumps 1).symm
    · exact fun c hc j key v hstores => ⟨hstores, fun _ => Nat.zero_le j⟩
  | empty r era k hclear =>
    refine hs.advance hclear (fun c => c.clearShard k) s.bumps (Nat.le_refl _) hs.epoch
      (fun _ => Or.inl (by simp)) ?_
    intro c hc j key v hstores
    obtain ⟨hne, hold⟩ := Cache.stores_clearShard hstores
    exact ⟨hold, fun hpending => Nat.lt_of_le_of_ne hpending (Ne.symm hne)⟩
  | settle r era k hclear hk =>
    refine hs.advance hclear Cache.recordClear s.bumps (Nat.le_refl _) hs.epoch
      (fun _ => Or.inl (by simp)) ?_
    intro c hc j key v hstores
    refine ⟨hstores, fun hpending => ?_⟩
    have hj : j < c.shardCount := Cache.lt_shardCount_of_stores hstores
    have hcount : s.shardCount = c.shardCount := by simp [shardCount, hc]
    exact absurd (Nat.le_trans hk hpending) (by omega)
  | reap => exact hkeeps (Plane.keeps_mapCache Cache.keeps_reapNext s.plane)
  | sweep shard now =>
    exact hkeeps (Plane.keeps_mapCache (fun c => Cache.keeps_sweepShard now c shard) s.plane)
  | replace medium => exact hs.withPlane rfl (Plane.Keeps.refl s.plane).cache?

end Renewed

/-- The epoch is never advanced backwards. -/
theorem Moves.bumps_le {a : Action} (h : s.Moves a t) : s.bumps ≤ t.bumps := by
  cases h with
  | bump => exact Nat.le_succ _
  | depart | leave | fly =>
    apply Nat.le_of_eq
    symm
    exact (aside_fly _ _).bumps
  | hit | fail | keep | breakDown =>
    apply Nat.le_of_eq
    symm
    exact (aside_conclude _ _ _).bumps
  | call | stamp | refuse | expire | miss | dispose | ask | fetch | clear | reload | empty
  | settle | reap | sweep | replace => exact Nat.le_refl _

theorem renewed_run (storage : Storage) (root : RouteTree) (cache : Option Cache.Config)
    (shards : Option Nat) (ttl : Duration) (actions : List Action)
    (hbound : ((start storage root cache shards ttl).run actions).bumps < 2 ^ 64) :
    ((start storage root cache shards ttl).run actions).Renewed := by
  let invariant (s : Service) : Prop :=
    s.Unrouted ∧ s.plane.router?.isSome ∧ (s.bumps < 2 ^ 64 → s.Renewed)
  have hstart : invariant (start storage root cache shards ttl) :=
    ⟨Unrouted.start storage root cache shards ttl, rfl,
      fun _ => Renewed.start storage root cache shards ttl⟩
  have hend : invariant ((start storage root cache shards ttl).run actions) := by
    refine run_induction actions ?_ hstart
    rintro s a t - ⟨hu, hrouter, hs⟩ h
    refine ⟨hu.moves h, ?_, fun ht => ?_⟩
    · rcases h.settings.2 with heq | ⟨old, new, -, hnew⟩
      · rwa [heq]
      · simp [hnew]
    · have hbumps := Nat.lt_of_le_of_lt h.bumps_le ht
      exact (hs hbumps).moves hu hrouter hbumps h
  exact hend.2.2 hbound

/-- What a cache may store, with reloads about. -/
structure Fresh (s : Service) : Prop where
  /-- While no reload is under way, every stored key is where the tree in force leads from
  some path. -/
  routed : (∀ r k stage, s.clears r = some ⟨some k, stage⟩ → stage = .done) →
    ∀ c, s.plane.cache? = some c → ∀ j key v, c.Stores j key v →
    ∃ router path, s.plane.router? = some router ∧ router.route? path = some key
  /-- Once a reload has returned, nothing stored is from a request that was routed before
  it put its tree in force. -/
  later : ∀ r k, s.clears r = some ⟨some k, .done⟩ →
    ∀ c, s.plane.cache? = some c → ∀ j key v, c.Stores j key v →
    ∃ i ticket, s.writer key = some i ∧ s.ticket? i = some ticket ∧ k ≤ ticket.era

theorem Renewed.fresh (hs : s.Renewed) : s.Fresh := by
  refine ⟨?_, ?_⟩
  · intro hdone c hc j key v hstores
    obtain ⟨i, ticket, load, -, hticket, hload, rfl, hpending⟩ := hs.owned c hc j key v hstores
    have hdated := hs.dated i ticket hticket
    have hera : ticket.era = s.era := by
      refine Nat.le_antisymm hdated.era_le (Nat.le_of_not_lt fun hlt => ?_)
      rcases hs.reached with hzero | ⟨r, stage, hr⟩
      · omega
      · have hstage := hpending r s.era stage hr hlt
        rw [hdone r s.era stage hr] at hstage
        exact hstage
    obtain ⟨router, hrouter, hroute⟩ := hdated.current load hload hera
    exact ⟨router, ticket.path, hrouter, hroute⟩
  · intro r k hr c hc j key v hstores
    obtain ⟨i, ticket, load, hwriter, hticket, -, -, hpending⟩ := hs.owned c hc j key v hstores
    exact ⟨i, ticket, hwriter, hticket, Nat.le_of_not_lt fun hlt => hpending r k .done hr hlt⟩

/-- Whatever the order of steps, no content of an earlier tree survives a reload in the
cache, as long as the epoch has not wrapped. -/
theorem fresh_run (storage : Storage) (root : RouteTree) (cache : Option Cache.Config)
    (shards : Option Nat) (ttl : Duration) (actions : List Action)
    (hbound : ((start storage root cache shards ttl).run actions).bumps < 2 ^ 64) :
    ((start storage root cache shards ttl).run actions).Fresh :=
  (renewed_run storage root cache shards ttl actions hbound).fresh

/-- A request that is routed before a reload and has read its object when the reload
returns; another request comes after it. -/
def lateHistory : List Action :=
  [.call 0 "/x", .stamp 0, .route 0, .lookUp 0 ⟨0⟩, .ask 0, .read 0,
    .reload 0 ((Index.encode (RouteTree.empty.insertPath "/x" (.new "b" ⟨0⟩))).toOption.getD []),
    .bump 0, .empty 0, .empty 0, .keep 0 ⟨0⟩ ⟨0⟩,
    .call 1 "/x", .stamp 1, .route 1, .lookUp 1 ⟨0⟩, .ask 1, .read 1,
    .keep 1 ⟨0⟩ ⟨0⟩]

/-- A plane with two objects, the first of which has a route. -/
def lateStart : Service :=
  start ((Storage.inMemory.insert "a" [1]).insert "b" [2])
    (RouteTree.empty.insertPath "/x" (.new "a" ⟨0⟩)) (some { capacity := 1 }) none (.ofSecs 60)

theorem fresh_of_late :
    (lateStart.run lateHistory).clears 0 = some ⟨some 1, .done⟩ ∧
      ((lateStart.run lateHistory).plane.cache?.map fun c => (c.contains "a", c.contains "b")) =
        some (false, true) ∧
      (lateStart.run lateHistory).Fresh := by
  refine ⟨by decide +kernel, by decide +kernel, ?_⟩
  apply fresh_run
  decide +kernel

end ArtifactPlane.Service
