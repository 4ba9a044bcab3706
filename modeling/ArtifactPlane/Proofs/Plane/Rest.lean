import ArtifactPlane.Plane.Traffic
import ArtifactPlane.Proofs.Coalescer.Tracking
import ArtifactPlane.Proofs.Plane.Phases

/-!
A plane at rest: what its cache holds is what storage holds, and its coalescer has no load
registered.  A call on such a plane, with nobody else there, is answered at once and leaves
the plane at rest.  The answer is the plain one unless the load `Overruns` the clock, which
is so when the cache is to keep what was read until an instant that cannot be represented.
-/

namespace ArtifactPlane

open Coalescer (Ending)

namespace Plane

variable {p q r : Plane} {load : PendingLoad} {now : Instant} {path : String}

/-- Carry out a load: from the cache, or from storage if the cache does not hold it. -/
def fulfil (p : Plane) (load : PendingLoad) (now : Instant) : Ending × Plane :=
  match p.consult load now with
  | (some content, p) => (.delivered (.ok content), p)
  | (none, p) => p.readAndKeep load now

/-- A load whose content cannot be kept: there is a cache that does not hold it, storage
does, and the clock cannot represent its expiry. -/
structure Overruns (p : Plane) (load : PendingLoad) (now : Instant) : Prop where
  cache : p.cache?.isSome
  unheld : ∀ content, (p.lookUp load now).1 ≠ .hit content
  readable : ∃ content, Storage.content p.storage.medium load.object = .ok content
  late : ∃ ttl, p.ttl? = some ttl ∧ now.add? ttl = none

/-- Keeping breaks down without a trace, or it delivers the content. -/
theorem keep_cases (p : Plane) (load : PendingLoad) (content : Octets) (now : Instant) :
    (p.store? load content now now = none ∧ p.keep load content now = (.panicked, p)) ∨
    ∃ stored q, p.store? load content now now = some (stored, q) ∧
      p.keep load content now = (.delivered (.ok content), q) := by
  rcases hstore : p.store? load content now now with _ | ⟨stored, q⟩
  · exact Or.inl ⟨rfl, by rw [keep, hstore]⟩
  · exact Or.inr ⟨stored, q, rfl, by rw [keep, hstore]⟩

/-- A load is delivered from the cache, or it is read and, if storage holds the object,
kept by a plane that holds what the first one did. -/
theorem fulfil_cases (p : Plane) (load : PendingLoad) (now : Instant) :
    (∃ content, (p.lookUp load now).1 = .hit content ∧
      p.fulfil load now = (.delivered (.ok content), (p.lookUp load now).2)) ∨
    ∃ q, p.Keeps q ∧ q.cache?.isSome = p.cache?.isSome ∧
      (∀ content, (p.lookUp load now).1 ≠ .hit content) ∧
      p.fulfil load now = match Storage.content p.storage.medium load.object with
        | .ok content => q.keep load content now
        | .error e => (.delivered (.error e), q) := by
  have hread : ∀ {q : Plane}, p.Keeps q → q.cache?.isSome = p.cache?.isSome →
      ∃ r, p.Keeps r ∧ r.cache?.isSome = p.cache?.isSome ∧
        q.readAndKeep load now = match Storage.content p.storage.medium load.object with
          | .ok content => r.keep load content now
          | .error e => (.delivered (.error e), r) := by
    intro q hq hcache
    have hreads := keeps_readObject q load
    refine ⟨(q.readObject load).2, hq.trans hreads, hcache, ?_⟩
    have hfst := readObject_fst q load
    rw [hq.medium] at hfst
    rw [readAndKeep, ← hfst]
    obtain ⟨found, q'⟩ := q.readObject load
    cases found <;> rfl
  have hkeeps := keeps_lookUp p load now
  have hcache := isSome_cache?_lookUp p load now
  rcases hlook : p.lookUp load now with ⟨found, q⟩
  rw [hlook] at hkeeps hcache
  cases found with
  | hit content => exact Or.inl ⟨content, rfl, by rw [fulfil, consult, hlook]⟩
  | expired generation =>
    obtain ⟨r, hr, hrcache, hequal⟩ := hread
      (hkeeps.trans (keeps_dispose q load generation false))
      ((isSome_cache?_mapCache _ q).trans hcache)
    exact Or.inr ⟨r, hr, hrcache, by simp, by rw [fulfil, consult, hlook]; exact hequal⟩
  | miss =>
    obtain ⟨r, hr, hrcache, hequal⟩ := hread hkeeps hcache
    exact Or.inr ⟨r, hr, hrcache, by simp, by rw [fulfil, consult, hlook]; exact hequal⟩

/-- Planes alike in what no call changes: the objects in storage, the tree in force, the
time to live, and whether there is a cache or a coalescer. -/
structure Alike (p q : Plane) : Prop where
  medium : q.storage.medium = p.storage.medium
  router? : q.router? = p.router?
  ttl? : q.ttl? = p.ttl?
  cache? : q.cache?.isSome = p.cache?.isSome
  coalescer? : q.coalescer?.isSome = p.coalescer?.isSome

/-- Everything in the cache is what storage holds. -/
def Faithful (p : Plane) : Prop :=
  ∀ c, p.cache? = some c → ∀ i key v, c.Stores i key v →
    Storage.content p.storage.medium key = .ok v

/-- A faithful cache, and a coalescer without a load. -/
structure AtRest (p : Plane) : Prop where
  faithful : p.Faithful
  placed : ∀ c, p.coalescer? = some c → c.WellPlaced
  idle : ∀ c, p.coalescer? = some c → ∀ key, c.registered? key = none

theorem Alike.refl (p : Plane) : p.Alike p := ⟨rfl, rfl, rfl, rfl, rfl⟩

theorem Alike.trans (hq : p.Alike q) (hr : q.Alike r) : p.Alike r :=
  ⟨hr.medium.trans hq.medium, hr.router?.trans hq.router?, hr.ttl?.trans hq.ttl?,
    hr.cache?.trans hq.cache?, hr.coalescer?.trans hq.coalescer?⟩

theorem Steady.alike (hq : p.Steady q) (hcache : q.cache?.isSome = p.cache?.isSome) :
    p.Alike q :=
  ⟨hq.medium, hq.router?, hq.ttl?, hcache, by rw [hq.coalescer?]⟩

namespace Faithful

theorem keeps (hp : p.Faithful) (hq : p.Keeps q) : q.Faithful := by
  intro d hd i key v hstores
  obtain ⟨c, hc, hkeeps⟩ := hq.cache? d hd
  rw [hq.medium]
  exact hp c hc i key v (hkeeps.stores i key v hstores)

theorem store (hp : p.Faithful) {content : Octets} {later : Instant} {stored : Bool}
    (hcontent : Storage.content p.storage.medium load.object = .ok content)
    (hstore : p.store? load content now later = some (stored, q)) : q.Faithful := by
  intro d hd i key v hstores
  rw [(steady_store hstore).medium]
  rcases store?_eq_some hstore with ⟨-, rfl⟩ | ⟨c, epoch, expiresAt, hc, -, -, rfl⟩
  · exact hp d hd i key v hstores
  · rw [cache?_setCache hc] at hd
    obtain rfl := Option.some.inj hd
    rcases Cache.stores_setIf hstores with hold | ⟨-, -, rfl, rfl⟩
    · exact hp c hc i key v hold
    · exact hcontent

/-- A load that does not overrun the clock delivers what storage holds. -/
theorem fulfil_fst (hp : p.Faithful) (h : ¬ p.Overruns load now) :
    (p.fulfil load now).1 = .delivered (Storage.content p.storage.medium load.object) := by
  rcases p.fulfil_cases load now with ⟨content, hhit, hequal⟩ | ⟨q, hq, hcache, hunheld, hequal⟩
  · obtain ⟨c, hc, hstores⟩ := stores_of_lookUp hhit
    rw [hequal, hp c hc _ _ _ hstores]
  · rw [hequal]
    cases hcontent : Storage.content p.storage.medium load.object with
    | error e => rfl
    | ok content =>
      rcases q.keep_cases load content now with ⟨hstore, -⟩ | ⟨stored, r, -, hkept⟩
      · rw [store?_eq_none_iff, hcache, hq.ttl?] at hstore
        exact absurd ⟨hstore.1, hunheld, ⟨content, hcontent⟩, hstore.2.2⟩ h
      · simp only [hkept]

/-- Whatever becomes of a load, the cache stays faithful. -/
theorem fulfil_snd (hp : p.Faithful) (load : PendingLoad) (now : Instant) :
    (p.fulfil load now).2.Faithful ∧ p.Steady (p.fulfil load now).2 ∧
      (p.fulfil load now).2.cache?.isSome = p.cache?.isSome := by
  rcases p.fulfil_cases load now with ⟨content, -, hequal⟩ | ⟨q, hq, hcache, -, hequal⟩
  · have hkeeps := keeps_lookUp p load now
    rw [hequal]
    exact ⟨hp.keeps hkeeps, hkeeps.toSteady, isSome_cache?_lookUp p load now⟩
  · have hfaithful := hp.keeps hq
    rw [hequal]
    cases hcontent : Storage.content p.storage.medium load.object with
    | error e => exact ⟨hfaithful, hq.toSteady, hcache⟩
    | ok content =>
      rw [← hq.medium] at hcontent
      rcases q.keep_cases load content now with ⟨-, hkept⟩ | ⟨stored, r, hstore, hkept⟩
      · simp only [hkept]
        exact ⟨hfaithful, hq.toSteady, hcache⟩
      · simp only [hkept]
        exact ⟨hfaithful.store hcontent hstore, hq.toSteady.trans (steady_store hstore),
          (isSome_cache?_store hstore).trans hcache⟩

end Faithful

/-- A load that overruns the clock breaks down. -/
theorem fulfil_of_overruns (hepoch : load.epoch.isSome) (h : p.Overruns load now) :
    (p.fulfil load now).1 = .panicked := by
  obtain ⟨content, hcontent⟩ := h.readable
  rcases p.fulfil_cases load now with ⟨held, hhit, -⟩ | ⟨q, hq, hcache, -, hequal⟩
  · exact absurd hhit (h.unheld held)
  · have hstore : q.store? load content now now = none := by
      rw [store?_eq_none_iff, hcache, hq.ttl?]
      exact ⟨h.cache, hepoch, h.late⟩
    simp only [hequal, hcontent, keep, hstore]

/-- Nothing new is kept where the clock cannot represent the expiry. -/
theorem keeps_fulfil (hepoch : p.cache?.isSome → load.epoch.isSome)
    (hlate : ∃ ttl, p.ttl? = some ttl ∧ now.add? ttl = none) :
    p.Keeps (p.fulfil load now).2 := by
  rcases p.fulfil_cases load now with ⟨content, -, hequal⟩ | ⟨q, hq, hcache, -, hequal⟩
  · rw [hequal]
    exact keeps_lookUp p load now
  · rw [hequal]
    cases Storage.content p.storage.medium load.object with
    | error e => exact hq
    | ok content =>
      rcases q.keep_cases load content now with ⟨-, hkept⟩ | ⟨stored, r, hstore, hkept⟩
      · simp only [hkept]
        exact hq
      · simp only [hkept]
        rcases store?_eq_some hstore with ⟨-, rfl⟩ | ⟨c, epoch, expiresAt, hc, -, -, -⟩
        · exact hq
        · have hsome : p.cache?.isSome := by rw [← hcache, hc, Option.isSome_some]
          have hnone : q.store? load content now now = none := by
            rw [store?_eq_none_iff, hcache, hq.ttl?]
            exact ⟨hsome, hepoch hsome, hlate⟩
          exact nomatch hnone.symm.trans hstore

/-- What a plane at rest gives for a path. -/
inductive Answers (p : Plane) (path : String) (now : Instant) : Ending → Prop where
  | refuse (e : Error) (hbegin : p.begin path = .error e) :
    Answers p path now (.delivered (.error e))
  | serve (load : PendingLoad) (hbegin : p.begin path = .ok load)
    (htimely : ¬ p.Overruns load now) :
    Answers p path now (.delivered (Storage.content p.storage.medium load.object))
  | breakDown (load : PendingLoad) (hbegin : p.begin path = .ok load)
    (hoverrun : p.Overruns load now) (halone : p.coalescer? = none) :
    Answers p path now .panicked
  | report (load : PendingLoad) (hbegin : p.begin path = .ok load)
    (hoverrun : p.Overruns load now) (hshared : p.coalescer?.isSome) :
    Answers p path now (.delivered (.error (.ofCause load.object .loaderPanicked)))

theorem isSome_epoch_of_begin (hbegin : p.begin path = .ok load) (hcache : p.cache?.isSome) :
    load.epoch.isSome := by
  obtain ⟨-, hepoch⟩ := route_eq_ok.mp hbegin
  rw [hepoch, epoch?, Option.isSome_map]
  exact hcache

theorem lookUp_setCoalescer_fst (p : Plane) (c : Coalescer) (load : PendingLoad)
    (now : Instant) : ((p.setCoalescer c).lookUp load now).1 = (p.lookUp load now).1 := by
  unfold lookUp
  rw [cache?_setCoalescer]
  split <;> rfl

theorem Faithful.setCoalescer (hp : p.Faithful) (c : Coalescer) :
    (p.setCoalescer c).Faithful := by
  rw [Faithful, cache?_setCoalescer, storage_setCoalescer]
  exact hp

theorem alike_setCoalescer {c : Coalescer} (hc : p.coalescer? = some c) (d : Coalescer) :
    p.Alike (p.setCoalescer d) :=
  ⟨by rw [storage_setCoalescer], router?_setCoalescer p d, ttl?_setCoalescer p d,
    by rw [cache?_setCoalescer], by rw [coalescer?_setCoalescer hc, hc]; rfl⟩

/-- The coalescer has no part in whether a load overruns the clock. -/
theorem overruns_setCoalescer (c : Coalescer) :
    (p.setCoalescer c).Overruns load now ↔ p.Overruns load now := by
  constructor
  · rintro ⟨hcache, hunheld, hreadable, hlate⟩
    simp only [lookUp_setCoalescer_fst, cache?_setCoalescer, storage_setCoalescer,
      ttl?_setCoalescer] at hcache hunheld hreadable hlate
    exact ⟨hcache, hunheld, hreadable, hlate⟩
  · rintro ⟨hcache, hunheld, hreadable, hlate⟩
    refine ⟨?_, ?_, ?_, ?_⟩
    all_goals
      simpa only [lookUp_setCoalescer_fst, cache?_setCoalescer, storage_setCoalescer,
        ttl?_setCoalescer]

end Plane

/-- A load that begins and ends leaves no registration behind. -/
theorem Coalescer.registered?_finish_lead {c : Coalescer} (hc : c.WellPlaced)
    (hidle : ∀ key, c.registered? key = none) (key : String) (e : Ending) :
    ((c.lead key).2.finish key c.calls.size e).WellPlaced ∧
      ∀ k, ((c.lead key).2.finish key c.calls.size e).registered? k = none := by
  have hled := hc.lead (hidle key)
  refine ⟨(hled.unregister key c.calls.size).record _ _, fun k => ?_⟩
  change ((c.lead key).2.unregister key c.calls.size).registered? k = none
  rw [hled.registered?_unregister, hc.registered?_lead, hc.registered?_lead]
  by_cases hk : k = key
  · simp [hk]
  · simp [hk, hidle k]

theorem Coalescer.outcome?_finish_lead (c : Coalescer) (key : String) (e : Ending) :
    (((c.lead key).2.finish key c.calls.size e).call c.calls.size).outcome? key =
      some (e.result key) := by
  have hsize : c.calls.size < ((c.lead key).2.unregister key c.calls.size).calls.size := by
    simp [unregister, lead]
  have hnew : ((c.lead key).2.unregister key c.calls.size).call c.calls.size = Call.new := by
    change (c.lead key).2.call c.calls.size = Call.new
    rw [call_lead]
    simp [call]
  rw [finish, call_record _ hsize, if_pos rfl, hnew]
  rfl

namespace Traffic

variable {t : Traffic} {name : Option String} {path : String} {now : Instant}
  {load : PendingLoad}

/-- An open gate, nobody waiting, and a plane at rest. -/
structure AtRest (t : Traffic) : Prop where
  plane : t.plane.AtRest
  isOpen : t.gated = false
  unawaited : t.waiting = []

/-- Before an open gate a load is carried out at once. -/
theorem runLoad_of_open (hopen : t.gated = false) (h : HeldRead) (now : Instant) :
    t.runLoad h now =
      ({ t with plane := (t.plane.fulfil h.load now).2 } : Traffic).endLoad h.load h.owner
        (t.plane.fulfil h.load now).1 := by
  rw [runLoad, Plane.fulfil]
  rcases t.plane.consult h.load now with ⟨content, p⟩
  cases content with
  | some content => rfl
  | none => simp [hopen, readNow]

/-- Without a coalescer, a caller is given what becomes of its load. -/
theorem AtRest.arrive_eq_alone (ht : t.AtRest) (hbegin : t.plane.begin path = .ok load)
    (hc : t.plane.coalescer? = none) :
    t.arrive name path now = ([(name, (t.plane.fulfil load now).1)],
      { t with plane := (t.plane.fulfil load now).2 }) := by
  obtain ⟨plane, gated, held, waiting⟩ := t
  obtain rfl : gated = false := ht.isOpen
  obtain rfl : waiting = [] := ht.unawaited
  simp only at hbegin hc
  simp [arrive, hbegin, Plane.enter, hc, await, runLoad_of_open, endLoad]

/-- With a coalescer, a caller leads a load, and is given what the load is recorded with. -/
theorem AtRest.arrive_eq_leading (ht : t.AtRest) (hbegin : t.plane.begin path = .ok load)
    {c : Coalescer} (hc : t.plane.coalescer? = some c) {p : Plane}
    (hp : t.plane.setCoalescer (c.lead load.object).2 = p)
    (hended : (p.fulfil load now).2.coalescer? = some (c.lead load.object).2) :
    t.arrive name path now =
      ([(name, .delivered ((p.fulfil load now).1.result load.object))],
      { t with plane := (p.fulfil load now).2.setCoalescer <|
          (c.lead load.object).2.finish load.object c.calls.size (p.fulfil load now).1 }) := by
  obtain ⟨plane, gated, held, waiting⟩ := t
  obtain rfl : gated = false := ht.isOpen
  obtain rfl : waiting = [] := ht.unawaited
  have henter := c.enter_of_free (ht.plane.idle c hc load.object)
  have hfinish : (p.fulfil load now).2.finish load c.calls.size (p.fulfil load now).1 =
      (p.fulfil load now).2.setCoalescer
        ((c.lead load.object).2.finish load.object c.calls.size (p.fulfil load now).1) := by
    simp only [Plane.finish, hended]
  simp only at hbegin hc hp
  simp [arrive, hbegin, Plane.enter, hc, henter, await, runLoad_of_open, hp, endLoad, mapPlane,
    deliver, settle, hfinish, Plane.outcome?, Plane.coalescer?_setCoalescer hended,
    c.outcome?_finish_lead]

/-- What a call leaves behind: a plane alike and at rest, which caches nothing new where the
clock cannot represent an expiry. -/
structure Leaves (t u : Traffic) (now : Instant) : Prop where
  rest : u.AtRest
  alike : t.plane.Alike u.plane
  late : (∃ ttl, t.plane.ttl? = some ttl ∧ now.add? ttl = none) → t.plane.CachesNoMore u.plane

theorem AtRest.arrive_alone (ht : t.AtRest) (hbegin : t.plane.begin path = .ok load)
    (hc : t.plane.coalescer? = none) :
    ∃ e u, t.arrive name path now = ([(name, e)], u) ∧ t.plane.Answers path now e ∧
      t.Leaves u now := by
  have hepoch := Plane.isSome_epoch_of_begin hbegin
  obtain ⟨hfaithful, hsteady, hcache⟩ := ht.plane.faithful.fulfil_snd load now
  have halone := hsteady.coalescer?.trans hc
  refine ⟨_, _, ht.arrive_eq_alone hbegin hc, ?_, ?_⟩
  · by_cases hoverrun : t.plane.Overruns load now
    · rw [Plane.fulfil_of_overruns (hepoch hoverrun.cache) hoverrun]
      exact .breakDown load hbegin hoverrun hc
    · rw [ht.plane.faithful.fulfil_fst hoverrun]
      exact .serve load hbegin hoverrun
  · exact ⟨⟨⟨hfaithful, by simp [halone], by simp [halone]⟩, ht.isOpen, ht.unawaited⟩,
      hsteady.alike hcache, fun hlate => (Plane.keeps_fulfil hepoch hlate).cache?⟩

theorem AtRest.arrive_leading (ht : t.AtRest) (hbegin : t.plane.begin path = .ok load)
    {c : Coalescer} (hc : t.plane.coalescer? = some c) :
    ∃ e u, t.arrive name path now = ([(name, e)], u) ∧ t.plane.Answers path now e ∧
      t.Leaves u now := by
  have hepoch := Plane.isSome_epoch_of_begin hbegin
  obtain ⟨p, hp⟩ : ∃ p, t.plane.setCoalescer (c.lead load.object).2 = p := ⟨_, rfl⟩
  have hled : p.coalescer? = some (c.lead load.object).2 :=
    hp ▸ Plane.coalescer?_setCoalescer hc _
  have hcaches : p.cache? = t.plane.cache? := hp ▸ Plane.cache?_setCoalescer _ _
  have hoverruns : p.Overruns load now ↔ t.plane.Overruns load now :=
    hp ▸ Plane.overruns_setCoalescer _
  have halike : t.plane.Alike p := hp ▸ Plane.alike_setCoalescer hc _
  have hpfaithful : p.Faithful := hp ▸ ht.plane.faithful.setCoalescer _
  obtain ⟨hfaithful, hsteady, hcache⟩ := hpfaithful.fulfil_snd load now
  have hended := hsteady.coalescer?.trans hled
  refine ⟨_, _, ht.arrive_eq_leading hbegin hc hp hended, ?_, ⟨?_, ht.isOpen, ht.unawaited⟩,
    (halike.trans (hsteady.alike hcache)).trans (Plane.alike_setCoalescer hended _), ?_⟩
  · by_cases hoverrun : t.plane.Overruns load now
    · rw [Plane.fulfil_of_overruns (hepoch hoverrun.cache) (hoverruns.mpr hoverrun)]
      exact .report load hbegin hoverrun (by rw [hc, Option.isSome_some])
    · rw [hpfaithful.fulfil_fst (mt hoverruns.mp hoverrun), halike.medium]
      exact .serve load hbegin hoverrun
  · have hafter := Plane.coalescer?_setCoalescer hended
      ((c.lead load.object).2.finish load.object c.calls.size (p.fulfil load now).1)
    obtain ⟨hplaced, hidle⟩ := Coalescer.registered?_finish_lead (ht.plane.placed c hc)
      (ht.plane.idle c hc) load.object (p.fulfil load now).1
    refine ⟨hfaithful.setCoalescer _, ?_, ?_⟩
    · intro d hd
      exact Option.some.inj (hafter.symm.trans hd) ▸ hplaced
    · intro d hd
      exact Option.some.inj (hafter.symm.trans hd) ▸ hidle
  · intro hlate
    have hkeeps : p.Keeps (p.fulfil load now).2 :=
      Plane.keeps_fulfil (by rwa [hcaches]) (by rwa [halike.ttl?])
    exact ((Plane.CachesNoMore.of_eq hcaches).trans hkeeps.cache?).trans
      (.of_eq (Plane.cache?_setCoalescer _ _))

/-- A call with nobody else there is answered at once. -/
theorem AtRest.arrive (ht : t.AtRest) (name : Option String) (path : String) (now : Instant) :
    ∃ e u, t.arrive name path now = ([(name, e)], u) ∧ t.plane.Answers path now e ∧
      t.Leaves u now := by
  cases hbegin : t.plane.begin path with
  | error e =>
    exact ⟨_, t, by rw [Traffic.arrive, hbegin], .refuse e hbegin, ht, .refl _,
      fun _ => .of_eq rfl⟩
  | ok load =>
    cases hc : t.plane.coalescer? with
    | none => exact ht.arrive_alone hbegin hc
    | some c => exact ht.arrive_leading hbegin hc

/-- What happens to a plane of its own accord or by callers that do not overlap. -/
inductive Event where
  | get (path : String) (now : Instant)
  /-- The oldest queued removal of an expired cache entry is carried out. -/
  | reap

/-- Let one thing happen. -/
def happen (t : Traffic) : Event → Traffic
  | .get path now => (t.get path now).2.2
  | .reap => t.mapPlane fun p => p.mapCache Cache.reapNext

/-- Let things happen one after another. -/
def after (t : Traffic) (events : List Event) : Traffic := events.foldl happen t

theorem AtRest.get (ht : t.AtRest) (path : String) (now : Instant) :
    ∃ e u, t.get path now = (some e, [], u) ∧ t.plane.Answers path now e ∧ t.Leaves u now := by
  obtain ⟨e, u, harrive, hanswers, hleaves⟩ := ht.arrive none path now
  exact ⟨e, u, by simp [Traffic.get, harrive], hanswers, hleaves⟩

theorem AtRest.reap (ht : t.AtRest) :
    (t.happen .reap).AtRest ∧ t.plane.Alike (t.happen .reap).plane ∧
      t.plane.CachesNoMore (t.happen .reap).plane := by
  have hkeeps := Plane.keeps_mapCache Cache.keeps_reapNext t.plane
  have hcoalescer := hkeeps.coalescer?
  refine ⟨⟨⟨ht.plane.faithful.keeps hkeeps, ?_, ?_⟩, ht.isOpen, ht.unawaited⟩,
    hkeeps.toSteady.alike (Plane.isSome_cache?_mapCache _ _), hkeeps.cache?⟩
  · intro c hc
    exact ht.plane.placed c (hcoalescer.symm.trans hc)
  · intro c hc
    exact ht.plane.idle c (hcoalescer.symm.trans hc)

theorem AtRest.happen (ht : t.AtRest) (event : Event) :
    (t.happen event).AtRest ∧ t.plane.Alike (t.happen event).plane := by
  cases event with
  | get path now =>
    obtain ⟨e, u, hget, -, hleaves⟩ := ht.get path now
    rw [Traffic.happen, hget]
    exact ⟨hleaves.rest, hleaves.alike⟩
  | reap =>
    obtain ⟨hrest, halike, -⟩ := ht.reap
    exact ⟨hrest, halike⟩

theorem AtRest.after (ht : t.AtRest) (events : List Event) :
    (t.after events).AtRest ∧ t.plane.Alike (t.after events).plane := by
  induction events generalizing t with
  | nil => exact ⟨ht, .refl _⟩
  | cons event rest ih =>
    obtain ⟨hrest, halike⟩ := ht.happen event
    obtain ⟨hend, hkept⟩ := ih hrest
    exact ⟨hend, halike.trans hkept⟩

/-- Where the clock could not represent the expiry of anything, nothing was cached. -/
theorem AtRest.cachesNoMore_after (ht : t.AtRest) {ttl : Duration}
    (httl : t.plane.ttl? = some ttl) (events : List Event)
    (hlate : ∀ path now, .get path now ∈ events → now.add? ttl = none) :
    t.plane.CachesNoMore (t.after events).plane := by
  induction events generalizing t with
  | nil => exact .of_eq rfl
  | cons event rest ih =>
    obtain ⟨hrest, halike⟩ := ht.happen event
    have hfirst : t.plane.CachesNoMore (t.happen event).plane := by
      cases event with
      | get path now =>
        obtain ⟨e, u, hget, -, hleaves⟩ := ht.get path now
        rw [Traffic.happen, hget]
        exact hleaves.late ⟨ttl, httl, hlate path now List.mem_cons_self⟩
      | reap => exact ht.reap.2.2
    exact hfirst.trans (ih hrest (halike.ttl?.trans httl) fun path now hmem =>
      hlate path now (List.mem_cons_of_mem _ hmem))

end Traffic

end ArtifactPlane
