import ArtifactPlane.Proofs.Plane.Balance
import Mathlib.Data.List.Induction

/-!
What the counters of a plane with a cache and a coalescer say, where every load in flight
waits for storage.  No two of these reads are of one object, every request that was routed
started a load or joined one, unless it has yet to come to the coalescer, every load looked
into the cache once, and every miss became a read.  What a read brought is inserted if no
clear has come when it gets to the cache; that no clear had come when the read ended is not
enough.
-/

namespace ArtifactPlane.Service

open Coalescer (Flight)

variable {s t : Service} {f : Flight} {h : List Event} {i n : Nat} {key : String}

theorem events_concat (s : Service) (actions : List Action) (a : Action) :
    s.events (actions ++ [a]) = s.events actions ++ ((s.run actions).event? a).toList := by
  induction actions generalizing s with
  | nil => simp [events, run]
  | cons b rest ih =>
    rw [List.cons_append, events, ih (s.step b), events, List.append_assoc]
    rfl

theorem bumps_le_run (s : Service) (actions : List Action) : s.bumps ≤ (s.run actions).bumps :=
  run_induction (P := fun t => s.bumps ≤ t.bumps) actions
    (fun _ _ _ _ hle hmove => Nat.le_trans hle hmove.bumps_le) (Nat.le_refl _)

/-- A loader breaks down only where it cannot store what it has read. -/
theorem event?_ne_brokeDown {a : Action} (hstore : ∀ n now later, a = .keep n now later →
    ∀ load content, (s.plane.store? load content now later).isSome) :
    s.event? a ≠ some .brokeDown := by
  cases a with
  | keep n now later =>
    rw [event?]
    split
    · next i load content _ _ =>
      obtain ⟨result, hresult⟩ := Option.isSome_iff_exists.mp (hstore n now later rfl load content)
      simp [hresult]
    · simp
  | route =>
    rw [event?]
    split
    · split <;> simp
    · simp
  | lookUp | ask | read =>
    rw [event?]
    split <;> simp
  | call | stamp | look | enter | wake | leave | dispose | unregister | record | clear | reload
  | bump | empty | reap | sweep | replace => simp [event?]

theorem ttl?_run (storage : Storage) (root : RouteTree) (cache : Option Cache.Config)
    (shards : Option Nat) (ttl : Duration) (actions : List Action) :
    ((start storage root cache shards ttl).run actions).plane.ttl? = some ttl :=
  run_induction (P := fun s => s.plane.ttl? = some ttl) actions
    (fun _ _ _ _ hs hmove => hmove.settings.1.trans hs) rfl

section History

variable (storage : Storage) (root : RouteTree) (config : Cache.Config) (shards : Nat)
  (ttl : Duration) (actions : List Action)

theorem balanced_run
    (hbound : ((start storage root (some config) (some shards) ttl).run actions).bumps < 2 ^ 64) :
    Balanced storage.counts.reads ((start storage root (some config) (some shards) ttl).run actions)
      ((start storage root (some config) (some shards) ttl).events actions) := by
  induction actions using List.reverseRecOn with
  | nil => exact Balanced.start storage root config shards ttl
  | append_singleton before a ih =>
    let s := (start storage root (some config) (some shards) ttl).run before
    have hrun : (start storage root (some config) (some shards) ttl).run (before ++ [a]) =
        s.step a := by simp [s, run]
    rw [hrun] at hbound ⊢
    have hbefore : s.bumps < 2 ^ 64 := Nat.lt_of_le_of_lt (bumps_le_run s [a]) hbound
    rw [events_concat]
    exact (ih hbefore).step (wired_run storage root config shards ttl before)
      (unrouted_run storage root _ _ ttl before)
      (renewed_run storage root _ _ ttl before hbefore) hbefore a

/-- Where the clock can represent every expiry, no loader breaks down. -/
theorem brokeDown_not_mem
    (httl : ∀ n now later, .keep n now later ∈ actions → (now.add? ttl).isSome) :
    .brokeDown ∉ (start storage root (some config) (some shards) ttl).events actions := by
  induction actions using List.reverseRecOn with
  | nil => exact List.not_mem_nil
  | append_singleton before a ih =>
    have hsettings := ttl?_run storage root (some config) (some shards) ttl before
    have hlast : ((start storage root (some config) (some shards) ttl).run before).event? a ≠
        some .brokeDown := by
      apply event?_ne_brokeDown
      rintro n now later rfl load content
      obtain ⟨stored, q, hstore⟩ := Plane.exists_store load hsettings
        (httl n now later (by simp)) content later
      rw [hstore, Option.isSome_some]
    have hbefore := ih fun n now later hmem => httl n now later (List.mem_append_left _ hmem)
    rw [events_concat]
    simp [hbefore, hlast]

end History

/-- The object that a loader waits for storage to read. -/
def reading? (s : Service) (n : Nat) : Option String :=
  match s.running? n, s.progress n with
  | some (_, load), .reading => some load.object
  | _, _ => none

/-- The objects of all reads that are pending. -/
def pending (s : Service) : List String :=
  match s.flight? with
  | some f => (List.range f.coalescer.calls.size).filterMap s.reading?
  | none => []

/-- With a coalescer, a loader runs exactly while its task does, about the object of its
task. -/
theorem running?_of_task (hf : s.flight? = some f) (hsound : f.Sound) (hlinked : s.Linked f)
    (htask : f.tasks n = some ⟨key, i, .running⟩) :
    ∃ load, s.running? n = some (i, load) ∧ load.object = key := by
  obtain ⟨stage, hcaller⟩ := hsound.shared.owner n key i _ htask
  obtain ⟨load, hload, hkey⟩ := hlinked i key stage hcaller
  exact ⟨load, by simp [running?, hf, htask, hload], hkey⟩

theorem reading?_eq_some_iff (hf : s.flight? = some f) (hsound : f.Sound) (hlinked : s.Linked f) :
    s.reading? n = some key ↔
      (∃ i, f.tasks n = some ⟨key, i, .running⟩) ∧ s.progress n = .reading := by
  constructor
  · intro hreading
    unfold reading? at hreading
    split at hreading
    · next i load hrunning hprogress =>
      obtain ⟨⟨k, htask⟩, hload⟩ := running?_flight hf hrunning
      obtain ⟨l, hl, rfl⟩ := running?_of_task hf hsound hlinked htask
      obtain rfl : load = l := by simpa [hrunning] using hl
      obtain rfl := Option.some.inj hreading
      exact ⟨⟨i, htask⟩, hprogress⟩
    · simp at hreading
  · rintro ⟨⟨i, htask⟩, hprogress⟩
    obtain ⟨load, hrunning, rfl⟩ := running?_of_task hf hsound hlinked htask
    simp [reading?, hrunning, hprogress]

theorem isSome_reading?_iff (hf : s.flight? = some f) (hsound : f.Sound)
    (hlinked : s.Linked f) (n : Nat) :
    (s.reading? n).isSome ↔ phase f s.progress n = .reading := by
  rw [Option.isSome_iff_exists]
  simp only [reading?_eq_some_iff hf hsound hlinked]
  constructor
  · rintro ⟨key, ⟨i, htask⟩, hprogress⟩
    simp [phase, htask, hprogress, Phase.of, Progress.phase]
  · intro hphase
    rcases htask : f.tasks n with _ | ⟨key, i, stage⟩
    · simp [phase, htask, Phase.of] at hphase
    · cases stage with
      | running =>
        refine ⟨key, ⟨i, rfl⟩, ?_⟩
        cases hprogress : s.progress n <;>
          simp [phase, htask, hprogress, Phase.of, Progress.phase] at hphase ⊢
      | ended | unregistered | recorded => simp [phase, htask, Phase.of] at hphase

/-- No two reads of one object are pending. -/
theorem nodup_pending (hw : s.Wired) : s.pending.Nodup := by
  obtain ⟨f, hf, hsound, hlinked⟩ := hw.flight
  rw [pending, hf]
  refine List.Nodup.filterMap ?_ List.nodup_range
  intro n m key hn hm
  obtain ⟨⟨i, hi⟩, -⟩ := (reading?_eq_some_iff hf hsound hlinked).mp hn
  obtain ⟨⟨j, hj⟩, -⟩ := (reading?_eq_some_iff hf hsound hlinked).mp hm
  have hregistered := (hsound.tracked.registered?_task hi key).mpr ⟨rfl, rfl⟩
  have hsame := (hsound.tracked.registered?_task hj key).mpr ⟨rfl, rfl⟩
  exact Option.some.inj (hregistered.symm.trans hsame)

theorem length_pending (hf : s.flight? = some f) (hsound : f.Sound) (hlinked : s.Linked f) :
    s.pending.length = census f s.progress .reading := by
  rw [pending, hf]
  dsimp only
  rw [List.length_filterMap_eq_countP, census]
  apply List.countP_congr
  intro n _
  simpa using isSome_reading?_iff hf hsound hlinked n

/-- The request that a step is of. -/
def Action.request? : Action → Option Nat
  | .call i _ => some i
  | .stamp i => some i
  | .route i => some i
  | .look i => some i
  | .enter i => some i
  | .wake i => some i
  | .leave i => some i
  | _ => none

theorem plane_fly_of_step_eq (hf : s.flight? = some f) {b : Coalescer.Action}
    (heq : f.step b = f) : (s.fly b).plane = s.plane := by
  obtain ⟨hc, -⟩ := flight?_eq_some hf
  simp only [fly, hf, heq]
  exact Plane.setCoalescer_self hc

/-- A step of a request that has no load leaves the whole plane as it was. -/
theorem plane_step_of_unrouted (hw : s.Wired) {a : Action} (ha : a.request? = some i)
    (hnone : (s.step a).load? i = none) : (s.step a).plane = s.plane := by
  obtain ⟨f, hf, -, hlinked⟩ := hw.flight
  cases a with
  | call j path =>
    rw [step]
    split <;> rfl
  | stamp j =>
    rw [step]
    split
    · split <;> rfl
    · rfl
  | route j =>
    obtain rfl : j = i := by simpa [Action.request?] using ha
    rw [step] at hnone ⊢
    split
    · next r hrequest =>
      split
      · next load hstage hroute =>
        simp [hrequest, hstage, hroute, load?_setRequest_eq] at hnone
      · rfl
      · rfl
    · rfl
  | look j | enter j | wake j =>
    obtain rfl : j = i := by simpa [Action.request?] using ha
    apply plane_fly_of_step_eq hf
    have hfree := hlinked.callers_eq_none (by simpa [step] using hnone)
    simp [Flight.step, hfree]
  | leave j =>
    obtain rfl : j = i := by simpa [Action.request?] using ha
    rw [step] at hnone ⊢
    split
    · next r hrequest hanswer =>
      simp only [hrequest, hanswer, load?_fly, load?_setRequest_eq, if_true] at hnone
      have hload : s.load? j = none := by simpa [load?, ticket?, hrequest] using hnone
      exact plane_fly_of_step_eq (s := s.setRequest j { r with stage := .left }) hf
        (by simp [Flight.step, hlinked.callers_eq_none hload])
    · rfl
  | lookUp | dispose | ask | read | keep | unregister | record | clear | reload | bump | empty
  | reap | sweep | replace => simp [Action.request?] at ha

/-- Every load that was begun waits for storage, or is no longer registered. -/
def Suspended (s : Service) : Prop :=
  ∀ f ∈ s.flight?, ∀ n < f.coalescer.calls.size,
    phase f s.progress n = .reading ∨ phase f s.progress n = .withdrawn

instance (s : Service) : Decidable s.Suspended :=
  inferInstanceAs (Decidable (∀ f ∈ s.flight?, ∀ n < f.coalescer.calls.size,
    phase f s.progress n = .reading ∨ phase f s.progress n = .withdrawn))

/-- No counter has wrapped. -/
def Unwrapped (s : Service) : Prop :=
  s.bumps < UInt64.size ∧ ∀ f ∈ s.flight?, started f < UInt64.size ∧ joined f < UInt64.size

instance (s : Service) : Decidable s.Unwrapped :=
  inferInstanceAs (Decidable (s.bumps < UInt64.size ∧
    ∀ f ∈ s.flight?, started f < UInt64.size ∧ joined f < UInt64.size))

/-- The load that a request takes part in. -/
def attending? (s : Service) (i : Nat) : Option Nat := s.flight?.bind fun f => f.callOf i

/-- How many requests were routed and take part in no load yet. -/
def entering (s : Service) (h : List Event) : Nat :=
  (routed h).countP fun i => (s.attending? i).isNone

/-- How many reads of storage were completed. -/
def completed (h : List Event) : Nat := h.count (.read true) + h.count (.read false)

/-- What the counters of a plane say of its history, for storage that had been read
`first` times before. -/
structure Accounts (first : UInt64) (s : Service) (h : List Event) (cache : Cache.Stats)
    (coalescer : Coalescer.Stats) : Prop where
  /-- No two reads of one object are pending. -/
  once : s.pending.Nodup
  distinct : (routed h).Nodup
  known : ∀ i, i ∈ routed h ↔ (s.load? i).isSome
  /-- A request that was routed has started a load or joined one, or is on its way there. -/
  calls : coalescer.executions.toNat + coalescer.coalesced.toNat + s.entering h =
    (routed h).length
  /-- The same where nobody is between the router and the coalescer. -/
  entered : (∀ i, (s.load? i).isSome → (s.attending? i).isSome) →
    coalescer.executions.toNat + coalescer.coalesced.toNat = (routed h).length
  lookups : cache.counters.hits.toNat + cache.counters.misses.toNat = coalescer.executions.toNat
  misses : cache.counters.misses.toNat = completed h + s.pending.length
  reads : s.plane.storage.counts.reads = first + .ofNat (completed h + s.pending.length)
  inFlight : coalescer.inFlight = s.pending.length
  /-- Each insert is of content that was kept before any clear came. -/
  inserts : cache.counters.inserts.toNat = h.count (.kept true)
  successes : h.count (.read true) =
    h.count (.kept true) + h.count (.kept false) + h.count .brokeDown

theorem census_eq_zero_of_suspended (hs : s.Suspended) (hf : s.flight? = some f) {x : Phase}
    (hreading : x ≠ .reading) (hwithdrawn : x ≠ .withdrawn) : census f s.progress x = 0 := by
  rw [census, List.countP_eq_zero]
  intro n hn
  rcases hs f hf n (List.mem_range.mp hn) with hphase | hphase
  · simpa [hphase] using hreading.symm
  · simpa [hphase] using hwithdrawn.symm

/-- Where every load in flight waits for storage, its books are those of its reads. -/
theorem Books.suspended (hb : Books (census f s.progress) (started f) (dropped f) h)
    (hs : s.Suspended) (hf : s.flight? = some f) :
    h.count (.looked true) + h.count (.looked false) = started f ∧
      h.count (.looked false) = h.count .asked ∧
      h.count .asked = completed h + census f s.progress .reading ∧
      h.count (.read true) = h.count (.kept true) + h.count (.kept false) + h.count .brokeDown ∧
      census f s.progress .reading + dropped f = started f := by
  obtain ⟨htotal, hwithdrawn, hlooked, hmissed, hreading, hfetched⟩ := hb
  have hbegun := census_eq_zero_of_suspended hs hf (x := .begun) (by simp) (by simp)
  have hexpired := census_eq_zero_of_suspended hs hf (x := .expired) (by simp) (by simp)
  have hmissing := census_eq_zero_of_suspended hs hf (x := .missed) (by simp) (by simp)
  have hread := census_eq_zero_of_suspended hs hf (x := .fetched) (by simp) (by simp)
  have hended := census_eq_zero_of_suspended hs hf (x := .ended) (by simp) (by simp)
  rw [completed]
  omega

/-- A word that counts no more than a number that does not wrap. -/
theorem toNat_eq_of_le {w : UInt64} {m k : Nat} (hw : w = .ofNat m) (hle : m ≤ k)
    (hk : k < UInt64.size) : w.toNat = m := by
  rw [hw]
  exact UInt64.toNat_ofNat_of_lt' (Nat.lt_of_le_of_lt hle hk)

/-- Where every load in flight waits for storage, the counters of a balanced plane agree. -/
theorem Balanced.accounts {first : UInt64} (hb : s.Balanced first h) (hw : s.Wired)
    (hsuspended : s.Suspended) (hunwrapped : s.Unwrapped) :
    ∃ cache coalescer, s.plane.stats.cache = some cache ∧
      s.plane.stats.coalescer = some coalescer ∧ s.Accounts first h cache coalescer := by
  obtain ⟨f, hf, hsound, hlinked⟩ := hw.flight
  obtain ⟨c, hc⟩ := Option.isSome_iff_exists.mp hw.cache
  obtain ⟨hcoalescer, -⟩ := flight?_eq_some hf
  obtain ⟨hbooks, ⟨hdistinct, hcalls⟩, -⟩ := hb.manned f hf
  obtain ⟨hlooked, hmissed, hasked, hsuccesses, htotal⟩ := hbooks.suspended hsuspended hf
  have hpending := length_pending hf hsound hlinked
  have hread : h.count (.read true) ≤ completed h := Nat.le_add_right _ _
  obtain ⟨hstarted, hjoined⟩ := hunwrapped.2 f hf
  have hhits := toNat_eq_of_le (hb.tallied.hits c hc) (by omega) hstarted
  have hmisses := toNat_eq_of_le (hb.tallied.misses c hc) (by omega) hstarted
  have hinserts := toNat_eq_of_le (hb.tallied.inserts c hc) (by omega) hstarted
  have hexecutions : f.coalescer.executions.toNat = started f :=
    toNat_eq_of_le hsound.counted.executions (Nat.le_refl _) hstarted
  have hcoalesced : f.coalescer.coalesced.toNat = joined f :=
    toNat_eq_of_le hsound.counted.coalesced (Nat.le_refl _) hjoined
  have hinFlight : f.coalescer.inFlight + dropped f = started f := hsound.counted.inFlight
  have hattending : ∀ i, s.attending? i = f.callOf i := by simp [attending?, hf]
  have hcallers : f.coalescer.executions.toNat + f.coalescer.coalesced.toNat + s.entering h =
      (routed h).length := by
    simp only [entering, hattending, hexecutions, hcoalesced]
    exact hcalls
  refine ⟨c.stats, f.coalescer.stats, by simp [Plane.stats, hc], by simp [Plane.stats, hcoalescer],
    nodup_pending hw, hdistinct, hb.known, hcallers, ?_, ?_, ?_, ?_, ?_, hinserts, hsuccesses⟩
  · intro hentered
    have hnobody : s.entering h = 0 := by
      rw [entering, List.countP_eq_zero]
      intro i hi
      simpa [Option.isSome_iff_ne_none] using hentered i ((hb.known i).mp hi)
    rw [hnobody] at hcallers
    exact hcallers
  · change c.counters.hits.toNat + c.counters.misses.toNat = f.coalescer.executions.toNat
    omega
  · change c.counters.misses.toNat = _
    omega
  · rw [hb.tallied.reads, hasked, hpending]
  · change f.coalescer.inFlight = _
    omega

/-- After any history that leaves every load in flight waiting for storage, and in which no
counter wrapped, the counters agree with what happened.  No loader broke down if the clock
could represent every expiry, so that every content read was kept then; and no step of a
request that is not routed changes the plane. -/
theorem accounts_run (storage : Storage) (root : RouteTree) (config : Cache.Config) (shards : Nat)
    (ttl : Duration) (actions : List Action)
    (hsuspended : ((start storage root (some config) (some shards) ttl).run actions).Suspended)
    (hunwrapped : ((start storage root (some config) (some shards) ttl).run actions).Unwrapped) :
    let s := start storage root (some config) (some shards) ttl
    (∃ cache coalescer, (s.run actions).plane.stats.cache = some cache ∧
      (s.run actions).plane.stats.coalescer = some coalescer ∧
      (s.run actions).Accounts storage.counts.reads (s.events actions) cache coalescer) ∧
    ((∀ n now later, .keep n now later ∈ actions → (now.add? ttl).isSome) →
      (s.events actions).count (.read true) =
        (s.events actions).count (.kept true) + (s.events actions).count (.kept false)) ∧
    ∀ before a after i, actions = before ++ a :: after → a.request? = some i →
      (s.run (before ++ [a])).load? i = none →
      (s.run (before ++ [a])).plane = (s.run before).plane := by
  intro s
  have hb := balanced_run storage root config shards ttl actions hunwrapped.1
  have hw := wired_run storage root config shards ttl actions
  obtain ⟨cache, coalescer, hcache, hcoalescer, haccounts⟩ :=
    hb.accounts hw hsuspended hunwrapped
  refine ⟨⟨cache, coalescer, hcache, hcoalescer, haccounts⟩, ?_, ?_⟩
  · intro httl
    have hnone := List.count_eq_zero.mpr
      (brokeDown_not_mem storage root config shards ttl actions httl)
    have hsuccesses := haccounts.successes
    rw [hnone, Nat.add_zero] at hsuccesses
    exact hsuccesses
  · intro before a after i _ ha hload
    have hrun : s.run (before ++ [a]) = (s.run before).step a := by simp [run]
    rw [hrun] at hload ⊢
    exact plane_step_of_unrouted (wired_run storage root config shards ttl before) ha hload

/-- One object is read and kept, and then served from the cache; the read of another is
pending, with two requests waiting for it; a path has no route. -/
def pendingHistory : List Action :=
  [.call 0 "/x", .stamp 0, .route 0, .look 0, .enter 0, .lookUp 0 ⟨0⟩, .ask 0, .read 0,
    .keep 0 ⟨0⟩ ⟨0⟩, .unregister 0, .record 0, .wake 0,
    .call 1 "/x", .stamp 1, .route 1, .look 1, .enter 1, .lookUp 1 ⟨0⟩, .unregister 1, .record 1,
    .call 2 "/y", .stamp 2, .route 2, .look 2, .enter 2, .lookUp 2 ⟨0⟩, .ask 2,
    .call 3 "/y", .stamp 3, .route 3, .look 3, .leave 3, .call 4 "/z", .stamp 4, .route 4]

/-- A plane with two routes, to an object and to one that is missing. -/
def pendingStart : Service :=
  start (Storage.inMemory.insert "a" [1])
    ((RouteTree.empty.insertPath "/x" (.new "a" ⟨0⟩)).insertPath "/y" (.new "b" ⟨0⟩))
    (some { capacity := 1 }) (some 2) (.ofSecs 60)

theorem accounts_of_pendingHistory :
    (pendingStart.run pendingHistory).pending = ["b"] ∧
      (pendingStart.run pendingHistory).plane.stats.coalescer = some ⟨3, 1, 1⟩ ∧
      ((pendingStart.run pendingHistory).plane.stats.cache.map fun c =>
        (c.counters.hits, c.counters.misses, c.counters.inserts)) = some (1, 2, 1) ∧
      ∃ cache coalescer, (pendingStart.run pendingHistory).plane.stats.cache = some cache ∧
        (pendingStart.run pendingHistory).plane.stats.coalescer = some coalescer ∧
        (pendingStart.run pendingHistory).Accounts 0 (pendingStart.events pendingHistory)
          cache coalescer := by
  have hsuspended : (pendingStart.run pendingHistory).Suspended := by decide +kernel
  have hunwrapped : (pendingStart.run pendingHistory).Unwrapped := by decide +kernel
  refine ⟨by decide +kernel, by decide +kernel, by decide +kernel, ?_⟩
  exact (accounts_run _ _ { capacity := 1 } 2 (.ofSecs 60) pendingHistory hsuspended
    hunwrapped).1

/-- Whether a step ends a read that succeeds, with no clear since its request read the epoch. -/
def endsInTime (s : Service) : Action → Bool
  | .read n => s.event? (.read n) == some (.read true) &&
      (s.running? n).any fun loader => s.isCurrent loader.1
  | _ => false

/-- How many reads of a run succeeded with no clear since their requests read the epoch. -/
def timely (s : Service) : List Action → Nat
  | [] => 0
  | a :: rest => (if s.endsInTime a then 1 else 0) + (s.step a).timely rest

/-- A request that was routed and has not come to the coalescer yet. -/
def arrivingHistory : List Action := [.call 0 "/x", .stamp 0, .route 0]

/-- A read ends before a clear, and what it brought comes to the cache after it. -/
def overtakenHistory : List Action :=
  [.call 0 "/x", .stamp 0, .route 0, .look 0, .enter 0, .lookUp 0 ⟨0⟩, .ask 0, .read 0,
    .clear 0, .bump 0, .keep 0 ⟨0⟩ ⟨0⟩, .unregister 0]

/-- Between the router and the coalescer a request shows in no counter, and a read that ended in
time need not lead to an insert. -/
theorem unbalanced_midway :
    ((pendingStart.run arrivingHistory).Suspended ∧ (pendingStart.run arrivingHistory).Unwrapped ∧
      (routed (pendingStart.events arrivingHistory)).length = 1 ∧
      (pendingStart.run arrivingHistory).plane.stats.coalescer = some ⟨0, 0, 0⟩) ∧
    (pendingStart.run overtakenHistory).Suspended ∧ (pendingStart.run overtakenHistory).Unwrapped ∧
      (∀ n now later, .keep n now later ∈ overtakenHistory → (now.add? (.ofSecs 60)).isSome) ∧
      pendingStart.timely overtakenHistory = 1 ∧
      (pendingStart.run overtakenHistory).plane.stats.cache.map (·.counters.inserts) = some 0 := by
  refine ⟨⟨by decide +kernel, by decide +kernel, by decide +kernel, by decide +kernel⟩,
    by decide +kernel, by decide +kernel, ?_, by decide +kernel, by decide +kernel⟩
  intro n now later hmem
  obtain ⟨rfl, rfl, rfl⟩ : n = 0 ∧ now = ⟨0⟩ ∧ later = ⟨0⟩ := by
    simpa [overtakenHistory] using hmem
  decide

end ArtifactPlane.Service
