import ArtifactPlane.Coalescer.Session
import ArtifactPlane.Proofs.Coalescer.Flight

/-!
The number of shards is not observed.  Two coalescers are run side by side that differ in
their number of shards.  They hold the same registrations divided in two ways, so a lookup, a
registration and the late removal of a registration say and do the same in both, whether or
not other keys share the shard.

`Resharded` is the relation that each operation keeps.  From it follow both runs: that of a
session, one whole call at a time, and that of a flight, one critical section at a time.
-/

namespace ArtifactPlane.Coalescer

/-- Two coalescers with the same loads, whose registrations may be divided in two ways. -/
structure Resharded (c d : Coalescer) : Prop where
  left : c.WellPlaced
  right : d.WellPlaced
  registered? : ∀ key, c.registered? key = d.registered? key
  inFlight : c.inFlight = d.inFlight
  calls : c.calls = d.calls
  executions : c.executions = d.executions
  coalesced : c.coalesced = d.coalesced

namespace Resharded

variable {c d : Coalescer}

theorem ofShards (m n : Nat) : Resharded (ofShards m) (ofShards n) where
  left := wellPlaced_ofShards m
  right := wellPlaced_ofShards n
  registered? key := (registered?_ofShards m key).trans (registered?_ofShards n key).symm
  inFlight := (inFlight_ofShards m).trans (inFlight_ofShards n).symm
  calls := rfl
  executions := rfl
  coalesced := rfl

theorem call (h : Resharded c d) (n : Nat) : c.call n = d.call n := by
  rw [Coalescer.call, Coalescer.call, h.calls]

theorem stats (h : Resharded c d) : c.stats = d.stats := by
  rw [Coalescer.stats, Coalescer.stats, h.executions, h.coalesced, h.inFlight]

/-- A caller joins in both. -/
theorem join (h : Resharded c d) :
    Resharded { c with coalesced := c.coalesced + 1 } { d with coalesced := d.coalesced + 1 } where
  left := ⟨h.left.shardCount_pos, h.left.shardOf_eq, h.left.keys_nodup⟩
  right := ⟨h.right.shardCount_pos, h.right.shardOf_eq, h.right.keys_nodup⟩
  registered? := h.registered?
  inFlight := h.inFlight
  calls := h.calls
  executions := h.executions
  coalesced := congrArg (· + 1) h.coalesced

/-- A load begins in both, and under the same number. -/
theorem lead (h : Resharded c d) {key : String} (hfree : c.registered? key = none) :
    (c.lead key).1 = (d.lead key).1 ∧ Resharded (c.lead key).2 (d.lead key).2 := by
  refine ⟨congrArg Array.size h.calls, ?_⟩
  exact
    { left := h.left.lead hfree
      right := h.right.lead (h.registered? key ▸ hfree)
      registered? := by
        intro k
        rw [h.left.registered?_lead, h.right.registered?_lead, h.registered?, h.calls]
      inFlight := by rw [h.left.inFlight_lead, h.right.inFlight_lead, h.inFlight]
      calls := congrArg (·.push Call.new) h.calls
      executions := congrArg (· + 1) h.executions
      coalesced := h.coalesced }

/-- A registration goes from both, or neither has it. -/
theorem unregister (h : Resharded c d) (key : String) (n : Nat) :
    Resharded (c.unregister key n) (d.unregister key n) := by
  by_cases hn : c.registered? key = some n
  · have hn' : d.registered? key = some n := h.registered? key ▸ hn
    have hc := h.left.inFlight_unregister hn
    have hd := h.right.inFlight_unregister hn'
    exact
      { left := h.left.unregister key n
        right := h.right.unregister key n
        registered? := by
          intro k
          rw [h.left.registered?_unregister, h.right.registered?_unregister, h.registered?,
            h.registered?]
        inFlight := Nat.add_right_cancel (hc.trans (h.inFlight.trans hd.symm))
        calls := h.calls
        executions := h.executions
        coalesced := h.coalesced }
  · rw [h.left.unregister_of_ne hn, h.right.unregister_of_ne (h.registered? key ▸ hn)]
    exact h

theorem record (h : Resharded c d) (n : Nat) (r : Loaded) :
    Resharded (c.record n r) (d.record n r) where
  left := h.left.record n r
  right := h.right.record n r
  registered? := h.registered?
  inFlight := h.inFlight
  calls := congrArg (·.modify n (·.complete r)) h.calls
  executions := h.executions
  coalesced := h.coalesced

theorem finish (h : Resharded c d) (key : String) (n : Nat) (e : Ending) :
    Resharded (c.finish key n e) (d.finish key n e) :=
  (h.unregister key n).record n _

/-- A caller plays the same role in both, in the same load. -/
theorem enter (h : Resharded c d) (key : String) :
    ∃ role n c' d', c.enter key = (role, n, c') ∧ d.enter key = (role, n, d') ∧
      Resharded c' d' := by
  cases hkey : c.registered? key with
  | some n =>
    exact ⟨.joined, n, _, _, enter_of_registered hkey,
      enter_of_registered (h.registered? key ▸ hkey), h.join⟩
  | none =>
    obtain ⟨hnumber, hled⟩ := h.lead hkey
    refine ⟨.leading, c.calls.size, _, _, enter_of_free hkey, ?_, hled⟩
    rw [enter_of_free (h.registered? key ▸ hkey), h.calls]

end Resharded

namespace Session

/-- What a script has happen to a session. -/
inductive Event where
  | arrive (id key : String) (ending : Option Ending)
  | tell (id : String) (e : Ending)
  | leave (id : String)

/-- What is seen of a session in a step. -/
structure View where
  /-- Whether there was a loader to be told, or a caller to leave. -/
  found : Option Bool
  report : Report
  stats : Stats

def handle (s : Session) : Event → Option Bool × Report × Session
  | .arrive id key ending => (none, s.arrive id key ending)
  | .tell id e => ((s.tell id e).1, (s.tell id e).2)
  | .leave id => ((s.leave id).1, ⟨[], []⟩, (s.leave id).2)

/-- What is seen of a session, one step after the other. -/
def views (s : Session) : List Event → List View
  | [] => []
  | event :: events =>
    let (found, report, next) := s.handle event
    ⟨found, report, next.coalescer.stats⟩ :: next.views events

/-- Two sessions that differ at most in the shards of their coalescers. -/
def Resharded (s t : Session) : Prop :=
  ∃ d, s.coalescer.Resharded d ∧ t = { s with coalescer := d }

namespace Resharded

variable {s t : Session}

theorem of_coalescer (next : Session) {c d : Coalescer} (hcd : c.Resharded d)
    (hnext : next.coalescer = c) : Resharded next { next with coalescer := d } :=
  ⟨d, hnext ▸ hcd, rfl⟩

theorem start (m n : Nat) : Resharded (start (ofShards m)) (start (ofShards n)) :=
  of_coalescer _ (.ofShards m n) rfl

theorem stats (h : Resharded s t) : s.coalescer.stats = t.coalescer.stats := by
  obtain ⟨d, hd, rfl⟩ := h
  exact hd.stats

/-- Results go to the same callers. -/
theorem deliver (h : Resharded s t) (started : List String) :
    (s.deliver started).1 = (t.deliver started).1 ∧
      Resharded (s.deliver started).2 (t.deliver started).2 := by
  obtain ⟨d, hd, rfl⟩ := h
  have houtcome : (fun w : Waiter => (d.call w.call).outcome? w.key) =
      fun w => (s.coalescer.call w.call).outcome? w.key := by
    funext w
    rw [hd.call]
  simp only [Session.deliver, houtcome, true_and]
  exact ⟨d, hd, rfl⟩

theorem finish (h : Resharded s t) (key : String) (n : Nat) (e : Ending) :
    Resharded (s.finish key n e) (t.finish key n e) := by
  obtain ⟨d, hd, rfl⟩ := h
  exact ⟨_, hd.finish key n e, rfl⟩

theorem arrive (h : Resharded s t) (id key : String) (ending : Option Ending) :
    (s.arrive id key ending).1 = (t.arrive id key ending).1 ∧
      Resharded (s.arrive id key ending).2 (t.arrive id key ending).2 := by
  obtain ⟨d, hd, rfl⟩ := h
  obtain ⟨role, n, c', d', hc', hd', hentered⟩ := hd.enter key
  simp only [Session.arrive, hc', hd']
  cases role with
  | joined => cases ending <;> exact (of_coalescer _ hentered rfl).deliver []
  | leading =>
    cases ending with
    | some e => exact ((of_coalescer _ hentered rfl).finish key n e).deliver [id]
    | none => exact (of_coalescer _ hentered rfl).deliver [id]

theorem tell (h : Resharded s t) (id : String) (e : Ending) :
    (s.tell id e).1 = (t.tell id e).1 ∧ (s.tell id e).2.1 = (t.tell id e).2.1 ∧
      Resharded (s.tell id e).2.2 (t.tell id e).2.2 := by
  obtain ⟨d, hd, rfl⟩ := h
  simp only [Session.tell]
  cases s.running.find? (·.owner == id) with
  | some load =>
    have htold := of_coalescer { s with running := s.running.filter (·.owner != id) } hd rfl
    exact ⟨rfl, (htold.finish load.key load.call e).deliver []⟩
  | none =>
    have htold := of_coalescer { s with idle := s.idle.filter (· != id) } hd rfl
    exact ⟨rfl, htold.deliver []⟩

theorem leave (h : Resharded s t) (id : String) :
    (s.leave id).1 = (t.leave id).1 ∧ Resharded (s.leave id).2 (t.leave id).2 := by
  obtain ⟨d, hd, rfl⟩ := h
  exact ⟨rfl, d, hd, rfl⟩

/-- An event is answered alike. -/
theorem handle (h : Resharded s t) (event : Event) :
    (s.handle event).1 = (t.handle event).1 ∧ (s.handle event).2.1 = (t.handle event).2.1 ∧
      Resharded (s.handle event).2.2 (t.handle event).2.2 := by
  cases event with
  | arrive id key ending => exact ⟨rfl, h.arrive id key ending⟩
  | tell id e => exact (h.tell id e).imp_left (congrArg some)
  | leave id =>
    obtain ⟨hfound, hleft⟩ := h.leave id
    exact ⟨congrArg some hfound, rfl, hleft⟩

theorem views (h : Resharded s t) (events : List Event) : s.views events = t.views events := by
  induction events generalizing s t with
  | nil => rfl
  | cons event events ih =>
    obtain ⟨hfound, hreport, hnext⟩ := h.handle event
    simp only [Session.views]
    rw [hfound, hreport, hnext.stats, ih hnext]

end Resharded

end Session

namespace Flight

/-- Two flights that differ at most in the shards of their coalescers. -/
def Resharded (f g : Flight) : Prop :=
  ∃ d, f.coalescer.Resharded d ∧ g = { f with coalescer := d }

namespace Resharded

variable {f g : Flight}

theorem start (m n : Nat) : Resharded (start m) (start n) := ⟨_, .ofShards m n, rfl⟩

theorem ledger (h : Resharded f g) : f.toLedger = g.toLedger := by
  obtain ⟨d, -, rfl⟩ := h
  rfl

theorem stats (h : Resharded f g) : f.coalescer.stats = g.coalescer.stats := by
  obtain ⟨d, hd, rfl⟩ := h
  exact hd.stats

theorem look (h : Resharded f g) (i : Nat) :
    Resharded (f.step (.look i)) (g.step (.look i)) := by
  obtain ⟨d, hd, rfl⟩ := h
  simp only [Flight.step, join?, ← hd.registered?]
  split
  · next key _ =>
    cases f.coalescer.registered? key with
    | some n => exact ⟨_, hd.join, rfl⟩
    | none => exact ⟨d, hd, rfl⟩
  · exact ⟨d, hd, rfl⟩

theorem enter (h : Resharded f g) (i : Nat) :
    Resharded (f.step (.enter i)) (g.step (.enter i)) := by
  obtain ⟨d, hd, rfl⟩ := h
  simp only [Flight.step, joinOrLead, join?, ← hd.registered?]
  split
  · next key _ =>
    cases hkey : f.coalescer.registered? key with
    | some n => exact ⟨_, hd.join, rfl⟩
    | none =>
      obtain ⟨hnumber, hled⟩ := hd.lead hkey
      simp only [Option.map_none, ← hnumber]
      exact ⟨_, hled, rfl⟩
  · exact ⟨d, hd, rfl⟩

/-- A caller is given its result alike. -/
theorem wake (h : Resharded f g) (i : Nat) :
    Resharded (f.step (.wake i)) (g.step (.wake i)) := by
  obtain ⟨d, hd, rfl⟩ := h
  simp only [Flight.step, ← hd.call]
  split
  · split <;> exact ⟨d, hd, rfl⟩
  · exact ⟨d, hd, rfl⟩

theorem step (h : Resharded f g) (a : Action) : Resharded (f.step a) (g.step a) := by
  cases a with
  | look i => exact h.look i
  | enter i => exact h.enter i
  | wake i => exact h.wake i
  | arrive i key | leave i | finish n e =>
    obtain ⟨d, hd, rfl⟩ := h
    simp only [Flight.step]
    split <;> exact ⟨d, hd, rfl⟩
  | unregister n =>
    obtain ⟨d, hd, rfl⟩ := h
    simp only [Flight.step]
    split
    · exact ⟨_, hd.unregister _ n, rfl⟩
    · exact ⟨d, hd, rfl⟩
  | record n =>
    obtain ⟨d, hd, rfl⟩ := h
    simp only [Flight.step]
    split
    · exact ⟨_, hd.record n _, rfl⟩
    · exact ⟨d, hd, rfl⟩

theorem run (h : Resharded f g) (actions : List Action) :
    Resharded (f.run actions) (g.run actions) := by
  induction actions generalizing f g with
  | nil => exact h
  | cons a actions ih => exact ih (h.step a)

end Resharded

end Flight

/-- Nobody can tell the one number of shards from the other. -/
structure Unobservable (m n : Nat) : Prop where
  /-- In each step of a script the same loaders begin, the same callers are given the same
  results, and the counters say the same. -/
  scripts : ∀ events, (Session.start (ofShards m)).views events =
    (Session.start (ofShards n)).views events
  /-- After any order of critical sections, so at each of its points, the callers and tasks
  are equally far and have the same results, with the same log and the same counters. -/
  histories : ∀ actions,
    ((Flight.start m).run actions).toLedger = ((Flight.start n).run actions).toLedger ∧
      ((Flight.start m).run actions).coalescer.stats =
        ((Flight.start n).run actions).coalescer.stats

/-- The number of shards is not observed, be it one, many, or none, which is read as one. -/
theorem unobservable_shards (m n : Nat) : Unobservable m n where
  scripts events := (Session.Resharded.start m n).views events
  histories actions :=
    have h := (Flight.Resharded.start m n).run actions
    ⟨h.ledger, h.stats⟩

end ArtifactPlane.Coalescer
