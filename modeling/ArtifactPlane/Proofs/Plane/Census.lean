import ArtifactPlane.Proofs.Plane.Wiring

/-!
A census of loaders.  Every task of a coalescer is in one phase; a loader goes from phase to
phase by the turns of `Turn`, each with the event that it adds to the history of the plane.
So the events of each kind and the tasks in each phase determine one another: `Books` says
how, `Books.turn` that a turn of a loader keeps it, and `Books.moves` that a step of the
coalescer does.
-/

namespace ArtifactPlane.Service

open Coalescer (Flight Task)

variable {f g : Flight} {progress progress' : Nat → Progress} {i n : Nat}

/-- What a task is at. -/
inductive Phase where
  | begun
  | expired
  | missed
  | reading
  | fetched
  /-- The loader has ended, and the load is still registered. -/
  | ended
  /-- The load is no longer registered. -/
  | withdrawn
deriving DecidableEq

def Progress.phase : Progress → Phase
  | .begun => .begun
  | .expired _ => .expired
  | .missed => .missed
  | .reading => .reading
  | .fetched _ => .fetched

/-- The phase of a task whose loader has come so far. -/
def Phase.of : Option Task → Progress → Phase
  | some ⟨_, _, .running⟩, p => p.phase
  | some ⟨_, _, .ended _⟩, _ => .ended
  | _, _ => .withdrawn

def phase (f : Flight) (progress : Nat → Progress) (n : Nat) : Phase :=
  .of (f.tasks n) (progress n)

/-- How many tasks are in a phase. -/
def census (f : Flight) (progress : Nat → Progress) (x : Phase) : Nat :=
  (List.range f.coalescer.calls.size).countP fun n => phase f progress n = x

/-- Where a test changes at one number only, the count changes by that one. -/
theorem countP_update {l : List Nat} (hl : l.Nodup) (hn : n ∈ l) {p q : Nat → Bool}
    (hrest : ∀ m, m ≠ n → q m = p m) :
    l.countP q + (if p n then 1 else 0) = l.countP p + (if q n then 1 else 0) := by
  induction l with
  | nil => simp at hn
  | cons m l ih =>
    obtain ⟨hm, hl⟩ := List.nodup_cons.mp hl
    rw [List.countP_cons, List.countP_cons]
    rcases List.mem_cons.mp hn with rfl | hn
    · have htail : l.countP q = l.countP p := by
        apply List.countP_congr
        intro k hk
        rw [hrest k fun h => hm (h ▸ hk)]
      omega
    · have hne : m ≠ n := fun h => hm (h ▸ hn)
      have htail := ih hl hn
      rw [hrest m hne]
      omega

/-- A task that changes its phase leaves one and enters the other. -/
theorem census_update (hsize : g.coalescer.calls.size = f.coalescer.calls.size)
    (hn : n < f.coalescer.calls.size)
    (hrest : ∀ m, m ≠ n → phase g progress' m = phase f progress m) (x : Phase) :
    census g progress' x + (if phase f progress n = x then 1 else 0) =
      census f progress x + (if phase g progress' n = x then 1 else 0) := by
  have hcount := countP_update List.nodup_range (List.mem_range.mpr hn)
    (p := fun m => decide (phase f progress m = x)) (q := fun m => decide (phase g progress' m = x))
    fun m hm => by rw [hrest m hm]
  simpa [census, hsize] using hcount

/-- A task that stays where it is stays in its phase. -/
theorem phase_congr (htask : g.tasks n = f.tasks n) (hsame : progress' n = progress n) :
    phase g progress' n = phase f progress n := by
  rw [phase, phase, htask, hsame]

/-- A task moves on, with what it does to the coalescer. -/
theorem census_advance (ht : f.Tracked) {t : Task} (htask : f.tasks n = some t) (u : Task)
    (c : Coalescer) (hsize : c.calls.size = f.coalescer.calls.size) (x : Phase) :
    census (f.advance n u c) progress x + (if .of (some t) (progress n) = x then 1 else 0) =
      census f progress x + (if .of (some u) (progress n) = x then 1 else 0) := by
  have hrest : ∀ m, m ≠ n → phase (f.advance n u c) progress m = phase f progress m :=
    fun m hm => phase_congr (Roster.put_of_ne hm _) rfl
  have hupdate := census_update (g := f.advance n u c) hsize (ht.lt_size htask) hrest x
  have hafter : (f.advance n u c).tasks n = some u := Roster.put_self _ _ _
  rwa [phase, phase, htask, hafter] at hupdate

/-- A task that is launched begins. -/
theorem census_launch {key : String} {c : Coalescer}
    (hsize : c.calls.size = f.coalescer.calls.size + 1)
    (hfresh : progress f.coalescer.calls.size = .begun) (x : Phase) :
    census (f.launch i key f.coalescer.calls.size c) progress x =
      census f progress x + (if .begun = x then 1 else 0) := by
  let g := f.launch i key f.coalescer.calls.size c
  have hgsize : g.coalescer.calls.size = f.coalescer.calls.size + 1 := hsize
  have hnew : phase g progress f.coalescer.calls.size = .begun := by
    have htask : g.tasks f.coalescer.calls.size = some ⟨key, i, .running⟩ := Roster.put_self _ _ _
    simp [phase, htask, hfresh, Phase.of, Progress.phase]
  have hold : ∀ m ∈ List.range f.coalescer.calls.size,
      decide (phase g progress m = x) = true ↔ decide (phase f progress m = x) = true := by
    intro m hm
    have hne : m ≠ f.coalescer.calls.size := Nat.ne_of_lt (List.mem_range.mp hm)
    have hsame : phase g progress m = phase f progress m :=
      phase_congr (Roster.put_of_ne hne _) rfl
    rw [hsame]
  change census g progress x = _
  rw [census, hgsize, List.range_succ, List.countP_append, List.countP_congr hold, census]
  simp [hnew]

/-- What a step of a plane adds to its history. -/
inductive Event where
  /-- A request was routed. -/
  | routed (i : Nat)
  /-- A loader looked into the cache. -/
  | looked (hit : Bool)
  /-- A loader began to read storage. -/
  | asked
  /-- A read of storage was completed. -/
  | read (succeeded : Bool)
  /-- A loader kept what it had read; whether no clear came since its request read the
  epoch. -/
  | kept (current : Bool)
  /-- A loader broke down over what it had read. -/
  | brokeDown
deriving DecidableEq

/-- The request that was routed. -/
def Event.request? : Event → Option Nat
  | .routed i => some i
  | _ => none

/-- The requests that were routed, in order. -/
def routed (h : List Event) : List Nat := h.filterMap Event.request?

/-- From which phase to which a loader goes in one step, and what that adds to the
history. -/
inductive Turn : Phase → Phase → Option Event → Prop where
  | hit : Turn .begun .ended (some (.looked true))
  | expire : Turn .begun .expired (some (.looked false))
  | miss : Turn .begun .missed (some (.looked false))
  | dispose : Turn .expired .missed none
  | ask : Turn .missed .reading (some .asked)
  | fetch : Turn .reading .fetched (some (.read true))
  | fail : Turn .reading .ended (some (.read false))
  | keep (current : Bool) : Turn .fetched .ended (some (.kept current))
  | breakDown : Turn .fetched .ended (some .brokeDown)

/-- No request is routed by a turn of a loader. -/
theorem Turn.routed {a b : Phase} {event : Option Event} (h : Turn a b event)
    (history : List Event) : routed (history ++ event.toList) = routed history := by
  cases h <;> simp [Service.routed, Event.request?]

/-- What a turn changes, on either side of what the books say: the phase that is left, the phase
that is entered, and the event that is added. -/
structure Turn.Balance (a b : Phase) (event : Option Event) : Prop where
  withdrawn : a ≠ .withdrawn ∧ b ≠ .withdrawn
  looked : (if event = some (.looked true) then 1 else 0) +
    (if event = some (.looked false) then 1 else 0) + (if b = .begun then 1 else 0) =
      if a = .begun then 1 else 0
  missed : (if event = some (.looked false) then 1 else 0) + (if a = .expired then 1 else 0) +
    (if a = .missed then 1 else 0) =
      (if event = some .asked then 1 else 0) + (if b = .expired then 1 else 0) +
        if b = .missed then 1 else 0
  reading : (if event = some .asked then 1 else 0) + (if a = .reading then 1 else 0) =
    (if event = some (.read true) then 1 else 0) + (if event = some (.read false) then 1 else 0) +
      if b = .reading then 1 else 0
  fetched : (if event = some (.read true) then 1 else 0) + (if a = .fetched then 1 else 0) =
    (if event = some (.kept true) then 1 else 0) + (if event = some (.kept false) then 1 else 0) +
      (if event = some .brokeDown then 1 else 0) + if b = .fetched then 1 else 0

theorem Turn.balance {a b : Phase} {event : Option Event} (h : Turn a b event) :
    Turn.Balance a b event := by
  cases h with
  | keep current => cases current <;> constructor <;> decide
  | hit | expire | miss | dispose | ask | fetch | fail | breakDown => constructor <;> decide

/-- A task is in one phase. -/
theorem Phase.sum_eq_one (a : Phase) :
    (if a = .begun then 1 else 0) + (if a = .expired then 1 else 0) +
      (if a = .missed then 1 else 0) + (if a = .reading then 1 else 0) +
      (if a = .fetched then 1 else 0) + (if a = .ended then 1 else 0) +
      (if a = .withdrawn then 1 else 0) = 1 := by
  cases a <;> decide

theorem count_add (h : List Event) (event : Option Event) (x : Event) :
    (h ++ event.toList).count x = h.count x + if event = some x then 1 else 0 := by
  cases event with
  | none => simp
  | some e => by_cases he : e = x <;> simp [List.count_append, he]

/-- The numbers of tasks in each phase agree with a history in which some loads were started,
and some were unregistered. -/
structure Books (tasks : Phase → Nat) (starts drops : Nat) (h : List Event) : Prop where
  total : tasks .begun + tasks .expired + tasks .missed + tasks .reading + tasks .fetched +
    tasks .ended + tasks .withdrawn = starts
  withdrawn : tasks .withdrawn = drops
  looked : h.count (.looked true) + h.count (.looked false) + tasks .begun = starts
  missed : h.count (.looked false) = h.count .asked + tasks .expired + tasks .missed
  reading : h.count .asked = h.count (.read true) + h.count (.read false) + tasks .reading
  fetched : h.count (.read true) =
    h.count (.kept true) + h.count (.kept false) + h.count .brokeDown + tasks .fetched

namespace Books

variable {tasks tasks' : Phase → Nat} {starts drops : Nat} {h : List Event}

theorem congr (hb : Books tasks starts drops h) (hsame : ∀ x, tasks' x = tasks x) :
    Books tasks' starts drops h := by
  rwa [funext hsame]

/-- A request that was routed does not show in any count of loaders. -/
theorem routed (hb : Books tasks starts drops h) (i : Nat) :
    Books tasks starts drops (h ++ (some (Event.routed i)).toList) := by
  obtain ⟨htotal, hwithdrawn, hlooked, hmissed, hreading, hfetched⟩ := hb
  constructor <;> simpa [count_add]

/-- A turn of a loader. -/
theorem turn (hb : Books tasks starts drops h) {a b : Phase} {event : Option Event}
    (hturn : Turn a b event)
    (htasks : ∀ x, tasks' x + (if a = x then 1 else 0) = tasks x + (if b = x then 1 else 0)) :
    Books tasks' starts drops (h ++ event.toList) := by
  obtain ⟨htotal, hwithdrawn, hlooked, hmissed, hreading, hfetched⟩ := hb
  obtain ⟨⟨hleft, hentered⟩, hlook, hmiss, hask, hfetch⟩ := hturn.balance
  have hbegun := htasks .begun
  have hexpired := htasks .expired
  have hmissing := htasks .missed
  have hasking := htasks .reading
  have hread := htasks .fetched
  have hended := htasks .ended
  have hdone := htasks .withdrawn
  refine ⟨?_, ?_, ?_, ?_, ?_, ?_⟩
  · have hbefore := a.sum_eq_one
    have hafter := b.sum_eq_one
    omega
  · rw [if_neg hleft, if_neg hentered] at hdone
    omega
  · simp only [count_add]
    omega
  · simp only [count_add]
    omega
  · simp only [count_add]
    omega
  · simp only [count_add]
    omega

/-- A load is started. -/
theorem launch (hb : Books tasks starts drops h)
    (htasks : ∀ x, tasks' x = tasks x + (if .begun = x then 1 else 0)) :
    Books tasks' (starts + 1) drops h := by
  obtain ⟨htotal, hwithdrawn, hlooked, hmissed, hreading, hfetched⟩ := hb
  constructor <;> simp [htasks] <;> omega

/-- A load is unregistered. -/
theorem unregister (hb : Books tasks starts drops h)
    (htasks : ∀ x, tasks' x + (if .ended = x then 1 else 0) =
      tasks x + (if .withdrawn = x then 1 else 0)) : Books tasks' starts (drops + 1) h := by
  obtain ⟨htotal, hwithdrawn, hlooked, hmissed, hreading, hfetched⟩ := hb
  have hbegun := htasks .begun
  have hexpired := htasks .expired
  have hmissing := htasks .missed
  have hasking := htasks .reading
  have hread := htasks .fetched
  have hended := htasks .ended
  have hdone := htasks .withdrawn
  simp at hbegun hexpired hmissing hasking hread hended hdone
  constructor <;> omega

end Books

/-- How many loads a flight has started. -/
def started (f : Flight) : Nat := f.log.countP Coalescer.Event.isStart

/-- How often a caller of a flight has joined a load. -/
def joined (f : Flight) : Nat := f.log.countP Coalescer.Event.isJoin

/-- How many loads of a flight were unregistered. -/
def dropped (f : Flight) : Nat := f.log.countP Coalescer.Event.isUnregistration

/-- A caller that begins to wait for a load adds one to the loads started, or to the joins. -/
theorem counts_attach (f : Flight) (i : Nat) (key : String) (role : Coalescer.Role) (n : Nat)
    (c : Coalescer) :
    started (f.attach i key role n c) = started f + (if role = .leading then 1 else 0) ∧
      joined (f.attach i key role n c) = joined f + (if role = .joined then 1 else 0) ∧
      dropped (f.attach i key role n c) = dropped f := by
  have hdropped : dropped (f.attach i key role n c) = dropped f :=
    List.countP_cons_of_neg (by simp [Coalescer.Event.isUnregistration])
  cases role with
  | joined =>
    exact ⟨List.countP_cons_of_neg (by simp [Coalescer.Event.isStart]),
      List.countP_cons_of_pos rfl, hdropped⟩
  | leading =>
    exact ⟨List.countP_cons_of_pos rfl,
      List.countP_cons_of_neg (by simp [Coalescer.Event.isJoin]), hdropped⟩

theorem counts_launch (f : Flight) (i : Nat) (key : String) (n : Nat) (c : Coalescer) :
    started (f.launch i key n c) = started f + 1 ∧ joined (f.launch i key n c) = joined f ∧
      dropped (f.launch i key n c) = dropped f :=
  counts_attach f i key .leading n c

/-- A step of the coalescer other than the end of a loader. -/
theorem Books.moves {h : List Event} {a : Coalescer.Action}
    (hb : Books (census f progress) (started f) (dropped f) h) (ht : f.Tracked)
    (hfresh : ∀ n, f.tasks n = none → progress n = .begun) (hquiet : ∀ n e, a ≠ .finish n e)
    (hmove : f.Moves a g) : Books (census g progress) (started g) (dropped g) h := by
  cases hmove with
  | arrive | miss | wake | leave => exact hb
  | joinAtOnce i key n | joinLater i key n =>
    obtain ⟨hstarted, -, hdropped⟩ := counts_attach f i key .joined n
      { f.coalescer with coalesced := f.coalescer.coalesced + 1 }
    rw [hstarted, hdropped]
    exact hb
  | lead i key =>
    have hnone := (ht.tasks_eq_none_iff f.coalescer.calls.size).mpr (Nat.le_refl _)
    have hsize : (f.coalescer.lead key).2.calls.size = f.coalescer.calls.size + 1 := by
      simp [Coalescer.lead]
    obtain ⟨hstarted, -, hdropped⟩ := counts_launch f i key f.coalescer.calls.size
      (f.coalescer.lead key).2
    rw [hstarted, hdropped]
    exact hb.launch (census_launch hsize (hfresh _ hnone))
  | finish n key owner e => exact absurd rfl (hquiet n e)
  | unregister n key owner e htask =>
    let g : Flight :=
      { f.advance n ⟨key, owner, .unregistered e⟩ (f.coalescer.unregister key n) with
        log := .unregistered n :: f.log }
    have hstarted : started g = started f :=
      List.countP_cons_of_neg (by simp [Coalescer.Event.isStart])
    have hdropped : dropped g = dropped f + 1 := List.countP_cons_of_pos rfl
    change Books (census g progress) (started g) (dropped g) h
    rw [hstarted, hdropped]
    exact hb.unregister (census_advance ht htask _ _ rfl)
  | record n key owner e htask =>
    exact hb.congr fun x => Nat.add_right_cancel
      (census_advance ht htask ⟨key, owner, .recorded e⟩ _ (by simp [Coalescer.record]) x)

/-- Every request that was routed has joined a load, or started one, or takes part in none
yet. -/
structure Attended (f : Flight) (requests : List Nat) : Prop where
  distinct : requests.Nodup
  calls : started f + joined f + requests.countP (fun i => (f.callOf i).isNone) = requests.length

namespace Attended

variable {requests : List Nat}

theorem start (shards : Nat) : Attended (Flight.start shards) [] := ⟨List.nodup_nil, rfl⟩

theorem congr (ha : Attended f requests) (hstarted : started g = started f)
    (hjoined : joined g = joined f) (hcallOf : ∀ i, g.callOf i = f.callOf i) :
    Attended g requests := by
  refine ⟨ha.distinct, ?_⟩
  simp only [hstarted, hjoined, hcallOf]
  exact ha.calls

/-- A request that was routed begins to take part in a load. -/
theorem attach (ha : Attended f requests) (hi : i ∈ requests) (hnone : f.callOf i = none)
    (hcallOf : ∀ j, g.callOf j = if j = i then some n else f.callOf j)
    (hcount : started g + joined g = started f + joined f + 1) : Attended g requests := by
  refine ⟨ha.distinct, ?_⟩
  have hupdate := countP_update ha.distinct hi (p := fun j => (f.callOf j).isNone)
    (q := fun j => (g.callOf j).isNone) fun j hj => by rw [hcallOf, if_neg hj]
  have hcalls := ha.calls
  simp only [hcallOf i, hnone] at hupdate
  simp at hupdate
  omega

/-- A request is routed. -/
theorem arrive (ha : Attended f requests) (hi : i ∉ requests) (hfree : f.callers i = none)
    (key : String) : Attended (f.setCaller i ⟨key, .arrived⟩) (requests ++ [i]) := by
  have hcallOf : ∀ j, (f.setCaller i ⟨key, .arrived⟩).callOf j = f.callOf j := by
    intro j
    rw [Flight.callOf_setCaller]
    split
    · next hj => simp [hj, Flight.callOf, hfree, Coalescer.CallerStage.call?]
    · rfl
  have hnone : f.callOf i = none := by simp [Flight.callOf, hfree]
  refine ⟨?_, ?_⟩
  · refine List.nodup_append.mpr ⟨ha.distinct, List.nodup_singleton i, ?_⟩
    rintro j hj k hk rfl
    exact hi (List.mem_singleton.mp hk ▸ hj)
  · have hcalls := ha.calls
    simp only [List.countP_append, hcallOf, List.length_append]
    simp [hnone]
    change started f + joined f + _ = _
    omega

/-- A step of the coalescer in which nobody arrives. -/
theorem moves (ha : Attended f requests) {a : Coalescer.Action}
    (hmembers : ∀ i c, f.callers i = some c → i ∈ requests) (harrive : ∀ i key, a ≠ .arrive i key)
    (hmove : f.Moves a g) : Attended g requests := by
  cases hmove with
  | arrive i key => exact absurd rfl (harrive i key)
  | joinAtOnce i key n hcaller | joinLater i key n hcaller =>
    refine ha.attach (hmembers i _ hcaller) ?_ (Flight.callOf_attach f i key .joined n _) ?_
    · simp [Flight.callOf, hcaller, Coalescer.CallerStage.call?]
    · obtain ⟨hstarted, hjoined, -⟩ := counts_attach f i key .joined n
        { f.coalescer with coalesced := f.coalescer.coalesced + 1 }
      simp [hstarted, hjoined]
      omega
  | lead i key hcaller =>
    refine ha.attach (hmembers i _ hcaller) ?_ (Flight.callOf_launch f i key _ _) ?_
    · simp [Flight.callOf, hcaller, Coalescer.CallerStage.call?]
    · obtain ⟨hstarted, hjoined, -⟩ := counts_launch f i key f.coalescer.calls.size
        (f.coalescer.lead key).2
      omega
  | miss i key hcaller | wake i key n r hcaller | leave i key stage hcaller =>
    refine ha.congr rfl rfl fun j => ?_
    rw [Flight.callOf_setCaller]
    split
    · next hj => simp [hj, Flight.callOf, hcaller, Coalescer.CallerStage.call?]
    · rfl
  | finish | record => exact ha.congr rfl rfl fun _ => rfl
  | unregister n =>
    exact ha.congr (List.countP_cons_of_neg (by simp [Coalescer.Event.isStart]))
      (List.countP_cons_of_neg (by simp [Coalescer.Event.isJoin])) fun _ => rfl

end Attended

/-- The loaders of a flight and the requests among its callers agree with a history. -/
structure Manned (f : Flight) (progress : Nat → Progress) (h : List Event) : Prop where
  books : Books (census f progress) (started f) (dropped f) h
  attended : Attended f (routed h)
  fresh : ∀ n, f.tasks n = none → progress n = .begun

namespace Manned

variable {h : List Event} {event : Option Event} {key : String} {x : Phase}

theorem start (shards : Nat) : Manned (Flight.start shards) (fun _ => .begun) [] :=
  ⟨⟨rfl, rfl, rfl, rfl, rfl, rfl⟩, .start shards, fun _ _ => rfl⟩

/-- A step of the coalescer in which nobody arrives and no loader ends. -/
theorem moves (hm : Manned f progress h) (ht : f.Tracked) {a : Coalescer.Action}
    (hmembers : ∀ i c, f.callers i = some c → i ∈ routed h)
    (harrive : ∀ i key, a ≠ .arrive i key) (hfinish : ∀ n e, a ≠ .finish n e)
    (hmove : f.Moves a g) : Manned g progress h := by
  refine ⟨hm.books.moves ht hm.fresh hfinish hmove,
    hm.attended.moves hmembers harrive hmove, fun n hn => hm.fresh n ?_⟩
  cases htask : f.tasks n with
  | none => rfl
  | some t =>
    obtain ⟨stage, hstage, -⟩ := hmove.task ht htask
    simp [hn] at hstage

/-- A request is routed. -/
theorem arrive (hm : Manned f progress h) (hi : i ∉ routed h) (hfree : f.callers i = none)
    (key : String) : Manned (f.setCaller i ⟨key, .arrived⟩) progress (h ++ [.routed i]) := by
  have hrouted : routed (h ++ [.routed i]) = routed h ++ [i] := by simp [routed, Event.request?]
  exact ⟨hm.books.routed i, hrouted ▸ hm.attended.arrive hi hfree key, hm.fresh⟩

/-- A loader goes on. -/
theorem goOn (hm : Manned f progress h) (ht : f.Tracked)
    (htask : f.tasks n = some ⟨key, i, .running⟩) {p : Progress}
    (hturn : Turn (progress n).phase p.phase event) :
    Manned f (fun m => if m = n then p else progress m) (h ++ event.toList) := by
  refine ⟨hm.books.turn hturn fun x => ?_, hturn.routed h ▸ hm.attended, ?_⟩
  · have hrest : ∀ m, m ≠ n → phase f (fun m => if m = n then p else progress m) m =
        phase f progress m := fun m hmn => phase_congr rfl (if_neg hmn)
    have hupdate := census_update (f := f) (g := f) rfl (ht.lt_size htask) hrest x
    simpa [phase, htask, Phase.of] using hupdate
  · intro m hnone
    have hmn : m ≠ n := by
      rintro rfl
      simp [htask] at hnone
    rw [if_neg hmn]
    exact hm.fresh m hnone

/-- A loader ends. -/
theorem finish (hm : Manned f progress h) (ht : f.Tracked)
    (htask : f.tasks n = some ⟨key, i, .running⟩)
    (hturn : Turn (progress n).phase .ended event) (e : Coalescer.Ending) :
    Manned (f.advance n ⟨key, i, .ended e⟩ f.coalescer) progress (h ++ event.toList) := by
  let g := f.advance n ⟨key, i, .ended e⟩ f.coalescer
  have hstage : g.tasks n = some ⟨key, i, .ended e⟩ := Roster.put_self _ _ _
  have hattended : Attended g (routed h) := hm.attended.congr rfl rfl fun _ => rfl
  refine ⟨hm.books.turn hturn (census_advance ht htask _ _ rfl), hturn.routed h ▸ hattended, ?_⟩
  intro m hnone
  have hmn : m ≠ n := by
    rintro rfl
    exact Option.some_ne_none _ (hstage.symm.trans hnone)
  exact hm.fresh m ((Roster.put_of_ne hmn _).symm.trans hnone)

end Manned

end ArtifactPlane.Service
