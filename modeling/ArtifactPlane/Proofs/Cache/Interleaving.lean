import ArtifactPlane.Proofs.Roster
import ArtifactPlane.Proofs.Cache.Settle

/-!
A cache at work for many callers.  A clear advances the epoch and then empties the shards one
at a time, a store takes its generation, then the lock of its shard, and is accepted or
refused there; other calls come between any two of these steps.  Time counts the steps.
-/

namespace ArtifactPlane.Cache

variable {α : Type}

/-- An epoch that a caller read. -/
structure Reading where
  epoch : UInt64
  time : Nat

/-- What the check under the lock of a shard decided. -/
structure Verdict where
  stored : Bool
  time : Nat

/-- A store that has taken its generation; without a reading it is always accepted. -/
structure Write (α : Type) where
  entry : Entry α
  reading : Option Reading
  verdict : Option Verdict

/-- How far a clear has come. -/
inductive Stage where
  /-- The shards before `next` have been emptied. -/
  | emptying (next : Nat)
  | returned

/-- A clear that has advanced the epoch. -/
structure Clearing where
  bumped : Nat
  stage : Stage

/-- A cache and the calls under way. -/
structure Fence (α : Type) where
  cache : Cache α
  time : Nat
  /-- The times at which the epoch was advanced, the last first. -/
  bumps : List Nat
  readings : Roster Reading
  writes : Roster (Write α)
  /-- The accepted store that holds the lock of a shard. -/
  holder : Nat → Option Nat
  clears : Roster Clearing
  /-- The store that last left an entry under a key. -/
  writer : String → Option Nat

namespace Fence

/-- The next step of some party. -/
inductive Action (α : Type) where
  /-- A caller reads the epoch. -/
  | read (i : Nat)
  /-- A store begins, under the reading that it names if that was taken. -/
  | enter (j : Nat) (reading : Option Nat) (key : String) (value : α) (expiresAt now : UInt64)
  /-- A store takes the lock of its shard and is accepted or refused. -/
  | check (j : Nat)
  /-- The holder of a shard stores its entry and lets go. -/
  | insert (i : Nat)
  | look (key : String) (now : UInt64)
  | request (busy : Bool) (r : ReapRequest)
  | reap (r : ReapRequest)
  | purge (now : UInt64) (i : Nat)
  | sweep (now : Instant) (i : Nat)
  /-- A clear begins. -/
  | bump (r : Nat)
  /-- A clear empties its next shard, or returns after the last. -/
  | empty (r : Nat)

def start (config : Config) : Fence α :=
  ⟨ofConfig config, 0, [], .empty, .empty, fun _ => none, .empty, fun _ => none⟩

/-- Whether a store is accepted now. -/
def admits (s : Fence α) (w : Write α) : Bool :=
  match w.reading with
  | some rd => s.cache.epoch == rd.epoch
  | none => true

/-- A step after which the cache holds nothing new. -/
def thin (s : Fence α) (c : Cache α) : Fence α :=
  { s with cache := c, time := s.time + 1 }

def takeReading (s : Fence α) (i : Nat) : Fence α :=
  { s with readings := s.readings.put i ⟨s.cache.epoch, s.time⟩, time := s.time + 1 }

def beginWrite (s : Fence α) (j : Nat) (reading : Option Reading) (key : String) (value : α)
    (expiresAt now : UInt64) : Fence α :=
  let drawn := s.cache.draw key
  { s.thin drawn.2 with
    writes := s.writes.put j ⟨.fresh key value expiresAt now drawn.1, reading, none⟩ }

def judge (s : Fence α) (j : Nat) (w : Write α) : Fence α :=
  { s with
    writes := s.writes.put j { w with verdict := some ⟨s.admits w, s.time⟩ }
    holder := fun i =>
      if s.admits w = true ∧ i = s.cache.shardOf w.entry.key then some j else s.holder i
    time := s.time + 1 }

def deliver (s : Fence α) (i j : Nat) (w : Write α) : Fence α :=
  { s with
    cache := (s.cache.settle w.entry w.entry.lastAccess true).2
    holder := fun k => if k = i then none else s.holder k
    writer := fun key => if key = w.entry.key then some j else s.writer key
    time := s.time + 1 }

def beginClear (s : Fence α) (r : Nat) : Fence α :=
  { s with
    cache := s.cache.bumpEpoch
    bumps := s.time :: s.bumps
    clears := s.clears.put r ⟨s.time, .emptying 0⟩
    time := s.time + 1 }

def advance (s : Fence α) (r : Nat) (c : Cache α) (clearing : Clearing) : Fence α :=
  { s.thin c with clears := s.clears.put r clearing }

/-- A step that is not due changes nothing.  Lookups and removals are given more room than
they have: they do not wait for the holder of a shard. -/
def step (s : Fence α) : Action α → Fence α
  | .read i =>
    match s.readings i with
    | none => s.takeReading i
    | some _ => s.thin s.cache
  | .enter j reading key value expiresAt now =>
    match s.writes j with
    | none => s.beginWrite j (reading.bind s.readings) key value expiresAt now
    | some _ => s.thin s.cache
  | .check j =>
    match s.writes j with
    | some ⟨entry, reading, none⟩ =>
      match s.holder (s.cache.shardOf entry.key) with
      | none => s.judge j ⟨entry, reading, none⟩
      | some _ => s.thin s.cache
    | _ => s.thin s.cache
  | .insert i =>
    match (s.holder i).bind fun j => (s.writes j).map fun w => (j, w) with
    | some (j, w) => s.deliver i j w
    | none => s.thin s.cache
  | .look key now => s.thin (s.cache.look key now).2
  | .request busy r => s.thin (s.cache.scheduleWhile busy r)
  | .reap r => s.thin (s.cache.reap r)
  | .purge now i => s.thin (s.cache.purgeShard now i)
  | .sweep now i => s.thin (s.cache.sweepShard now i)
  | .bump r =>
    match s.clears r with
    | none => s.beginClear r
    | some _ => s.thin s.cache
  | .empty r =>
    match s.clears r with
    | some ⟨bumped, .emptying next⟩ =>
      if next < s.cache.shardCount then
        match s.holder next with
        | none => s.advance r (s.cache.clearShard next) ⟨bumped, .emptying (next + 1)⟩
        | some _ => s.thin s.cache
      else s.advance r s.cache.recordClear ⟨bumped, .returned⟩
    | _ => s.thin s.cache

def run (config : Config) (actions : List (Action α)) : Fence α :=
  actions.foldl step (start config)

theorem run_append (config : Config) (actions : List (Action α)) (a : Action α) :
    run config (actions ++ [a]) = (run config actions).step a := by
  simp [run]

/-- A store that nothing comes between is `setIf`. -/
theorem cache_store_alone (s : Fence α) (hshards : 0 < s.cache.shardCount) {j : Nat}
    (reading : Option Nat) (key : String) (value : α) (expiresAt now : UInt64)
    (hnew : s.writes j = none) (hfree : s.holder (s.cache.shardOf key) = none) :
    let w : Write α :=
      ⟨.fresh key value expiresAt now (s.cache.draw key).1, reading.bind s.readings, none⟩
    ([.enter j reading key value expiresAt now, .check j,
        .insert (s.cache.shardOf key)].foldl step s).cache =
      (s.cache.setIf key value expiresAt now (s.admits w)).2 := by
  intro w
  let t := s.beginWrite j (reading.bind s.readings) key value expiresAt now
  have hown : t.cache.shardOf key = s.cache.shardOf key := shardOf_setShard _ _ _ _
  have henter : s.step (.enter j reading key value expiresAt now) = t := by
    simp only [step, hnew]
    rfl
  have hcheck : t.step (.check j) = t.judge j w := by
    have hwrite : t.writes j = some w := Roster.put_self _ _ _
    have hlock : t.holder (t.cache.shardOf w.entry.key) = none := hown ▸ hfree
    simp only [step, hwrite, w]
    simp only [w] at hlock
    rw [hlock]
  have hadmits : t.admits w = s.admits w := rfl
  rw [List.foldl_cons, henter, List.foldl_cons, hcheck, List.foldl_cons, List.foldl_nil,
    setIf_eq_settle hshards]
  cases hw : s.admits w with
  | false =>
    have hrefused : ¬ (t.admits w = true ∧ s.cache.shardOf key = t.cache.shardOf key) := by
      rw [hadmits, hw]
      simp
    have hholder : (t.judge j w).holder (s.cache.shardOf key) = none :=
      (if_neg hrefused).trans hfree
    simp only [step, hholder, Option.bind_none]
    rfl
  | true =>
    have hholder : (t.judge j w).holder (s.cache.shardOf key) = some j :=
      if_pos ⟨hadmits.trans hw, hown.symm⟩
    have hwrite : (t.judge j w).writes j = some { w with verdict := some ⟨true, t.time⟩ } := by
      rw [← hw, ← hadmits]
      exact Roster.put_self _ _ _
    simp only [step, hholder, hwrite, Option.bind_some, Option.map_some]
    rfl

theorem step_empty {s : Fence α} {r bumped next : Nat}
    (hclear : s.clears r = some ⟨bumped, .emptying next⟩) (hlt : next < s.cache.shardCount)
    (hfree : s.holder next = none) :
    s.step (.empty r) =
      s.advance r (s.cache.clearShard next) ⟨bumped, .emptying (next + 1)⟩ := by
  simp only [step, hclear, if_pos hlt, hfree]

theorem foldl_empty (s : Fence α) {r bumped next : Nat} (n : Nat)
    (hclear : s.clears r = some ⟨bumped, .emptying next⟩)
    (hle : next + n ≤ s.cache.shardCount) (hfree : ∀ i, s.holder i = none) :
    ((List.replicate n (.empty r)).foldl step s).cache =
        (List.range' next n).foldl clearShard s.cache ∧
      ((List.replicate n (.empty r)).foldl step s).clears r =
        some ⟨bumped, .emptying (next + n)⟩ := by
  induction n generalizing s next with
  | zero => exact ⟨rfl, hclear⟩
  | succ n ih =>
    rw [List.replicate_succ, List.foldl_cons, List.range'_succ, List.foldl_cons,
      step_empty hclear (by omega) (hfree next)]
    have hcount : (s.cache.clearShard next).shardCount = s.cache.shardCount :=
      shardCount_setShard _ _ _
    have hbound : next + 1 + n ≤ (s.cache.clearShard next).shardCount := by omega
    have hrest := ih (s.advance r (s.cache.clearShard next) ⟨bumped, .emptying (next + 1)⟩)
      (Roster.put_self _ _ _) hbound hfree
    rwa [Nat.add_right_comm, Nat.add_assoc] at hrest

/-- A clear that nothing comes between is `clear`. -/
theorem cache_clear_alone (s : Fence α) {r : Nat} (hnew : s.clears r = none)
    (hfree : ∀ i, s.holder i = none) :
    ((.bump r :: List.replicate (s.cache.shardCount + 1) (.empty r)).foldl step s).cache =
      s.cache.clear := by
  have hbump : s.step (.bump r) = s.beginClear r := by
    simp only [step, hnew]
  obtain ⟨hcache, hclear⟩ := foldl_empty (s.beginClear r) s.cache.shardCount
    (Roster.put_self _ _ _) (Nat.le_of_eq (Nat.zero_add _)) hfree
  rw [List.foldl_cons, hbump, List.replicate_succ', List.foldl_append]
  generalize (List.replicate s.cache.shardCount (.empty r)).foldl step (s.beginClear r) = t
    at hcache hclear
  rw [← List.range_eq_range'] at hcache
  have hcount : t.cache.shardCount = s.cache.shardCount := by
    rw [hcache]
    exact shardCount_foldl_mapShard Shard.clear _ _
  have hend : ¬ 0 + s.cache.shardCount < t.cache.shardCount := by omega
  simp only [List.foldl_cons, List.foldl_nil, step, hclear, if_neg hend]
  exact congrArg recordClear hcache

end Fence

end ArtifactPlane.Cache
