import ArtifactPlane.Proofs.Cache.Requests

/-!
Histories of a cache.  A history is a list of calls.  Beside the cache a ledger keeps what
the cache itself does not: which call stored last under each key, which of these a queued
request was made for, and how many stores each shard has taken.  The generations number the
stores of a shard, so as long as they do not come round a request is for one entry only.
-/

namespace ArtifactPlane.Cache

variable {α : Type} {c : Cache α}

/-- The ways to store a value, with the clock readings that each makes. -/
inductive Store (α : Type) where
  | set (key : String) (value : α) (expiresAt now : Instant)
  | setWithTtl (key : String) (value : α) (ttl : Duration) (now later : Instant)
  | setUnlessCleared (key : String) (value : α) (ttl : Duration) (epoch : UInt64)
      (now later : Instant)

/-- A call on a cache. -/
inductive Op (α : Type) where
  | store (s : Store α)
  | get (key : String) (now : UInt64)
  | purge (now : Instant)
  | clear
  /-- Carry out the queued request at a place, in whatever order. -/
  | reap (n : Nat)

/-- A store that has come to the shard of its key, where it takes a generation whether it is
admitted or not. -/
structure Attempt (α : Type) where
  key : String
  value : α
  expiresAt : UInt64
  now : UInt64
  admitted : Bool

def Attempt.apply (c : Cache α) (a : Attempt α) : Cache α :=
  (c.setIf a.key a.value a.expiresAt a.now a.admitted).2

/-- What a store brings to the shard: nothing when the clock cannot represent the expiry. -/
def Store.attempt? (c : Cache α) : Store α → Option (Attempt α)
  | .set key value expiresAt now => some ⟨key, value, expiresAt.millis, now.millis, true⟩
  | .setWithTtl key value ttl now later =>
    (now.add? ttl).map fun expiresAt => ⟨key, value, expiresAt.millis, later.millis, true⟩
  | .setUnlessCleared key value ttl epoch now later =>
    (now.add? ttl).map fun expiresAt =>
      ⟨key, value, expiresAt.millis, later.millis, c.epoch == epoch⟩

def Store.apply (c : Cache α) : Store α → Cache α
  | .set key value expiresAt now => c.set key value expiresAt now
  | .setWithTtl key value ttl now later => (c.storeWithTtl? key value ttl now later).getD c
  | .setUnlessCleared key value ttl epoch now later =>
    ((c.storeUnlessCleared? key value ttl epoch now later).map (·.2)).getD c

theorem Store.apply_eq (c : Cache α) (s : Store α) :
    s.apply c = match s.attempt? c with
      | some a => a.apply c
      | none => c := by
  cases s with
  | set key value expiresAt now => rfl
  | setWithTtl key value ttl now later =>
    simp only [Store.apply, Store.attempt?, storeWithTtl?]
    cases now.add? ttl <;> rfl
  | setUnlessCleared key value ttl epoch now later =>
    simp only [Store.apply, Store.attempt?, storeUnlessCleared?]
    cases now.add? ttl <;> rfl

/-- Carry out the queued request at a place, if there is one. -/
def reapAt (c : Cache α) (n : Nat) : Cache α :=
  match c.queue[n]? with
  | some r => ({ c with queue := c.queue.eraseIdx n } : Cache α).reap r
  | none => c

/-- The oldest request stands at the first place. -/
theorem reapNext_eq (c : Cache α) : c.reapNext = c.reapAt 0 := by
  unfold reapNext reapAt
  cases c.queue <;> rfl

theorem find?_reapAt (h : 0 < c.shardCount) (n : Nat) (k : String) :
    (c.reapAt n).find? k = match c.queue[n]? with
      | some r =>
        if c.shardOf k = r.shard ∧ k = r.key then
          (c.find? k).filter (·.generation != r.generation)
        else c.find? k
      | none => c.find? k := by
  unfold reapAt
  cases c.queue[n]? with
  | none => rfl
  | some r => exact find?_reap (c := { c with queue := c.queue.eraseIdx n }) h r k

namespace Op

def apply (c : Cache α) : Op α → Cache α
  | store s => s.apply c
  | get key now => (c.get key now).2
  | purge now => (c.purge now).2
  | clear => c.clear
  | reap n => c.reapAt n

def attempt? (c : Cache α) : Op α → Option (Attempt α)
  | store s => s.attempt? c
  | _ => none

/-- The store that a call makes, if it is accepted. -/
def accepted? (c : Cache α) (op : Op α) : Option (Attempt α) :=
  (op.attempt? c).filter (·.admitted)

theorem accepted?_eq_some_iff {op : Op α} {a : Attempt α} :
    op.accepted? c = some a ↔ op.attempt? c = some a ∧ a.admitted = true :=
  Option.filter_eq_some_iff

theorem apply_of_attempt {op : Op α} {a : Attempt α} (h : op.attempt? c = some a) :
    op.apply c = a.apply c := by
  cases op with
  | store s =>
    simp only [attempt?] at h
    simp only [apply, Store.apply_eq, h]
  | get key now => simp [attempt?] at h
  | purge now => simp [attempt?] at h
  | clear => simp [attempt?] at h
  | reap n => simp [attempt?] at h

theorem find?_apply_of_accepted (h : 0 < c.shardCount) {op : Op α} {a : Attempt α}
    (ha : op.accepted? c = some a) (k : String) :
    (op.apply c).find? k =
      if k = a.key then
        some (.fresh a.key a.value a.expiresAt a.now (c.nextGeneration (c.shardOf a.key)))
      else if c.shardOf k = c.shardOf a.key ∧ k ∈ c.displaced a.key a.now then none
      else c.find? k := by
  obtain ⟨hattempt, hadmitted⟩ := accepted?_eq_some_iff.mp ha
  rw [apply_of_attempt hattempt, Attempt.apply, find?_setIf h]
  simp only [hadmitted, true_and]
  rfl

theorem find?_apply_of_refused (h : 0 < c.shardCount) {s : Store α}
    (hrefused : (store s).accepted? c = none) (k : String) :
    ((store s).apply c).find? k = c.find? k := by
  cases hattempt : (store s).attempt? c with
  | none =>
    simp only [attempt?] at hattempt
    simp only [apply, Store.apply_eq, hattempt]
  | some a =>
    have hadmitted : a.admitted = false := by
      simpa [accepted?, hattempt, Option.filter] using hrefused
    rw [apply_of_attempt hattempt, Attempt.apply, find?_setIf h, hadmitted]
    simp

theorem wellPlaced_apply (h : c.WellPlaced) (op : Op α) : (op.apply c).WellPlaced := by
  cases op with
  | store s =>
    simp only [apply, Store.apply_eq]
    split
    · exact h.setIf _ _ _ _ _
    · exact h
  | get key now => exact h.get key now
  | purge now => exact h.purge now
  | clear => exact h.clear
  | reap n =>
    simp only [apply, reapAt]
    split
    · next r _ =>
      have hpopped : ({ c with queue := c.queue.eraseIdx n } : Cache α).WellPlaced :=
        h.congr rfl rfl
      exact hpopped.reap r
    · exact h

theorem shardCount_apply (c : Cache α) (op : Op α) : (op.apply c).shardCount = c.shardCount := by
  cases op with
  | store s =>
    simp only [apply, Store.apply_eq]
    split
    · exact (shardCount_congr (shards_setIf _ _ _ _ _ _)).trans (shardCount_setShard _ _ _)
    · rfl
  | get key now => exact (keeps_get c key now).shardCount
  | purge now => exact (keeps_purge c now).shardCount
  | clear => exact shardCount_clear c
  | reap n =>
    simp only [apply, reapAt]
    split
    · next r _ => exact (keeps_reap _ r).shardCount
    · rfl

theorem nextGeneration_apply (h : 0 < c.shardCount) (op : Op α) (i : Nat) :
    (op.apply c).nextGeneration i = match op.attempt? c with
      | some a => if i = c.shardOf a.key then c.nextGeneration i + 1 else c.nextGeneration i
      | none => c.nextGeneration i := by
  cases op with
  | store s =>
    simp only [apply, attempt?, Store.apply_eq]
    split
    · exact nextGeneration_setIf h _ _ _ _ _ i
    · rfl
  | get key now => exact nextGeneration_get c key now i
  | purge now => exact nextGeneration_purge c now i
  | clear => exact nextGeneration_clear c i
  | reap n =>
    simp only [apply, attempt?, reapAt]
    split
    · next r _ => exact nextGeneration_reap _ r i
    · rfl

end Op

/-- A request for removal, with the call that stored the entry which the lookup found. -/
structure Sighting where
  request : ReapRequest
  writer : Option Nat

/-- A cache with the history of what it holds. -/
structure Ledger (α : Type) where
  cache : Cache α
  /-- The number of calls made. -/
  count : Nat
  /-- The last call that stored under a key. -/
  writer : String → Option Nat
  /-- The queued requests, oldest first. -/
  asked : List Sighting
  /-- The stores that each shard has taken, those that it refused included. -/
  attempts : Nat → Nat

namespace Ledger

def start (config : Config) : Ledger α :=
  ⟨ofConfig config, 0, fun _ => none, [], fun _ => 0⟩

/-- The request that a lookup makes now. -/
def sighting? (s : Ledger α) (key : String) (now : UInt64) : Option Sighting :=
  (s.cache.staleRequest? key now).map fun r => ⟨r, s.writer key⟩

/-- The request that a call carries out: a queued one, or that of a lookup which finds the
queue full. -/
def carried? (s : Ledger α) : Op α → Option Sighting
  | .get key now => if s.cache.HasRoom then none else s.sighting? key now
  | .reap n => s.asked[n]?
  | _ => none

/-- The requests that a call leaves in the queue. -/
def pending (s : Ledger α) : Op α → List Sighting
  | .get key now =>
    if s.cache.HasRoom then s.asked ++ (s.sighting? key now).toList else s.asked
  | .reap n => s.asked.eraseIdx n
  | _ => s.asked

def step (s : Ledger α) (op : Op α) : Ledger α where
  cache := op.apply s.cache
  count := s.count + 1
  writer key := match op.accepted? s.cache with
    | some a => if key = a.key then some s.count else s.writer key
    | none => s.writer key
  asked := s.pending op
  attempts i := match op.attempt? s.cache with
    | some a => if i = s.cache.shardOf a.key then s.attempts i + 1 else s.attempts i
    | none => s.attempts i

def run (config : Config) (ops : List (Op α)) : Ledger α := ops.foldl step (start config)

theorem run_append (config : Config) (ops : List (Op α)) (op : Op α) :
    run config (ops ++ [op]) = (run config ops).step op := by
  simp [run]

theorem count_run (config : Config) (ops : List (Op α)) : (run config ops).count = ops.length := by
  have hfold : ∀ (s : Ledger α), (ops.foldl step s).count = s.count + ops.length := by
    induction ops with
    | nil => exact fun s => rfl
    | cons op ops ih =>
      intro s
      rw [List.foldl_cons, ih, List.length_cons]
      simp only [step]
      omega
  rw [run, hfold]
  exact Nat.zero_add _

variable {s : Ledger α} {op : Op α}

theorem attempts_le_step (s : Ledger α) (op : Op α) (i : Nat) :
    s.attempts i ≤ (s.step op).attempts i := by
  simp only [step]
  split
  · split
    · exact Nat.le_succ _
    · exact Nat.le_refl _
  · exact Nat.le_refl _

theorem attempts_step_le (s : Ledger α) (op : Op α) (i : Nat) :
    (s.step op).attempts i ≤ s.attempts i + 1 := by
  simp only [step]
  split
  · split
    · exact Nat.le_refl _
    · exact Nat.le_succ _
  · exact Nat.le_succ _

/-- A shard takes at most one store a call. -/
theorem attempts_run_le (config : Config) (ops : List (Op α)) (i : Nat) :
    (run config ops).attempts i ≤ ops.length := by
  have hfold : ∀ s : Ledger α, (ops.foldl step s).attempts i ≤ s.attempts i + ops.length := by
    induction ops with
    | nil => exact fun s => Nat.le_refl _
    | cons op ops ih =>
      intro s
      have hrest := ih (s.step op)
      have hfirst := attempts_step_le s op i
      rw [List.foldl_cons, List.length_cons]
      omega
  have hrun := hfold (start config)
  rwa [show (start config : Ledger α).attempts i = 0 from rfl, Nat.zero_add] at hrun

theorem attempts_step_of_attempt {a : Attempt α} (h : op.attempt? s.cache = some a) :
    (s.step op).attempts (s.cache.shardOf a.key) = s.attempts (s.cache.shardOf a.key) + 1 := by
  simp [step, h]

theorem writer_step_of_accepted {a : Attempt α} (h : op.accepted? s.cache = some a) :
    (s.step op).writer a.key = some s.count := by
  simp [step, h]

theorem writer_step_of_ne {key : String}
    (h : ∀ a, op.accepted? s.cache = some a → a.key ≠ key) :
    (s.step op).writer key = s.writer key := by
  simp only [step]
  split
  · next a ha => exact if_neg (Ne.symm (h a ha))
  · rfl

theorem cache_step (s : Ledger α) (op : Op α) : (s.step op).cache = op.apply s.cache := rfl

/-- The queue of the cache holds the pending requests. -/
theorem queue_step (h : s.cache.queue = s.asked.map (·.request)) (op : Op α) :
    (s.step op).cache.queue = (s.step op).asked.map (·.request) := by
  cases op with
  | store st =>
    simp only [step, pending, Op.apply, Store.apply_eq]
    split
    · exact (queue_setIf _ _ _ _ _ _).trans h
    · exact h
  | get key now =>
    simp only [step, pending, Op.apply, queue_get]
    split
    · rw [List.map_append, h, sighting?]
      cases s.cache.staleRequest? key now <;> rfl
    · exact h
  | purge now => exact h
  | clear => exact (queue_clear s.cache).trans h
  | reap n =>
    simp only [step, pending, Op.apply, reapAt, h]
    have hpopped : (s.asked.eraseIdx n).map (·.request) = (s.asked.map (·.request)).eraseIdx n := by
      simp [List.eraseIdx_eq_take_drop_succ]
    rw [hpopped]
    split
    · exact queue_reap _ _
    · next hnone =>
      rw [List.eraseIdx_of_length_le (List.getElem?_eq_none_iff.mp hnone)]
      exact h

end Ledger

end ArtifactPlane.Cache
