import Mathlib.Data.List.InsertIdx
import ArtifactPlane.Proofs.Cache.Cell

/-!
A cache as the product of its shards.  A shard with the requests for its keys that wait is a
desk.  Whatever happens to a cache, each desk ends as it would by itself with what it is told:
the calls for its keys, the purges and clears, and which of its requests are carried out.  The
queue has its bound for all shards together.  So a lookup that finds an expired entry also
tells its desk whether the queue took the request, and that is the only way in which the
traffic of other shards reaches a shard.  That it does is shown at the end.
-/

namespace ArtifactPlane.Cache

variable {α : Type} {c d : Cache α} {i : Nat} {key : String} {now : UInt64}

/-- What becomes of a request when it is made. -/
inductive Fate where
  | queued
  /-- The queue is full, and the request is carried out on the spot. -/
  | carriedOut
  /-- The queue is full and a writer holds the shard, which is marked for a sweep. -/
  | marked
deriving DecidableEq

/-- What a shard is told of what happens to its cache. -/
inductive Notice (α : Type) where
  | store (s : Store α)
  /-- A lookup, and what becomes of its request if it makes one. -/
  | look (key : String) (now : UInt64) (fate : Fate)
  /-- One of its requests is carried out. -/
  | reap (n : Nat)
  | sweep (now : Instant) (i : Nat)
  | purge (now : Instant)
  | clear
deriving DecidableEq

/-- A shard with the requests for its keys that wait, the oldest first. -/
structure Desk (α : Type) where
  cell : Cell α
  waiting : List (String × UInt64)

namespace Desk

def start (config : Config) : Desk α := ⟨.start config, []⟩

def perform (desk : Desk α) (deed : Deed α) : Desk α :=
  { desk with cell := desk.cell.perform deed }

/-- Deal with a request that a lookup makes. -/
def lodge (desk : Desk α) (key : String) (generation : UInt64) : Fate → Desk α
  | .queued => { desk with waiting := desk.waiting ++ [(key, generation)] }
  | .carriedOut => desk.perform (.remove key generation)
  | .marked => desk.perform (.mark key)

def heed (desk : Desk α) : Notice α → Desk α
  | .store s => desk.perform (.store s)
  | .look key now fate =>
    match (desk.cell.shard.lookup key now).1 with
    | .expired generation => (desk.perform (.look key now)).lodge key generation fate
    | _ => desk.perform (.look key now)
  | .reap n =>
    match desk.waiting[n]? with
    | some (key, generation) =>
      { desk.perform (.remove key generation) with waiting := desk.waiting.eraseIdx n }
    | none => desk
  | .sweep now i => desk.perform (.sweep now i)
  | .purge now => desk.perform (.purge now)
  | .clear => desk.perform .clear

def heedAll (desk : Desk α) (notices : List (Notice α)) : Desk α := notices.foldl heed desk

theorem heed_look_of_expired {desk : Desk α} {key : String} {now generation : UInt64} {fate : Fate}
    (h : (desk.cell.shard.lookup key now).1 = .expired generation) :
    desk.heed (.look key now fate) = (desk.perform (.look key now)).lodge key generation fate := by
  rw [heed, h]

theorem heed_look_of_ne_expired {desk : Desk α} {key : String} {now : UInt64} {fate : Fate}
    (h : ∀ generation, (desk.cell.shard.lookup key now).1 ≠ .expired generation) :
    desk.heed (.look key now fate) = desk.perform (.look key now) := by
  rw [heed]
  split
  · next generation hexpired => exact absurd hexpired (h generation)
  · rfl

theorem heedAll_toList_ite (desk : Desk α) (p : Prop) [Decidable p] (notice : Notice α) :
    desk.heedAll (if p then some notice else none).toList =
      if p then desk.heed notice else desk := by
  split <;> rfl

/-- What a notice is answered: a lookup tells the value of a live entry. -/
def answer? (desk : Desk α) : Notice α → Option (Option α)
  | .look key now _ => some (desk.cell.shard.lookup key now).1.value?
  | _ => none

/-- The answers of lookups, in their order. -/
def answers (desk : Desk α) : List (Notice α) → List (Option α)
  | [] => []
  | notice :: notices => (desk.answer? notice).toList ++ (desk.heed notice).answers notices

end Desk

/-- One shard of a cache, with its share of the queue. -/
def desk (c : Cache α) (i : Nat) : Desk α :=
  ⟨c.cell i, (c.queue.filter (·.shard == i)).map fun r => (r.key, r.generation)⟩

/-- What becomes of a request that is made now. -/
def fate (c : Cache α) (busy : Bool) : Fate :=
  if c.HasRoom then .queued else if busy then .marked else .carriedOut

/-- What becomes of the request of a lookup.  One that makes no request is not told how full the
queue is. -/
def lookFate (busy : Bool) (c : Cache α) (key : String) (now : UInt64) : Fate :=
  match c.staleRequest? key now with
  | some _ => c.fate busy
  | none => .queued

/-- As long as the queue has room, it takes every request. -/
theorem lookFate_of_hasRoom (h : c.HasRoom) (busy : Bool) (key : String) (now : UInt64) :
    c.lookFate busy key now = .queued := by
  rw [lookFate, fate, if_pos h]
  cases c.staleRequest? key now <;> rfl

/-- What an act tells a shard.  Calls for the keys of other shards, and requests of theirs that
are carried out, tell it nothing. -/
def Act.notice? (c : Cache α) (i : Nat) : Act α → Option (Notice α)
  | call (.store s) => if c.shardOf s.key = i then some (.store s) else none
  | call (.get key now) =>
    if c.shardOf key = i then some (.look key now (c.lookFate false key now)) else none
  | call (.purge now) => some (.purge now)
  | call .clear => some .clear
  | call (.reap n) =>
    match c.queue[n]? with
    | some r =>
      if r.shard = i then some (.reap ((c.queue.take n).countP (·.shard == i))) else none
    | none => none
  | getBusy key now =>
    if c.shardOf key = i then some (.look key now (c.lookFate true key now)) else none
  | sweep now j => if j = i then some (.sweep now j) else none

/-- Every queued request points at the shard of its key. -/
def Addressed (c : Cache α) : Prop := ∀ r ∈ c.queue, r.shard = c.shardOf r.key

theorem addressed_ofConfig (config : Config) : (ofConfig config : Cache α).Addressed := by
  intro r hr
  exact absurd hr List.not_mem_nil

theorem Addressed.of_mem (h : c.Addressed) (hcount : d.shardCount = c.shardCount)
    (hqueue : ∀ r ∈ d.queue, r ∈ c.queue ∨ r.shard = c.shardOf r.key) : d.Addressed := by
  intro r hr
  rw [shardOf_congr hcount]
  rcases hqueue r hr with hold | hnew
  · exact h r hold
  · exact hnew

theorem shard_of_staleRequest? {r : ReapRequest} (h : c.staleRequest? key now = some r) :
    r.shard = c.shardOf r.key := by
  rw [staleRequest?_eq] at h
  obtain ⟨e, -, rfl⟩ := Option.map_eq_some_iff.mp h
  rfl

theorem mem_queue_scheduleWhile {busy : Bool} {r x : ReapRequest}
    (h : x ∈ (c.scheduleWhile busy r).queue) : x ∈ c.queue ∨ x = r := by
  by_cases hroom : c.HasRoom
  · rw [scheduleWhile_of_hasRoom hroom] at h
    simpa using h
  · rw [scheduleWhile_of_full hroom] at h
    cases busy with
    | true => exact Or.inl h
    | false =>
      rw [if_neg Bool.false_ne_true, queue_reap] at h
      exact Or.inl h

theorem Addressed.getWhile (h : c.Addressed) (busy : Bool) (key : String) (now : UInt64) :
    (c.getWhile busy key now).2.Addressed := by
  refine h.of_mem (shardCount_getWhile busy c key now) ?_
  intro x hx
  have hqueue := (queue_look c key now).1
  rw [getWhile_snd] at hx
  cases hrequest : c.staleRequest? key now with
  | none =>
    rw [hrequest, hqueue] at hx
    exact Or.inl hx
  | some r =>
    rw [hrequest] at hx
    rcases mem_queue_scheduleWhile hx with hold | rfl
    · rw [hqueue] at hold
      exact Or.inl hold
    · exact Or.inr (shard_of_staleRequest? hrequest)

theorem queue_sweepShard (now : Instant) (c : Cache α) (i : Nat) :
    (c.sweepShard now i).queue = c.queue := by
  rw [sweepShard]
  split <;> rfl

theorem Addressed.apply (h : c.Addressed) (act : Act α) : (act.apply c).Addressed := by
  have hcount := act.shardCount_apply c
  cases act with
  | getBusy key now => exact h.getWhile true key now
  | sweep now i =>
    refine h.of_mem hcount ?_
    intro r hr
    rw [Act.apply, queue_sweepShard] at hr
    exact Or.inl hr
  | call op =>
    cases op with
    | get key now => exact h.getWhile false key now
    | purge now => exact h.of_mem hcount fun r hr => Or.inl hr
    | clear =>
      refine h.of_mem hcount ?_
      intro r hr
      rw [Act.apply, Op.apply, queue_clear] at hr
      exact Or.inl hr
    | store s =>
      refine h.of_mem hcount ?_
      intro r hr
      rw [Act.apply, Op.apply, Store.apply_eq] at hr
      cases hattempt : s.attempt? c with
      | none =>
        rw [hattempt] at hr
        exact Or.inl hr
      | some a =>
        simp only [hattempt, Attempt.apply, queue_setIf] at hr
        exact Or.inl hr
    | reap n =>
      refine h.of_mem hcount ?_
      intro r hr
      rw [Act.apply, Op.apply, reapAt] at hr
      cases hqueued : c.queue[n]? with
      | none =>
        rw [hqueued] at hr
        exact Or.inl hr
      | some q =>
        rw [hqueued, queue_reap] at hr
        exact Or.inl (List.mem_of_mem_eraseIdx hr)

/-- A deed does nothing to the queue. -/
theorem Follows.desk {deed : Deed α} (h : c.Follows deed d) (hi : i < c.shardCount)
    (hqueue : d.queue = c.queue) :
    d.desk i = if deed.concerns c.shardCount i then (c.desk i).perform deed else c.desk i := by
  rw [Cache.desk, hqueue, h i hi]
  split <;> rfl

theorem desk_congr (hshards : d.shards = c.shards) (hepoch : d.epoch = c.epoch)
    (hpolicy : d.policy = c.policy) (hqueue : d.queue = c.queue) (i : Nat) :
    d.desk i = c.desk i := by
  rw [desk, desk, cell, cell, shardAt_congr hshards, hepoch, hpolicy, hqueue]

theorem desk_reap {r : ReapRequest} (h : r.shard = c.shardOf r.key) (hi : i < c.shardCount) :
    (c.reap r).desk i =
      if r.shard = i then (c.desk i).perform (.remove r.key r.generation) else c.desk i := by
  rw [h]
  exact ((follows_reap h).desk hi (queue_reap c r)).trans (if_congr beq_iff_eq rfl rfl)

theorem desk_scheduleWhile (busy : Bool) {r : ReapRequest} (h : r.shard = c.shardOf r.key)
    (hi : i < c.shardCount) :
    (c.scheduleWhile busy r).desk i =
      if r.shard = i then (c.desk i).lodge r.key r.generation (c.fate busy) else c.desk i := by
  by_cases hroom : c.HasRoom
  · rw [scheduleWhile_of_hasRoom hroom, fate, if_pos hroom]
    by_cases hown : r.shard = i
    · simp [desk, Desk.lodge, hown]
      rfl
    · simp [desk, hown]
      rfl
  · rw [scheduleWhile_of_full hroom, fate, if_neg hroom]
    let dropped : Cache α := { c with counters := c.counters.recordReapDropped }
    have hdropped : dropped.desk i = c.desk i := desk_congr rfl rfl rfl rfl i
    cases busy with
    | true =>
      have hmarks : dropped.Follows (.mark r.key)
          (dropped.setShard r.shard (dropped.shardAt r.shard).mark) :=
        .of_setShard (fun j => by rw [h]; rfl) rfl rfl rfl rfl
      have hdesk := hmarks.desk hi rfl
      rw [hdropped] at hdesk
      rw [if_pos rfl]
      rw [h] at hdesk ⊢
      exact hdesk.trans (if_congr beq_iff_eq rfl rfl)
    | false =>
      have hdesk := desk_reap (c := dropped) h hi
      rw [hdropped] at hdesk
      exact hdesk

theorem fate_look (busy : Bool) (c : Cache α) (key : String) (now : UInt64) :
    (c.look key now).2.fate busy = c.fate busy := by
  simp only [fate, hasRoom_look]

/-- What a lookup finds in its shard decides whether it makes a request. -/
theorem staleRequest?_of_lookup (c : Cache α) (key : String) (now : UInt64) :
    c.staleRequest? key now = match ((c.shardAt (c.shardOf key)).lookup key now).1 with
      | .expired generation => some ⟨c.shardOf key, key, generation⟩
      | _ => none := by
  have hrequest := congrArg (fun found : Lookup α => match found with
    | .expired generation => some (⟨c.shardOf key, key, generation⟩ : ReapRequest)
    | _ => none) (look_fst_eq_lookup c key now)
  exact hrequest

theorem desk_getWhile (busy : Bool) (c : Cache α) (key : String) (now : UInt64)
    (hi : i < c.shardCount) :
    (c.getWhile busy key now).2.desk i =
      if c.shardOf key = i then (c.desk i).heed (.look key now (c.lookFate busy key now))
      else c.desk i := by
  have hcount := (keeps_look c key now).shardCount
  have hlook : (c.look key now).2.desk i =
      if c.shardOf key = i then (c.desk i).perform (.look key now) else c.desk i :=
    ((follows_look c key now).desk hi (queue_look c key now).1).trans
      (if_congr beq_iff_eq rfl rfl)
  rw [getWhile_snd, lookFate, staleRequest?_of_lookup]
  cases hfound : ((c.shardAt (c.shardOf key)).lookup key now).1 with
  | expired generation =>
    dsimp only
    rw [desk_scheduleWhile busy (shardOf_look c key now key).symm (hcount ▸ hi), hlook, fate_look]
    by_cases hown : c.shardOf key = i
    · subst hown
      rw [if_pos rfl, if_pos rfl, if_pos rfl, Desk.heed_look_of_expired hfound]
    · rw [if_neg hown, if_neg hown, if_neg hown]
  | hit | miss =>
    dsimp only
    rw [hlook]
    by_cases hown : c.shardOf key = i
    · subst hown
      have hlive : ∀ generation, ((c.desk (c.shardOf key)).cell.shard.lookup key now).1 ≠
          .expired generation := by
        intro generation hexpired
        cases hfound.symm.trans hexpired
      rw [if_pos rfl, if_pos rfl, Desk.heed_look_of_ne_expired hlive]
    · rw [if_neg hown, if_neg hown]

/-- What is taken from a list is taken from a part of it, if it belongs to that part. -/
theorem filter_eraseIdx {β : Type} (p : β → Bool) {l : List β} {n : Nat} {x : β}
    (h : l[n]? = some x) :
    (p x = true → (l.filter p)[(l.take n).countP p]? = some x ∧
      (l.eraseIdx n).filter p = (l.filter p).eraseIdx ((l.take n).countP p)) ∧
    (p x = false → (l.eraseIdx n).filter p = l.filter p) := by
  induction l generalizing n with
  | nil => simp at h
  | cons y l ih =>
    cases n with
    | zero =>
      obtain rfl : y = x := by simpa using h
      exact ⟨fun hp => by simp [hp], fun hp => by simp [hp]⟩
    | succ n =>
      obtain ⟨hin, hout⟩ := ih (n := n) (by simpa using h)
      refine ⟨fun hp => ?_, fun hp => ?_⟩
      · obtain ⟨hget, herase⟩ := hin hp
        cases hy : p y <;> simp [hy, hget, herase]
      · cases hy : p y <;> simp [hy, hout hp]

theorem desk_reapAt (h : c.Addressed) (hi : i < c.shardCount) (n : Nat) :
    (c.reapAt n).desk i = (c.desk i).heedAll ((Act.call (.reap n)).notice? c i).toList := by
  rw [reapAt, Act.notice?]
  cases hqueued : c.queue[n]? with
  | none => rfl
  | some r =>
    let popped : Cache α := { c with queue := c.queue.eraseIdx n }
    have hshard : r.shard = c.shardOf r.key := h r (List.mem_of_getElem? hqueued)
    obtain ⟨hown, hother⟩ := filter_eraseIdx (·.shard == i) hqueued
    refine (desk_reap (c := popped) hshard hi).trans ?_
    dsimp only
    rw [Desk.heedAll_toList_ite]
    by_cases hr : r.shard = i
    · obtain ⟨hget, herase⟩ := hown (beq_iff_eq.mpr hr)
      have hwaiting : (c.desk i).waiting[(c.queue.take n).countP (·.shard == i)]? =
          some (r.key, r.generation) := by
        simp [desk, hget]
      rw [if_pos hr, if_pos hr]
      simp only [Desk.heed, hwaiting]
      rw [desk, herase, ← List.eraseIdx_map]
      rfl
    · rw [if_neg hr, if_neg hr]
      change Desk.mk _ _ = c.desk i
      rw [hother (beq_eq_false_iff_ne.mpr hr)]
      rfl

/-- Whatever happens to a cache, a shard heeds what it is told and nothing else. -/
theorem Act.desk_apply (h : c.Addressed) (hi : i < c.shardCount) (act : Act α) :
    (act.apply c).desk i = (c.desk i).heedAll (act.notice? c i).toList := by
  cases act with
  | getBusy key now =>
    rw [notice?, Desk.heedAll_toList_ite]
    exact desk_getWhile true c key now hi
  | sweep now j =>
    have hdesk := (follows_sweepShard c now j).desk hi (queue_sweepShard now c j)
    rw [notice?, Desk.heedAll_toList_ite]
    exact hdesk.trans (if_congr beq_iff_eq rfl rfl)
  | call op =>
    cases op with
    | store s =>
      have hqueue : (s.apply c).queue = c.queue := by
        rw [Store.apply_eq]
        cases s.attempt? c with
        | none => rfl
        | some a => exact queue_setIf c _ _ _ _ _
      have hdesk := (follows_store c s).desk hi hqueue
      rw [notice?, Desk.heedAll_toList_ite]
      exact hdesk.trans (if_congr beq_iff_eq rfl rfl)
    | get key now =>
      rw [notice?, Desk.heedAll_toList_ite]
      exact desk_getWhile false c key now hi
    | purge now => exact (follows_purge c now).desk hi rfl
    | clear => exact (follows_clear c).desk hi (queue_clear c)
    | reap n => exact desk_reapAt h hi n

/-- What a history tells a shard, in order. -/
def notices (c : Cache α) (i : Nat) : List (Act α) → List (Notice α)
  | [] => []
  | act :: acts => (act.notice? c i).toList ++ notices (act.apply c) i acts

theorem Addressed.after (h : c.Addressed) (acts : List (Act α)) : (c.after acts).Addressed :=
  List.foldlRecOn acts _ h fun _ h act _ => h.apply act

theorem shardCount_after (c : Cache α) (acts : List (Act α)) :
    (c.after acts).shardCount = c.shardCount :=
  List.foldlRecOn (motive := fun d => d.shardCount = c.shardCount) acts _ rfl
    fun d h act _ => (act.shardCount_apply d).trans h

theorem desk_after (h : c.Addressed) (hi : i < c.shardCount) (acts : List (Act α)) :
    (c.after acts).desk i = (c.desk i).heedAll (c.notices i acts) := by
  induction acts generalizing c with
  | nil => rfl
  | cons act acts ih =>
    have hrest := ih (h.apply act) (act.shardCount_apply c ▸ hi)
    rw [act.desk_apply h hi] at hrest
    rw [notices, Desk.heedAll, List.foldl_append]
    exact hrest

/-- What an act answers about a key of a shard. -/
def Act.answer? (c : Cache α) (i : Nat) : Act α → Option (Option α)
  | call (.get key now) => if c.shardOf key = i then some (c.get key now).1 else none
  | getBusy key now => if c.shardOf key = i then some (c.getWhile true key now).1 else none
  | _ => none

/-- The answers of a history to the lookups of keys of a shard, in order. -/
def answers (c : Cache α) (i : Nat) : List (Act α) → List (Option α)
  | [] => []
  | act :: acts => (act.answer? c i).toList ++ answers (act.apply c) i acts

theorem getWhile_fst (busy : Bool) (c : Cache α) (key : String) (now : UInt64) :
    (c.getWhile busy key now).1 =
      ((c.shardAt (c.shardOf key)).lookup key now).1.value? := by
  rw [← look_fst_eq_lookup, getWhile]
  generalize c.look key now = looked
  rcases looked with ⟨found, d⟩
  cases found <;> rfl

theorem answer?_look (busy : Bool) (c : Cache α) (i : Nat) (key : String) (now : UInt64) :
    (if c.shardOf key = i then some (c.getWhile busy key now).1 else none) =
      (if c.shardOf key = i then some (Notice.look key now (c.lookFate busy key now))
        else none).bind (c.desk i).answer? := by
  by_cases hown : c.shardOf key = i
  · subst hown
    rw [if_pos rfl, if_pos rfl, getWhile_fst]
    rfl
  · rw [if_neg hown, if_neg hown]
    rfl

/-- A shard answers in the cache as its desk does by itself. -/
theorem Act.answer?_eq (c : Cache α) (i : Nat) (act : Act α) :
    act.answer? c i = (act.notice? c i).bind (c.desk i).answer? := by
  cases act with
  | getBusy key now => exact answer?_look true c i key now
  | sweep now j =>
    change none = _
    rw [notice?]
    split <;> rfl
  | call op =>
    cases op with
    | store s =>
      change none = _
      rw [notice?]
      split <;> rfl
    | get key now =>
      rw [answer?, ← getWhile_false]
      exact answer?_look false c i key now
    | purge now => rfl
    | clear => rfl
    | reap n =>
      change none = _
      rw [notice?]
      cases c.queue[n]? with
      | none => rfl
      | some r =>
        dsimp only
        split <;> rfl

theorem answers_eq (h : c.Addressed) (hi : i < c.shardCount) (acts : List (Act α)) :
    c.answers i acts = (c.desk i).answers (c.notices i acts) := by
  induction acts generalizing c with
  | nil => rfl
  | cons act acts ih =>
    have hrest := ih (h.apply act) (act.shardCount_apply c ▸ hi)
    rw [act.desk_apply h hi] at hrest
    rw [answers, notices, hrest, act.answer?_eq]
    cases act.notice? c i with
    | none => rfl
    | some notice => rfl

theorem shardCount_ofConfig (config : Config) :
    (ofConfig config : Cache α).shardCount = config.effectiveShards := Array.size_replicate

theorem desk_ofConfig (config : Config) (h : i < config.effectiveShards) :
    (ofConfig config : Cache α).desk i = Desk.start config := by
  rw [desk, cell_ofConfig config h]
  rfl

theorem after_append (c : Cache α) (before later : List (Act α)) :
    c.after (before ++ later) = (c.after before).after later := List.foldl_append

/-- What a history of a configuration tells one of its shards. -/
def noticesAt (config : Config) (i : Nat) (acts : List (Act α)) : List (Notice α) :=
  (ofConfig config).notices i acts

/-- The shards of a cache are independent but for the bound of their queue.  Each ends as it
ends by itself with what it is told, and answers as it does by itself; histories that tell a
shard the same leave it the same and get the same answers from it; and what tells a shard
nothing leaves it as it is.  What becomes of a request depends on other shards only where the
queue has no room. -/
theorem shards_independent (config : Config) (i : Fin config.effectiveShards) :
    (∀ acts : List (Act α),
      ((ofConfig config).after acts).desk i =
          (Desk.start config).heedAll (noticesAt config i acts) ∧
        (ofConfig config).answers i acts =
          (Desk.start config).answers (noticesAt config i acts)) ∧
    (∀ acts others : List (Act α), noticesAt config i acts = noticesAt config i others →
      ((ofConfig config).after acts).desk i = ((ofConfig config).after others).desk i ∧
        (ofConfig config).answers i acts = (ofConfig config).answers i others) ∧
    (∀ (acts : List (Act α)) (act : Act α),
      act.notice? ((ofConfig config).after acts) i = none →
      ((ofConfig config).after (acts ++ [act])).desk i =
        ((ofConfig config).after acts).desk i) ∧
    ∀ (acts : List (Act α)) (busy : Bool) (key : String) (now : UInt64),
      ((ofConfig config).after acts).HasRoom →
      ((ofConfig config).after acts).lookFate busy key now = .queued := by
  have hcount := shardCount_ofConfig (α := α) config
  have hi : i.val < (ofConfig config : Cache α).shardCount := hcount.symm ▸ i.isLt
  have haddressed := addressed_ofConfig (α := α) config
  have hdesk : ∀ acts : List (Act α), ((ofConfig config).after acts).desk i =
      (Desk.start config).heedAll (noticesAt config i acts) := by
    intro acts
    rw [desk_after haddressed hi, desk_ofConfig config i.isLt, noticesAt]
  have hanswers : ∀ acts : List (Act α), (ofConfig config).answers i acts =
      (Desk.start config).answers (noticesAt config i acts) := by
    intro acts
    rw [answers_eq haddressed hi, desk_ofConfig config i.isLt, noticesAt]
  refine ⟨fun acts => ⟨hdesk acts, hanswers acts⟩, ?_, ?_,
    fun acts busy key now hroom => lookFate_of_hasRoom hroom busy key now⟩
  · intro acts others hsame
    rw [hdesk, hdesk, hanswers, hanswers, hsame]
    exact ⟨rfl, rfl⟩
  · intro acts act hsilent
    have hafter := haddressed.after acts
    rw [after_append]
    exact (act.desk_apply hafter ((shardCount_after _ acts).symm ▸ hi)).trans
      (by rw [hsilent]; rfl)

/-- Two shards with room for one entry each, and a queue for one request. -/
def twin : Config := { capacity := 2, shardCount := 2, reaperQueue := 1 }

def quietMorning : List (Act Nat) :=
  [.call (.store (.set "b" 1 (.ofMillis 50) (.ofMillis 0))), .call (.get "b" 60), .call .clear,
    .call (.store (.setUnlessCleared "b" 2 (.ofSecs 1) 1 (.ofMillis 70) (.ofMillis 70))),
    .call (.get "b" 80)]

/-- The same, with a shard beside it in which entries come, expire and are evicted. -/
def busyNeighbour : List (Act Nat) :=
  [.call (.store (.set "a" 7 (.ofMillis 5) (.ofMillis 0))),
    .call (.store (.set "b" 1 (.ofMillis 50) (.ofMillis 0))),
    .call (.get "a" 9), .call (.reap 0),
    .call (.store (.set "c" 8 (.ofMillis 90) (.ofMillis 10))),
    .call (.store (.set "e" 9 (.ofMillis 90) (.ofMillis 20))),
    .call (.get "b" 60), .call .clear,
    .call (.store (.set "a" 7 (.ofMillis 90) (.ofMillis 65))),
    .call (.store (.setUnlessCleared "b" 2 (.ofSecs 1) 1 (.ofMillis 70) (.ofMillis 70))),
    .call (.get "b" 80)]

theorem answers_busyNeighbour :
    noticesAt twin 1 busyNeighbour = noticesAt twin 1 quietMorning ∧
      (ofConfig twin).answers 1 busyNeighbour = (ofConfig twin).answers 1 quietMorning := by
  have hsame : noticesAt twin 1 busyNeighbour = noticesAt twin 1 quietMorning := by
    decide +kernel
  obtain ⟨-, hagree, -⟩ := shards_independent (α := Nat) twin ⟨1, by decide⟩
  exact ⟨hsame, (hagree busyNeighbour quietMorning hsame).2⟩

example : (ofConfig twin).answers 1 quietMorning = [none, some 2] := by
  decide +kernel

/-- Whether an act is a call for a key of one of `count` shards, or for every shard. -/
def Act.isFor (count i : Nat) : Act α → Bool
  | call (.store s) => Hash.shard s.key count == i
  | call (.get key _) => Hash.shard key count == i
  | call (.purge _) => true
  | call .clear => true
  | call (.reap _) => true
  | getBusy key _ => Hash.shard key count == i
  | sweep _ j => j == i

/-- Two shards with room for two entries each, and a queue for one request. -/
def crowded : Config := { capacity := 4, shardCount := 2, reaperQueue := 1 }

def ownHour : List (Act Nat) :=
  [.call (.store (.set "b" 1 (.ofMillis 100) (.ofMillis 0))),
    .call (.store (.set "d" 2 (.ofMillis 10) (.ofMillis 0))),
    .call (.get "d" 20),
    .call (.store (.set "f" 3 (.ofMillis 100) (.ofMillis 20))),
    .call (.get "b" 30)]

/-- The same, with a lookup in the other shard that leaves a request in the queue. -/
def sharedHour : List (Act Nat) :=
  ownHour.take 2 ++
    [.call (.store (.set "a" 7 (.ofMillis 5) (.ofMillis 0))), .call (.get "a" 20)] ++
      ownHour.drop 2

/-- The queue is full when `d` is looked up, so that `d` is removed at once and `b` need not be
evicted for `f`. -/
theorem crowded_out :
    sharedHour.filter (·.isFor crowded.effectiveShards 1) =
        ownHour.filter (·.isFor crowded.effectiveShards 1) ∧
      (ofConfig crowded).answers 1 ownHour = [none, none] ∧
      (ofConfig crowded).answers 1 sharedHour = [none, some 1] ∧
      (((ofConfig crowded).after ownHour).shardAt 1).entries.map (·.key) = ["d", "f"] ∧
      (((ofConfig crowded).after sharedHour).shardAt 1).entries.map (·.key) = ["b", "f"] := by
  decide +kernel

end ArtifactPlane.Cache
