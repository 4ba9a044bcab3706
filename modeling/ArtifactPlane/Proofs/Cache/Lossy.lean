import Mathlib.Data.List.Induction
import ArtifactPlane.Proofs.Cache.History

/-!
The cache is a lossy map.  A lookup finds the last value that was stored under its key, or
nothing; and it finds nothing only after a call that may lose the entry: another store of
the key, an eviction pass that chose it, a purge past its expiry, a clear, or the removal
that a lookup asked for when it found this entry expired.
-/

namespace ArtifactPlane.Cache

variable {α : Type}

/-- The `n`-th store of a shard takes this generation. -/
def stamp (n : Nat) : UInt64 := UInt64.ofNat (n + 1)

theorem stamp_succ (n : Nat) : stamp (n + 1) = stamp n + 1 := UInt64.ofNat_add (n + 1) 1

theorem stamp_inj {m n : Nat} (hm : m < UInt64.size) (hn : n < UInt64.size)
    (h : stamp m = stamp n) : m = n := by
  have hmod := congrArg UInt64.toNat h
  simp only [stamp, UInt64.toNat_ofNat'] at hmod
  unfold UInt64.size at hm hn
  omega

namespace Ledger

variable {s : Ledger α} {op : Op α} {key : String} {e e' : Entry α} {n : Nat} {config : Config}
  {ops : List (Op α)}

/-- What may take away the entry that call `n` stored under a key until `expiresAt`. -/
inductive Loss (s : Ledger α) (key : String) (expiresAt : UInt64) (n : Nat) : Op α → Prop
  /-- A later store of the key is accepted. -/
  | replaced {op : Op α} {a : Attempt α} :
    op.accepted? s.cache = some a → a.key = key → Loss s key expiresAt n op
  /-- An accepted store of another key evicts it. -/
  | evicted {op : Op α} {a : Attempt α} :
    op.accepted? s.cache = some a → key ∈ s.cache.displaced a.key a.now →
      Loss s key expiresAt n op
  /-- A purge comes after its expiry. -/
  | purged {now : Instant} : expiresAt < now.millis → Loss s key expiresAt n (.purge now)
  | cleared : Loss s key expiresAt n .clear
  /-- A request is carried out that was made for this very entry. -/
  | reaped {op : Op α} {x : Sighting} :
    s.carried? op = some x → x.request.key = key → x.writer = some n → Loss s key expiresAt n op

/-- A request names the shard of its key and the generation of the entry that it was made
for, which is the one held now only if no other store of the key came since. -/
structure Sound (s : Ledger α) (x : Sighting) : Prop where
  home : x.request.shard = s.cache.shardOf x.request.key
  stamped : ∃ m < s.attempts (s.cache.shardOf x.request.key), x.request.generation = stamp m
  written : ∃ n < s.count, x.writer = some n
  same : ∀ e, s.cache.find? x.request.key = some e →
    (e.generation = x.request.generation ↔ x.writer = s.writer x.request.key)

/-- The ledger is true of its cache. -/
structure Tracked (s : Ledger α) : Prop where
  placed : s.cache.WellPlaced
  queue : s.cache.queue = s.asked.map (·.request)
  numbered : ∀ i, s.cache.nextGeneration i = stamp (s.attempts i)
  stamped : ∀ key e, s.cache.find? key = some e →
    ∃ m < s.attempts (s.cache.shardOf key), e.generation = stamp m
  written : ∀ key e, s.cache.find? key = some e → ∃ n < s.count, s.writer key = some n
  sound : ∀ x ∈ s.asked, s.Sound x

/-- An accepted store is what its key holds next. -/
theorem find?_step_of_accepted (h : s.Tracked) {a : Attempt α}
    (ha : op.accepted? s.cache = some a) :
    (s.step op).cache.find? a.key = some (.fresh a.key a.value a.expiresAt a.now
      (s.cache.nextGeneration (s.cache.shardOf a.key))) := by
  rw [cache_step, Op.find?_apply_of_accepted h.placed.shardCount_pos ha]
  exact if_pos rfl

/-- Nothing but an accepted store of a key makes it hold an entry. -/
theorem find?_step_of_free (h : s.Tracked) (hfree : s.cache.find? key = none)
    (hother : ∀ a, op.accepted? s.cache = some a → a.key ≠ key) :
    (s.step op).cache.find? key = none := by
  have hpos := h.placed.shardCount_pos
  rw [cache_step]
  cases op with
  | store st =>
    cases haccepted : (Op.store st).accepted? s.cache with
    | none => exact (Op.find?_apply_of_refused hpos haccepted key).trans hfree
    | some a =>
      rw [Op.find?_apply_of_accepted hpos haccepted, if_neg (hother a haccepted).symm, hfree]
      split <;> rfl
  | get k now =>
    simp only [Op.apply]
    rw [find?_get hpos]
    simp [hfree]
  | purge now =>
    simp only [Op.apply]
    rw [h.placed.find?_purge, hfree]
    rfl
  | clear => exact find?_clear s.cache key
  | reap m =>
    simp only [Op.apply]
    rw [find?_reapAt hpos, hfree]
    split
    · split <;> rfl
    · rfl

/-- What becomes of an entry: a call loses it, or its key holds it on. -/
def Fate (s : Ledger α) (op : Op α) (key : String) (e : Entry α) (n : Nat) : Prop :=
  s.Loss key e.expiresAt n op ∧ (s.step op).cache.find? key = none ∨
    ¬ s.Loss key e.expiresAt n op ∧
      ∃ e', (s.step op).cache.find? key = some e' ∧ e'.SameStore e

theorem fate_store (h : s.Tracked) (he : s.cache.find? key = some e) {st : Store α}
    (hother : ∀ a, (Op.store st).accepted? s.cache = some a → a.key ≠ key) :
    s.Fate (.store st) key e n := by
  have hloss : s.Loss key e.expiresAt n (.store st) ↔ ∃ a,
      (Op.store st).accepted? s.cache = some a ∧ key ∈ s.cache.displaced a.key a.now := by
    constructor
    · intro hloss
      cases hloss with
      | replaced ha hkey => exact absurd hkey (hother _ ha)
      | evicted ha hkey => exact ⟨_, ha, hkey⟩
      | reaped hx _ _ => simp [carried?] at hx
    · rintro ⟨a, ha, hkey⟩
      exact .evicted ha hkey
  unfold Fate
  rw [hloss, cache_step]
  cases haccepted : (Op.store st).accepted? s.cache with
  | none =>
    refine Or.inr ⟨?_, e, ?_, Entry.SameStore.refl e⟩
    · rintro ⟨a, ha, -⟩
      exact nomatch ha
    · exact (Op.find?_apply_of_refused h.placed.shardCount_pos haccepted key).trans he
  | some a =>
    rw [Op.find?_apply_of_accepted h.placed.shardCount_pos haccepted,
      if_neg (hother a haccepted).symm]
    by_cases hout : key ∈ s.cache.displaced a.key a.now
    · refine Or.inl ⟨⟨a, rfl, hout⟩, ?_⟩
      exact if_pos ⟨h.placed.shardOf_of_mem_displaced hout, hout⟩
    · refine Or.inr ⟨?_, e, (if_neg fun hin => hout hin.2).trans he, Entry.SameStore.refl e⟩
      rintro ⟨b, hb, hmem⟩
      obtain rfl := Option.some.inj hb
      exact hout hmem

theorem sighting?_eq (s : Ledger α) (k : String) (now : UInt64) :
    s.sighting? k now = ((s.cache.find? k).filter fun e => e.isExpired now).map
      fun e => ⟨⟨s.cache.shardOf k, k, e.generation⟩, s.writer k⟩ := by
  rw [sighting?, staleRequest?_eq, Option.map_map]
  rfl

theorem fate_get (h : s.Tracked) (he : s.cache.find? key = some e)
    (hn : s.writer key = some n) (k : String) (now : UInt64) : s.Fate (.get k now) key e n := by
  have hloss : s.Loss key e.expiresAt n (.get k now) ↔
      key = k ∧ ¬ s.cache.HasRoom ∧ e.isExpired now = true := by
    constructor
    · intro hloss
      cases hloss with
      | replaced ha _ => simp [Op.accepted?, Op.attempt?] at ha
      | evicted ha _ => simp [Op.accepted?, Op.attempt?] at ha
      | reaped hx hkey _ =>
        simp only [carried?, sighting?_eq] at hx
        split at hx
        · simp at hx
        · next hfull =>
          obtain ⟨e₀, he₀, rfl⟩ := Option.map_eq_some_iff.mp hx
          obtain ⟨he₀, hexpired⟩ := Option.filter_eq_some_iff.mp he₀
          obtain rfl : k = key := hkey
          obtain rfl : e = e₀ := Option.some.inj (he.symm.trans he₀)
          exact ⟨rfl, hfull, hexpired⟩
    · rintro ⟨rfl, hfull, hexpired⟩
      refine .reaped (x := ⟨⟨s.cache.shardOf key, key, e.generation⟩, s.writer key⟩) ?_ rfl hn
      simp [carried?, sighting?_eq, hfull, he, Option.filter, hexpired]
  unfold Fate
  rw [hloss, cache_step]
  simp only [Op.apply]
  rw [find?_get h.placed.shardCount_pos]
  by_cases hkey : key = k
  · subst hkey
    by_cases hout : ¬ s.cache.HasRoom ∧ e.isExpired now = true
    · refine Or.inl ⟨⟨rfl, hout⟩, ?_⟩
      simp [he, Option.filter, hout.1, hout.2]
    · refine Or.inr ⟨fun hin => hout hin.2, e.visit now, ?_, ?_⟩
      · have hkept : (decide s.cache.HasRoom || !e.isExpired now) = true := by
          by_cases hroom : s.cache.HasRoom
          · simp [hroom]
          · simpa [hroom] using hout
        simp [he, Option.filter, hkept]
      · exact e.sameStore_visit now
  · rw [if_neg hkey]
    exact Or.inr ⟨fun hin => hkey hin.1, e, he, Entry.SameStore.refl e⟩

theorem fate_purge (h : s.Tracked) (he : s.cache.find? key = some e) (now : Instant) :
    s.Fate (.purge now) key e n := by
  have hloss : s.Loss key e.expiresAt n (.purge now) ↔ e.isExpired now.millis = true := by
    constructor
    · intro hloss
      cases hloss with
      | replaced ha _ => simp [Op.accepted?, Op.attempt?] at ha
      | evicted ha _ => simp [Op.accepted?, Op.attempt?] at ha
      | purged hlt => exact decide_eq_true hlt
      | reaped hx _ _ => simp [carried?] at hx
    · intro hexpired
      exact .purged (of_decide_eq_true hexpired)
  unfold Fate
  rw [hloss, cache_step]
  simp only [Op.apply]
  rw [h.placed.find?_purge, he]
  by_cases hexpired : e.isExpired now.millis = true
  · exact Or.inl ⟨hexpired, by simp [Option.filter, hexpired]⟩
  · exact Or.inr ⟨hexpired, e, by simp [Option.filter, hexpired], Entry.SameStore.refl e⟩

theorem fate_reap (h : s.Tracked) (he : s.cache.find? key = some e)
    (hn : s.writer key = some n) (m : Nat) : s.Fate (.reap m) key e n := by
  have hloss : s.Loss key e.expiresAt n (.reap m) ↔
      ∃ x, s.asked[m]? = some x ∧ x.request.key = key ∧ x.writer = some n := by
    constructor
    · intro hloss
      cases hloss with
      | replaced ha _ => simp [Op.accepted?, Op.attempt?] at ha
      | evicted ha _ => simp [Op.accepted?, Op.attempt?] at ha
      | reaped hx hkey hwriter => exact ⟨_, hx, hkey, hwriter⟩
    · rintro ⟨x, hx, hkey, hwriter⟩
      exact .reaped hx hkey hwriter
  unfold Fate
  rw [hloss, cache_step]
  simp only [Op.apply]
  rw [find?_reapAt h.placed.shardCount_pos, h.queue, List.getElem?_map, he]
  cases hx : s.asked[m]? with
  | none => exact Or.inr ⟨by simp, e, rfl, Entry.SameStore.refl e⟩
  | some x =>
    have hsound := h.sound x (List.mem_of_getElem? hx)
    simp only [Option.map_some]
    by_cases hkey : key = x.request.key
    · subst hkey
      have hsame := hsound.same e he
      rw [hn] at hsame
      rw [if_pos ⟨hsound.home.symm, rfl⟩]
      by_cases hwriter : x.writer = some n
      · refine Or.inl ⟨⟨x, rfl, rfl, hwriter⟩, ?_⟩
        simp [Option.filter, hsame.mpr hwriter]
      · refine Or.inr ⟨?_, e, ?_, Entry.SameStore.refl e⟩
        · rintro ⟨y, hy, -, hin⟩
          obtain rfl := Option.some.inj hy
          exact hwriter hin
        · simp [Option.filter, mt hsame.mp hwriter]
    · refine Or.inr ⟨?_, e, if_neg fun hin => hkey hin.2, Entry.SameStore.refl e⟩
      rintro ⟨y, hy, hin, -⟩
      obtain rfl := Option.some.inj hy
      exact hkey hin.symm

theorem fate_step (h : s.Tracked) (he : s.cache.find? key = some e) (hn : s.writer key = some n)
    (hother : ∀ a, op.accepted? s.cache = some a → a.key ≠ key) : s.Fate op key e n := by
  cases op with
  | store st => exact fate_store h he hother
  | get k now => exact fate_get h he hn k now
  | purge now => exact fate_purge h he now
  | clear => exact Or.inl ⟨.cleared, find?_clear s.cache key⟩
  | reap m => exact fate_reap h he hn m

/-- An entry held after a call was stored by that call or held before. -/
theorem origin_step (h : s.Tracked) (he : (s.step op).cache.find? key = some e') :
    (∃ a, op.accepted? s.cache = some a ∧ a.key = key ∧ e' = .fresh a.key a.value a.expiresAt
      a.now (s.cache.nextGeneration (s.cache.shardOf a.key))) ∨
    (∀ a, op.accepted? s.cache = some a → a.key ≠ key) ∧
      ∃ e, s.cache.find? key = some e ∧ e'.SameStore e := by
  by_cases hstored : ∃ a, op.accepted? s.cache = some a ∧ a.key = key
  · obtain ⟨a, ha, rfl⟩ := hstored
    rw [find?_step_of_accepted h ha] at he
    exact Or.inl ⟨a, ha, rfl, (Option.some.inj he).symm⟩
  · have hother : ∀ a, op.accepted? s.cache = some a → a.key ≠ key :=
      fun a ha hkey => hstored ⟨a, ha, hkey⟩
    refine Or.inr ⟨hother, ?_⟩
    cases hold : s.cache.find? key with
    | none =>
      rw [find?_step_of_free h hold hother] at he
      simp at he
    | some e =>
      obtain ⟨n, -, hn⟩ := h.written key e hold
      rcases fate_step h hold hn hother with ⟨-, hnone⟩ | ⟨-, e₁, he₁, hsame⟩
      · rw [hnone] at he
        simp at he
      · rw [he₁] at he
        obtain rfl := Option.some.inj he
        exact ⟨e, rfl, hsame⟩

theorem shardOf_step (s : Ledger α) (op : Op α) (key : String) :
    (s.step op).cache.shardOf key = s.cache.shardOf key :=
  shardOf_congr (Op.shardCount_apply s.cache op) key

/-- A request does not come to name an entry stored after it: generations do not come round. -/
theorem Sound.step {x : Sighting} (h : s.Tracked) (hx : s.Sound x)
    (hroom : ∀ i, (s.step op).attempts i < UInt64.size) : (s.step op).Sound x := by
  obtain ⟨m, hm, hstamp⟩ := hx.stamped
  obtain ⟨n, hn, hwriter⟩ := hx.written
  have hmono := attempts_le_step s op
  refine ⟨?_, ⟨m, ?_, hstamp⟩, ⟨n, Nat.lt_succ_of_lt hn, hwriter⟩, ?_⟩
  · rw [shardOf_step]
    exact hx.home
  · rw [shardOf_step]
    exact Nat.lt_of_lt_of_le hm (hmono _)
  · intro e' he'
    rcases origin_step h he' with ⟨a, ha, hkey, rfl⟩ | ⟨hother, e, he, hsame⟩
    · have hattempts := attempts_step_of_attempt (Op.accepted?_eq_some_iff.mp ha).1
      have hlt := hroom (s.cache.shardOf a.key)
      rw [← hkey] at hm ⊢
      rw [writer_step_of_accepted ha, hwriter, hstamp, Entry.fresh, h.numbered]
      constructor
      · intro hgeneration
        have heq := stamp_inj (by omega) (by omega) hgeneration
        omega
      · intro hnow
        have heq := Option.some.inj hnow
        omega
    · rw [hsame.generation, writer_step_of_ne hother]
      exact hx.same e he

theorem sound_of_mem_pending (h : s.Tracked) {x : Sighting} (hx : x ∈ s.pending op) :
    s.Sound x := by
  cases op with
  | store st => exact h.sound x hx
  | purge now => exact h.sound x hx
  | clear => exact h.sound x hx
  | reap n => exact h.sound x (List.mem_of_mem_eraseIdx hx)
  | get k now =>
    simp only [pending] at hx
    split at hx
    · rcases List.mem_append.mp hx with hold | hnew
      · exact h.sound x hold
      · rw [sighting?_eq, Option.mem_toList] at hnew
        obtain ⟨e, he, rfl⟩ := Option.map_eq_some_iff.mp hnew
        obtain ⟨he, -⟩ := Option.filter_eq_some_iff.mp he
        refine ⟨rfl, h.stamped k e he, h.written k e he, ?_⟩
        intro e₁ he₁
        obtain rfl := Option.some.inj (he.symm.trans he₁)
        exact iff_of_true rfl rfl
    · exact h.sound x hx

theorem tracked_start (config : Config) : (start config : Ledger α).Tracked := by
  have hnone : ∀ key, (ofConfig config : Cache α).find? key = none := by
    intro key
    apply Option.eq_none_iff_forall_ne_some.mpr
    intro e he
    exact not_stores_ofConfig config _ key e.value (Shard.stores_of_find? he)
  refine ⟨WellPlaced.ofConfig config, rfl, ?_, ?_, ?_, fun x hx => absurd hx List.not_mem_nil⟩
  · intro i
    unfold start nextGeneration shardAt ofConfig
    rw [Array.getD_eq_getD_getElem?, Array.getElem?_replicate]
    split <;> rfl
  · intro key e he
    exact absurd (he.symm.trans (hnone key)) (by simp)
  · intro key e he
    exact absurd (he.symm.trans (hnone key)) (by simp)

theorem Tracked.step (h : s.Tracked) (hroom : ∀ i, (s.step op).attempts i < UInt64.size) :
    (s.step op).Tracked := by
  refine ⟨Op.wellPlaced_apply h.placed op, queue_step h.queue op, ?_, ?_, ?_, ?_⟩
  · intro i
    rw [cache_step, Op.nextGeneration_apply h.placed.shardCount_pos, h.numbered]
    simp only [Ledger.step]
    split
    · split
      · exact (stamp_succ _).symm
      · rfl
    · rfl
  · intro key e' he'
    rw [shardOf_step]
    rcases origin_step h he' with ⟨a, ha, rfl, rfl⟩ | ⟨-, e, he, hsame⟩
    · rw [attempts_step_of_attempt (Op.accepted?_eq_some_iff.mp ha).1]
      exact ⟨_, Nat.lt_succ_self _, h.numbered _⟩
    · obtain ⟨m, hm, hstamp⟩ := h.stamped key e he
      exact ⟨m, Nat.lt_of_lt_of_le hm (attempts_le_step s op _), hsame.generation.trans hstamp⟩
  · intro key e' he'
    rcases origin_step h he' with ⟨a, ha, rfl, -⟩ | ⟨hother, e, he, -⟩
    · exact ⟨s.count, Nat.lt_succ_self _, writer_step_of_accepted ha⟩
    · obtain ⟨n, hn, hwriter⟩ := h.written key e he
      exact ⟨n, Nat.lt_succ_of_lt hn, (writer_step_of_ne hother).trans hwriter⟩
  · intro x hx
    exact (sound_of_mem_pending h hx).step h hroom

theorem tracked_run (config : Config) (ops : List (Op α))
    (hroom : ∀ i, (run config ops).attempts i < UInt64.size) : (run config ops).Tracked := by
  induction ops using List.reverseRecOn with
  | nil => exact tracked_start config
  | append_singleton ops op ih =>
    rw [run_append] at hroom ⊢
    exact (ih fun i => Nat.lt_of_le_of_lt (attempts_le_step _ op i) (hroom i)).step hroom

/-- Call `m` of a history is `op`, made on the ledger `s`. -/
structure CallAt (config : Config) (ops : List (Op α)) (m : Nat) (op : Op α) (s : Ledger α) :
    Prop where
  call : ops[m]? = some op
  ledger : s = run config (ops.take m)

theorem CallAt.lt_length {m : Nat} (h : CallAt config ops m op s) : m < ops.length :=
  (List.getElem?_eq_some_iff.mp h.call).1

theorem callAt_append_iff {m : Nat} {x : Op α} :
    CallAt config (ops ++ [op]) m x s ↔
      CallAt config ops m x s ∨ m = ops.length ∧ x = op ∧ s = run config ops := by
  constructor
  · rintro ⟨hcall, rfl⟩
    by_cases hm : m < ops.length
    · rw [List.getElem?_append_left hm] at hcall
      rw [List.take_append_of_le_length (Nat.le_of_lt hm)]
      exact Or.inl ⟨hcall, rfl⟩
    · have hlength := (List.getElem?_eq_some_iff.mp hcall).1
      rw [List.length_append, List.length_singleton] at hlength
      obtain rfl : m = ops.length := by omega
      rw [List.getElem?_concat_length] at hcall
      rw [List.take_left]
      exact Or.inr ⟨rfl, (Option.some.inj hcall).symm, rfl⟩
  · rintro (⟨hcall, rfl⟩ | ⟨rfl, rfl, rfl⟩)
    · have hm := (List.getElem?_eq_some_iff.mp hcall).1
      refine ⟨(List.getElem?_append_left hm).trans hcall, ?_⟩
      rw [List.take_append_of_le_length (Nat.le_of_lt hm)]
    · refine ⟨List.getElem?_concat_length, ?_⟩
      rw [List.take_left]

/-- Call `n` of a history is an accepted store of a key, and no later call loses what it
stored; it is then the last accepted store of the key. -/
structure Survives (config : Config) (ops : List (Op α)) (key : String) (n : Nat)
    (a : Attempt α) : Prop where
  accepted : ∃ op s, CallAt config ops n op s ∧ op.accepted? s.cache = some a
  ofKey : a.key = key
  kept : ∀ m op s, n < m → CallAt config ops m op s → ¬ s.Loss key a.expiresAt n op

theorem survives_append_iff {a : Attempt α} :
    Survives config (ops ++ [op]) key n a ↔
      Survives config ops key n a ∧ ¬ (run config ops).Loss key a.expiresAt n op ∨
        n = ops.length ∧ op.accepted? (run config ops).cache = some a ∧ a.key = key := by
  have hlast : CallAt config (ops ++ [op]) ops.length op (run config ops) :=
    callAt_append_iff.mpr (Or.inr ⟨rfl, rfl, rfl⟩)
  constructor
  · rintro ⟨⟨x, s, hcall, haccepted⟩, hkey, hkept⟩
    rcases callAt_append_iff.mp hcall with hold | ⟨rfl, rfl, rfl⟩
    · refine Or.inl ⟨⟨⟨x, s, hold, haccepted⟩, hkey, ?_⟩, hkept _ op _ hold.lt_length hlast⟩
      exact fun m y t hm hy => hkept m y t hm (callAt_append_iff.mpr (Or.inl hy))
    · exact Or.inr ⟨rfl, haccepted, hkey⟩
  · rintro (⟨⟨⟨x, s, hcall, haccepted⟩, hkey, hkept⟩, hnow⟩ | ⟨rfl, haccepted, hkey⟩)
    · refine ⟨⟨x, s, callAt_append_iff.mpr (Or.inl hcall), haccepted⟩, hkey, ?_⟩
      intro m y t hm hy
      rcases callAt_append_iff.mp hy with hold | ⟨-, rfl, rfl⟩
      · exact hkept m y t hm hold
      · exact hnow
    · refine ⟨⟨op, _, hlast, haccepted⟩, hkey, ?_⟩
      intro m y t hm hy
      have hlength := hy.lt_length
      rw [List.length_append, List.length_singleton] at hlength
      omega

/-- Whether a key holds what call `n` stored. -/
def Holds (s : Ledger α) (key : String) (n : Nat) (a : Attempt α) : Prop :=
  s.writer key = some n ∧
    ∃ e, s.cache.find? key = some e ∧ e.value = a.value ∧ e.expiresAt = a.expiresAt

theorem holds_step_of_accepted (h : s.Tracked) {a : Attempt α}
    (ha : op.accepted? s.cache = some a) : (s.step op).Holds a.key s.count a :=
  ⟨writer_step_of_accepted ha, _, find?_step_of_accepted h ha, rfl, rfl⟩

theorem holds_step_of_kept (h : s.Tracked) {a : Attempt α} (hholds : s.Holds key n a)
    (hkept : ¬ s.Loss key a.expiresAt n op) : (s.step op).Holds key n a := by
  obtain ⟨hwriter, e, he, hvalue, hexpires⟩ := hholds
  have hother : ∀ b, op.accepted? s.cache = some b → b.key ≠ key :=
    fun b hb hkey => hkept (.replaced hb hkey)
  refine ⟨(writer_step_of_ne hother).trans hwriter, ?_⟩
  rcases fate_step h he hwriter hother with ⟨hloss, -⟩ | ⟨-, e', he', hsame⟩
  · rw [hexpires] at hloss
    exact absurd hloss hkept
  · exact ⟨e', he', hsame.value.trans hvalue, hsame.expiresAt.trans hexpires⟩

theorem holds_run (hroom : ∀ i, (run config ops).attempts i < UInt64.size) {a : Attempt α}
    (h : Survives config ops key n a) : (run config ops).Holds key n a := by
  induction ops using List.reverseRecOn with
  | nil =>
    obtain ⟨op, s, hcall, -⟩ := h.accepted
    exact absurd hcall.lt_length (Nat.not_lt_zero n)
  | append_singleton ops op ih =>
    rw [run_append] at hroom ⊢
    have hbefore : ∀ i, (run config ops).attempts i < UInt64.size :=
      fun i => Nat.lt_of_le_of_lt (attempts_le_step _ op i) (hroom i)
    have htracked := tracked_run config ops hbefore
    rcases survives_append_iff.mp h with ⟨hold, hkept⟩ | ⟨rfl, haccepted, rfl⟩
    · exact holds_step_of_kept htracked (ih hbefore hold) hkept
    · rw [← count_run config ops]
      exact holds_step_of_accepted htracked haccepted

theorem exists_survives (hroom : ∀ i, (run config ops).attempts i < UInt64.size)
    (he : (run config ops).cache.find? key = some e) :
    ∃ n a, Survives config ops key n a ∧ a.value = e.value ∧ a.expiresAt = e.expiresAt := by
  induction ops using List.reverseRecOn generalizing e with
  | nil =>
    have hstored := Shard.stores_of_find? he
    exact absurd hstored (not_stores_ofConfig config _ key e.value)
  | append_singleton ops op ih =>
    rw [run_append] at hroom he
    have hbefore : ∀ i, (run config ops).attempts i < UInt64.size :=
      fun i => Nat.lt_of_le_of_lt (attempts_le_step _ op i) (hroom i)
    have htracked := tracked_run config ops hbefore
    rcases origin_step htracked he with ⟨a, ha, rfl, rfl⟩ | ⟨hother, e₀, he₀, hsame⟩
    · exact ⟨ops.length, a, survives_append_iff.mpr (Or.inr ⟨rfl, ha, rfl⟩), rfl, rfl⟩
    · obtain ⟨n, a, hsurvives, hvalue, hexpires⟩ := ih hbefore he₀
      refine ⟨n, a, survives_append_iff.mpr (Or.inl ⟨hsurvives, ?_⟩),
        hvalue.trans hsame.value.symm, hexpires.trans hsame.expiresAt.symm⟩
      intro hloss
      rw [hexpires] at hloss
      have hwriter := (holds_run hbefore hsurvives).1
      rcases fate_step htracked he₀ hwriter hother with ⟨-, hnone⟩ | ⟨hkept, -⟩
      · rw [hnone] at he
        simp at he
      · exact hkept hloss

/-- A lookup answers with what the last accepted store of the key left there, as long as it
has not expired and no later call lost it, and with nothing otherwise. -/
theorem get_run_eq_some_iff (config : Config) (ops : List (Op α))
    (hroom : ∀ i, (run config ops).attempts i < UInt64.size) (key : String) (now : UInt64)
    (value : α) :
    ((run config ops).cache.get key now).1 = some value ↔
      ∃ n a, Survives config ops key n a ∧ a.value = value ∧ now ≤ a.expiresAt := by
  have hlive : ∀ e : Entry α, (!e.isExpired now) = true ↔ now ≤ e.expiresAt := by
    intro e
    simp [Entry.isExpired]
  rw [get_fst, Option.map_eq_some_iff]
  constructor
  · rintro ⟨e, he, rfl⟩
    obtain ⟨he, hlater⟩ := Option.filter_eq_some_iff.mp he
    obtain ⟨n, a, hsurvives, hvalue, hexpires⟩ := exists_survives hroom he
    refine ⟨n, a, hsurvives, hvalue, ?_⟩
    rw [hexpires]
    exact (hlive e).mp hlater
  · rintro ⟨n, a, hsurvives, rfl, hlater⟩
    obtain ⟨-, e, he, hvalue, hexpires⟩ := holds_run hroom hsurvives
    refine ⟨e, Option.filter_eq_some_iff.mpr ⟨he, (hlive e).mpr ?_⟩, hvalue⟩
    rw [hexpires]
    exact hlater

/-- A key is stored again before the request for its first entry is carried out. -/
def lateReap : List (Op Nat) :=
  [.store (.set "a" 1 (.ofMillis 10) (.ofMillis 0)), .get "a" 15,
    .store (.set "a" 2 (.ofMillis 30) (.ofMillis 16)), .reap 0]

theorem survives_lateReap :
    (∀ i, (run { shardCount := 1 } lateReap).attempts i < UInt64.size) ∧
      ∃ n a, Survives { shardCount := 1 } lateReap "a" n a ∧ a.value = 2 ∧ 25 ≤ a.expiresAt := by
  have hroom : ∀ i, (run { shardCount := 1 } lateReap).attempts i < UInt64.size :=
    fun i => Nat.lt_of_le_of_lt (attempts_run_le _ lateReap i) (by decide)
  refine ⟨hroom, (get_run_eq_some_iff _ lateReap hroom "a" 25 2).mp ?_⟩
  decide +kernel

end Ledger

end ArtifactPlane.Cache
