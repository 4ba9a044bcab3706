import ArtifactPlane.Proofs.Cache.Staleness

/-!
Lookups of a shard that nothing writes to in between.  A hit writes twice, to the frequency and
to the last access, and each write happens at once.  The writes commute: a count that stops at
the largest word does not tell who counted, nor does the latest of some times.  What a lookup
finds is decided by what no hit changes.  So lookups, and even their single writes, may happen
in any order.
-/

namespace ArtifactPlane.Cache

variable {α : Type}

/-- A lookup to be made. -/
structure Query where
  key : String
  now : UInt64
deriving DecidableEq, Repr

/-- One write of a hit. -/
inductive Stroke where
  /-- One more hit on a key. -/
  | count (key : String)
  /-- A key was accessed at a time, unless it has been since. -/
  | date (key : String) (now : UInt64)
deriving DecidableEq, Repr

/-- The key whose entry is written. -/
def Stroke.key : Stroke → String
  | .count key => key
  | .date key _ => key

namespace Entry

variable {e : Entry α}

theorem max_right_comm (l a b : UInt64) : max (max l a) b = max (max l b) a := by
  rw [← UInt64.toNat_inj]
  simp only [UInt64.toNat_max]
  omega

/-- The last access is the latest time there was. -/
theorem max?_hits (e : Entry α) (times : List UInt64) :
    (e.lastAccess :: times).max? = some (e.hits times).lastAccess := by
  induction times generalizing e with
  | nil => rfl
  | cons t times ih => rw [hits_cons, ← ih (e.touch t)]; rfl

theorem sameStore_hits (e : Entry α) (times : List UInt64) : (e.hits times).SameStore e := by
  induction times generalizing e with
  | nil => exact .refl e
  | cons t times ih => exact (ih (e.touch t)).trans ⟨rfl, rfl, rfl, rfl⟩

/-- Write to an entry. -/
def write (e : Entry α) : Stroke → Entry α
  | .count _ => { e with frequency := succSaturating e.frequency }
  | .date _ now => { e with lastAccess := max e.lastAccess now }

/-- An entry once a write has happened, which may be to another key. -/
def stroke (e : Entry α) (w : Stroke) : Entry α := if e.key = w.key then e.write w else e

theorem key_write (e : Entry α) (w : Stroke) : (e.write w).key = e.key := by
  cases w <;> rfl

theorem write_right_comm (e : Entry α) (v w : Stroke) :
    (e.write v).write w = (e.write w).write v := by
  cases v with
  | count => cases w <;> rfl
  | date _ a =>
    cases w with
    | count => rfl
    | date _ b => simp only [write, max_right_comm e.lastAccess a b]

theorem stroke_right_comm (e : Entry α) (v w : Stroke) :
    (e.stroke v).stroke w = (e.stroke w).stroke v := by
  by_cases hv : e.key = v.key
  · by_cases hw : e.key = w.key
    · simp only [stroke, if_pos hv, if_pos hw, key_write, write_right_comm e v w]
    · simp only [stroke, if_pos hv, if_neg hw, key_write]
  · by_cases hw : e.key = w.key
    · simp only [stroke, if_neg hv, if_pos hw, key_write]
    · simp only [stroke, if_neg hv, if_neg hw]

/-- A hit is two writes. -/
theorem stroke_count_date (e : Entry α) (key : String) (now : UInt64) :
    (e.stroke (.count key)).stroke (.date key now) = if e.key = key then e.touch now else e := by
  by_cases hkey : e.key = key
  · have hcount : e.stroke (.count key) = e.write (.count key) := if_pos hkey
    have hdate : (e.write (.count key)).stroke (.date key now) = e.touch now := if_pos hkey
    rw [hcount, hdate, if_pos hkey]
  · have hcount : e.stroke (.count key) = e := if_neg hkey
    have hdate : e.stroke (.date key now) = e := if_neg hkey
    rw [hcount, hdate, if_neg hkey]

theorem sameStore_stroke (e : Entry α) (w : Stroke) : (e.stroke w).SameStore e := by
  rw [stroke]
  split
  · cases w <;> exact ⟨rfl, rfl, rfl, rfl⟩
  · exact .refl e

end Entry

namespace Shard

variable {s : Shard α} {q : Query} {qs : List Query} {f g : Entry α → Entry α}

/-- Change every entry of a shard. -/
def onEntries (s : Shard α) (f : Entry α → Entry α) : Shard α :=
  { s with entries := s.entries.map f }

/-- Lookups one after another, with what each of them found. -/
def lookups (s : Shard α) : List Query → List (Lookup α) × Shard α
  | [] => ([], s)
  | q :: qs =>
    let (found, s) := s.lookup q.key q.now
    let (rest, s) := s.lookups qs
    (found :: rest, s)

/-- What a lookup finds. -/
def answer (s : Shard α) (q : Query) : Lookup α := (s.lookup q.key q.now).1

/-- The times of those lookups that hit a key. -/
def hitTimes (s : Shard α) (qs : List Query) (key : String) : List UInt64 :=
  (qs.filter fun q => q.key = key ∧ (s.answer q).isHit).map (·.now)

/-- A shard once a write has happened. -/
def stroke (s : Shard α) (w : Stroke) : Shard α := s.onEntries (·.stroke w)

/-- Writes one after another. -/
def strokes (s : Shard α) (ws : List Stroke) : Shard α := ws.foldl stroke s

/-- The writes of a lookup: two if it hits. -/
def strokesOf (s : Shard α) (q : Query) : List Stroke :=
  if (s.answer q).isHit then [.count q.key, .date q.key q.now] else []

theorem onEntries_onEntries (s : Shard α) (f g : Entry α → Entry α) :
    (s.onEntries f).onEntries g = s.onEntries fun e => g (f e) := by
  simp only [onEntries, List.map_map, Function.comp_def]

theorem onEntries_id (s : Shard α) : (s.onEntries fun e => e) = s := by
  simp only [onEntries, List.map_id']

theorem find?_onEntries (hf : ∀ e, (f e).SameStore e) (s : Shard α) (key : String) :
    (s.onEntries f).find? key = (s.find? key).map f := by
  have hkeys : (fun e => (f e).key == key) = fun e => e.key == key := by
    funext e
    rw [(hf e).key]
  rw [find?, onEntries, List.find?_map, Function.comp_def, hkeys, find?]

/-- What a lookup finds depends on nothing that a hit changes. -/
theorem answer_onEntries (hf : ∀ e, (f e).SameStore e) (s : Shard α) (q : Query) :
    (s.onEntries f).answer q = s.answer q := by
  rw [answer, answer, lookup_fst, lookup_fst, find?_onEntries hf]
  cases s.find? q.key with
  | none => rfl
  | some e =>
    have hlive : (f e).isExpired q.now = e.isExpired q.now := by
      rw [Entry.isExpired, (hf e).expiresAt, Entry.isExpired]
    simp only [Option.map_some, hlive, (hf e).generation, (hf e).value]

theorem lookup_snd (s : Shard α) (q : Query) :
    (s.lookup q.key q.now).2 = if (s.answer q).isHit then s.touch q.key q.now else s := by
  rw [answer, lookup]
  cases s.find? q.key with
  | none => rfl
  | some e => cases hlive : e.isExpired q.now <;> simp [hlive, Lookup.isHit]

theorem touch_eq_strokes (s : Shard α) (key : String) (now : UInt64) :
    s.touch key now = s.strokes [.count key, .date key now] := by
  change _ = (s.stroke (.count key)).stroke (.date key now)
  rw [stroke, stroke, onEntries_onEntries]
  exact congrArg s.onEntries (funext fun e => (e.stroke_count_date key now).symm)

/-- A lookup changes the entries by its writes. -/
theorem lookup_snd_eq_strokes (s : Shard α) (q : Query) :
    (s.lookup q.key q.now).2 = s.strokes (s.strokesOf q) := by
  rw [lookup_snd, strokesOf]
  by_cases hhit : (s.answer q).isHit = true
  · rw [if_pos hhit, if_pos hhit]
    exact s.touch_eq_strokes q.key q.now
  · rw [if_neg hhit, if_neg hhit]
    rfl

theorem strokes_eq (s : Shard α) (ws : List Stroke) :
    s.strokes ws = s.onEntries fun e => ws.foldl Entry.stroke e := by
  induction ws generalizing s with
  | nil => exact s.onEntries_id.symm
  | cons w ws ih =>
    rw [strokes, List.foldl_cons, ← strokes, ih, stroke, onEntries_onEntries]
    rfl

theorem sameStore_foldl_stroke (e : Entry α) (ws : List Stroke) :
    (ws.foldl Entry.stroke e).SameStore e := by
  induction ws generalizing e with
  | nil => exact .refl e
  | cons w ws ih => exact (ih (e.stroke w)).trans (e.sameStore_stroke w)

theorem answer_strokes (s : Shard α) (ws : List Stroke) (q : Query) :
    (s.strokes ws).answer q = s.answer q := by
  rw [strokes_eq]
  exact answer_onEntries (fun e => sameStore_foldl_stroke e ws) s q

theorem answer_lookup (s : Shard α) (p q : Query) :
    (s.lookup p.key p.now).2.answer q = s.answer q := by
  rw [lookup_snd_eq_strokes, answer_strokes]

/-- Lookups one after another each find what they would find alone. -/
theorem lookups_fst (s : Shard α) (qs : List Query) : (s.lookups qs).1 = qs.map s.answer := by
  induction qs generalizing s with
  | nil => rfl
  | cons q qs ih =>
    have hsame : (s.lookup q.key q.now).2.answer = s.answer := funext (s.answer_lookup q)
    have hrest := ih (s.lookup q.key q.now).2
    rw [hsame] at hrest
    rw [List.map_cons, ← hrest]
    rfl

/-- Lookups one after another leave what all their writes leave. -/
theorem lookups_snd (s : Shard α) (qs : List Query) :
    (s.lookups qs).2 = s.strokes (qs.flatMap s.strokesOf) := by
  induction qs generalizing s with
  | nil => rfl
  | cons q qs ih =>
    have hrest := ih (s.lookup q.key q.now).2
    have hsame : (s.lookup q.key q.now).2.strokesOf = s.strokesOf := by
      funext p
      rw [strokesOf, strokesOf, answer_lookup]
    rw [hsame, lookup_snd_eq_strokes] at hrest
    rw [List.flatMap_cons, strokes, List.foldl_append]
    exact (congrArg (fun t => (t.lookups qs).2) (s.lookup_snd_eq_strokes q)).trans hrest

/-- The writes of lookups are hits of each entry at the times of those that hit it. -/
theorem foldl_strokesOf (s : Shard α) (qs : List Query) (e : Entry α) :
    (qs.flatMap s.strokesOf).foldl Entry.stroke e = e.hits (s.hitTimes qs e.key) := by
  induction qs generalizing e with
  | nil => rfl
  | cons q qs ih =>
    rw [List.flatMap_cons, List.foldl_append, ih, strokesOf, hitTimes, hitTimes, List.filter_cons]
    by_cases hhit : (s.answer q).isHit = true
    · rw [if_pos hhit, List.foldl_cons, List.foldl_cons, List.foldl_nil, Entry.stroke_count_date]
      by_cases hkey : e.key = q.key
      · simp [hhit, hkey, Entry.hits_cons]
      · simp [hkey, Ne.symm hkey]
    · simp [hhit]

theorem lookups_snd_eq_hits (s : Shard α) (qs : List Query) :
    (s.lookups qs).2 = s.onEntries fun e => e.hits (s.hitTimes qs e.key) := by
  rw [lookups_snd, strokes_eq]
  exact congrArg s.onEntries (funext (s.foldl_strokesOf qs))

/-- Writes may happen in any order. -/
theorem strokes_perm {ws vs : List Stroke} (h : ws.Perm vs) (s : Shard α) :
    s.strokes ws = s.strokes vs := by
  rw [strokes_eq, strokes_eq]
  exact congrArg s.onEntries (funext (h.foldl_eq' fun v _ w _ e => e.stroke_right_comm v w))

theorem lookups_perm {qs ps : List Query} (h : qs.Perm ps) (s : Shard α) :
    (s.lookups qs).2 = (s.lookups ps).2 := by
  rw [lookups_snd, lookups_snd]
  exact s.strokes_perm (h.flatMap_right s.strokesOf)

theorem hitTimes_eq_nil (h : ∀ q ∈ qs, q.key = key → (s.answer q).isHit = false) :
    s.hitTimes qs key = [] := by
  rw [hitTimes, List.map_eq_nil_iff, List.filter_eq_nil_iff]
  intro q hq
  simpa using h q hq

/-- What some lookups do to a shard that nothing else writes to. -/
structure Commutes (s : Shard α) (qs : List Query) : Prop where
  /-- Each finds what it would find alone, -/
  alone : (s.lookups qs).1 = qs.map s.answer
  /-- and so the same in any order. -/
  results : ∀ ps : List Query, ps.Perm qs → (ps.zip (s.lookups ps).1).Perm (qs.zip (s.lookups qs).1)
  state : ∀ ps, ps.Perm qs → (s.lookups ps).2 = (s.lookups qs).2
  /-- Their writes may mix in any way, -/
  mixed : ∀ ws, ws.Perm (qs.flatMap s.strokesOf) → s.strokes ws = (s.lookups qs).2
  /-- and between any writes each lookup still finds the same. -/
  midway : ∀ ws q, (s.strokes ws).answer q = s.answer q
  /-- Every entry is left with its hits and their times. -/
  hit : ∀ key e, s.find? key = some e → ∃ d, (s.lookups qs).2.find? key = some d ∧
    d.SameStore e ∧
    d.frequency.toNat = min (e.frequency.toNat + (s.hitTimes qs key).length) (UInt32.size - 1) ∧
    (e.lastAccess :: s.hitTimes qs key).max? = some d.lastAccess
  /-- What was only missed or found expired is left as it was. -/
  unhit : ∀ key, (∀ q ∈ qs, q.key = key → (s.answer q).isHit = false) →
    (s.lookups qs).2.find? key = s.find? key
  whole : (s.lookups qs).2 = s.onEntries fun e => e.hits (s.hitTimes qs e.key)
  /-- So an eviction pass after them takes the same. -/
  victims : ∀ ps, ps.Perm qs → ∀ policy now,
    (s.lookups ps).2.victims policy now = (s.lookups qs).2.victims policy now ∧
    (s.lookups ps).2.evict policy now = (s.lookups qs).2.evict policy now

theorem find?_lookups (s : Shard α) (qs : List Query) (key : String) :
    (s.lookups qs).2.find? key = (s.find? key).map (·.hits (s.hitTimes qs key)) := by
  rw [lookups_snd_eq_hits, find?_onEntries fun e => e.sameStore_hits _]
  cases hfound : s.find? key with
  | none => rfl
  | some e => rw [Option.map_some, Option.map_some, key_of_find? hfound]

/-- Lookups commute, in every shard and at all times. -/
theorem lookups_commute (s : Shard α) (qs : List Query) : s.Commutes qs where
  alone := s.lookups_fst qs
  results ps h := by
    rw [lookups_fst, lookups_fst, ← List.map_prod_left_eq_zip, ← List.map_prod_left_eq_zip]
    exact h.map _
  state _ h := lookups_perm h s
  mixed ws h := (strokes_perm h s).trans (s.lookups_snd qs).symm
  midway ws q := s.answer_strokes ws q
  hit key e he := by
    refine ⟨e.hits (s.hitTimes qs key), ?_, e.sameStore_hits _, e.toNat_frequency_hits _,
      e.max?_hits _⟩
    rw [find?_lookups, he, Option.map_some]
  unhit key h := by
    rw [find?_lookups, hitTimes_eq_nil h]
    cases s.find? key <;> rfl
  whole := s.lookups_snd_eq_hits qs
  victims ps h policy now := by
    rw [lookups_perm h s]
    exact ⟨rfl, rfl⟩

end Shard

end ArtifactPlane.Cache
