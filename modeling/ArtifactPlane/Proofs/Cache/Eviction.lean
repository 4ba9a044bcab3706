import ArtifactPlane.Proofs.Cache.Removal
import ArtifactPlane.Proofs.Cache.Sizes

/-!
Which entries make room for a new key.  An eviction pass takes the spent entries in the order
of their keys, up to the limit of the policy.  Where no entry is spent it takes one, the least,
and since no two entries share a key there is exactly one least.
-/

namespace ArtifactPlane.Cache

variable {α : Type}

/-- The time since the last access is floored at 0. -/
theorem Policy.toNat_idle (e : Entry α) (now : UInt64) :
    (idle e now).toNat = now.toNat - e.lastAccess.toNat := by
  rw [idle]
  by_cases h : e.lastAccess ≤ now
  · rw [if_pos h, UInt64.toNat_sub_of_le now e.lastAccess h]
  · have hlt : now.toNat < e.lastAccess.toNat := by
      rwa [UInt64.le_iff_toNat_le, Nat.not_le] at h
    rw [if_neg h, UInt64.toNat_zero]
    omega

/-- Past its expiry, never read since it was stored, or unread for longer than the window. -/
def Policy.Spent (p : Policy) (e : Entry α) (now : UInt64) : Prop :=
  e.expiresAt.toNat < now.toNat ∨ e.frequency.toNat ≤ 1 ∨
    p.staleMillis.toNat < now.toNat - e.lastAccess.toNat

instance (p : Policy) (e : Entry α) (now : UInt64) : Decidable (p.Spent e now) :=
  inferInstanceAs (Decidable (_ ∨ _ ∨ _))

theorem Policy.isSome_reason?_iff_spent (p : Policy) (e : Entry α) (now : UInt64) :
    (p.reason? e now).isSome ↔ p.Spent e now := by
  rw [reason?_isSome_iff, Spent, Entry.isExpired, decide_eq_true_iff, UInt64.lt_iff_toNat_lt,
    UInt32.le_iff_toNat_le, UInt64.lt_iff_toNat_lt, toNat_idle]
  rfl

/-- Fewer hits, or as many and an older access, or the same access and a smaller key. -/
def Entry.Below (a b : Entry α) : Prop :=
  a.frequency < b.frequency ∨ a.frequency = b.frequency ∧
    (a.lastAccess < b.lastAccess ∨ a.lastAccess = b.lastAccess ∧ a.key < b.key)

namespace Entry

variable {a b d : Entry α}

theorem compareWorth_eq_lt_iff : a.compareWorth b = .lt ↔ a.Below b := by
  have hkey : compare a.key b.key = .lt ↔ a.key < b.key := compareOfLessAndEq_eq_lt
  simp only [compareWorth, Below, Ordering.then_eq_lt, Std.compare_eq_lt, Std.compare_eq_iff_eq,
    hkey]

theorem Below.trans (hab : a.Below b) (hbd : b.Below d) : a.Below d := by
  rcases hab with hab | ⟨hab, hab' | ⟨hab', hab''⟩⟩ <;>
    rcases hbd with hbd | ⟨hbd, hbd' | ⟨hbd', hbd''⟩⟩
  · exact .inl (UInt32.lt_trans hab hbd)
  · exact .inl (hbd ▸ hab)
  · exact .inl (hbd ▸ hab)
  · exact .inl (hab ▸ hbd)
  · exact .inr ⟨hab.trans hbd, .inl (UInt64.lt_trans hab' hbd')⟩
  · exact .inr ⟨hab.trans hbd, .inl (hbd' ▸ hab')⟩
  · exact .inl (hab ▸ hbd)
  · exact .inr ⟨hab.trans hbd, .inl (hab' ▸ hbd')⟩
  · exact .inr ⟨hab.trans hbd, .inr ⟨hab'.trans hbd', String.lt_trans hab'' hbd''⟩⟩

theorem Below.irrefl (a : Entry α) : ¬ a.Below a := by
  rintro (h | ⟨-, h | ⟨-, h⟩⟩)
  · exact UInt32.lt_irrefl _ h
  · exact UInt64.lt_irrefl _ h
  · exact String.lt_irrefl _ h

/-- Of two entries with different keys one is below the other. -/
theorem below_or_below (hkey : a.key ≠ b.key) : a.Below b ∨ b.Below a := by
  rcases Std.lt_trichotomy a.frequency b.frequency with h | h | h
  · exact .inl (.inl h)
  · rcases Std.lt_trichotomy a.lastAccess b.lastAccess with h' | h' | h'
    · exact .inl (.inr ⟨h, .inl h'⟩)
    · rcases Std.lt_trichotomy a.key b.key with h'' | h'' | h''
      · exact .inl (.inr ⟨h, .inr ⟨h', h''⟩⟩)
      · exact absurd h'' hkey
      · exact .inr (.inr ⟨h.symm, .inr ⟨h'.symm, h''⟩⟩)
    · exact .inr (.inr ⟨h.symm, .inl h'⟩)
  · exact .inr (.inl h)

end Entry

namespace Shard

variable {s : Shard α} {policy : Policy} {now : UInt64} {key : String} {e m : Entry α}

/-- Below every other entry of the shard. -/
def Least (s : Shard α) (m : Entry α) : Prop :=
  m ∈ s.entries ∧ ∀ x ∈ s.entries, x ≠ m → m.Below x

theorem Least.unique {x : Entry α} (hm : s.Least m) (hx : s.Least x) : x = m := by
  by_contra hne
  exact Entry.Below.irrefl m ((hm.2 x hx.1 hne).trans (hx.2 m hm.1 (Ne.symm hne)))

theorem below_of_leastWorth? {l : List (Entry α)} (hordered : (l.map (·.key)).Pairwise (· < ·))
    (hm : leastWorth? l = some m) : ∀ x ∈ l, x ≠ m → m.Below x := by
  induction l generalizing m with
  | nil => exact fun x hx => absurd hx List.not_mem_nil
  | cons y ys ih =>
    obtain ⟨hy, hys⟩ := List.pairwise_cons.mp hordered
    rw [leastWorth?] at hm
    cases hrest : leastWorth? ys with
    | none =>
      have hnil : ys = [] := by
        by_contra hne
        exact leastWorth?_ne_none hne hrest
      simp only [hrest, Option.some.injEq] at hm
      simp [hnil, hm]
    | some m' =>
      have hm' := mem_of_leastWorth? hrest
      have hbelow := ih hys hrest
      simp only [hrest] at hm
      intro x hx hne
      split at hm
      · next hlt =>
        obtain rfl := Option.some.inj hm
        rcases List.mem_cons.mp hx with rfl | hx
        · exact Entry.compareWorth_eq_lt_iff.mp hlt
        · exact hbelow x hx hne
      · next hnot =>
        obtain rfl := Option.some.inj hm
        have hx : x ∈ ys := (List.mem_cons.mp hx).resolve_left hne
        have hkey : y.key ≠ m'.key := fun heq =>
          String.lt_irrefl _ (heq ▸ hy m'.key (List.mem_map_of_mem hm'))
        have hleast := (Entry.below_or_below hkey).resolve_right
          (mt Entry.compareWorth_eq_lt_iff.mpr hnot)
        by_cases hsame : x = m'
        · rwa [hsame]
        · exact hleast.trans (hbelow x hx hsame)

theorem Ordered.least_of_leastWorth? (h : s.Ordered) (hm : leastWorth? s.entries = some m) :
    s.Least m :=
  ⟨mem_of_leastWorth? hm, below_of_leastWorth? h hm⟩

/-- The spent entries in the order of their keys. -/
def spent (s : Shard α) (policy : Policy) (now : UInt64) : List (Entry α) :=
  s.entries.filter fun e => policy.Spent e now

theorem candidates_eq_spent (s : Shard α) (policy : Policy) (now : UInt64) :
    s.candidates policy now = s.spent policy now := by
  refine List.filter_congr fun e _ => ?_
  rw [Bool.eq_iff_iff, decide_eq_true_iff]
  exact policy.isSome_reason?_iff_spent e now

/-- The entries that an eviction pass takes. -/
def pass (s : Shard α) (policy : Policy) (now : UInt64) : List (Entry α) :=
  match s.spent policy now with
  | [] => (leastWorth? s.entries).toList
  | e :: es => (e :: es).take (policy.batchLimit s.size)

theorem victims_eq_map_pass (s : Shard α) (policy : Policy) (now : UInt64) :
    s.victims policy now = (s.pass policy now).map (·.key) := by
  rw [victims, pass, candidates_eq_spent]
  cases s.spent policy now <;> rfl

theorem pass_of_spent (h : s.spent policy now ≠ []) :
    s.pass policy now = (s.spent policy now).take (policy.batchLimit s.size) := by
  rw [pass]
  cases hspent : s.spent policy now with
  | nil => exact absurd hspent h
  | cons e es => rfl

theorem Ordered.pass_of_not_spent (h : s.Ordered) (hne : s.entries ≠ [])
    (hspent : s.spent policy now = []) : ∃ m, s.Least m ∧ s.pass policy now = [m] := by
  obtain ⟨m, hm⟩ := Option.ne_none_iff_exists'.mp (leastWorth?_ne_none hne)
  exact ⟨m, h.least_of_leastWorth? hm, by simp only [pass, hspent, hm, Option.toList_some]⟩

theorem mem_entries_of_mem_pass (h : e ∈ s.pass policy now) : e ∈ s.entries := by
  rw [pass] at h
  split at h
  · exact mem_of_leastWorth? (Option.mem_toList.mp h)
  · next x xs hspent =>
    have hmem : e ∈ s.spent policy now := hspent ▸ List.mem_of_mem_take h
    exact (List.mem_filter.mp hmem).1

/-- The entries that a store under a key evicts. -/
def evicted (s : Shard α) (policy : Policy) (now : UInt64) (key : String) : List (Entry α) :=
  if s.contains key = false ∧ s.maxItems ≤ s.size then s.pass policy now else []

theorem displaced_eq_map_evicted (s : Shard α) (policy : Policy) (now : UInt64) (key : String) :
    s.displaced policy now key = (s.evicted policy now key).map (·.key) := by
  rw [displaced, evicted, victims_eq_map_pass]
  split <;> rfl

theorem mem_entries_of_mem_evicted (h : e ∈ s.evicted policy now key) : e ∈ s.entries := by
  rw [evicted] at h
  split at h
  · exact mem_entries_of_mem_pass h
  · exact absurd h List.not_mem_nil

/-- No two entries share a key, so a key is displaced just when its entry is evicted. -/
theorem Ordered.key_mem_displaced_iff (h : s.Ordered) (he : e ∈ s.entries) :
    e.key ∈ s.displaced policy now key ↔ e ∈ s.evicted policy now key := by
  rw [displaced_eq_map_evicted, List.mem_map]
  constructor
  · rintro ⟨x, hx, hkey⟩
    have hfound := h.find?_eq_some_iff.mpr ⟨mem_entries_of_mem_evicted hx, hkey⟩
    rw [h.find?_eq_some_iff.mpr ⟨he, rfl⟩] at hfound
    rwa [Option.some.inj hfound]
  · exact fun hmem => ⟨e, hmem, rfl⟩

/-- A shard stores a value under a key and evicts some entries for it. -/
structure Inserted (s : Shard α) (policy : Policy) (key : String) (value : α)
    (expiresAt now : UInt64) (gone : List (Entry α)) : Prop where
  spared : s.contains key = true ∨ s.size < s.maxItems → gone = []
  /-- The first of the spent entries go, as many as the limit allows and one at least. -/
  batch : s.contains key = false → s.maxItems ≤ s.size → s.spent policy now ≠ [] →
    gone = (s.spent policy now).take (min (policy.batchLimit s.size) (s.spent policy now).length) ∧
      1 ≤ policy.batchLimit s.size
  /-- With none spent, the one that is below all others goes. -/
  least : s.contains key = false → s.maxItems ≤ s.size → s.spent policy now = [] →
    ∃ m, s.Least m ∧ (∀ x, s.Least x → x = m) ∧ gone = [m]
  count : (s.insert policy key value expiresAt now).1 = gone.length
  ordered : s.Ordered ∧ (s.insert policy key value expiresAt now).2.Ordered
  entries : ∀ e, e ∈ (s.insert policy key value expiresAt now).2.entries ↔
    e = ⟨key, value, expiresAt, 1, now, s.nextGeneration⟩ ∨
      e ∈ s.entries ∧ e.key ≠ key ∧ e ∉ gone

theorem insert_eq (s : Shard α) (policy : Policy) (key : String) (value : α)
    (expiresAt now : UInt64) :
    s.insert policy key value expiresAt now = ((s.displaced policy now key).length,
      (s.insertIf policy key value expiresAt now true).2) := by
  have hcount := insertIf_fst s policy key value expiresAt now true
  rw [if_pos rfl] at hcount
  simp only [insert, hcount, Option.getD_some]

theorem Ordered.mem_entries_insert_iff (h : s.Ordered) (policy : Policy) (key : String)
    (value : α) (expiresAt now : UInt64) :
    e ∈ (s.insert policy key value expiresAt now).2.entries ↔
      e = .fresh key value expiresAt now s.nextGeneration ∨
        e ∈ s.entries ∧ e.key ≠ key ∧ e ∉ s.evicted policy now key := by
  have hafter := h.insertIf policy key value expiresAt now true
  have hmem : e ∈ (s.insert policy key value expiresAt now).2.entries ↔
      (s.insertIf policy key value expiresAt now true).2.find? e.key = some e := by
    rw [insert_eq, hafter.find?_eq_some_iff]
    exact (and_iff_left rfl).symm
  rw [hmem, find?_insertIf]
  simp only [true_and]
  by_cases hkey : e.key = key
  · rw [if_pos hkey]
    constructor
    · exact fun hsome => .inl (Option.some.inj hsome).symm
    · rintro (rfl | ⟨-, hne, -⟩)
      · rfl
      · exact absurd hkey hne
  · rw [if_neg hkey]
    have hother : e ≠ .fresh key value expiresAt now s.nextGeneration := by
      rintro rfl
      exact hkey rfl
    constructor
    · intro hsome
      split at hsome
      · exact nomatch hsome
      · next hkept =>
        have he := mem_of_find? hsome
        exact .inr ⟨he, hkey, mt (h.key_mem_displaced_iff he).mpr hkept⟩
    · rintro (rfl | ⟨he, -, hkept⟩)
      · exact absurd rfl hother
      · rw [if_neg (mt (h.key_mem_displaced_iff he).mp hkept)]
        exact h.find?_eq_some_iff.mpr ⟨he, rfl⟩

theorem Ordered.inserted (h : s.Ordered) (hroom : 0 < s.maxItems) (policy : Policy)
    (key : String) (value : α) (expiresAt now : UInt64) :
    s.Inserted policy key value expiresAt now (s.evicted policy now key) where
  spared := by
    rintro (hheld | hfree)
    · exact if_neg (by simp [hheld])
    · exact if_neg fun hfull => Nat.not_le.mpr hfree hfull.2
  batch := by
    intro hnew hfull hspent
    refine ⟨?_, policy.one_le_batchLimit s.size⟩
    rw [evicted, if_pos ⟨hnew, hfull⟩, pass_of_spent hspent, List.take_eq_take_min]
  least := by
    intro hnew hfull hspent
    have hne : s.entries ≠ [] := List.ne_nil_of_length_pos (Nat.lt_of_lt_of_le hroom hfull)
    obtain ⟨m, hm, hpass⟩ := h.pass_of_not_spent hne hspent
    exact ⟨m, hm, fun x hx => hm.unique hx, by rw [evicted, if_pos ⟨hnew, hfull⟩, hpass]⟩
  count := by rw [insert_eq, displaced_eq_map_evicted, List.length_map]
  ordered := ⟨h, by rw [insert_eq]; exact h.insertIf policy key value expiresAt now true⟩
  entries e := h.mem_entries_insert_iff policy key value expiresAt now

end Shard

namespace Shard

variable {s t : Shard α}

/-- What a step can do to a shard: lose entries or none, record a hit, or store an entry. -/
inductive Worked (s : Shard α) : Shard α → Prop
  | fewer {t : Shard α} (hentries : t.entries.Sublist s.entries)
      (hroom : t.maxItems = s.maxItems) : s.Worked t
  | lookup (key : String) (now : UInt64) : s.Worked (s.lookup key now).2
  | store (policy : Policy) (now : UInt64) (e : Entry α) : s.Worked (s.store policy now e).2

namespace Worked

theorem idle (s : Shard α) : s.Worked s := .fewer (.refl _) rfl

theorem removeGeneration (s : Shard α) (key : String) (generation : UInt64) :
    s.Worked (s.removeGeneration key generation).2 := by
  rw [Shard.removeGeneration]
  split
  · split
    · exact .fewer List.filter_sublist rfl
    · exact idle s
  · exact idle s

theorem maxItems (h : s.Worked t) : t.maxItems = s.maxItems := by
  cases h with
  | fewer _ hroom => exact hroom
  | lookup key now => exact (narrows_lookup s key now).maxItems
  | store policy now e => rw [store_eq]

theorem ordered (h : s.Worked t) (hs : s.Ordered) : t.Ordered := by
  cases h with
  | fewer hentries _ => exact hs.of_sublist hentries
  | lookup key now => exact hs.lookup key now
  | store policy now e => exact hs.store policy now e

end Worked

end Shard

namespace Race

variable {s : Race α}

theorem worked_step (s : Race α) (a : Action α) : s.shard.Worked (s.step a).shard := by
  cases a with
  | draw j key value expiresAt now =>
    rw [step]
    split <;> exact .fewer (.refl _) rfl
  | settle j policy admitted =>
    rw [step]
    split
    · split
      · exact .store policy _ _
      · exact .idle _
    · exact .idle _
  | look i key now =>
    rw [step]
    split
    · exact .lookup key now
    · exact .idle _
  | remove key generation => exact .removeGeneration _ key generation
  | tryRemove busy key generation =>
    cases busy with
    | true => exact .fewer (.refl _) rfl
    | false => exact .removeGeneration _ key generation
  | purge now => exact .fewer List.filter_sublist rfl
  | sweep now =>
    rw [step, Shard.takeMark]
    cases s.shard.sweepPending with
    | true => exact .fewer List.filter_sublist rfl
    | false => exact .fewer (.refl _) rfl
  | clear => exact .fewer (List.nil_sublist _) rfl

/-- A shard has room for one entry at least. -/
theorem maxItems_run_pos (maxItems : Nat) (actions : List (Action α)) :
    0 < (run maxItems actions).shard.maxItems := by
  induction actions using List.reverseRecOn with
  | nil => exact Nat.lt_of_lt_of_le Nat.one_pos (Nat.le_max_right maxItems 1)
  | append_singleton actions a ih => rwa [run_append, (worked_step _ a).maxItems]

/-- A shard is in order even when its generations come round. -/
theorem ordered_run (maxItems : Nat) (actions : List (Action α)) :
    (run maxItems actions).shard.Ordered := by
  induction actions using List.reverseRecOn with
  | nil => exact Shard.ordered_empty maxItems
  | append_singleton actions a ih =>
    rw [run_append]
    exact (worked_step _ a).ordered ih

/-- What storing a value does to a shard, under a generation that no store has taken. -/
structure Inserts (s : Race α) (policy : Policy) (key : String) (value : α)
    (expiresAt now : UInt64) (gone : List (Entry α)) : Prop
    extends s.shard.Inserted policy key value expiresAt now gone where
  untaken : ∀ j w, s.offers j = some w → w.entry.generation ≠ s.shard.nextGeneration
  unheld : ∀ e ∈ s.shard.entries, e.generation ≠ s.shard.nextGeneration

theorem Sound.ne_nextGeneration (h : s.Sound) (hsize : s.taken < UInt64.size) {n : Nat}
    (hn : n < s.taken) : stamp n ≠ s.shard.nextGeneration := by
  intro hsame
  rw [h.next] at hsame
  exact Nat.ne_of_lt hn (stamp_inj (Nat.lt_trans hn hsize) hsize hsame)

/-- Whatever has happened to a shard, as long as its generations do not come round, storing a
value evicts the spent entries first in order, or the least entry if none is spent. -/
theorem inserts_run (maxItems : Nat) (actions : List (Action α))
    (hsize : (run maxItems actions).taken < UInt64.size) (policy : Policy) (key : String)
    (value : α) (expiresAt now : UInt64) :
    ∃ gone, (run maxItems actions).Inserts policy key value expiresAt now gone := by
  have hsound := sound_run maxItems actions hsize
  have hinserted := (ordered_run maxItems actions).inserted (maxItems_run_pos maxItems actions)
    policy key value expiresAt now
  refine ⟨_, hinserted, ?_, ?_⟩
  · intro j w hw
    obtain ⟨hnumber, hstamp⟩ := hsound.numbered.stamped j w hw
    rw [hstamp]
    exact hsound.ne_nextGeneration hsize hnumber
  · intro e he
    obtain ⟨n, hn, hstamp⟩ := hsound.stamped he
    rw [hstamp]
    exact hsound.ne_nextGeneration hsize hn

/-- Two entries fill a shard, and the first is read. -/
def crowdedShelf : List (Action Nat) :=
  [.draw 0 "a" 1 100 0, .settle 0 .standard true, .draw 1 "b" 2 100 1,
    .settle 1 .standard true, .look 0 "a" 5]

theorem inserts_crowdedShelf :
    (run 2 crowdedShelf).taken < UInt64.size ∧
      ∃ gone, (run 2 crowdedShelf).Inserts .standard "c" 3 100 6 gone ∧
        gone = [⟨"b", 2, 100, 1, 1, 2⟩] := by
  have hsize : (run 2 crowdedShelf).taken < UInt64.size :=
    Nat.lt_of_le_of_lt (taken_run_le 2 crowdedShelf) (by decide)
  obtain ⟨gone, hinserts⟩ := inserts_run 2 crowdedShelf hsize .standard "c" 3 100 6
  have hspent : (run 2 crowdedShelf).shard.spent .standard 6 = [⟨"b", 2, 100, 1, 1, 2⟩] := by
    decide +kernel
  have hnew : (run 2 crowdedShelf).shard.contains "c" = false := by decide +kernel
  have hfull : (run 2 crowdedShelf).shard.maxItems ≤ (run 2 crowdedShelf).shard.size := by
    decide +kernel
  obtain ⟨hgone, hlimit⟩ := hinserts.batch hnew hfull (by simp [hspent])
  rw [hspent, List.length_singleton, Nat.min_eq_right hlimit] at hgone
  exact ⟨hsize, gone, hinserts, hgone⟩

end Race

end ArtifactPlane.Cache
