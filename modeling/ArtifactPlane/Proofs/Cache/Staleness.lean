import ArtifactPlane.Proofs.Cache.Eviction
import ArtifactPlane.Settings.Basic

/-!
When an entry is stale.  The policy compares how long an entry has been unread with the window
of the settings.  Windows are written in seconds, and `Duration.millis` reduces their
milliseconds to a word without a check.  So staleness is exact for the windows whose
milliseconds fit.  Of a longer window only the remainder counts, and entries that should never
be stale soon are.
-/

namespace ArtifactPlane

theorem Duration.toNat_millis_ofSecs (n : Nat) :
    (ofSecs n).millis.toNat = n * 1000 % UInt64.size := by
  have hmillis : n * 1000000000 / 1000000 = n * 1000 := by omega
  rw [millis, ofSecs, hmillis]
  exact UInt64.toNat_ofNat'

namespace Cache

variable {α : Type} {e : Entry α} {now : UInt64} {w : Int}

namespace Entry

/-- The time since the last access, negative where the clock has run backwards. -/
def unread (e : Entry α) (now : UInt64) : Int := (now.toNat : Int) - e.lastAccess.toNat

/-- Live, and read since it was stored. -/
structure InUse (e : Entry α) (now : UInt64) : Prop where
  live : e.isExpired now = false
  read : 2 ≤ e.frequency

/-- An entry after some hits. -/
def hits (e : Entry α) (times : List UInt64) : Entry α := times.foldl touch e

theorem hits_cons (e : Entry α) (t : UInt64) (times : List UInt64) :
    e.hits (t :: times) = (e.touch t).hits times := rfl

theorem isExpired_hits (e : Entry α) (times : List UInt64) (now : UInt64) :
    (e.hits times).isExpired now = e.isExpired now := by
  induction times generalizing e with
  | nil => rfl
  | cons t times ih => rw [hits_cons, ih, isExpired_touch]

theorem toNat_succSaturating (n : UInt32) :
    (succSaturating n).toNat = min (n.toNat + 1) (UInt32.size - 1) := by
  have hn := n.toNat_lt_size
  rw [succSaturating]
  by_cases hmax : n = 0xFFFFFFFF
  · rw [if_pos hmax, hmax]
    rfl
  · have hlt : n.toNat + 1 < UInt32.size := by
      have hne : n.toNat ≠ UInt32.size - 1 := fun h => hmax (UInt32.toNat_inj.mp h)
      omega
    rw [if_neg hmax, UInt32.toNat_add]
    exact (Nat.mod_eq_of_lt hlt).trans (Nat.min_eq_left (Nat.le_pred_of_lt hlt)).symm

theorem toNat_frequency_hits (e : Entry α) (times : List UInt64) :
    (e.hits times).frequency.toNat =
      min (e.frequency.toNat + times.length) (UInt32.size - 1) := by
  induction times generalizing e with
  | nil => exact (Nat.min_eq_left (Nat.le_pred_of_lt e.frequency.toNat_lt_size)).symm
  | cons t times ih =>
    rw [hits_cons, ih, touch, toNat_succSaturating, List.length_cons]
    omega

/-- One hit is enough for an entry to be in use. -/
theorem InUse.hits {times : List UInt64} (hlive : e.isExpired now = false)
    (hstored : 1 ≤ e.frequency) (hread : times ≠ []) : (e.hits times).InUse now := by
  refine ⟨(isExpired_hits e times now).trans hlive, ?_⟩
  have hlength := List.length_pos_iff.mpr hread
  rw [UInt32.le_iff_toNat_le] at hstored ⊢
  rw [toNat_frequency_hits]
  exact Nat.le_min.mpr ⟨Nat.add_le_add hstored hlength, by decide⟩

theorem lt_unread_touch_iff (e : Entry α) (t : UInt64) :
    w < (e.touch t).unread now ↔ w < e.unread now ∧ w < (now.toNat : Int) - t.toNat := by
  simp only [unread, touch, UInt64.toNat_max]
  omega

/-- The last access is the latest, in whatever order the clock was read. -/
theorem lt_unread_hits_iff (e : Entry α) (times : List UInt64) :
    w < (e.hits times).unread now ↔
      w < e.unread now ∧ ∀ t ∈ times, w < (now.toNat : Int) - t.toNat := by
  induction times generalizing e with
  | nil => simp [hits]
  | cons t times ih => rw [hits_cons, ih, lt_unread_touch_iff, List.forall_mem_cons, and_assoc]

theorem unread_lt (e : Entry α) (now : UInt64) : e.unread now < (UInt64.size : Int) := by
  have hnow := now.toNat_lt_size
  rw [unread]
  omega

end Entry

/-- An entry in use is spent only by being stale. -/
theorem Policy.spent_iff_of_inUse (p : Policy) (h : e.InUse now) :
    p.Spent e now ↔ (p.staleMillis.toNat : Int) < e.unread now := by
  have hlive : ¬ e.expiresAt.toNat < now.toNat := by
    have hlive := h.live
    rwa [Entry.isExpired, decide_eq_false_iff_not, UInt64.lt_iff_toNat_lt] at hlive
  have hread := h.read
  rw [UInt32.le_iff_toNat_le] at hread
  change 2 ≤ e.frequency.toNat at hread
  rw [Spent, Entry.unread]
  omega

/-- Where some entry is spent, a store evicts no others. -/
theorem Shard.spent_of_mem_evicted {s : Shard α} {policy : Policy} {key : String}
    (hother : ∃ x ∈ s.entries, policy.Spent x now) (h : e ∈ s.evicted policy now key) :
    policy.Spent e now := by
  obtain ⟨x, hx, hspent⟩ := hother
  have hmem : x ∈ s.spent policy now := List.mem_filter.mpr ⟨hx, decide_eq_true hspent⟩
  rw [evicted] at h
  split at h
  · rw [pass_of_spent (List.ne_nil_of_mem hmem)] at h
    exact of_decide_eq_true (List.mem_filter.mp (List.mem_of_mem_take h)).2
  · exact absurd h List.not_mem_nil

end Cache

namespace CacheSettings

open Cache

variable {α : Type} {c d : CacheSettings} {e : Entry α} {now : UInt64}

/-- The stale window in milliseconds. -/
def window (c : CacheSettings) : Nat := c.staleSecs * 1000

/-- What a word holds of the stale window. -/
def heldWindow (c : CacheSettings) : Nat := c.window % UInt64.size

theorem heldWindow_of_lt (h : c.window < UInt64.size) : c.heldWindow = c.window :=
  Nat.mod_eq_of_lt h

theorem heldWindow_le (c : CacheSettings) : c.heldWindow ≤ c.window := Nat.mod_le _ _

/-- A pass of eviction may take an entry. -/
def Discards (c : CacheSettings) (e : Entry α) (now : UInt64) : Prop :=
  (c.policy.reason? e now).isSome

instance (c : CacheSettings) (e : Entry α) (now : UInt64) : Decidable (c.Discards e now) :=
  inferInstanceAs (Decidable (_ = true))

theorem discards_iff_spent : c.Discards e now ↔ c.policy.Spent e now :=
  c.policy.isSome_reason?_iff_spent e now

theorem toNat_staleMillis (c : CacheSettings) :
    c.policy.staleMillis.toNat = c.heldWindow :=
  Duration.toNat_millis_ofSecs c.staleSecs

theorem discards_iff (h : e.InUse now) :
    c.Discards e now ↔ (c.heldWindow : Int) < e.unread now := by
  rw [discards_iff_spent, c.policy.spent_iff_of_inUse h, toNat_staleMillis]

/-- A window that does not fit is longer than any entry can be unread. -/
theorem exact_iff (e : Entry α) (now : UInt64) :
    (((c.heldWindow : Int) < e.unread now) ↔ (c.window : Int) < e.unread now) ↔
      c.window < UInt64.size ∨ e.unread now ≤ c.heldWindow := by
  have hunread := e.unread_lt now
  by_cases hfits : c.window < UInt64.size
  · simp [hfits, heldWindow_of_lt hfits]
  · have hnever : ¬ (c.window : Int) < e.unread now := by omega
    simp [hfits, hnever]

/-- Whatever is discarded under a window is discarded under a shorter one. -/
theorem discards_of_heldWindow_le (h : c.heldWindow ≤ d.heldWindow) (hd : d.Discards e now) :
    c.Discards e now := by
  rw [discards_iff_spent, Policy.Spent, toNat_staleMillis] at hd ⊢
  omega

/-- What the stale window of a cache does to entries in use. -/
structure StaleRule (c : CacheSettings) (α : Type) : Prop where
  /-- Those are discarded that were unread for longer than what a word holds of the window. -/
  discards : ∀ (e : Entry α) (now : UInt64), e.InUse now →
    (c.Discards e now ↔ (c.heldWindow : Int) < e.unread now)
  /-- An entry that was read counts as unread since it was stored and since each hit. -/
  hits : ∀ (key : String) (value : α) (expiresAt stored generation now : UInt64)
    (times : List UInt64), times ≠ [] → now ≤ expiresAt →
    (c.Discards ((Entry.fresh key value expiresAt stored generation).hits times) now ↔
      ∀ t ∈ stored :: times, (c.heldWindow : Int) < (now.toNat : Int) - t.toNat)
  /-- That is the window itself if it fits into a word.  Else it comes to the same only for as
  long as neither has passed. -/
  exact : ∀ (e : Entry α) (now : UInt64), e.InUse now →
    ((c.Discards e now ↔ (c.window : Int) < e.unread now) ↔
      c.window < UInt64.size ∨ e.unread now ≤ c.heldWindow)
  /-- A longer window that fits discards nothing, in use or not, that this one keeps. -/
  longer : ∀ d : CacheSettings, c.window ≤ d.window → d.window < UInt64.size →
    ∀ (e : Entry α) (now : UInt64), ¬ c.Discards e now → ¬ d.Discards e now
  /-- Where a store could evict another, it keeps what was accessed within the held window. -/
  spares : ∀ (maxItems : Nat) (actions : List (Race.Action α)) (key : String) (value : α)
    (expiresAt now : UInt64) (e : Entry α), e ∈ (Race.run maxItems actions).shard.entries →
    e.key ≠ key → e.InUse now → e.unread now ≤ c.heldWindow →
    (∃ x ∈ (Race.run maxItems actions).shard.entries, c.Discards x now) →
    e ∈ ((Race.run maxItems actions).shard.insert c.policy key value expiresAt now).2.entries

theorem discards_hits_iff {times : List UInt64} (key : String) (value : α)
    (expiresAt stored generation now : UInt64) (hread : times ≠ []) (hlive : now ≤ expiresAt) :
    c.Discards ((Entry.fresh key value expiresAt stored generation).hits times) now ↔
      ∀ t ∈ stored :: times, (c.heldWindow : Int) < (now.toNat : Int) - t.toNat := by
  have hfresh : (Entry.fresh key value expiresAt stored generation).isExpired now = false :=
    decide_eq_false (UInt64.not_lt.mpr hlive)
  rw [discards_iff (.hits hfresh (UInt32.le_refl 1) hread), Entry.lt_unread_hits_iff,
    List.forall_mem_cons]
  rfl

theorem mem_entries_insert {s : Shard α} (h : s.Ordered) {key : String} (value : α)
    (expiresAt : UInt64) (he : e ∈ s.entries) (hkey : e.key ≠ key) (hused : e.InUse now)
    (hwithin : e.unread now ≤ c.heldWindow) (hother : ∃ x ∈ s.entries, c.Discards x now) :
    e ∈ (s.insert c.policy key value expiresAt now).2.entries := by
  refine (h.mem_entries_insert_iff _ _ _ _ _).mpr (.inr ⟨he, hkey, ?_⟩)
  intro hevicted
  simp only [discards_iff_spent] at hother
  have hspent := Shard.spent_of_mem_evicted hother hevicted
  rw [← discards_iff_spent, discards_iff hused] at hspent
  exact absurd hwithin (Int.not_le.mpr hspent)

/-- Staleness is that of what a word holds of the window, whatever the settings. -/
theorem staleRule (c : CacheSettings) (α : Type) : c.StaleRule α where
  discards e now h := discards_iff h
  hits key value expiresAt stored generation now times := discards_hits_iff key value expiresAt
    stored generation now
  exact e now h := by rw [discards_iff h, exact_iff]
  longer d hle hfits e now hkept hd := by
    refine hkept (discards_of_heldWindow_le ?_ hd)
    rw [heldWindow_of_lt hfits]
    exact Nat.le_trans c.heldWindow_le hle
  spares maxItems actions key value expiresAt now e he hkey :=
    mem_entries_insert (Race.ordered_run maxItems actions) value expiresAt he hkey

end CacheSettings

namespace Settings

open Cache

/-- Settings for a window that has 384 milliseconds more than fit into a word. -/
def patient : Settings where
  production := true
  cache := { capacity := 2, shardCount := some 1, staleSecs := 18446744073709552 }
  coalescer := { enabled := false }

/-- Two entries fill a shard, and the first is read. -/
def readShelf : List (Race.Action Nat) :=
  [.draw 0 "a" 1 86400000 0, .settle 0 patient.cache.policy true, .look 0 "a" 0,
    .draw 1 "b" 2 86400000 0, .settle 1 patient.cache.policy true]

/-- Accepted settings under which a store evicts an entry that was read a second before, long
within the window, and could evict another.  The standard window of one hour keeps it. -/
theorem evicts_patient : patient.checked = .ok patient ∧
    (Race.run 2 readShelf).shard.maxItems ≤ (Race.run 2 readShelf).shard.size ∧
    (Race.run 2 readShelf).shard.contains "c" = false ∧
    ∃ e ∈ (Race.run 2 readShelf).shard.entries, ∃ x ∈ (Race.run 2 readShelf).shard.entries,
      x ≠ e ∧ patient.cache.Discards x 1000 ∧
      e.InUse 1000 ∧ e.unread 1000 ≤ patient.cache.window ∧ patient.cache.Discards e 1000 ∧
      ({} : CacheSettings).window ≤ patient.cache.window ∧
      ¬ ({} : CacheSettings).Discards e 1000 ∧
      e ∉ ((Race.run 2 readShelf).shard.insert patient.cache.policy "c" 3 86401000
        1000).2.entries := by
  have hentries : (Race.run 2 readShelf).shard.entries =
      [⟨"a", 1, 86400000, 2, 0, 1⟩, ⟨"b", 2, 86400000, 1, 0, 2⟩] := by
    decide +kernel
  have hspent : (Race.run 2 readShelf).shard.spent patient.cache.policy 1000 =
      [⟨"a", 1, 86400000, 2, 0, 1⟩, ⟨"b", 2, 86400000, 1, 0, 2⟩] := by
    decide +kernel
  have hfull : (Race.run 2 readShelf).shard.maxItems ≤ (Race.run 2 readShelf).shard.size := by
    decide +kernel
  have hnew : (Race.run 2 readShelf).shard.contains "c" = false := by decide +kernel
  have hevicted : ⟨"a", 1, 86400000, 2, 0, 1⟩ ∈
      (Race.run 2 readShelf).shard.evicted patient.cache.policy 1000 "c" := by
    rw [Shard.evicted, if_pos ⟨hnew, hfull⟩, Shard.pass_of_spent (by simp [hspent]), hspent,
      List.take_cons (Policy.one_le_batchLimit _ _)]
    exact List.mem_cons_self
  refine ⟨?_, hfull, hnew, ⟨"a", 1, 86400000, 2, 0, 1⟩, by simp [hentries],
    ⟨"b", 2, 86400000, 1, 0, 2⟩, by simp [hentries], by decide, by decide, ⟨by decide, by decide⟩,
    by decide, by decide, by decide, by decide, ?_⟩
  · have hfault : patient.fault?.isNone = true := by decide +kernel
    rw [checked, Option.isNone_iff_eq_none.mp hfault]
  · rw [(Race.ordered_run 2 readShelf).mem_entries_insert_iff]
    rintro (hfresh | ⟨-, -, hkept⟩)
    · exact absurd hfresh (by decide)
    · exact hkept hevicted

end Settings

end ArtifactPlane
