import Mathlib.Data.List.Induction
import ArtifactPlane.Proofs.Cache.Interleaving

/-!
The clear epoch is a fence.  A store that brings an epoch read earlier is accepted exactly when
no clear advanced the epoch in the meantime, and once a clear has returned no shard holds what
a store with an older reading left there.

A store that was accepted under a reading older than a clear was accepted before the clear
advanced the epoch, so that the clear has yet to come to its shard, and it waits there for the
lock that the store holds.
-/

namespace ArtifactPlane.Cache

variable {α : Type}

namespace Fence

/-- A reading tells how often the epoch had been advanced. -/
structure Genuine (time : Nat) (bumps : List Nat) (rd : Reading) : Prop where
  past : rd.time < time
  apart : rd.time ∉ bumps
  epoch : rd.epoch = UInt64.ofNat (bumps.countP (· < rd.time))

theorem Genuine.tick {time : Nat} {bumps : List Nat} {rd : Reading} (h : Genuine time bumps rd) :
    Genuine (time + 1) bumps rd :=
  ⟨Nat.lt_succ_of_lt h.past, h.apart, h.epoch⟩

theorem Genuine.bump {time : Nat} {bumps : List Nat} {rd : Reading} (h : Genuine time bumps rd) :
    Genuine (time + 1) (time :: bumps) rd := by
  have hpast := h.past
  refine ⟨Nat.lt_succ_of_lt hpast, ?_, ?_⟩
  · intro hmem
    rcases List.mem_cons.mp hmem with hnow | hold
    · omega
    · exact h.apart hold
  · have hlater : ¬ decide (time < rd.time) = true := by
      rw [decide_eq_true_eq]
      omega
    rw [h.epoch, List.countP_cons, if_neg hlater, Nat.add_zero]

/-- A clear that goes on, or begins, keeps or adds one time at which the epoch was advanced. -/
theorem exists_bumped_put {clears : Roster Clearing} {r : Nat} {x : Clearing}
    (hsame : ∀ c, clears r = some c → c.bumped = x.bumped) (b : Nat) :
    (∃ k c, clears.put r x k = some c ∧ c.bumped = b) ↔
      b = x.bumped ∨ ∃ k c, clears k = some c ∧ c.bumped = b := by
  constructor
  · rintro ⟨k, c, hc, rfl⟩
    rcases Roster.put_eq_some_iff.mp hc with ⟨rfl, rfl⟩ | ⟨-, hold⟩
    · exact Or.inl rfl
    · exact Or.inr ⟨k, c, hold, rfl⟩
  · rintro (rfl | ⟨k, c, hc, rfl⟩)
    · exact ⟨r, x, Roster.put_self _ _ _, rfl⟩
    · by_cases hk : k = r
      · subst hk
        exact ⟨k, x, Roster.put_self _ _ _, (hsame c hc).symm⟩
      · exact ⟨k, c, (Roster.put_of_ne hk x).trans hc, rfl⟩

/-- Every clear since the reading of a store has yet to come to the shard of a key. -/
def Ahead (s : Fence α) (key : String) (w : Write α) : Prop :=
  ∀ rd, w.reading = some rd → ∀ r c, s.clears r = some c → rd.time < c.bumped →
    ∃ next, c.stage = .emptying next ∧ next ≤ s.cache.shardOf key

theorem Ahead.congr {s t : Fence α} {key : String} {w : Write α} (h : s.Ahead key w)
    (hclears : t.clears = s.clears) (hcount : t.cache.shardCount = s.cache.shardCount) :
    t.Ahead key w := by
  intro rd hrd r c hclear hlater
  rw [hclears] at hclear
  obtain ⟨next, hstage, hnext⟩ := h rd hrd r c hclear hlater
  rw [shardOf_congr hcount]
  exact ⟨next, hstage, hnext⟩

/-- Store `j` was accepted. -/
structure Accepted (writes : Roster (Write α)) (j : Nat) (w : Write α) : Prop where
  write : writes j = some w
  verdict : ∃ v, w.verdict = some v ∧ v.stored = true

/-- Whether the entry under a key was left by store `j`, and no clear has passed it since its
reading. -/
def Left (s : Fence α) (key : String) (e : Entry α) (j : Nat) (w : Write α) : Prop :=
  s.writer key = some j ∧ Accepted s.writes j w ∧ e.SameStore w.entry ∧ s.Ahead key w

structure Sound (s : Fence α) : Prop where
  placed : s.cache.WellPlaced
  epoch : s.cache.epoch = UInt64.ofNat s.bumps.length
  past : ∀ b ∈ s.bumps, b < s.time
  logged : ∀ b, b ∈ s.bumps ↔ ∃ r c, s.clears r = some c ∧ c.bumped = b
  read : ∀ i rd, s.readings i = some rd → Genuine s.time s.bumps rd
  entered : ∀ j w rd, s.writes j = some w → w.reading = some rd → Genuine s.time s.bumps rd
  judged : ∀ j w rd v, s.writes j = some w → w.reading = some rd → w.verdict = some v →
    v.time < s.time ∧ (v.stored = true ↔ ∀ b ∈ s.bumps, b < v.time → b < rd.time)
  holding : ∀ i j, s.holder i = some j →
    ∃ w, Accepted s.writes j w ∧ s.cache.shardOf w.entry.key = i ∧ s.Ahead w.entry.key w
  held : ∀ key e, s.cache.find? key = some e →
    ∃ j w, s.Left key e j w

namespace Sound

variable {s : Fence α} {c : Cache α} {i j r : Nat} {w : Write α}

theorem start (config : Config) : (Fence.start config : Fence α).Sound where
  placed := WellPlaced.ofConfig config
  epoch := rfl
  past := fun _ hb => absurd hb List.not_mem_nil
  logged := fun _ => ⟨fun hb => absurd hb List.not_mem_nil, fun ⟨_, _, h, _⟩ => nomatch h⟩
  read := fun _ _ h => nomatch h
  entered := fun _ _ _ h => nomatch h
  judged := fun _ _ _ _ h => nomatch h
  holding := fun _ _ h => nomatch h
  held := fun key e h =>
    absurd (Shard.stores_of_find? h) (not_stores_ofConfig config _ key e.value)

theorem thin (h : s.Sound) (hthin : s.cache.Thins c) : (s.thin c).Sound := by
  have hshard : ∀ key, c.shardOf key = s.cache.shardOf key := shardOf_congr hthin.keeps.shardCount
  have hahead : ∀ key w, s.Ahead key w → (s.thin c).Ahead key w :=
    fun key w hw => hw.congr rfl hthin.keeps.shardCount
  refine ⟨hthin.placed, hthin.keeps.epoch.trans h.epoch, ?_, h.logged, ?_, ?_, ?_, ?_, ?_⟩
  · exact fun b hb => Nat.lt_succ_of_lt (h.past b hb)
  · exact fun i rd hrd => (h.read i rd hrd).tick
  · exact fun j w rd hw hrd => (h.entered j w rd hw hrd).tick
  · intro j w rd v hw hrd hv
    obtain ⟨hpast, hstored⟩ := h.judged j w rd v hw hrd hv
    exact ⟨Nat.lt_succ_of_lt hpast, hstored⟩
  · intro i j hholder
    obtain ⟨w, haccepted, hhome, hw⟩ := h.holding i j hholder
    exact ⟨w, haccepted, (hshard _).trans hhome, hahead _ w hw⟩
  · intro key e' he'
    obtain ⟨e, he, hsame⟩ := hthin.held key e' he'
    obtain ⟨j, w, hlast, haccepted, hentry, hw⟩ := h.held key e he
    exact ⟨j, w, hlast, haccepted, hsame.trans hentry, hahead key w hw⟩

theorem idle (h : s.Sound) : (s.thin s.cache).Sound := h.thin (.of_eq h.placed rfl rfl)

theorem takeReading (h : s.Sound) (i : Nat) : (s.takeReading i).Sound := by
  have hidle := h.idle
  refine { hidle with read := ?_ }
  intro k rd hrd
  rcases Roster.put_eq_some_iff.mp hrd with ⟨rfl, rfl⟩ | ⟨-, hold⟩
  · refine ⟨Nat.lt_succ_self _, fun hb => absurd (h.past _ hb) (Nat.lt_irrefl _), ?_⟩
    have hall : s.bumps.countP (· < s.time) = s.bumps.length :=
      List.countP_eq_length.mpr fun b hb => decide_eq_true (h.past b hb)
    exact h.epoch.trans (congrArg UInt64.ofNat hall.symm)
  · exact hidle.read k rd hold

/-- A store that is under way is not yet accepted, so whatever was accepted stays as it was. -/
theorem accepted_put (hnew : ∀ w, ¬ Accepted s.writes j w) {k : Nat} {u : Write α}
    (hu : Accepted s.writes k u) : s.writes.put j w k = some u := by
  rw [Roster.put_of_ne]
  · exact hu.write
  · rintro rfl
    exact hnew u hu

theorem enter (h : s.Sound) (hfree : s.writes j = none) {reading : Option Reading}
    (hreading : ∀ rd, reading = some rd → Genuine s.time s.bumps rd) (e : Entry α) :
    ({ s with writes := s.writes.put j ⟨e, reading, none⟩ } : Fence α).Sound := by
  have hnew : ∀ w, ¬ Accepted s.writes j w := by
    intro w hw
    exact nomatch hfree.symm.trans hw.write
  refine { h with entered := ?_, judged := ?_, holding := ?_, held := ?_ }
  · intro k w rd hw hrd
    rcases Roster.put_eq_some_iff.mp hw with ⟨rfl, rfl⟩ | ⟨-, hold⟩
    · exact hreading rd hrd
    · exact h.entered k w rd hold hrd
  · intro k w rd v hw hrd hv
    rcases Roster.put_eq_some_iff.mp hw with ⟨rfl, rfl⟩ | ⟨-, hold⟩
    · exact nomatch hv
    · exact h.judged k w rd v hold hrd hv
  · intro i k hholder
    obtain ⟨w, haccepted, hrest⟩ := h.holding i k hholder
    exact ⟨w, ⟨accepted_put hnew haccepted, haccepted.verdict⟩, hrest⟩
  · intro key e he
    obtain ⟨k, w, hlast, haccepted, hrest⟩ := h.held key e he
    exact ⟨k, w, hlast, ⟨accepted_put hnew haccepted, haccepted.verdict⟩, hrest⟩

theorem beginWrite (h : s.Sound) (hfree : s.writes j = none) {reading : Option Reading}
    (hreading : ∀ rd, reading = some rd → Genuine s.time s.bumps rd) (key : String) (value : α)
    (expiresAt now : UInt64) :
    (s.beginWrite j reading key value expiresAt now).Sound :=
  (h.thin (thins_draw h.placed key)).enter hfree (fun rd hrd => (hreading rd hrd).tick) _

/-- A store is accepted exactly when the epoch was not advanced since its reading. -/
theorem admits_iff (h : s.Sound) (hsize : s.bumps.length < UInt64.size) {rd : Reading}
    (hrd : Genuine s.time s.bumps rd) (hreading : w.reading = some rd) :
    s.admits w = true ↔ ∀ b ∈ s.bumps, b < rd.time := by
  have hle : s.bumps.countP (· < rd.time) ≤ s.bumps.length := List.countP_le_length
  have hequal : s.admits w = true ↔ s.bumps.countP (· < rd.time) = s.bumps.length := by
    simp only [admits, hreading, h.epoch, hrd.epoch, beq_iff_eq]
    constructor
    · intro heq
      have hnat := congrArg UInt64.toNat heq
      rw [UInt64.toNat_ofNat_of_lt' hsize,
        UInt64.toNat_ofNat_of_lt' (Nat.lt_of_le_of_lt hle hsize)] at hnat
      exact hnat.symm
    · intro heq
      rw [heq]
  rw [hequal, List.countP_eq_length]
  simp only [decide_eq_true_eq]

theorem judge (h : s.Sound) (hsize : s.bumps.length < UInt64.size)
    (hw : s.writes j = some w) (hwaiting : w.verdict = none) : (s.judge j w).Sound := by
  have hidle := h.idle
  have hnew : ∀ u, ¬ Accepted s.writes j u := by
    intro u hu
    obtain rfl := Option.some.inj (hw.symm.trans hu.write)
    obtain ⟨v, hv, -⟩ := hu.verdict
    exact nomatch hwaiting.symm.trans hv
  refine { hidle with entered := ?_, judged := ?_, holding := ?_, held := ?_ }
  · intro k u rd hu hrd
    rcases Roster.put_eq_some_iff.mp hu with ⟨rfl, rfl⟩ | ⟨-, hold⟩
    · exact hidle.entered k w rd hw hrd
    · exact hidle.entered k u rd hold hrd
  · intro k u rd v hu hrd hv
    rcases Roster.put_eq_some_iff.mp hu with ⟨rfl, rfl⟩ | ⟨-, hold⟩
    · obtain rfl := Option.some.inj hv
      have hadmits := admits_iff (w := w) h hsize (h.entered k w rd hw hrd) hrd
      refine ⟨Nat.lt_succ_self _, hadmits.trans ?_⟩
      exact ⟨fun hall b hb _ => hall b hb, fun hall b hb => hall b hb (h.past b hb)⟩
    · exact hidle.judged k u rd v hold hrd hv
  · intro i k hholder
    by_cases hown : s.admits w = true ∧ i = s.cache.shardOf w.entry.key
    · obtain rfl : j = k := Option.some.inj ((if_pos hown).symm.trans hholder)
      refine ⟨_, ⟨Roster.put_self _ _ _, _, rfl, hown.1⟩, hown.2.symm, ?_⟩
      intro rd hrd r clearing hclear hlater
      have hmem := (h.logged clearing.bumped).mpr ⟨r, clearing, hclear, rfl⟩
      have hbefore := (admits_iff h hsize (h.entered j w rd hw hrd) hrd).mp hown.1 _ hmem
      omega
    · have hold : s.holder i = some k := (if_neg hown).symm.trans hholder
      obtain ⟨u, haccepted, hrest⟩ := h.holding i k hold
      exact ⟨u, ⟨accepted_put hnew haccepted, haccepted.verdict⟩, hrest⟩
  · intro key e he
    obtain ⟨k, u, hlast, haccepted, hrest⟩ := h.held key e he
    exact ⟨k, u, hlast, ⟨accepted_put hnew haccepted, haccepted.verdict⟩, hrest⟩

theorem deliver (h : s.Sound) (hholder : s.holder i = some j) (hw : s.writes j = some w) :
    (s.deliver i j w).Sound := by
  have hidle := h.idle
  have hcount : (s.deliver i j w).cache.shardCount = s.cache.shardCount :=
    shardCount_settle _ _ _ _
  refine ⟨h.placed.settle _ _ _, (epoch_settle _ _ _ _).trans h.epoch, hidle.past, h.logged,
    hidle.read, hidle.entered, hidle.judged, ?_, ?_⟩
  · intro k l hl
    by_cases hk : k = i
    · subst hk
      exact nomatch (if_pos rfl).symm.trans hl
    · obtain ⟨u, haccepted, hhome, hahead⟩ := h.holding k l ((if_neg hk).symm.trans hl)
      exact ⟨u, haccepted, (shardOf_congr hcount _).trans hhome, hahead.congr rfl hcount⟩
  · intro key e he
    rcases held_settle h.placed.shardCount_pos he with ⟨rfl, rfl⟩ | ⟨hkey, hold⟩
    · obtain ⟨u, haccepted, -, hahead⟩ := h.holding i j hholder
      obtain rfl := Option.some.inj (hw.symm.trans haccepted.write)
      exact ⟨j, w, if_pos rfl, haccepted, Entry.SameStore.refl _, hahead.congr rfl hcount⟩
    · obtain ⟨k, u, hlast, haccepted, hentry, hahead⟩ := h.held key e hold
      exact ⟨k, u, (if_neg hkey).trans hlast, haccepted, hentry, hahead.congr rfl hcount⟩

theorem beginClear (h : s.Sound) (hfree : s.clears r = none) : (s.beginClear r).Sound := by
  have hahead : ∀ key u, s.Ahead key u → (s.beginClear r).Ahead key u := by
    intro key u hu rd hrd k clearing hclear hlater
    rcases Roster.put_eq_some_iff.mp hclear with ⟨rfl, rfl⟩ | ⟨-, hold⟩
    · exact ⟨0, rfl, Nat.zero_le _⟩
    · exact hu rd hrd k clearing hold hlater
  have hfind : ∀ key, (s.beginClear r).cache.find? key = s.cache.find? key :=
    fun key => find?_congr rfl key
  refine ⟨?_, ?_, ?_, ?_, ?_, ?_, ?_, ?_, ?_⟩
  · exact ⟨h.placed.shardCount_pos, h.placed.ordered, h.placed.home⟩
  · exact (congrArg (· + 1) h.epoch).trans (UInt64.ofNat_add _ 1).symm
  · intro b hb
    rcases List.mem_cons.mp hb with rfl | hold
    · exact Nat.lt_succ_self _
    · exact Nat.lt_succ_of_lt (h.past b hold)
  · intro b
    have hput := exists_bumped_put (x := ⟨s.time, .emptying 0⟩)
      (fun c hc => nomatch hfree.symm.trans hc) b
    exact (List.mem_cons.trans (or_congr Iff.rfl (h.logged b))).trans hput.symm
  · exact fun i rd hrd => (h.read i rd hrd).bump
  · exact fun j w rd hw hrd => (h.entered j w rd hw hrd).bump
  · intro j w rd v hw hrd hv
    obtain ⟨hpast, hstored⟩ := h.judged j w rd v hw hrd hv
    refine ⟨Nat.lt_succ_of_lt hpast, hstored.trans ?_⟩
    simp only [Fence.beginClear, List.forall_mem_cons]
    constructor
    · exact fun hall => ⟨fun hnow => absurd hnow (by omega), hall⟩
    · exact fun hall => hall.2
  · intro i j hholder
    obtain ⟨w, haccepted, hhome, hw⟩ := h.holding i j hholder
    exact ⟨w, haccepted, hhome, hahead _ w hw⟩
  · intro key e he
    rw [hfind] at he
    obtain ⟨j, w, hlast, haccepted, hentry, hw⟩ := h.held key e he
    exact ⟨j, w, hlast, haccepted, hentry, hahead key w hw⟩

/-- A clear goes on when what it leaves behind holds nothing, nor waits to be stored. -/
theorem advance (h : s.Sound) {bumped next : Nat} {stage : Stage}
    (hclear : s.clears r = some ⟨bumped, .emptying next⟩) (hthin : s.cache.Thins c)
    (hstage : ∀ key, next ≤ s.cache.shardOf key →
      (∃ e, c.find? key = some e) ∨ (∃ j, s.holder (s.cache.shardOf key) = some j) →
        ∃ n, stage = .emptying n ∧ n ≤ s.cache.shardOf key) :
    (s.advance r c ⟨bumped, stage⟩).Sound := by
  have hnext := h.thin hthin
  have hshard : ∀ key, c.shardOf key = s.cache.shardOf key := shardOf_congr hthin.keeps.shardCount
  have hahead : ∀ key w, (s.thin c).Ahead key w →
      (∃ e, c.find? key = some e) ∨ (∃ j, s.holder (s.cache.shardOf key) = some j) →
      (s.advance r c ⟨bumped, stage⟩).Ahead key w := by
    intro key w hw hkept rd hrd k clearing hk hlater
    rcases Roster.put_eq_some_iff.mp hk with ⟨rfl, rfl⟩ | ⟨-, hold⟩
    · obtain ⟨n, hn, hle⟩ := hw rd hrd k _ hclear hlater
      obtain rfl := Stage.emptying.inj hn
      obtain ⟨m, hm, hbound⟩ := hstage key ((hshard key) ▸ hle) hkept
      exact ⟨m, hm, (hshard key).symm ▸ hbound⟩
    · exact hw rd hrd k clearing hold hlater
  refine { hnext with logged := ?_, holding := ?_, held := ?_ }
  · intro b
    have hkept : ∀ c, s.clears r = some c → c.bumped = bumped := by
      intro c hc
      obtain rfl := Option.some.inj (hclear.symm.trans hc)
      rfl
    have hput := exists_bumped_put (x := ⟨bumped, stage⟩) hkept b
    refine (h.logged b).trans (Iff.trans ?_ hput.symm)
    exact (or_iff_right_of_imp fun hb => ⟨r, _, hclear, hb.symm⟩).symm
  · intro i j hholder
    obtain ⟨w, haccepted, hhome, hw⟩ := hnext.holding i j hholder
    have hsame : s.cache.shardOf w.entry.key = i := (hshard _).symm.trans hhome
    exact ⟨w, haccepted, hhome, hahead _ w hw (Or.inr ⟨j, hsame.symm ▸ hholder⟩)⟩
  · intro key e he
    obtain ⟨j, w, hlast, haccepted, hentry, hw⟩ := hnext.held key e he
    exact ⟨j, w, hlast, haccepted, hentry, hahead key w hw (Or.inl ⟨e, he⟩)⟩

theorem emptyShard (h : s.Sound) {bumped next : Nat}
    (hclear : s.clears r = some ⟨bumped, .emptying next⟩) (hfree : s.holder next = none) :
    (s.advance r (s.cache.clearShard next) ⟨bumped, .emptying (next + 1)⟩).Sound := by
  refine h.advance hclear (thins_clearShard h.placed next) ?_
  intro key hle hkept
  refine ⟨next + 1, rfl, Nat.lt_of_le_of_ne hle ?_⟩
  rintro rfl
  rcases hkept with ⟨e, he⟩ | ⟨j, hj⟩
  · rw [clearShard, find?_setShard h.placed.shardCount_pos, if_pos rfl, Shard.find?_clear] at he
    exact nomatch he
  · exact nomatch hfree.symm.trans hj

theorem finishClear (h : s.Sound) {bumped next : Nat}
    (hclear : s.clears r = some ⟨bumped, .emptying next⟩) (hend : s.cache.shardCount ≤ next) :
    (s.advance r s.cache.recordClear ⟨bumped, .returned⟩).Sound := by
  refine h.advance hclear (.of_eq h.placed rfl rfl) ?_
  intro key hle
  have hlt := shardOf_lt h.placed.shardCount_pos key
  omega

theorem step (h : s.Sound) (hsize : s.bumps.length < UInt64.size) (a : Action α) :
    (s.step a).Sound := by
  cases a with
  | read i =>
    simp only [Fence.step]
    split
    · exact h.takeReading i
    · exact h.idle
  | enter j reading key value expiresAt now =>
    simp only [Fence.step]
    split
    · next hfree =>
      refine h.beginWrite hfree ?_ key value expiresAt now
      intro rd hrd
      obtain ⟨i, -, hi⟩ := Option.bind_eq_some_iff.mp hrd
      exact h.read i rd hi
    · exact h.idle
  | check j =>
    simp only [Fence.step]
    split
    · next entry reading hw =>
      split
      · exact h.judge hsize hw rfl
      · exact h.idle
    · exact h.idle
  | insert i =>
    simp only [Fence.step]
    split
    · next j w hdue =>
      obtain ⟨k, hholder, hwrite⟩ := Option.bind_eq_some_iff.mp hdue
      obtain ⟨u, hw, heq⟩ := Option.map_eq_some_iff.mp hwrite
      obtain ⟨rfl, rfl⟩ := Prod.mk.inj heq
      exact h.deliver hholder hw
    · exact h.idle
  | look key now => exact h.thin (thins_look h.placed key now)
  | request busy r => exact h.thin (thins_scheduleWhile h.placed busy r)
  | reap r => exact h.thin (thins_reap h.placed r)
  | purge now i => exact h.thin (thins_purgeShard h.placed now i)
  | sweep now i => exact h.thin (thins_sweepShard h.placed now i)
  | bump r =>
    simp only [Fence.step]
    split
    · next hfree => exact h.beginClear hfree
    · exact h.idle
  | empty r =>
    simp only [Fence.step]
    split
    · next bumped next hclear =>
      split
      · split
        · next hfree => exact h.emptyShard hclear hfree
        · exact h.idle
      · next hend => exact h.finishClear hclear (Nat.le_of_not_lt hend)
    · exact h.idle

end Sound

theorem bumps_step (s : Fence α) (a : Action α) :
    (s.step a).bumps = s.bumps ∨ (s.step a).bumps = s.time :: s.bumps := by
  cases a with
  | bump r =>
    simp only [step]
    split
    · exact Or.inr rfl
    · exact Or.inl rfl
  | check j =>
    simp only [step]
    split
    · split <;> exact Or.inl rfl
    · exact Or.inl rfl
  | empty r =>
    simp only [step]
    split
    · split
      · split <;> exact Or.inl rfl
      · exact Or.inl rfl
    · exact Or.inl rfl
  | read i => simp only [step]; split <;> exact Or.inl rfl
  | enter j reading key value expiresAt now => simp only [step]; split <;> exact Or.inl rfl
  | insert i => simp only [step]; split <;> exact Or.inl rfl
  | look key now => exact Or.inl rfl
  | request busy r => exact Or.inl rfl
  | reap r => exact Or.inl rfl
  | purge now i => exact Or.inl rfl
  | sweep now i => exact Or.inl rfl

theorem bumps_length_le_step (s : Fence α) (a : Action α) :
    s.bumps.length ≤ (s.step a).bumps.length := by
  rcases bumps_step s a with h | h
  · exact Nat.le_of_eq (congrArg List.length h.symm)
  · rw [h]
    exact Nat.le_succ _

theorem sound_run (config : Config) (actions : List (Action α))
    (hsize : (run config actions).bumps.length < UInt64.size) : (run config actions).Sound := by
  induction actions using List.reverseRecOn with
  | nil => exact Sound.start config
  | append_singleton actions a ih =>
    rw [run_append] at hsize ⊢
    have hbefore := Nat.lt_of_le_of_lt (bumps_length_le_step _ a) hsize
    exact (ih hbefore).step hbefore a

/-- The fence holds: a store under a reading is accepted exactly when no clear advanced the
epoch between the reading and the check, and after a clear has returned every entry in every
shard was left by an accepted store without a reading or with one taken after the clear
advanced the epoch. -/
structure KeepsOut (s : Fence α) : Prop where
  verdict : ∀ j w rd v, s.writes j = some w → w.reading = some rd → w.verdict = some v →
    (v.stored = true ↔
      ¬ ∃ r c, s.clears r = some c ∧ rd.time < c.bumped ∧ c.bumped < v.time)
  content : ∀ r c, s.clears r = some c → c.stage = .returned →
    ∀ i, ∀ e ∈ (s.cache.shardAt i).entries, ∃ j w, s.writer e.key = some j ∧
      Accepted s.writes j w ∧ e.SameStore w.entry ∧
        ∀ rd, w.reading = some rd → c.bumped < rd.time

/-- A reading and the advance of the epoch are different steps. -/
theorem Sound.apart {s : Fence α} (h : s.Sound) {r : Nat} {c : Clearing}
    (hclear : s.clears r = some c) {rd : Reading} (hrd : Genuine s.time s.bumps rd) :
    c.bumped ≠ rd.time := by
  intro heq
  have hb := (h.logged c.bumped).mpr ⟨r, c, hclear, rfl⟩
  rw [heq] at hb
  exact hrd.apart hb

theorem Sound.keepsOut {s : Fence α} (h : s.Sound) : s.KeepsOut := by
  constructor
  · intro j w rd v hw hrd hv
    obtain ⟨-, hstored⟩ := h.judged j w rd v hw hrd hv
    have hgenuine := h.entered j w rd hw hrd
    rw [hstored]
    constructor
    · rintro hall ⟨r, c, hclear, hlater, hbefore⟩
      have hlt := hall _ ((h.logged _).mpr ⟨r, c, hclear, rfl⟩) hbefore
      omega
    · intro hnone b hb hbefore
      obtain ⟨r, c, hclear, rfl⟩ := (h.logged b).mp hb
      have hne := h.apart hclear hgenuine
      have hnot : ¬ rd.time < c.bumped := fun hlater => hnone ⟨r, c, hclear, hlater, hbefore⟩
      omega
  · intro r c hclear hreturned i e he
    obtain ⟨-, hfound⟩ := h.placed.mem_entries_iff.mp he
    obtain ⟨j, w, hlast, haccepted, hentry, hahead⟩ := h.held e.key e hfound
    refine ⟨j, w, hlast, haccepted, hentry, ?_⟩
    intro rd hrd
    have hne := h.apart hclear (h.entered j w rd haccepted.write hrd)
    have hnot : ¬ rd.time < c.bumped := by
      intro hlater
      obtain ⟨next, hnext, -⟩ := hahead rd hrd r c hclear hlater
      exact nomatch hreturned.symm.trans hnext
    omega

/-- The fence holds after any steps of any parties. -/
theorem keepsOut_run (config : Config) (actions : List (Action α))
    (hsize : (run config actions).bumps.length < UInt64.size) : (run config actions).KeepsOut :=
  (sound_run config actions hsize).keepsOut

/-- A store reads the epoch, and a clear begins and empties the first shard before it checks. -/
def overtaken : List (Action Nat) :=
  [.read 0, .enter 0 (some 0) "a" 1 10 0, .bump 0, .empty 0, .check 0, .empty 0, .empty 0]

theorem keepsOut_overtaken :
    (run { shardCount := 2 } overtaken).bumps.length < UInt64.size ∧
      (run { shardCount := 2 } overtaken).KeepsOut := by
  have hsize : (run { shardCount := 2 } overtaken).bumps.length < UInt64.size := by
    decide +kernel
  exact ⟨hsize, keepsOut_run _ overtaken hsize⟩

end Fence

end ArtifactPlane.Cache
