import ArtifactPlane.Proofs.Cache.Stored

/-!
What the operations of a cache count.  A lookup counts one hit or one miss, a store that is
accepted counts one insert, and no other operation counts any of these.
-/

namespace ArtifactPlane.Cache

variable {α : Type} {c d b : Cache α}

/-- No lookup and no store came between. -/
structure Uncounted (c d : Cache α) : Prop where
  hits : d.counters.hits = c.counters.hits
  misses : d.counters.misses = c.counters.misses
  inserts : d.counters.inserts = c.counters.inserts

theorem Uncounted.of_eq (h : d.counters = c.counters) : c.Uncounted d := by
  refine ⟨?_, ?_, ?_⟩ <;> rw [h]

theorem Uncounted.trans (hcd : c.Uncounted d) (hdb : d.Uncounted b) : c.Uncounted b :=
  ⟨hdb.hits.trans hcd.hits, hdb.misses.trans hcd.misses, hdb.inserts.trans hcd.inserts⟩

theorem uncounted_bumpEpoch (c : Cache α) : c.Uncounted c.bumpEpoch := ⟨rfl, rfl, rfl⟩

theorem uncounted_clearShard (c : Cache α) (i : Nat) : c.Uncounted (c.clearShard i) :=
  ⟨rfl, rfl, rfl⟩

theorem uncounted_recordClear (c : Cache α) : c.Uncounted c.recordClear := ⟨rfl, rfl, rfl⟩

theorem uncounted_reap (c : Cache α) (r : ReapRequest) : c.Uncounted (c.reap r) := by
  rw [reap]
  split
  · exact ⟨rfl, rfl, rfl⟩
  · exact .of_eq rfl

theorem uncounted_scheduleWhile (busy : Bool) (c : Cache α) (r : ReapRequest) :
    c.Uncounted (c.scheduleWhile busy r) := by
  have hdropped : c.Uncounted { c with counters := c.counters.recordReapDropped } :=
    ⟨rfl, rfl, rfl⟩
  rw [scheduleWhile]
  split
  · exact .of_eq rfl
  · cases busy with
    | true => exact ⟨rfl, rfl, rfl⟩
    | false => exact hdropped.trans (uncounted_reap _ r)

theorem uncounted_reapNext (c : Cache α) : c.Uncounted c.reapNext := by
  rw [reapNext]
  split
  · exact .of_eq rfl
  · next r rest _ =>
    have hpopped : c.Uncounted { c with queue := rest } := ⟨rfl, rfl, rfl⟩
    exact hpopped.trans (uncounted_reap _ r)

theorem uncounted_sweepShard (now : Instant) (c : Cache α) (i : Nat) :
    c.Uncounted (c.sweepShard now i) := by
  rw [sweepShard]
  split
  · exact ⟨rfl, rfl, rfl⟩
  · exact .of_eq rfl

theorem counters_look (c : Cache α) (key : String) (now : UInt64) :
    (c.look key now).2.counters = match (c.look key now).1 with
      | .hit _ => c.counters.recordHit
      | .expired _ => c.counters.recordExpired
      | .miss => c.counters.recordMiss := by
  rw [look]
  split <;> rfl

theorem counters_setIf (c : Cache α) (key : String) (value : α) (expiresAt now : UInt64)
    (admitted : Bool) :
    (c.setIf key value expiresAt now admitted).2.counters.hits = c.counters.hits ∧
      (c.setIf key value expiresAt now admitted).2.counters.misses = c.counters.misses ∧
      (c.setIf key value expiresAt now admitted).2.counters.inserts =
        c.counters.inserts + if admitted then 1 else 0 := by
  rw [setIf, Shard.insertIf]
  cases admitted with
  | false => exact ⟨rfl, rfl, (UInt64.add_zero _).symm⟩
  | true => exact ⟨rfl, rfl, rfl⟩

end ArtifactPlane.Cache
