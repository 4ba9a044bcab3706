import ArtifactPlane.Proofs.Cache.Placed
import ArtifactPlane.Proofs.Plane.Completion
import ArtifactPlane.Proofs.Plane.Lockstep
import ArtifactPlane.Proofs.Plane.Transparency

/-!
A reload is all or nothing.  It works on two components one after the other: the tree in force is
replaced first, and the cache is emptied afterwards, shard by shard, while loads go on.  Where the
octets are not those of an index, or there are no routes, neither is touched.  Loads that have
looked into the cache deliver what they would deliver anyhow: they have their object already, and
look at the cache again only to keep what they read.  A load that has yet to look may miss what it
would have found, and delivers the same only where storage still holds the same.
-/

namespace ArtifactPlane

namespace Cache

variable {α : Type}

end Cache

namespace Plane

variable {p q : Plane} {index : Octets} {root : RouteTree}

/-- A change of the tree in force. -/
inductive Change where
  | reload (index : Octets)
  | swap (root : RouteTree)

/-- Carry out a change; a reload that fails changes nothing. -/
def change (p : Plane) : Change → Plane
  | .reload index =>
    match p.reload index with
    | .ok q => q
    | .error _ => p
  | .swap root => (p.swap root).2

end Plane

namespace Service

open Coalescer (Ending)

variable {s t : Service} {m : Medium} {ttl : Duration} {r n i : Nat} {index : Octets}

/-- An event that leaves the objects in storage as they are, stores nothing of its own, and comes
at a time from which the clock can represent the expiry of what is kept. -/
def Happening.IsPlain (ttl : Duration) : Happening → Prop
  | .act (.replace _) => False
  | .act (.keep _ now _) => (now.add? ttl).isSome
  | .share f => ∀ (c : Cache Octets) i key v, (f c).Stores i key v → c.Stores i key v
  | _ => True

theorem Plain.happen (hs : s.Plain m ttl) {e : Happening} (he : e.IsPlain ttl) :
    (s.happen e).Plain m ttl := by
  cases e with
  | act a =>
    change (s.step a).Plain m ttl
    rcases s.step_eq_or_moves a with heq | hmove
    · rwa [heq]
    · obtain ⟨httl, hrouter⟩ := hmove.settings
      refine ⟨?_, hs.unrouted.moves hmove, httl.trans hs.ttl?, ?_⟩
      · apply hs.honest.moves hs.unrouted hmove _ hs.ttl?
        · rintro k now later rfl
          exact he
        · rintro medium rfl
          exact he
      · rcases hrouter with hsame | ⟨old, new, -, hnew⟩
        · exact hsame ▸ hs.router?
        · exact ⟨new, hnew⟩
  | swap root =>
    obtain ⟨router, hr⟩ := hs.router?
    have hrerouted := Plane.rerouted_swap s.plane root
    refine ⟨?_, hs.unrouted, hrerouted.ttl?.trans hs.ttl?, ⟨root⟩, ?_⟩
    · refine hs.honest.withPlane ?_ hrerouted.coalescer? ?_
      · rw [hrerouted.storage]
        exact hs.honest.medium
      · rw [hrerouted.cache?]
        exact hs.honest.stored
    · simp [Service.happen, withPlane, Plane.swap_snd, hr, Plane.router?_setRouter hr]
  | openStream path =>
    have hsteady := Plane.steady_openStream s.plane path
    refine ⟨?_, hs.unrouted, hsteady.ttl?.trans hs.ttl?, ?_⟩
    · refine hs.honest.withPlane (hsteady.medium.trans hs.honest.medium) hsteady.coalescer? ?_
      rw [Plane.cache?_openStream]
      exact hs.honest.stored
    · exact hsteady.router?.symm ▸ hs.router?
  | share f =>
    have hsteady := Plane.steady_mapCache f s.plane
    exact ⟨hs.honest.mapCache he, hs.unrouted, hsteady.ttl?.trans hs.ttl?,
      hsteady.router?.symm ▸ hs.router?⟩

theorem Plain.after (hs : s.Plain m ttl) {events : List Happening}
    (hevents : ∀ e ∈ events, e.IsPlain ttl) : (s.after events).Plain m ttl :=
  List.foldlRecOn events Service.happen hs fun _ ht e he => ht.happen (hevents e he)

/-- Whoever was routed is given what storage holds there. -/
theorem Plain.answer? (hs : s.Plain m ttl) (horderly : s.Orderly) {load : PendingLoad}
    (hi : s.load? i = some load) {later : List Happening} (hlater : ∀ d ∈ later, d.IsPlain ttl)
    {e : Ending} (he : (s.after later).answer? i = some e) :
    e = .delivered (Storage.content m load.object) := by
  obtain ⟨q, hq, -, rfl⟩ := (hs.after hlater).honest.answer? he
  have hload := horderly.load?_after later hi
  have hticket : q.load = some load := by simpa [load?, ticket?, hq] using hload
  simp only [Ticket.due, hticket]

/-- Whoever waits is given it once the steps of its load are taken. -/
theorem Plain.finished (hs : s.Plain m ttl) (horderly : s.Orderly) {load : PendingLoad}
    (hi : s.load? i = some load) {later : List Happening} (hlater : ∀ d ∈ later, d.IsPlain ttl)
    (hawaits : (s.after later).Awaits i n) {now : Instant} (hnow : (now.add? ttl).isSome) :
    ((s.after later).run (finishing n i now)).answer? i =
      some (.delivered (Storage.content m load.object)) := by
  have hrun : (s.after later).run (finishing n i now) =
      s.after (later ++ (finishing n i now).map .act) := by
    rw [after_append, after_map]
  have hplain : ∀ d ∈ later ++ (finishing n i now).map Happening.act, d.IsPlain ttl := by
    intro d hd
    rcases List.mem_append.mp hd with hd | hd
    · exact hlater d hd
    · obtain ⟨a, ha, rfl⟩ := List.mem_map.mp hd
      simp only [finishing, List.mem_cons, List.not_mem_nil, or_false] at ha
      rcases ha with rfl | rfl | rfl | rfl | rfl | rfl | rfl | rfl
      all_goals first | exact hnow | trivial
  obtain ⟨e, he⟩ := Option.isSome_iff_exists.mp
    (hawaits.answered (horderly.after later) now)
  rw [hrun] at he ⊢
  rw [he]
  exact congrArg some (hs.answer? horderly hi hplain he)

/-- The content that was delivered. -/
def content? : Ending → Option Octets
  | .delivered loaded => loaded.toOption
  | .panicked => none

end Service

end ArtifactPlane
