import ArtifactPlane.Proofs.Index.Codec
import ArtifactPlane.Proofs.Route.Listing
import Mathlib.Data.Set.Card

/-!
Listing and lookup of a router that an index loads.  Main statement: whatever lookup finds
is listed and the count is that of the listed routes; both agree with lookup altogether just
if the tree of the index is clear, as every tree of routes is, but decoding asks for no such
thing.
-/

namespace ArtifactPlane

open RouteTree

namespace Router

/-- The chains of segments at which lookup finds an artifact. -/
def routable (r : Router) : Set (List String) :=
  {ss | ∃ path, parts path = ss ∧ (r.artifact? path).isSome}

/-- What a router lists and counts is what it looks up. -/
structure Agrees (r : Router) : Prop where
  listed : ∀ x ∈ r.routes, r.artifact? x.1 = some x.2
  distinct : (r.routes.map (·.1)).Nodup
  found : ∀ path a, r.artifact? path = some a →
    r.routes.countP (fun x => parts x.1 = parts path) = 1
  size_eq : (r.size : ℕ∞) = r.routable.encard

theorem artifact?_eq (r : Router) (path : String) :
    r.artifact? path = r.root.artifactAt (segments path) :=
  resolve_eq_artifactAt r.root path

/-- Some entry is at every chain that lookup answers. -/
theorem routable_subset (r : Router) : r.routable ⊆ {ss | ss ∈ r.root.entries.map (·.1)} := by
  rintro _ ⟨path, rfl, hsome⟩
  obtain ⟨a, ha⟩ := Option.isSome_iff_exists.mp hsome
  rw [artifact?_eq, segments_eq_parts] at ha
  exact List.mem_map.mpr ⟨_, mem_entries_of_artifactAt ha, rfl⟩

theorem encard_mem (l : List (List String)) :
    {ss | ss ∈ l}.encard = (l.toFinset.card : ℕ∞) := by
  rw [← Set.encard_coe_eq_coe_finsetCard, List.coe_toFinset]

theorem size_eq_length_entries (r : Router) : r.size = (r.root.entries.map (·.1)).length := by
  rw [size, artifactCount_eq, List.length_map]

theorem encard_routable_le (r : Router) : r.routable.encard ≤ r.size := by
  refine (Set.encard_le_encard r.routable_subset).trans ?_
  rw [encard_mem, size_eq_length_entries]
  exact_mod_cast List.toFinset_card_le _

theorem mem_routes {r : Router} {e : List String × Artifact} (he : e ∈ r.root.entries) :
    (written e.1, e.2) ∈ r.routes := by
  rw [routes, routes_eq]
  exact List.mem_map.mpr ⟨e, he, rfl⟩

theorem map_fst_routes (r : Router) :
    r.routes.map (·.1) = (r.root.entries.map (·.1)).map written := by
  simp [routes, routes_eq, Function.comp_def]

/-- Whatever lookup finds is listed. -/
theorem mem_routes_of_artifact? {r : Router} {path : String} {a : Artifact}
    (h : r.artifact? path = some a) : (written (parts path), a) ∈ r.routes := by
  rw [artifact?_eq, segments_eq_parts] at h
  have hlisted := mem_routes (mem_entries_of_artifactAt h)
  exact hlisted

theorem countP_routes (r : Router) (path : String) :
    r.routes.countP (fun x => parts x.1 = parts path) =
      r.root.entries.countP (fun e => segments (written e.1) = segments path) := by
  simp only [routes, routes_eq, List.countP_map, Function.comp_def, segments_eq_parts]

theorem agrees_of_faithful {r : Router} (h : r.root.Faithful) : r.Agrees := by
  have hback : ∀ e ∈ r.root.entries, segments (written e.1) = e.1 :=
    fun e he => segments_written (h.proper e he)
  have hlisted : ∀ e ∈ r.root.entries, r.artifact? (written e.1) = some e.2 := by
    intro e he
    rw [artifact?_eq, hback e he]
    exact h.found e he
  refine ⟨?_, ?_, fun path a ha => ?_, ?_⟩
  · intro x hx
    rw [routes, routes_eq] at hx
    obtain ⟨e, he, rfl⟩ := List.mem_map.mp hx
    exact hlisted e he
  · rw [map_fst_routes]
    refine List.Nodup.map_on ?_ h.distinct
    intro xs hxs ys hys hxy
    obtain ⟨e, he, rfl⟩ := List.mem_map.mp hxs
    obtain ⟨f, hf, rfl⟩ := List.mem_map.mp hys
    rw [← hback e he, hxy, hback f hf]
  · rw [artifact?_eq] at ha
    have hmem := List.mem_map_of_mem (f := (·.1)) (mem_entries_of_artifactAt ha)
    rw [countP_routes, ← List.count_eq_one_of_mem h.distinct hmem, List.count, List.countP_map]
    refine List.countP_congr fun e he => ?_
    simp [hback e he]
  · have hroutable : r.routable = {ss | ss ∈ r.root.entries.map (·.1)} := by
      refine Set.Subset.antisymm r.routable_subset ?_
      intro ss hss
      obtain ⟨e, he, rfl⟩ := List.mem_map.mp hss
      refine ⟨written e.1, ?_, by rw [hlisted e he]; rfl⟩
      rw [← segments_eq_parts, hback e he]
    rw [hroutable, encard_mem, List.toFinset_card_of_nodup h.distinct, size_eq_length_entries]

/-- Where all that is listed is found, and found once, every entry is at the chain that its
path is divided into. -/
theorem segments_written_of_agrees {r : Router} (h : r.Agrees) {e : List String × Artifact}
    (he : e ∈ r.root.entries) : segments (written e.1) = e.1 := by
  have hlisted := h.listed _ (mem_routes he)
  have hf : (segments (written e.1), e.2) ∈ r.root.entries :=
    mem_entries_of_artifactAt (by rwa [artifact?_eq] at hlisted)
  have hback : segments (written (segments (written e.1))) = segments (written e.1) :=
    segments_written fun _ => proper_of_mem_segments
  have hone := h.found _ _ hlisted
  rw [countP_routes, List.countP_eq_length_filter, List.length_eq_one_iff] at hone
  obtain ⟨only, honly⟩ := hone
  have heq : ∀ f ∈ r.root.entries, segments (written f.1) = segments (written e.1) →
      f = only := by
    intro f hf hs
    rw [← List.mem_singleton, ← honly]
    exact List.mem_filter.mpr ⟨hf, by simpa using hs⟩
  exact congrArg Prod.fst ((heq _ hf hback).trans (heq _ he rfl).symm)

theorem agrees_iff (r : Router) : r.Agrees ↔ r.root.Every Clear := by
  rw [← faithful_iff]
  refine ⟨fun h => ?_, agrees_of_faithful⟩
  have hback := fun e he => segments_written_of_agrees h (e := e) he
  refine ⟨fun e he => ?_, ?_, fun e he s hs => ?_⟩
  · have hlisted := h.listed _ (mem_routes he)
    rwa [artifact?_eq, hback e he] at hlisted
  · have hdistinct := h.distinct
    rw [map_fst_routes] at hdistinct
    exact hdistinct.of_map _
  · rw [← hback e he] at hs
    exact proper_of_mem_segments hs

/-- An index that decoding takes is loaded, by a new router or in place of what an old one
has.  Whatever lookup then finds is listed, and the count is that of the listed routes, at
least that of the chains of segments with an artifact.  The listing agrees with lookup if and
only if, at every node, a child that leads to an artifact has a proper segment that no child
before it has; so it does for a tree that routes were inserted into. -/
theorem load_agrees_iff {index : Octets} {t : RouteTree} (h : Index.decode index = .ok t) :
    load index = .ok ⟨t⟩ ∧ (∀ r : Router, r.reload index = .ok ⟨t⟩) ∧
      (∀ path a, Router.artifact? ⟨t⟩ path = some a →
        (written (parts path), a) ∈ Router.routes ⟨t⟩) ∧
      Router.size ⟨t⟩ = (Router.routes ⟨t⟩).length ∧
      (Router.routable ⟨t⟩).encard ≤ Router.size ⟨t⟩ ∧
      (Agrees ⟨t⟩ ↔ t.Every Clear) ∧
      ∀ inserted, t = ofRoutes inserted → Agrees ⟨t⟩ := by
  refine ⟨?_, fun r => ?_, fun _ _ => mem_routes_of_artifact?, artifactCount_eq_length_routes t,
    encard_routable_le ⟨t⟩, agrees_iff ⟨t⟩, ?_⟩
  · rw [load, h]
    rfl
  · rw [reload, h]
    rfl
  · rintro inserted rfl
    exact agrees_of_faithful (faithful_ofRoutes inserted)

/-- An artifact that was built at the start of 2024. -/
def dated (location : String) : Artifact := ⟨⟨19723, 0, 0⟩, location, []⟩

/-- A node of a segment with an artifact at a location and nothing below. -/
def bud (x : String × String) : RouteTree := ⟨x.1, [], some (dated x.2)⟩

def budOctets (x : String × String) : Octets :=
  Index.text x.1 ++ Index.word 0 ++ [] ++
    (1 :: (Index.text "2024-01-01T00:00:00Z" ++ Index.text x.2 ++ Index.word 0 ++ []))

/-- A tree of one level, and its index. -/
def row (xs : List (String × String)) : RouteTree := ⟨"", xs.map bud, none⟩

def rowIndex (xs : List (String × String)) : Octets :=
  Octets.ofString "RTIX" ++ [1, 0] ++
    (Index.text "" ++ Index.word (xs.map bud).length ++ xs.flatMap budOctets ++ [0])

theorem nodeForm_bud {x : String × String} (hsegment : Index.Writable x.1)
    (hlocation : Index.Writable x.2) : Index.NodeForm (bud x) (budOctets x) := by
  have hstamp : Timestamp.parse "2024-01-01T00:00:00Z" = .ok ⟨19723, 0, 0⟩ := by
    rfl
  have hdate : Index.TextForm "2024-01-01T00:00:00Z" (Index.text "2024-01-01T00:00:00Z") :=
    ⟨by decide, rfl⟩
  have hname : Index.TextForm x.1 (Index.text x.1) := ⟨hsegment, rfl⟩
  have hplace : Index.TextForm x.2 (Index.text x.2) := ⟨hlocation, rfl⟩
  have hnone : ([] : List String).length < UInt64.size := by decide
  have hartifact : Index.ArtifactForm (some (dated x.2)) (1 :: (Index.text "2024-01-01T00:00:00Z" ++
      Index.text x.2 ++ Index.word 0 ++ [])) := .present hstamp hdate hplace hnone .nil
  exact .node hname (by decide) .nil hartifact

theorem decode_rowIndex {xs : List (String × String)} (hcount : xs.length < UInt64.size)
    (h : ∀ x ∈ xs, Index.Writable x.1 ∧ Index.Writable x.2) :
    Index.decode (rowIndex xs) = .ok (row xs) := by
  have hbelow : Index.ListForm Index.NodeForm (xs.map bud) (xs.flatMap budOctets) := by
    clear hcount
    induction xs with
    | nil => exact .nil
    | cons x xs ih =>
      have hx := h x List.mem_cons_self
      exact .cons (nodeForm_bud hx.1 hx.2) (ih fun y hy => h y (List.mem_cons_of_mem x hy))
  have hlow : (row xs).height ≤ Index.maxDepth := by
    have hbuds : ∀ c ∈ (row xs).children, c.height ≤ 1 := by
      intro c hc
      obtain ⟨x, -, rfl⟩ := List.mem_map.mp hc
      exact Nat.le_refl 1
    exact ((height_le_succ_iff _ 1).mpr hbuds).trans (by decide)
  have hname : Index.TextForm "" (Index.text "") := ⟨by decide, rfl⟩
  have hform : Index.NodeForm (row xs)
      (Index.text "" ++ Index.word (xs.map bud).length ++ xs.flatMap budOctets ++ [0]) :=
    .node hname (by simpa using hcount) hbelow .absent
  rw [Index.decode_eq_ok_iff]
  exact ⟨_, rfl, hform, hlow⟩

theorem every_clear_row {xs : List (String × String)} (hdistinct : (xs.map (·.1)).Nodup)
    (hproper : ∀ x ∈ xs, Proper x.1) : (row xs).Every Clear := by
  have hsiblings : (row xs).Siblings := by
    refine ⟨?_, fun c hc => ?_⟩
    · rw [row, List.map_map]
      exact hdistinct
    · obtain ⟨x, hx, rfl⟩ := List.mem_map.mp hc
      exact hproper x hx
  refine .node hsiblings.clear fun c hc => ?_
  obtain ⟨x, -, rfl⟩ := List.mem_map.mp hc
  exact .node ⟨.nil, fun _ hd => nomatch hd⟩ fun _ hd => nomatch hd

theorem load_agrees_siblings :
    Index.decode (rowIndex [("a", "x"), ("b", "y")]) = .ok (row [("a", "x"), ("b", "y")]) ∧
      Router.routes ⟨row [("a", "x"), ("b", "y")]⟩ = [("/a", dated "x"), ("/b", dated "y")] ∧
      (row [("a", "x"), ("b", "y")]).Every Clear ∧ Agrees ⟨row [("a", "x"), ("b", "y")]⟩ := by
  have h : Index.decode (rowIndex [("a", "x"), ("b", "y")]) = .ok (row [("a", "x"), ("b", "y")]) :=
    decode_rowIndex (by decide) (by decide)
  have hroutes : Router.routes ⟨row [("a", "x"), ("b", "y")]⟩ =
      [("/a", dated "x"), ("/b", dated "y")] := by
    rw [routes, routes_eq]
    decide
  have ha : Proper "a" := ⟨by decide, by decide⟩
  have hb : Proper "b" := ⟨by decide, by decide⟩
  have hclear : (row [("a", "x"), ("b", "y")]).Every Clear :=
    every_clear_row (by decide) (by simp [ha, hb])
  obtain ⟨-, -, -, -, -, hiff, -⟩ := load_agrees_iff h
  exact ⟨h, hroutes, hclear, hiff.mpr hclear⟩

/-- An index that lists one path twice, the second time with an artifact that lookup never
gives. -/
theorem listed_twice :
    load (rowIndex [("a", "x"), ("a", "y")]) = .ok ⟨row [("a", "x"), ("a", "y")]⟩ ∧
      Router.routes ⟨row [("a", "x"), ("a", "y")]⟩ = [("/a", dated "x"), ("/a", dated "y")] ∧
      Router.size ⟨row [("a", "x"), ("a", "y")]⟩ = 2 ∧
      Router.artifact? ⟨row [("a", "x"), ("a", "y")]⟩ "/a" = some (dated "x") ∧
      ¬ Agrees ⟨row [("a", "x"), ("a", "y")]⟩ := by
  have hdecode : Index.decode (rowIndex [("a", "x"), ("a", "y")]) =
      .ok (row [("a", "x"), ("a", "y")]) :=
    decode_rowIndex (by decide) (by decide)
  have hroutes : Router.routes ⟨row [("a", "x"), ("a", "y")]⟩ =
      [("/a", dated "x"), ("/a", dated "y")] := by
    rw [routes, routes_eq]
    decide
  refine ⟨by rw [load, hdecode]; rfl, hroutes, ?_, by decide, fun h => ?_⟩
  · rw [size, artifactCount_eq_length_routes, ← routes, hroutes]
    rfl
  · have hdistinct := h.distinct
    rw [hroutes] at hdistinct
    simp at hdistinct

end Router

end ArtifactPlane
