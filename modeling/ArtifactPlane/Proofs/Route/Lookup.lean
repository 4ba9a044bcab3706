import ArtifactPlane.Proofs.Path.Components
import ArtifactPlane.Proofs.Route.Height
import ArtifactPlane.Route.Router

/-!
A route tree as a map.  Main statement: a tree that was built from any routes gives at
every path the artifact of the last of them with the same segments, and the segments of
siblings are distinct, not empty and without a slash.
-/

namespace ArtifactPlane

namespace RouteTree

/-- The parts of a path between its slashes, those that are not empty. -/
def parts (path : String) : List String :=
  ((path.toList.splitOn '/').map String.ofList).filter (· ≠ "")

theorem segments_eq_parts (path : String) : segments path = parts path := by
  rw [segments, parts, Path.pieces_eq_splitOn, List.filter_map]
  congr 1
  apply List.filter_congr
  intro cs _
  cases cs <;> simp

example : segments "//a/b//" = ["a", "b"] := by decide

/-- A text that may stand between the slashes of a path. -/
structure Proper (s : String) : Prop where
  ne_empty : s ≠ ""
  slash_not_mem : '/' ∉ s.toList

theorem proper_of_mem_segments {path s : String} (h : s ∈ segments path) : Proper s := by
  obtain ⟨cs, hcs, rfl⟩ := List.mem_map.mp h
  obtain ⟨hmem, hne⟩ := List.mem_filter.mp hcs
  refine ⟨?_, ?_⟩
  · simpa using hne
  · simpa using Path.slash_not_mem_of_mem_pieces hmem

/-- The artifact at the end of a chain of segments. -/
def artifactAt (ss : List String) (t : RouteTree) : Option Artifact :=
  (t.descend ss).bind (·.artifact)

@[simp]
theorem artifactAt_nil (t : RouteTree) : t.artifactAt [] = t.artifact := by
  simp [artifactAt, descend]

@[simp]
theorem artifactAt_cons (s : String) (ss : List String) (t : RouteTree) :
    t.artifactAt (s :: ss) = (t.findChild s).bind (artifactAt ss) := by
  cases h : t.findChild s <;> simp [artifactAt, descend, h]

theorem resolve_eq_artifactAt (t : RouteTree) (path : String) :
    t.resolve path = t.artifactAt (segments path) := by
  rw [resolve, artifactAt]

@[simp]
theorem artifactAt_leaf (s : String) (ss : List String) : (leaf s).artifactAt ss = none := by
  cases ss <;> simp [leaf, findChild]

/-- A first child that is missing counts as a leaf. -/
theorem artifactAt_getD_leaf (c : Option RouteTree) (s : String) (ss : List String) :
    (c.getD (leaf s)).artifactAt ss = c.bind (artifactAt ss) := by
  cases c <;> simp

/-- The first sibling with a segment after the first one with `s`, or a new leaf, has
changed. -/
theorem find?_graft {change : RouteTree → RouteTree} (hchange : ∀ c, (change c).segment = c.segment)
    (s x : String) (cs : List RouteTree) :
    (graft s change cs).find? (·.segment == x) =
      if x = s then some (change ((cs.find? (·.segment == s)).getD (leaf s)))
      else cs.find? (·.segment == x) := by
  induction cs with
  | nil =>
    by_cases hx : x = s
    · simp [graft, hchange, leaf, hx]
    · simp [graft, hchange, leaf, hx, Ne.symm hx]
  | cons c cs ih =>
    rw [graft]
    by_cases hc : c.segment = s
    · by_cases hx : x = s
      · simp [hc, hx, hchange]
      · have hcx : c.segment ≠ x := fun h => hx (h.symm.trans hc)
        simp [hc, hx, hchange, Ne.symm hx]
    · by_cases hcx : c.segment = x
      · simp [hcx, hcx ▸ hc]
      · simp [hc, hcx, ih]

theorem findChild_insert_cons (s x : String) (ss : List String) (a : Artifact) (t : RouteTree) :
    (t.insert (s :: ss) a).findChild x =
      if x = s then some (((t.findChild s).getD (leaf s)).insert ss a) else t.findChild x :=
  find?_graft (segment_insert ss a) s x t.children

/-- An insertion changes the artifact at its own chain and at no other. -/
theorem artifactAt_insert (ss xs : List String) (a : Artifact) (t : RouteTree) :
    (t.insert ss a).artifactAt xs = if xs = ss then some a else t.artifactAt xs := by
  induction ss generalizing xs t with
  | nil =>
    cases xs with
    | nil => simp [insert]
    | cons x xs => simp [insert, findChild]
  | cons s ss ih =>
    cases xs with
    | nil => simp [insert]
    | cons x xs =>
      rw [artifactAt_cons, findChild_insert_cons]
      by_cases hx : x = s
      · simp [hx, ih, artifactAt_getD_leaf]
      · simp [hx]

theorem resolve_insertPath (t : RouteTree) (path q : String) (a : Artifact) :
    (t.insertPath path a).resolve q = if parts path = parts q then some a else t.resolve q := by
  rw [resolve_eq_artifactAt, resolve_eq_artifactAt, insertPath, artifactAt_insert,
    segments_eq_parts, segments_eq_parts]
  simp only [eq_comm]

/-- No two children share a segment, and each could stand in a path. -/
structure Siblings (t : RouteTree) : Prop where
  distinct : (t.children.map (·.segment)).Nodup
  proper : ∀ c ∈ t.children, Proper c.segment

theorem every_siblings_leaf (s : String) : (leaf s).Every Siblings :=
  .node ⟨List.nodup_nil, fun _ hc => by simp [leaf] at hc⟩ fun _ hc => by simp [leaf] at hc

theorem map_segment_graft {change : RouteTree → RouteTree}
    (hchange : ∀ c, (change c).segment = c.segment) (s : String) (cs : List RouteTree) :
    (graft s change cs).map (·.segment) =
      if s ∈ cs.map (·.segment) then cs.map (·.segment) else cs.map (·.segment) ++ [s] := by
  induction cs with
  | nil => simp [graft, hchange, leaf]
  | cons c cs ih =>
    rw [graft]
    by_cases hc : c.segment = s
    · simp [hc, hchange]
    · have hsc : s ≠ c.segment := Ne.symm hc
      rw [if_neg hc, List.map_cons, ih]
      by_cases hs : s ∈ cs.map (·.segment) <;> simp [hs, hsc]

theorem nodup_segment_graft {change : RouteTree → RouteTree}
    (hchange : ∀ c, (change c).segment = c.segment) {s : String} {cs : List RouteTree}
    (h : (cs.map (·.segment)).Nodup) : ((graft s change cs).map (·.segment)).Nodup := by
  rw [map_segment_graft hchange]
  split
  · exact h
  · rename_i hs
    rw [List.nodup_append]
    refine ⟨h, by simp, ?_⟩
    rintro x hx y hy rfl
    exact hs (List.mem_singleton.mp hy ▸ hx)

/-- After a change at a segment, a sibling is an old one or the changed one. -/
theorem mem_graft {change : RouteTree → RouteTree} {s : String} {cs : List RouteTree}
    {d : RouteTree} (h : d ∈ graft s change cs) :
    d ∈ cs ∨ ∃ c, (c ∈ cs ∨ c = leaf s) ∧ c.segment = s ∧ d = change c := by
  induction cs with
  | nil => exact .inr ⟨leaf s, .inr rfl, by simp [leaf], by simpa [graft] using h⟩
  | cons c cs ih =>
    rw [graft] at h
    split at h
    · rename_i hc
      rcases List.mem_cons.mp h with rfl | h
      · exact .inr ⟨c, .inl List.mem_cons_self, hc, rfl⟩
      · exact .inl (List.mem_cons_of_mem c h)
    · rcases List.mem_cons.mp h with rfl | h
      · exact .inl List.mem_cons_self
      · rcases ih h with h | ⟨e, he, hs, rfl⟩
        · exact .inl (List.mem_cons_of_mem c h)
        · exact .inr ⟨e, he.imp_left (List.mem_cons_of_mem c), hs, rfl⟩

/-- Insertions keep siblings apart, below every node. -/
theorem every_siblings_insert {ss : List String} (hss : ∀ s ∈ ss, Proper s) (a : Artifact)
    {t : RouteTree} (h : t.Every Siblings) : (t.insert ss a).Every Siblings := by
  induction ss generalizing t with
  | nil => exact .node ⟨h.here.distinct, h.here.proper⟩ fun _ hc => h.of_mem hc
  | cons s ss ih =>
    have hs : Proper s := hss s List.mem_cons_self
    have hrest : ∀ s ∈ ss, Proper s := fun x hx => hss x (List.mem_cons_of_mem s hx)
    refine .node ⟨nodup_segment_graft (segment_insert ss a) h.here.distinct, ?_⟩ ?_
    · intro d hd
      rcases mem_graft hd with hd | ⟨c, -, rfl, rfl⟩
      · exact h.here.proper d hd
      · rwa [segment_insert]
    · intro d hd
      rcases mem_graft hd with hd | ⟨c, hc | rfl, -, rfl⟩
      · exact h.of_mem hd
      · exact ih hrest (h.of_mem hc)
      · exact ih hrest (every_siblings_leaf s)

theorem every_siblings_ofRoutes (routes : List (String × Artifact)) :
    (ofRoutes routes).Every Siblings :=
  List.foldlRecOn routes _ (every_siblings_leaf "") fun _ h r _ =>
    every_siblings_insert (fun _ => proper_of_mem_segments) r.2 h

/-- The artifact of the last of some routes with the parts of a path. -/
def last? (routes : List (String × Artifact)) (path : String) : Option Artifact :=
  (routes.reverse.find? fun r => parts r.1 = parts path).map (·.2)

theorem last?_cons (r : String × Artifact) (routes : List (String × Artifact)) (path : String) :
    last? (r :: routes) path =
      (last? routes path).or (if parts r.1 = parts path then some r.2 else none) := by
  rw [last?, last?, List.reverse_cons, List.find?_append]
  cases routes.reverse.find? (fun r => parts r.1 = parts path) with
  | some _ => simp
  | none => by_cases h : parts r.1 = parts path <;> simp [h]

/-- Routes that are inserted into any tree hide what it has at their paths. -/
theorem resolve_foldl_insertPath (routes : List (String × Artifact)) (t : RouteTree)
    (path : String) :
    (routes.foldl (fun t r => t.insertPath r.1 r.2) t).resolve path =
      (last? routes path).or (t.resolve path) := by
  induction routes generalizing t with
  | nil => simp [last?]
  | cons r routes ih =>
    rw [List.foldl_cons, ih, resolve_insertPath, last?_cons, Option.or_assoc]
    by_cases h : parts r.1 = parts path <;> simp [h]

theorem resolve_ofRoutes (routes : List (String × Artifact)) (path : String) :
    (ofRoutes routes).resolve path = last? routes path := by
  rw [ofRoutes, resolve_foldl_insertPath, resolve_eq_artifactAt, empty, artifactAt_leaf,
    Option.or_none]

/-- A tree of routes is the map that takes the segments of a path to the artifact inserted
last there, a router looks up in it what the map holds, and siblings stand apart. -/
theorem ofRoutes_is_map (routes : List (String × Artifact)) :
    (∀ path, (ofRoutes routes).resolve path = last? routes path ∧
      Router.artifact? ⟨ofRoutes routes⟩ path = last? routes path ∧
      Router.route? ⟨ofRoutes routes⟩ path = (last? routes path).map (·.location)) ∧
      (ofRoutes routes).Every Siblings := by
  refine ⟨fun path => ?_, every_siblings_ofRoutes routes⟩
  have h := resolve_ofRoutes routes path
  refine ⟨h, h, ?_⟩
  rw [Router.route?, Router.artifact?, h]

end RouteTree

end ArtifactPlane
