import ArtifactPlane.Proofs.Route.Listing

/-!
The nodes of a route tree in preorder.  Main statement: over every tree, whether or not
routes could build it, the walks find what recursion along the tree finds: the depth is one
more than the greatest depth of a child, the listing has the nodes with an artifact in the
order of their places, each under the segments on the way to it, and the count is that of
the listing.
-/

namespace ArtifactPlane.RouteTree

/-- A node of a tree with the way to it: which child to take at each level from the root
down, and the segments of these children. -/
structure Visit where
  place : List Nat
  chain : List String
  node : RouteTree

namespace Visit

/-- A visit below a child, from the node above the child. -/
def under (i : Nat) (segment : String) (v : Visit) : Visit :=
  ⟨i :: v.place, segment :: v.chain, v.node⟩

/-- The entry that a visited node gives rise to. -/
def entryAt? (v : Visit) : Option (List String × Artifact) :=
  v.node.artifact.map fun a => (v.chain, a)

/-- The segments on the way, each after a slash, and a slash where there is nothing. -/
def path (v : Visit) : String :=
  let steps := String.join (v.chain.map ("/" ++ ·))
  if steps.isEmpty then "/" else steps

/-- The route that a visited node gives rise to. -/
def route? (v : Visit) : Option (String × Artifact) :=
  v.node.artifact.map fun a => (v.path, a)

theorem entryAt?_under (i : Nat) (segment : String) (v : Visit) :
    (v.under i segment).entryAt? = v.entryAt?.map (RouteTree.under segment) := by
  rw [entryAt?, entryAt?, Option.map_map]
  rfl

theorem path_eq_written (v : Visit) : v.path = written v.chain := by
  have hjoin : String.join (v.chain.map ("/" ++ ·)) = trail "" v.chain := by
    simp only [String.join, trail, List.foldl_map, String.append_assoc]
  rw [path, hjoin]
  exact written_eq_trail v.chain

theorem route?_eq (v : Visit) : v.route? = v.entryAt?.map fun e => (written e.1, e.2) := by
  rw [route?, entryAt?, Option.map_map, path_eq_written]
  rfl

end Visit

/-- The way of a visit leads from a node to the visited one. -/
inductive Leads : RouteTree → Visit → Prop
  | here (t : RouteTree) : Leads t ⟨[], [], t⟩
  | down {t c : RouteTree} {i : Nat} {v : Visit} (child : t.children[i]? = some c)
      (rest : Leads c v) : Leads t (v.under i c.segment)

mutual

/-- Every node of a tree, each before its children and siblings in order. -/
def preorder : RouteTree → List Visit
  | ⟨segment, children, artifact⟩ =>
    ⟨[], [], ⟨segment, children, artifact⟩⟩ :: preorderFrom 0 children

/-- Every node of some siblings, from the node above them; the first stands at `i`. -/
def preorderFrom : (i : Nat) → List RouteTree → List Visit
  | _, [] => []
  | i, t :: ts => (preorder t).map (Visit.under i t.segment) ++ preorderFrom (i + 1) ts

end

theorem mem_preorderFrom {k : Nat} {ts : List RouteTree} {v : Visit} :
    v ∈ preorderFrom k ts ↔
      ∃ (i : Nat) (c : RouteTree) (w : Visit), ts[i]? = some c ∧ w ∈ c.preorder ∧
        v = w.under (k + i) c.segment := by
  induction ts generalizing k with
  | nil => simp [preorderFrom]
  | cons t ts ih =>
    have hnext : ∀ i, k + 1 + i = k + (i + 1) := by omega
    rw [preorderFrom, List.mem_append, List.mem_map, ih]
    constructor
    · rintro (⟨w, hw, rfl⟩ | ⟨i, c, w, hc, hw, rfl⟩)
      · exact ⟨0, t, w, rfl, hw, rfl⟩
      · exact ⟨i + 1, c, w, hc, hw, by rw [hnext]⟩
    · rintro ⟨_ | i, c, w, hc, hw, rfl⟩
      · obtain rfl := Option.some.inj hc
        exact .inl ⟨w, hw, rfl⟩
      · exact .inr ⟨i, c, w, hc, hw, by rw [hnext]⟩

/-- Recursion along a tree visits just the nodes that some way leads to. -/
theorem mem_preorder_iff {t : RouteTree} {v : Visit} : v ∈ t.preorder ↔ t.Leads v := by
  induction t using RouteTree.induction generalizing v with
  | node segment children artifact ih =>
    rw [preorder, List.mem_cons, mem_preorderFrom]
    simp only [Nat.zero_add]
    constructor
    · rintro (rfl | ⟨i, c, w, hc, hw, rfl⟩)
      · exact .here _
      · exact .down hc ((ih c (List.mem_of_getElem? hc)).mp hw)
    · rintro (_ | ⟨hc, hw⟩)
      · exact .inl rfl
      · exact .inr ⟨_, _, _, hc, (ih _ (List.mem_of_getElem? hc)).mpr hw, rfl⟩

theorem pairwise_preorderFrom {ts : List RouteTree}
    (h : ∀ t ∈ ts, t.preorder.Pairwise fun v w => v.place < w.place) (k : Nat) :
    (preorderFrom k ts).Pairwise fun v w => v.place < w.place := by
  induction ts generalizing k with
  | nil => exact .nil
  | cons t ts ih =>
    have hfirst := h t List.mem_cons_self
    have hrest := ih (fun c hc => h c (List.mem_cons_of_mem t hc)) (k + 1)
    rw [preorderFrom, List.pairwise_append, List.pairwise_map]
    refine ⟨hfirst.imp List.cons_lt_cons_self.mpr, hrest, ?_⟩
    intro v hv w hw
    obtain ⟨x, -, rfl⟩ := List.mem_map.mp hv
    obtain ⟨i, c, y, -, -, rfl⟩ := mem_preorderFrom.mp hw
    have hk : k < k + 1 + i := by omega
    exact List.cons_lt_cons_iff.mpr (.inl hk)

/-- A node comes before all below it, and all below it before its next sibling. -/
theorem pairwise_preorder (t : RouteTree) :
    t.preorder.Pairwise fun v w => v.place < w.place := by
  induction t using RouteTree.induction with
  | node segment children artifact ih =>
    rw [preorder, List.pairwise_cons]
    refine ⟨fun v hv => ?_, pairwise_preorderFrom ih 0⟩
    obtain ⟨i, c, w, -, -, rfl⟩ := mem_preorderFrom.mp hv
    exact List.nil_lt_cons _ _

theorem entriesBelow_eq_filterMap {ts : List RouteTree}
    (h : ∀ t ∈ ts, t.entries = t.preorder.filterMap Visit.entryAt?) (k : Nat) :
    entriesBelow ts = (preorderFrom k ts).filterMap Visit.entryAt? := by
  induction ts generalizing k with
  | nil => rfl
  | cons t ts ih =>
    have hfirst : t.entries.map (under t.segment) =
        (t.preorder.map (Visit.under k t.segment)).filterMap Visit.entryAt? := by
      rw [h t List.mem_cons_self, List.map_filterMap, List.filterMap_map]
      exact List.filterMap_congr fun v _ => (Visit.entryAt?_under k t.segment v).symm
    have hrest := ih (fun c hc => h c (List.mem_cons_of_mem t hc)) (k + 1)
    rw [entriesBelow, preorderFrom, List.filterMap_append, hfirst, hrest]

theorem entries_eq_filterMap (t : RouteTree) :
    t.entries = t.preorder.filterMap Visit.entryAt? := by
  induction t using RouteTree.induction with
  | node segment children artifact ih =>
    rw [entries, preorder, entriesBelow_eq_filterMap ih 0, List.filterMap_cons, Visit.entryAt?]
    cases artifact <;> rfl

theorem routes_eq_filterMap (t : RouteTree) : t.routes = t.preorder.filterMap Visit.route? := by
  rw [routes_eq, entries_eq_filterMap, List.map_filterMap]
  exact List.filterMap_congr fun v _ => (Visit.route?_eq v).symm

/-- Over any tree, the depth is one more than the greatest depth of a child, and 1 where
there is none; the listing has the nodes with an artifact in preorder, each with the
segments on its way, every one after a slash, or a slash where there is nothing; the preorder
has each node that some way leads to, in the lexicographic order of the places; and the
count is the length of the listing. -/
theorem walks_eq_recursion (t : RouteTree) :
    t.depth = 1 + (t.children.map depth).max?.getD 0 ∧
      t.routes = t.preorder.filterMap Visit.route? ∧
      (∀ v, v ∈ t.preorder ↔ t.Leads v) ∧
      t.preorder.Pairwise (fun v w => v.place < w.place) ∧
      t.artifactCount = t.routes.length :=
  ⟨depth_eq_max? t, routes_eq_filterMap t, fun _ => mem_preorder_iff, pairwise_preorder t,
    artifactCount_eq_length_routes t⟩

/-- Siblings that share a segment are listed alike, and an empty segment adds a slash. -/
example (a b : Artifact) :
    routes ⟨"x", [⟨"", [], some a⟩, ⟨"y/z", [⟨"", [], some b⟩], none⟩, ⟨"", [], some b⟩], some b⟩ =
      [("/", b), ("/", a), ("/y/z/", b), ("/", b)] := by
  rw [routes_eq]
  rfl

end ArtifactPlane.RouteTree
