import ArtifactPlane.Route.Walk

/-!
Induction on route trees, what holds at every node of a tree, and the height of a tree.
The walk that finds the depth of a tree finds its height.
-/

namespace ArtifactPlane.RouteTree

variable {σ α : Type}

/-- What a node has when all its children have it holds of every tree. -/
@[elab_as_elim]
theorem induction {P : RouteTree σ α → Prop}
    (node : ∀ segment children artifact, (∀ c ∈ children, P c) → P ⟨segment, children, artifact⟩)
    (t : RouteTree σ α) : P t := by
  obtain ⟨segment, children, artifact⟩ := t
  apply node
  intro c hc
  exact induction node c
termination_by sizeOf t
decreasing_by
  have hlt := List.sizeOf_lt_of_mem hc
  simp only [RouteTree.mk.sizeOf_spec]
  omega

/-- A property holds at every node of a tree. -/
inductive Every (P : RouteTree → Prop) : RouteTree → Prop
  | node {t : RouteTree} (here : P t) (below : ∀ c ∈ t.children, Every P c) : Every P t

namespace Every

variable {P : RouteTree → Prop} {t c : RouteTree}

theorem here (h : t.Every P) : P t := by
  cases h with
  | node here below => exact here

theorem of_mem (h : t.Every P) (hc : c ∈ t.children) : c.Every P := by
  cases h with
  | node here below => exact below c hc

end Every

theorem every_node_iff {P : RouteTree → Prop} {segment : String} {children : List RouteTree}
    {a : Option Artifact} :
    Every P ⟨segment, children, a⟩ ↔ P ⟨segment, children, a⟩ ∧ ∀ c ∈ children, c.Every P :=
  ⟨fun h => ⟨h.here, fun _ hc => h.of_mem hc⟩, fun h => .node h.1 h.2⟩

mutual

/-- The number of nodes on the longest chain from the root down. -/
def height : RouteTree σ α → Nat
  | ⟨_, children, _⟩ => heightAll children + 1

/-- The greatest height of some trees, and 0 of none. -/
def heightAll : List (RouteTree σ α) → Nat
  | [] => 0
  | t :: ts => max (height t) (heightAll ts)

end

theorem height_eq (t : RouteTree σ α) : t.height = heightAll t.children + 1 := by
  obtain ⟨segment, children, artifact⟩ := t
  rw [height]

theorem heightAll_le_iff (ts : List (RouteTree σ α)) (n : Nat) :
    heightAll ts ≤ n ↔ ∀ t ∈ ts, t.height ≤ n := by
  induction ts with
  | nil => simp [heightAll]
  | cons t ts ih => rw [heightAll, Nat.max_le, ih, List.forall_mem_cons]

theorem height_le_succ_iff (t : RouteTree σ α) (n : Nat) :
    t.height ≤ n + 1 ↔ ∀ c ∈ t.children, c.height ≤ n := by
  rw [height_eq, Nat.add_le_add_iff_right, heightAll_le_iff]

theorem height_pos (t : RouteTree σ α) : 0 < t.height := by
  rw [height_eq]
  exact Nat.succ_pos _

theorem heightAll_eq_max? (ts : List RouteTree) :
    heightAll ts = (ts.map height).max?.getD 0 := by
  induction ts with
  | nil => rfl
  | cons t ts ih =>
    rw [heightAll, ih, List.map_cons, List.max?_cons]
    cases (ts.map height).max? <;> simp

/-- The greatest level at or below some pending nodes; a label is a level. -/
def reach : List (RouteTree × Nat) → Nat
  | [] => 0
  | (t, level) :: rest => max (level + heightAll t.children) (reach rest)

theorem reach_append (xs ys : List (RouteTree × Nat)) :
    reach (xs ++ ys) = max (reach xs) (reach ys) := by
  induction xs with
  | nil => simp [reach]
  | cons x xs ih => simp [reach, ih, Nat.max_assoc]

theorem reach_reverse (xs : List (RouteTree × Nat)) : reach xs.reverse = reach xs := by
  induction xs with
  | nil => rfl
  | cons x xs ih => simp [reach, reach_append, ih, Nat.max_comm]

/-- The children of a node at a level reach as far as the node, if there are any. -/
theorem max_reach_labelled (t : RouteTree) (level : Nat) :
    max level (reach (labelled (fun _ => level + 1) t)) = level + heightAll t.children := by
  change max level (reach (t.children.map fun c => (c, level + 1))) = _
  induction t.children with
  | nil => simp [reach, heightAll]
  | cons c cs ih =>
    simp only [List.map_cons, reach, heightAll, height_eq]
    omega

/-- From any pending nodes on, the walk ends at the greatest level seen or still to come. -/
theorem deepestFrom_eq (stack : List (RouteTree × Nat)) (deepest : Nat) :
    deepestFrom stack deepest = max deepest (reach stack) := by
  induction stack, deepest using deepestFrom.induct with
  | case1 deepest => simp [deepestFrom, reach]
  | case2 t level rest deepest ih =>
    have hlevel := max_reach_labelled t level
    rw [deepestFrom, ih, reach_append, reach_reverse, reach]
    omega

theorem depth_eq_height (t : RouteTree) : t.depth = t.height := by
  rw [depth, deepestFrom_eq, height_eq]
  simp only [reach]
  omega

/-- The depth of a node is one more than the greatest depth of a child, and 1 where there is
none. -/
theorem depth_eq_max? (t : RouteTree) : t.depth = 1 + (t.children.map depth).max?.getD 0 := by
  have hdepth : depth = height := funext depth_eq_height
  rw [hdepth, height_eq, heightAll_eq_max?, Nat.add_comm]

end ArtifactPlane.RouteTree
