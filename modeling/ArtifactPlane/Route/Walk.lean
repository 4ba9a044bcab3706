import ArtifactPlane.Route.Tree

/-!
Walks over whole route trees.  Each keeps a list of the nodes still to visit, every
one with a label, so that a chain of any length is walked without recursion along
it.  A visit replaces a node by its children, so the number of nodes at and below
the pending ones falls by one.  The walks that measure a tree come to the last child
first, those that list it to the first.
-/

namespace ArtifactPlane.RouteTree

mutual

/-- The number of nodes of a tree. -/
def nodeCount : RouteTree → Nat
  | ⟨_, children, _⟩ => nodeCountAll children + 1

/-- The number of nodes of some trees together. -/
def nodeCountAll : List RouteTree → Nat
  | [] => 0
  | t :: ts => nodeCount t + nodeCountAll ts

end

/-- The children of a node with their labels. -/
def labelled {α : Type} (label : RouteTree → α) (t : RouteTree) : List (RouteTree × α) :=
  t.children.map fun c => (c, label c)

/-- The number of nodes at and below the pending ones. -/
def pendingCount {α : Type} (stack : List (RouteTree × α)) : Nat :=
  nodeCountAll (stack.map (·.1))

theorem nodeCountAll_append (xs ys : List RouteTree) :
    nodeCountAll (xs ++ ys) = nodeCountAll xs + nodeCountAll ys := by
  induction xs with
  | nil => simp [nodeCountAll]
  | cons x xs ih =>
    simp only [List.cons_append, nodeCountAll, ih]
    omega

theorem nodeCount_eq (t : RouteTree) : t.nodeCount = nodeCountAll t.children + 1 := by
  obtain ⟨segment, children, artifact⟩ := t
  rw [nodeCount]

/-- A visit lowers the number of nodes still to come. -/
theorem pendingCount_visit_lt {α : Type} (label : RouteTree → α) (t : RouteTree) (a : α)
    (rest : List (RouteTree × α)) :
    pendingCount (labelled label t ++ rest) < pendingCount ((t, a) :: rest) := by
  have hmap : (labelled label t).map (·.1) = t.children := by
    simp [labelled, Function.comp_def]
  simp only [pendingCount, List.map_append, hmap, nodeCountAll_append, List.map_cons,
    nodeCountAll, nodeCount_eq]
  omega

theorem nodeCountAll_reverse (ts : List RouteTree) :
    nodeCountAll ts.reverse = nodeCountAll ts := by
  induction ts with
  | nil => rfl
  | cons t ts ih =>
    simp only [List.reverse_cons, nodeCountAll_append, ih, nodeCountAll]
    omega

/-- The order of the children counts for nothing. -/
theorem pendingCount_reverse_append {α : Type} (xs rest : List (RouteTree × α)) :
    pendingCount (xs.reverse ++ rest) = pendingCount (xs ++ rest) := by
  simp only [pendingCount, List.map_append, List.map_reverse, nodeCountAll_append,
    nodeCountAll_reverse]

/-- The greatest level among `deepest` and those of the pending nodes and of all
below them; a label is a level. -/
def deepestFrom : List (RouteTree × Nat) → Nat → Nat
  | [], deepest => deepest
  | (t, level) :: rest, deepest =>
    deepestFrom ((labelled (fun _ => level + 1) t).reverse ++ rest) (max deepest level)
termination_by stack => pendingCount stack
decreasing_by
  rw [pendingCount_reverse_append]
  exact pendingCount_visit_lt _ t level rest

/-- The number of nodes on the longest chain from the root down. -/
def depth (t : RouteTree) : Nat :=
  deepestFrom [(t, 1)] 0

/-- The number of artifacts at the pending nodes and below them, added to `count`;
labels say nothing. -/
def countFrom : List (RouteTree × Unit) → Nat → Nat
  | [], count => count
  | (t, ()) :: rest, count =>
    countFrom ((labelled (fun _ => ()) t).reverse ++ rest)
      (count + if t.artifact.isSome then 1 else 0)
termination_by stack => pendingCount stack
decreasing_by
  rw [pendingCount_reverse_append]
  exact pendingCount_visit_lt _ t () rest

/-- The number of nodes that carry an artifact. -/
def artifactCount (t : RouteTree) : Nat :=
  countFrom [(t, ())] 0

/-- The route that a node gives rise to, where `above` is the chain of segments
down to it, each after a slash. -/
def listed (above : String) (artifact : Option Artifact) : List (String × Artifact) :=
  artifact.toList.map fun a => (if above.isEmpty then "/" else above, a)

/-- The routes of the pending nodes and of all below them, each node before its
children; a label is the chain of segments down to the node. -/
def routesFrom : List (RouteTree × String) → List (String × Artifact)
  | [] => []
  | (t, above) :: rest =>
    listed above t.artifact ++
      routesFrom (labelled (fun c => above ++ "/" ++ c.segment) t ++ rest)
termination_by stack => pendingCount stack
decreasing_by exact pendingCount_visit_lt _ t above rest

/-- Every route, each node before its children and siblings in order. -/
def routes (t : RouteTree) : List (String × Artifact) :=
  routesFrom [(t, "")]

/-- The pending nodes and all below them with their levels, each node before its
children; a label is a level. -/
def levelsFrom : List (RouteTree × Nat) → List (Nat × RouteTree)
  | [] => []
  | (t, level) :: rest =>
    (level, t) :: levelsFrom (labelled (fun _ => level + 1) t ++ rest)
termination_by stack => pendingCount stack
decreasing_by exact pendingCount_visit_lt _ t level rest

/-- Every node with its level, the root at level 0. -/
def levels (t : RouteTree) : List (Nat × RouteTree) :=
  levelsFrom [(t, 0)]

end ArtifactPlane.RouteTree
