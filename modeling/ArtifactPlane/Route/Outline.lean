import ArtifactPlane.Route.Walk

/-!
Outlines: the nodes of a route tree as rows in order, each node before its children
and with its level.  An outline determines the tree.
-/

namespace ArtifactPlane

/-- One node of an outline. -/
structure OutlineRow where
  level : Nat
  segment : String
  artifact : Option Artifact
deriving DecidableEq, Repr

namespace RouteTree

/-- The rows of a tree, the root at level 0. -/
def outline (t : RouteTree) : List OutlineRow :=
  t.levels.map fun (level, node) => ⟨level, node.segment, node.artifact⟩

/-- Put a node before the trees that the rows after it stand for: those of a deeper
level up to the first that is not deeper become its children. -/
def adopt (row : OutlineRow) (forest : List (Nat × RouteTree)) : List (Nat × RouteTree) :=
  let deeper := forest.takeWhile fun t => row.level < t.1
  (row.level, ⟨row.segment, deeper.map (·.2), row.artifact⟩) :: forest.drop deeper.length

/-- The tree that an outline stands for, if it has exactly one root. -/
def ofOutline? (rows : List OutlineRow) : Option RouteTree :=
  match rows.foldr adopt [] with
  | [(0, t)] => some t
  | _ => none

example : ofOutline? [⟨0, "", none⟩, ⟨1, "a", none⟩, ⟨2, "b", none⟩, ⟨1, "c", none⟩] =
    some ⟨"", [⟨"a", [⟨"b", [], none⟩], none⟩, ⟨"c", [], none⟩], none⟩ := rfl

end RouteTree

end ArtifactPlane
