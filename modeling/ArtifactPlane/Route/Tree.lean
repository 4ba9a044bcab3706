import ArtifactPlane.Path.Pieces
import ArtifactPlane.Timestamp.Basic

/-!
Route trees.  A node matches one segment of a logical path and may carry an
artifact; siblings stand in the order in which they were added.  Lookup takes the
first child with the wanted segment.
-/

namespace ArtifactPlane

/-- A built artifact. -/
structure Artifact where
  builtAt : Timestamp
  /-- The object path of its content. -/
  location : String
  /-- The sources that it was built from. -/
  dependsOn : List String
deriving DecidableEq, Repr, Inhabited

/-- An artifact built at a clock reading from no known source. -/
def Artifact.new (location : String) (now : Instant) : Artifact :=
  ⟨.ofInstant now, location, []⟩

/-- A node of a route tree.  Its segment and its artifact are of other types where texts have
not been decoded. -/
structure RouteTree (σ : Type := String) (α : Type := Artifact) where
  segment : σ
  children : List (RouteTree σ α)
  artifact : Option α
deriving Repr, Inhabited

namespace RouteTree

/-- A node without children and artifact. -/
def leaf (segment : String) : RouteTree := ⟨segment, [], none⟩

/-- A root without routes. -/
def empty : RouteTree := leaf ""

/-- The non-empty pieces of a logical path. -/
def segments (path : String) : List String :=
  ((Path.pieces path.toList).filter fun p => !p.isEmpty).map String.ofList

/-- The first child with a segment. -/
def findChild (t : RouteTree) (segment : String) : Option RouteTree :=
  t.children.find? (·.segment == segment)

/-- Change the first sibling with a segment, or add a new last one and change that. -/
def graft (segment : String) (change : RouteTree → RouteTree) : List RouteTree → List RouteTree
  | [] => [change (leaf segment)]
  | c :: cs => if c.segment = segment then change c :: cs else c :: graft segment change cs

/-- Put an artifact at the end of a chain of segments, over any artifact there. -/
def insert : List String → Artifact → RouteTree → RouteTree
  | [], a, t => { t with artifact := some a }
  | s :: ss, a, t => { t with children := graft s (insert ss a) t.children }

/-- Put an artifact at a logical path. -/
def insertPath (t : RouteTree) (path : String) (a : Artifact) : RouteTree :=
  t.insert (segments path) a

/-- The node at the end of a chain of segments. -/
def descend : List String → RouteTree → Option RouteTree
  | [], t => some t
  | s :: ss, t => (t.findChild s).bind (descend ss)

/-- The artifact at a logical path. -/
def resolve (t : RouteTree) (path : String) : Option Artifact :=
  (t.descend (segments path)).bind (·.artifact)

/-- The tree that some routes build, inserted in order. -/
def ofRoutes (routes : List (String × Artifact)) : RouteTree :=
  routes.foldl (fun t r => t.insertPath r.1 r.2) empty

@[simp] theorem segment_insert (ss : List String) (a : Artifact) (t : RouteTree) :
    (t.insert ss a).segment = t.segment := by
  cases ss <;> rfl

end RouteTree

end ArtifactPlane
