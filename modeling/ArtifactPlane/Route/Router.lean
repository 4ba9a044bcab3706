import ArtifactPlane.Error

/-!
The router: the route tree in force, which is replaced as a whole.
-/

namespace ArtifactPlane

/-- The route tree in force. -/
structure Router where
  root : RouteTree
deriving Inhabited

namespace Router

/-- A router without routes. -/
def empty : Router := ⟨.empty⟩

/-- The router of an index. -/
def load (index : Octets) : Except Error Router :=
  ((Index.decode index).mapError Error.decode).map Router.mk

/-- The artifact at a logical path. -/
def artifact? (r : Router) (path : String) : Option Artifact :=
  r.root.resolve path

/-- The location of the artifact at a logical path. -/
def route? (r : Router) (path : String) : Option String :=
  (r.artifact? path).map (·.location)

/-- Put another tree in force, with the one that was. -/
def swap (r : Router) (root : RouteTree) : RouteTree × Router :=
  (r.root, ⟨root⟩)

/-- Put the tree of an index in force. -/
def reload (r : Router) (index : Octets) : Except Error Router :=
  ((Index.decode index).mapError Error.decode).map fun root => (r.swap root).2

/-- The index of the tree in force. -/
def encode (r : Router) : Except Error Octets :=
  (Index.encode r.root).mapError Error.encode

/-- Every logical path with an artifact. -/
def routes (r : Router) : List (String × Artifact) := r.root.routes

/-- The number of artifacts. -/
def size (r : Router) : Nat := r.root.artifactCount

/-- Whether no path is routed. -/
def isEmpty (r : Router) : Bool := r.size == 0

end Router

end ArtifactPlane
