import ArtifactPlane.Path.Pieces

/-!
Object paths.  The normal form of a path drops empty and `.` pieces; a path with a
`..` piece, and one that nothing is left of, names no object.
-/

namespace ArtifactPlane.Path

/-- Whether a piece leads nowhere. -/
def isIdle (p : List Char) : Bool :=
  p = [] ∨ p = ['.']

/-- The pieces of a path that lead somewhere. -/
def steps (path : String) : List (List Char) :=
  (pieces path.toList).filter fun p => !isIdle p

/-- The normal form of an object path, if it names an object. -/
def normalForm? (path : String) : Option String :=
  let ps := steps path
  if ps = [] ∨ ['.', '.'] ∈ ps then none else some (String.ofList (joined ps))

/-- A path below a base directory; an absolute path takes the place of the base. -/
def under (base path : String) : String :=
  if path.toList.head? = some '/' ∨ base = "" then path
  else if base.toList.getLast? = some '/' then base ++ path
  else base ++ "/" ++ path

/-- What two spellings of one path have in common: whether it is absolute, whether
it begins at `.`, and the pieces that lead somewhere. -/
structure Spelling where
  absolute : Bool
  fromHere : Bool
  steps : List (List Char)
deriving DecidableEq, Repr

/-- The parts of a path that count when two paths are compared. -/
def spelling (path : String) : Spelling :=
  let cs := path.toList
  let absolute : Bool := cs.head? = some '/'
  ⟨absolute, !absolute && (pieces cs).head? == some ['.'], steps path⟩

theorem normalForm?_eq_none_iff {path : String} :
    normalForm? path = none ↔ steps path = [] ∨ ['.', '.'] ∈ steps path := by
  rw [normalForm?]
  split <;> simp_all

end ArtifactPlane.Path
