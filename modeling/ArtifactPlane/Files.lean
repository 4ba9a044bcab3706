import ArtifactPlane.Error

/-!
Files as a reader meets them: what each path leads to, or why it leads to nothing.
-/

namespace ArtifactPlane

/-- What a path leads to. -/
inductive FileEntry where
  | file (content : Octets)
  | directory
deriving DecidableEq, Repr

/-- What every path leads to. -/
abbrev Files := String → Except IoCause FileEntry

namespace Files

/-- No files at all. -/
def none : Files := fun _ => .error (.file .noEntry)

/-- The content of a file. -/
def read (files : Files) (path : String) : Except IoCause Octets := do
  match ← files path with
  | .file content => return content
  | .directory => throw (.file .isDirectory)

/-- The text of a file. -/
def readText (files : Files) (path : String) : Except IoCause String := do
  match Text.Utf8.decode (← files.read path) with
  | .ok s => return s
  | .error _ => throw .notText

/-- Whether a path leads to a file. -/
def isFile (files : Files) (path : String) : Bool :=
  match files path with
  | .ok (.file _) => true
  | _ => false

/-- Add what one path leads to. -/
def learn (files : Files) (path : String) (found : Except IoCause FileEntry) : Files :=
  fun p => if p = path then found else files p

end Files

end ArtifactPlane
