import ArtifactPlane.Files
import ArtifactPlane.Path.Pieces

/-!
Files below one directory, which relative paths start from.  Absolute paths and those
that climb out of the directory lead to nothing.  A path is refused before it is
followed when it holds a NUL, is empty or is too long.
-/

namespace ArtifactPlane

/-- A file or a directory. -/
inductive FileNode where
  | file (content : Octets)
  | directory (entries : List (String × FileNode))
deriving Inhabited

/-- Files below one directory. -/
structure FileTree where
  entries : List (String × FileNode)
deriving Inhabited

namespace FileNode

/-- A node as a reader meets it. -/
def entry : FileNode → FileEntry
  | file content => .file content
  | directory _ => .directory

/-- The longest name of a file, in octets. -/
def nameLimit : Nat := 255

/-- Follow names from a node, given the directories around it, innermost first. -/
def walk : List FileNode → FileNode → List String → Except FileFault FileNode
  | _, n, [] => .ok n
  | _, file _, _ :: _ => .error .notDirectory
  | around, directory entries, name :: rest =>
    if name = "" ∨ name = "." then walk around (directory entries) rest
    else if name = ".." then
      match around with
      | [] => walk [] (directory []) rest
      | outer :: around => walk around outer rest
    else if nameLimit < name.utf8ByteSize then .error .nameTooLong
    else
      match entries.lookup name with
      | none => .error .noEntry
      | some n => walk (directory entries :: around) n rest

/-- Put a file at the end of some names, with the directories on the way.  Nothing
changes where a file is in the way or a directory is at the end. -/
def write (content : Octets) : List String → List (String × FileNode) → List (String × FileNode)
  | [], entries => entries
  | [name], entries =>
    match entries.lookup name with
    | some (directory _) => entries
    | some (file _) => entries.map fun e => if e.1 = name then (name, file content) else e
    | none => entries ++ [(name, file content)]
  | name :: next :: rest, entries =>
    match entries.lookup name with
    | some (directory inner) =>
      let inner := write content (next :: rest) inner
      entries.map fun e => if e.1 = name then (name, directory inner) else e
    | some (file _) => entries
    | none => entries ++ [(name, directory (write content (next :: rest) []))]

/-- Remove the file at the end of some names, with whether there was one. -/
def unlink : List String → List (String × FileNode) → Bool × List (String × FileNode)
  | [], entries => (false, entries)
  | [name], entries =>
    match entries.lookup name with
    | some (file _) => (true, entries.filter fun e => e.1 != name)
    | _ => (false, entries)
  | name :: next :: rest, entries =>
    match entries.lookup name with
    | some (directory inner) =>
      let (removed, inner) := unlink (next :: rest) inner
      (removed, entries.map fun e => if e.1 = name then (name, directory inner) else e)
    | _ => (false, entries)

end FileNode

namespace FileTree

/-- A directory without files. -/
def empty : FileTree := ⟨[]⟩

/-- The longest path, in octets. -/
def pathLimit : Nat := 4095

/-- The names that a path is made of. -/
def names (path : String) : List String :=
  (Path.pieces path.toList).map String.ofList

/-- Names that lead somewhere. -/
def properNames (path : String) : List String :=
  (names path).filter fun name => name ≠ "" ∧ name ≠ "."

/-- What a path leads to. -/
def find (t : FileTree) (path : String) : Except IoCause FileNode :=
  if path.toList.contains '\x00' then .error .nulInName
  else if path = "" then .error (.file .noEntry)
  else if pathLimit < path.utf8ByteSize then .error (.file .nameTooLong)
  else
    let root := if path.toList.head? = some '/' then FileNode.directory [] else .directory t.entries
    (FileNode.walk [] root (names path)).mapError IoCause.file

/-- The files of the tree as a reader meets them. -/
def files (t : FileTree) : Files := fun path => (t.find path).map FileNode.entry

/-- Write a file, with the directories on the way to it. -/
def write (t : FileTree) (path : String) (content : Octets) : FileTree :=
  ⟨FileNode.write content (properNames path) t.entries⟩

/-- Remove a file, with whether there was one. -/
def unlink (t : FileTree) (path : String) : Bool × FileTree :=
  let (removed, entries) := FileNode.unlink (properNames path) t.entries
  (removed, ⟨entries⟩)

/-- The tree with the given files, written in order. -/
def ofFiles (files : List (String × Octets)) : FileTree :=
  files.foldl (fun t f => t.write f.1 f.2) empty

end FileTree

end ArtifactPlane
