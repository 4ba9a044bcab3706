import ArtifactPlane.Coalescer.Call
import ArtifactPlane.Files
import ArtifactPlane.Path.Object

/-!
Storage of objects, in memory or as files below a base directory.  Objects are found
by the normal form of their path.  Every attempt to read counts as it begins, a stream counts
when it opens, and octets count when a read delivers them.
-/

namespace ArtifactPlane

/-- Where objects are. -/
inductive Medium where
  /-- Objects by key: the normal form of a path, or the path itself if it has none. -/
  | memory (objects : List (String × Octets))
  /-- Files below a base directory. -/
  | directory (base : String) (files : Files)

/-- Accesses so far; each counter is a 64-bit word that wraps. -/
structure AccessCounts where
  reads : UInt64 := 0
  opens : UInt64 := 0
  octetsRead : UInt64 := 0
deriving DecidableEq, Repr, Inhabited

/-- Objects with the accesses to them. -/
structure Storage where
  medium : Medium
  counts : AccessCounts := {}

namespace Storage

/-- Storage in memory without objects. -/
def inMemory : Storage := ⟨.memory [], {}⟩

/-- Storage of the files below a base directory. -/
def ofDirectory (base : String) (files : Files) : Storage := ⟨.directory base files, {}⟩

/-- The key of an object that is put in memory. -/
def insertionKey (path : String) : String := (Path.normalForm? path).getD path

/-- Put an object in memory, over any under the same key. -/
def insert (s : Storage) (path : String) (content : Octets) : Storage :=
  match s.medium with
  | .memory objects =>
    let key := insertionKey path
    { s with medium := .memory ((key, content) :: objects.filter fun o => o.1 != key) }
  | .directory _ _ => s

/-- Remove an object from memory, with its content. -/
def remove (s : Storage) (path : String) : Option Octets × Storage :=
  match s.medium, Path.normalForm? path with
  | .memory objects, some key =>
    (objects.lookup key, { s with medium := .memory (objects.filter fun o => o.1 != key) })
  | _, _ => (none, s)

/-- The number of objects in memory. -/
def size (s : Storage) : Nat :=
  match s.medium with
  | .memory objects => objects.length
  | .directory _ _ => 0

/-- The file of an object below a base directory. -/
def fileOf (base path : String) : Except Error String :=
  match Path.normalForm? path with
  | some relative => .ok (Path.under base relative)
  | none => .error (.notFound path)

/-- The file that an object path names, for storage below a directory. -/
def file? (s : Storage) (path : String) : Option String :=
  match s.medium with
  | .memory _ => none
  | .directory base _ => (fileOf base path).toOption

/-- What an object path leads to in memory. -/
def fromMemory (objects : List (String × Octets)) (path : String) : Loaded :=
  match (Path.normalForm? path).bind fun key => objects.lookup key with
  | some content => .ok content
  | none => .error (.notFound path)

/-- The content of an object, uncounted. -/
def content (m : Medium) (path : String) : Loaded :=
  match m with
  | .memory objects => fromMemory objects path
  | .directory base files => do
    let file ← fileOf base path
    (files.read file).mapError (Error.ofCause path)

/-- Begin to read: the attempt counts, whatever becomes of it. -/
def ask (s : Storage) : Storage :=
  { s with counts := { s.counts with reads := s.counts.reads + 1 } }

/-- End a read that has begun, with what it gives. -/
def receive (s : Storage) (path : String) : Loaded × Storage :=
  match content s.medium path with
  | .ok bs =>
    (.ok bs, { s with counts := { s.counts with
      octetsRead := s.counts.octetsRead + UInt64.ofNat bs.length } })
  | .error e => (.error e, s)

/-- Read an object in full. -/
def read (s : Storage) (path : String) : Loaded × Storage := s.ask.receive path

/-- What reading an open stream to its end gives. -/
abbrev Stream := Except IoCause Octets

/-- A stream over an object, uncounted.  A directory can be opened, but not read. -/
def stream (m : Medium) (path : String) : Except Error Stream :=
  match m with
  | .memory objects => (fromMemory objects path).map .ok
  | .directory base files => do
    let file ← fileOf base path
    match files file with
    | .ok (.file bs) => return .ok bs
    | .ok .directory => return .error (.file .isDirectory)
    | .error cause => throw (.ofCause path cause)

/-- Open an object as a stream. -/
def openStream (s : Storage) (path : String) : Except Error Stream × Storage :=
  match stream s.medium path with
  | .ok st => (.ok st, { s with counts := { s.counts with opens := s.counts.opens + 1 } })
  | .error e => (.error e, s)

/-- Whether there is an object at a path. -/
def contains (s : Storage) (path : String) : Bool :=
  match s.medium with
  | .memory objects => ((Path.normalForm? path).bind fun key => objects.lookup key).isSome
  | .directory base files =>
    match fileOf base path with
    | .ok file => files.isFile file
    | .error _ => false

/-- The files that storage below a directory serves. -/
def files (s : Storage) : Files :=
  match s.medium with
  | .memory _ => .none
  | .directory _ files => files

/-- Replace the files that storage below a directory serves. -/
def withFiles (s : Storage) (files : Files) : Storage :=
  match s.medium with
  | .memory _ => s
  | .directory base _ => { s with medium := .directory base files }

end Storage

end ArtifactPlane
