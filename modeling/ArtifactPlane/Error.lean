import ArtifactPlane.Decimal.Shortest
import ArtifactPlane.Index.Decode

/-!
What can go wrong, and its wording.  A cause that says that an object does not exist
makes the failure of an access to it a missing object.
-/

namespace ArtifactPlane

/-- Kinds of causes that a caller may report with a text of its own. -/
inductive IoKind where
  | notFound
  | permissionDenied
  | invalidInput
  | other
deriving DecidableEq, Repr

/-- The wording of a kind that comes without a text. -/
def IoKind.message : IoKind → String
  | .notFound => "entity not found"
  | .permissionDenied => "permission denied"
  | .invalidInput => "invalid input parameter"
  | .other => "other error"

/-- Failures of the file system, with their numbers. -/
inductive FileFault where
  | noEntry
  | notDirectory
  | isDirectory
  | nameTooLong
deriving DecidableEq, Repr

/-- The wording of a file system failure, with its number. -/
def FileFault.message : FileFault → String
  | .noEntry => "No such file or directory (os error 2)"
  | .notDirectory => "Not a directory (os error 20)"
  | .isDirectory => "Is a directory (os error 21)"
  | .nameTooLong => "File name too long (os error 36)"

/-- Why an access failed. -/
inductive IoCause where
  | file (fault : FileFault)
  /-- A path with a NUL, which no file has. -/
  | nulInName
  /-- A file that should hold text does not. -/
  | notText
  /-- The load of an object broke down. -/
  | loaderPanicked
  /-- The load of an object was given up before it had a result. -/
  | loadAborted
  | reported (kind : IoKind) (text : Option String)
deriving DecidableEq, Repr

namespace IoCause

/-- The wording of a cause. -/
def message : IoCause → String
  | .file fault => fault.message
  | .nulInName => "file name contained an unexpected NUL byte"
  | .notText => "stream did not contain valid UTF-8"
  | .loaderPanicked => "loader panicked"
  | .loadAborted => "load aborted before completing"
  | .reported kind text => text.getD kind.message

/-- Whether the cause is that the object does not exist. -/
def isNotFound : IoCause → Bool
  | .file fault => fault == .noEntry
  | .reported kind _ => kind == .notFound
  | _ => false

end IoCause

/-- Why settings are refused, or an operation is under them. -/
inductive ConfigFault where
  | invalidYaml
  | noCapacity
  | fraction (value : Float)
  | noCacheShards
  | noCoalescerShards
  | unreadable (path : String) (cause : IoCause)
  | notRouted
deriving Repr

/-- The wording of a refusal. -/
def ConfigFault.message : ConfigFault → String
  | .invalidYaml => "invalid YAML"
  | .noCapacity => "cache.capacity must be greater than 0"
  | .fraction value =>
    "cache.eviction_fraction must be in (0, 1], got " ++ Shortest.positional value
  | .noCacheShards => "cache.shard_count must be greater than 0"
  | .noCoalescerShards => "coalescer.shard_count must be greater than 0"
  | .unreadable path cause => "cannot read " ++ path ++ ": " ++ cause.message
  | .notRouted => "index reload requires routed mode"

/-- What can go wrong. -/
inductive Error where
  /-- No route, or no object where the route leads. -/
  | notFound (path : String)
  | io (path : String) (cause : IoCause)
  | decode (fault : Index.Fault)
  | encode (fault : Index.EncodeFault)
  | config (fault : ConfigFault)
deriving Repr

namespace Error

/-- The failure of an access to a path. -/
def ofCause (path : String) (cause : IoCause) : Error :=
  if cause.isNotFound then .notFound path else .io path cause

/-- Whether a route or an object is missing. -/
def isNotFound : Error → Bool
  | .notFound _ => true
  | _ => false

/-- The wording of an error, after the name of what failed. -/
def message : Error → String
  | .notFound path => "Not found: " ++ path
  | .io path cause => "I/O error on " ++ path ++ ": " ++ cause.message
  | .decode fault => "Failed to decode router index: " ++ fault.message
  | .encode fault => "Failed to encode router index: " ++ fault.message
  | .config fault => "Configuration error: " ++ fault.message

/-- The cause that an error was made from, if it has one of its own. -/
def cause? : Error → Option IoCause
  | .io _ cause => some cause
  | _ => none

end Error

end ArtifactPlane
