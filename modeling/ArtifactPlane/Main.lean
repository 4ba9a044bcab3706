import ArtifactPlane.CommandLine.Run
import Std.Time.DateTime.Timestamp

/-!
The program: looks at paths, the environment and the clock, and writes what a run
replies with.
-/

namespace ArtifactPlane

/-- The number of a failure, which parts of the runtime give negated. -/
def failureNumber (code : UInt32) : Nat :=
  (if code < 0x80000000 then code else 0 - code).toNat

/-- The cause that a failure of the file system stands for. -/
def numberedCause (code : UInt32) (text : String) : IoCause :=
  match failureNumber code with
  | 2 => .file .noEntry
  | 13 => .reported .permissionDenied (some "Permission denied (os error 13)")
  | 20 => .file .notDirectory
  | 21 => .file .isDirectory
  | 36 => .file .nameTooLong
  | 40 => .reported .other (some "Too many levels of symbolic links (os error 40)")
  | n => .reported .other (some (text ++ " (os error " ++ toString n ++ ")"))

/-- The cause that an error stands for. -/
def ioCause : IO.Error → IoCause
  | .noFileOrDirectory _ code text => numberedCause code text
  | .inappropriateType _ code text => numberedCause code text
  | .permissionDenied _ code text => numberedCause code text
  | .invalidArgument _ code text => numberedCause code text
  | .otherError code text => numberedCause code text
  | e => .reported .other (some (toString e))

/-- What a path leads to on this machine. -/
def look (path : String) : IO (Except IoCause FileEntry) := do
  if path.toList.contains '\x00' then return .error .nulInName
  try
    return .ok (.file (← IO.FS.readBinFile path).data.toList)
  catch e =>
    match ioCause e with
    | .file .isDirectory => return .ok .directory
    | cause => return .error cause

/-- The variables of the environment that a run may ask for. -/
def environment : IO (String → Option String) := do
  let known ← CommandLine.optionSpecs.mapM fun spec => do
    return (spec.envName, ← IO.getEnv spec.envName)
  return fun name => (known.lookup name).join

/-- The system clock. -/
def clock : IO Instant := do
  return ⟨(← Std.Time.Timestamp.now).toNanosecondsSinceUnixEpoch.val⟩

end ArtifactPlane

open ArtifactPlane in
/-- Run on the arguments, with the exit code. -/
def main (args : List String) : IO UInt32 := do
  let reply ← CommandLine.run look (← environment) args (← clock)
  let out ← IO.getStdout
  out.write ⟨reply.content.toArray⟩
  out.flush
  match reply with
  | .failed f => IO.eprintln f.text
  | .usage => IO.eprint CommandLine.usageText
  | .panicked => IO.eprintln "a load broke down"
  | .output _ => pure ()
  return UInt32.ofNat reply.code
