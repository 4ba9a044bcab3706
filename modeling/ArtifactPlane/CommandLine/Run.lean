import ArtifactPlane.CommandLine.Arguments
import ArtifactPlane.CommandLine.Report
import ArtifactPlane.Plane.Assembly
import ArtifactPlane.Plane.Traffic

/-!
One run of the command line.  It looks at three paths at most, one after another: the
settings file, the index file, and the file of the object that is asked for.  How paths
are looked at is left open, so that a run is a function of what they lead to.
-/

namespace ArtifactPlane.CommandLine

/-- How a run ends. -/
inductive Reply where
  | output (content : Octets)
  /-- The arguments were refused. -/
  | usage
  | failed (failure : Failure)
  /-- A load broke down. -/
  | panicked

/-- The exit code. -/
def Reply.code : Reply → Nat
  | .output _ => 0
  | .failed _ => 1
  | .usage => 2
  | .panicked => 101

/-- What is written as a result. -/
def Reply.content : Reply → Octets
  | .output content => content
  | _ => []

/-- What is reported as a failure. -/
def Reply.failure? : Reply → Option Failure
  | .failed f => some f
  | _ => none

/-- The name and the version of the program. -/
def versionText : String := lines ["artifactd 0.1.0"]

/-- How the program is called. -/
def usageText : String :=
  lines ["Usage: artifactd [OPTIONS] [COMMAND]", "",
    "Commands:",
    "  check [--json]         Report the state of the data plane",
    "  get <PATH> [--stream]  Write the content of a logical path",
    "  routes [--json]        List every path in the index", "",
    "Options:",
    "  --config <FILE>        Settings file",
    "  --production           Serve built artifacts by the index",
    "  --no-cache             Do without the cache",
    "  --no-coalescer         Do without the coalescer",
    "  --index-file <FILE>    Index file",
    "  --source-root <DIR>    Sources served without the index",
    "  --dist-root <DIR>      What artifact locations are relative to",
    "  --log-level <LEVEL>    Log level",
    "  --log-json             Write the log as JSON",
    "  -h, --help             Print this text",
    "  -V, --version          Print the version"]

/-- The settings that the options ask for. -/
def settings (o : Options) (files : Files) : Except Failure Settings := do
  let s ← match o.config with
    | none => .ok {}
    | some path => (Settings.ofFile files path).mapError (Failure.within ("loading " ++ path))
  (o.apply s).checked.mapError Failure.ofError

/-- The files that a command reads from storage. -/
def wanted (plane : Plane) : Command → List String
  | .get path _ =>
    match plane.locate path with
    | .ok object => (plane.storage.file? object).toList
    | .error _ => []
  | _ => []

/-- The content of a logical path through cache and coalescer. -/
def getContent (plane : Plane) (path : String) (now : Instant) : Reply :=
  match ((Traffic.ofPlane plane).get path now).1 with
  | some (.delivered (.ok content)) => .output content
  | some (.delivered (.error e)) => .failed (.ofError e)
  | some .panicked => .panicked
  | none => .failed (.ofError (.ofCause path .loadAborted))

/-- The content of a logical path as a stream. -/
def streamContent (plane : Plane) (path : String) : Reply :=
  match (plane.openStream path).1 with
  | .ok (.ok content) => .output content
  | .ok (.error cause) => .failed ⟨cause.message, []⟩
  | .error e => .failed (.ofError e)

/-- Carry a command out. -/
def execute (plane : Plane) (now : Instant) : Command → Reply
  | .check json =>
    let s := plane.stats
    .output (Octets.ofString (if json then (statsJson s).pretty 0 ++ "\n" else statsText s))
  | .get path stream =>
    if stream then streamContent plane path else getContent plane path now
  | .routes json =>
    match plane.routes? with
    | none => .failed ⟨"routes requires production mode (--production)", []⟩
    | some rs =>
      .output (Octets.ofString (if json then (routesJson rs).pretty 0 ++ "\n" else routesText rs))

/-- Look at some paths and add what they lead to. -/
def learnAll {m : Type → Type} [Monad m] (look : String → m (Except IoCause FileEntry)) :
    Files → List String → m Files
  | files, [] => return files
  | files, path :: paths => do learnAll look (files.learn path (← look path)) paths

/-- A run that serves a request, on a machine with so many processors. -/
def serve {m : Type → Type} [Monad m] (look : String → m (Except IoCause FileEntry))
    (o : Options) (c : Command) (now : Instant) (processors : Nat := 1) : m Reply := do
  let files ← learnAll look .none o.config.toList
  match settings o files with
  | .error f => return .failed f
  | .ok s =>
    let files ← learnAll look files (if s.production then [s.paths.indexFile] else [])
    match Plane.ofSettings s files processors with
    | .error e => return .failed (.within "failed to start the data plane" e)
    | .ok plane =>
      let files ← learnAll look files (wanted plane c)
      return execute { plane with storage := plane.storage.withFiles files } now c

/-- One run. -/
def run {m : Type → Type} [Monad m] (look : String → m (Except IoCause FileEntry))
    (env : String → Option String) (args : List String) (now : Instant)
    (processors : Nat := 1) : m Reply :=
  match Request.ofArguments? env args with
  | none => return .usage
  | some .version => return .output (Octets.ofString versionText)
  | some .help => return .output (Octets.ofString usageText)
  | some (.serve o c) => serve look o c now processors

/-- One run over known files. -/
def runOver (files : Files) (env : String → Option String) (args : List String) (now : Instant)
    (processors : Nat := 1) : Reply :=
  Id.run (run files env args now processors)

end ArtifactPlane.CommandLine
