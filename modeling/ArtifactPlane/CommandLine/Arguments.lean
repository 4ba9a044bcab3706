import ArtifactPlane.Settings.Basic

/-!
The arguments of the command line: options, then a command with options of its own.
An option is given once at most.  One that is not given may come from the environment;
there a switch is `true` or `false`.
-/

namespace ArtifactPlane.CommandLine

/-- Options that come before the command. -/
structure Options where
  config : Option String
  production : Bool
  noCache : Bool
  noCoalescer : Bool
  indexFile : Option String
  sourceRoot : Option String
  distRoot : Option String
  logLevel : String
  logJson : Bool
deriving DecidableEq, Repr

/-- What to do with the plane. -/
inductive Command where
  | check (json : Bool)
  | get (path : String) (stream : Bool)
  | routes (json : Bool)
deriving DecidableEq, Repr

/-- What is asked for. -/
inductive Request where
  | serve (options : Options) (command : Command)
  | version
  | help
deriving DecidableEq, Repr

/-- What may be given for an option. -/
inductive ValueKind where
  /-- Nothing; the environment gives `true` or `false`. -/
  | switch
  /-- A path, which is not empty. -/
  | path
  | text
deriving DecidableEq, Repr

/-- Whether a value is one of a kind. -/
def ValueKind.accepts : ValueKind → String → Bool
  | .switch, v => v = "true" ∨ v = "false"
  | .path, v => v ≠ ""
  | .text, _ => true

/-- An option and the environment variable that stands in for it. -/
structure OptionSpec where
  name : String
  kind : ValueKind
  envName : String

/-- The options that come before the command. -/
def optionSpecs : List OptionSpec :=
  [⟨"config", .path, "ARTIFACTD_CONFIG"⟩,
   ⟨"production", .switch, "PRODUCTION_MODE"⟩,
   ⟨"no-cache", .switch, "NO_CACHE"⟩,
   ⟨"no-coalescer", .switch, "NO_COALESCER"⟩,
   ⟨"index-file", .path, "INDEX_FILE"⟩,
   ⟨"source-root", .path, "SOURCE_ROOT"⟩,
   ⟨"dist-root", .path, "DIST_ROOT"⟩,
   ⟨"log-level", .text, "LOG_LEVEL"⟩,
   ⟨"log-json", .switch, "LOG_JSON"⟩]

/-- How an argument is written. -/
inductive Form where
  /-- Two dashes alone: no options follow. -/
  | escape
  /-- Two dashes and a name, perhaps with a value after an equals sign. -/
  | long (name : String) (attached : Option String)
  /-- A dash and letters. -/
  | short (letters : List Char)
  | word
deriving DecidableEq, Repr

/-- The form of an argument. -/
def Form.of (arg : String) : Form :=
  match arg.toList with
  | ['-', '-'] => .escape
  | '-' :: '-' :: cs =>
    let name := String.ofList (cs.takeWhile (· ≠ '='))
    match cs.dropWhile (· ≠ '=') with
    | [] => .long name none
    | _ :: value => .long name (some (String.ofList value))
  | '-' :: c :: cs => .short (c :: cs)
  | _ => .word

/-- Options given so far, by name. -/
abbrev Given := List (String × String)

/-- What the arguments ask for, the environment left aside. -/
inductive Parsed where
  | serve (given : Given) (command : Command)
  | version
  | help

/-- The options and the path of a command. -/
structure CommandArgs where
  switch : Bool
  path : Option String

/-- Read the arguments of a command with one switch.  The inner `none` asks for help,
the outer one refuses the arguments. -/
def commandArgs? (switch : String) (takesPath : Bool) :
    Bool → CommandArgs → List String → Option (Option CommandArgs)
  | _, a, [] => some (some a)
  | escaped, a, arg :: rest =>
    match if escaped then Form.word else Form.of arg with
    | .escape => commandArgs? switch takesPath true a rest
    | .long "help" none => some none
    | .short ('h' :: _) => some none
    | .long name none =>
      if name = switch ∧ !a.switch then
        commandArgs? switch takesPath escaped { a with switch := true } rest
      else none
    | .word =>
      if takesPath ∧ a.path.isNone then
        commandArgs? switch takesPath escaped { a with path := some arg } rest
      else none
    | _ => none

/-- Read a command with its arguments. -/
def command? (given : Given) (name : String) (rest : List String) : Option Parsed := do
  let read := fun switch takesPath => commandArgs? switch takesPath false ⟨false, none⟩ rest
  match name with
  | "check" =>
    match ← read "json" false with
    | some a => return .serve given (.check a.switch)
    | none => return .help
  | "routes" =>
    match ← read "json" false with
    | some a => return .serve given (.routes a.switch)
    | none => return .help
  | "get" =>
    match ← read "stream" true with
    | some a => return .serve given (.get (← a.path) a.switch)
    | none => return .help
  | "help" => return .help
  | _ => none

/-- Add an option with its value, unless it was given before. -/
def give? (spec : OptionSpec) (value : String) (given : Given) : Option Given :=
  if (given.lookup spec.name).isNone ∧ spec.kind.accepts value then
    some ((spec.name, value) :: given)
  else none

/-- Read all arguments.  `pending` is an option whose value comes next. -/
def parse? : Option OptionSpec → Given → List String → Option Parsed
  | none, given, [] => some (.serve given (.check false))
  | some _, _, [] => none
  | some spec, given, arg :: rest =>
    match Form.of arg with
    | .word => (give? spec arg given).bind fun given => parse? none given rest
    | _ => none
  | none, given, arg :: rest =>
    match Form.of arg with
    | .escape => if rest.isEmpty then some (.serve given (.check false)) else none
    | .long "help" none => some .help
    | .long "version" none => some .version
    | .short ('h' :: _) => some .help
    | .short ('V' :: _) => some .version
    | .short _ => none
    | .word => command? given arg rest
    | .long name attached =>
      match optionSpecs.find? (·.name == name), attached with
      | none, _ => none
      | some spec, some value =>
        if spec.kind = .switch then none
        else (give? spec value given).bind fun given => parse? none given rest
      | some spec, none =>
        if spec.kind = .switch then
          (give? spec "true" given).bind fun given => parse? none given rest
        else parse? (some spec) given rest

/-- Add the options that only the environment gives. -/
def complete? (env : String → Option String) (given : Given) : Option Given :=
  optionSpecs.foldlM (fun given spec =>
    if (given.lookup spec.name).isSome then some given
    else
      match env spec.envName with
      | none => some given
      | some value => give? spec value given) given

/-- Options as they were given. -/
def Options.ofGiven (given : Given) : Options where
  config := given.lookup "config"
  production := given.lookup "production" = some "true"
  noCache := given.lookup "no-cache" = some "true"
  noCoalescer := given.lookup "no-coalescer" = some "true"
  indexFile := given.lookup "index-file"
  sourceRoot := given.lookup "source-root"
  distRoot := given.lookup "dist-root"
  logLevel := (given.lookup "log-level").getD "info"
  logJson := given.lookup "log-json" = some "true"

/-- What the arguments and the environment ask for, unless they are refused. -/
def Request.ofArguments? (env : String → Option String) (args : List String) : Option Request :=
  match parse? none [] args with
  | none => none
  | some .version => some .version
  | some .help => some .help
  | some (.serve given command) =>
    (complete? env given).map fun given => .serve (.ofGiven given) command

/-- Settings with the options put over them. -/
def Options.apply (o : Options) (s : Settings) : Settings :=
  { s with
    production := s.production || o.production
    cache := { s.cache with enabled := s.cache.enabled && !o.noCache }
    coalescer := { s.coalescer with enabled := s.coalescer.enabled && !o.noCoalescer }
    paths :=
      { indexFile := o.indexFile.getD s.paths.indexFile
        sourceRoot := o.sourceRoot.getD s.paths.sourceRoot
        distRoot := o.distRoot.getD s.paths.distRoot } }

end ArtifactPlane.CommandLine
