import ArtifactPlane.Plane.Basic
import ArtifactPlane.Text.Json

/-!
What commands write: the state of a plane and its routes, as lines or as JSON, and
failures with their causes.
-/

namespace ArtifactPlane.CommandLine

/-- Lines, each ended. -/
def lines (ls : List String) : String := String.join (ls.map (· ++ "\n"))

/-- The word for a part that is there or not. -/
def enabledText (on : Bool) : String := if on then "enabled" else "disabled"

/-- The state of a plane in lines. -/
def statsText (s : PlaneStats) : String :=
  lines ["mode:       " ++ s.mode.text,
    "routes:     " ++ toString s.routes,
    "cache:      " ++ enabledText s.cache.isSome,
    "coalescer:  " ++ enabledText s.coalescer.isSome]

/-- A double with at least one digit after the point. -/
def decimal (x : Float) : JsonValue :=
  let text := Shortest.positional x
  .number (if text.toList.contains '.' then text else text ++ ".0")

/-- A word as a JSON number. -/
def word (w : UInt64) : JsonValue := .nat w.toNat

/-- Accesses to storage. -/
def accessJson (a : AccessCounts) : JsonValue :=
  .object [("reads", word a.reads), ("opens", word a.opens), ("bytes_read", word a.octetsRead)]

/-- The state of a cache. -/
def cacheJson (s : Cache.Stats) : JsonValue :=
  let c := s.counters
  .object [("entries", .nat s.entries), ("capacity", .nat s.capacity),
    ("shard_count", .nat s.shardCount), ("hits", word c.hits), ("misses", word c.misses),
    ("expired", word c.expired), ("inserts", word c.inserts), ("evictions", word c.evictions),
    ("reaped", word c.reaped), ("reap_dropped", word c.reapDropped), ("clears", word c.clears),
    ("hit_ratio", decimal c.hitRatio)]

/-- The state of a coalescer. -/
def coalescerJson (s : Coalescer.Stats) : JsonValue :=
  .object [("executions", word s.executions), ("coalesced", word s.coalesced),
    ("in_flight", .nat s.inFlight)]

/-- The state of a plane. -/
def statsJson (s : PlaneStats) : JsonValue :=
  .object [("mode", .string s.mode.text), ("routes", .nat s.routes),
    ("storage", accessJson s.storage), ("cache", .ofOption cacheJson s.cache),
    ("coalescer", .ofOption coalescerJson s.coalescer)]

/-- Routes in lines. -/
def routesText (routes : List (String × Artifact)) : String :=
  lines (routes.map fun (path, a) => path ++ " -> " ++ a.location)

/-- One route with its artifact. -/
def routeJson (path : String) (a : Artifact) : JsonValue :=
  .object [("path", .string path), ("built_at", .string a.builtAt.render),
    ("location", .string a.location), ("depends_on", .array (a.dependsOn.map .string))]

/-- Routes with their artifacts. -/
def routesJson (routes : List (String × Artifact)) : JsonValue :=
  .array (routes.map fun (path, a) => routeJson path a)

/-- A failure and its causes, from the outermost on. -/
structure Failure where
  message : String
  causes : List String
deriving DecidableEq, Repr

namespace Failure

/-- The failure that an error is. -/
def ofError (e : Error) : Failure :=
  ⟨e.message, e.cause?.toList.map (·.message)⟩

/-- A failure that an error caused. -/
def within (context : String) (e : Error) : Failure :=
  ⟨context, e.message :: (ofError e).causes⟩

/-- A text whose lines after the first begin with blanks. -/
def indented (width : Nat) (text : String) : String :=
  String.ofList (text.toList.flatMap fun c =>
    if c = '\n' then '\n' :: List.replicate width ' ' else [c])

/-- One cause, with its number if there are several. -/
def causeText (number : Option Nat) (cause : String) : String :=
  match number with
  | none => "    " ++ indented 4 cause
  | some n => "    " ++ toString n ++ ": " ++ indented 7 cause

/-- A failure and its causes, each on a line of its own. -/
def text (f : Failure) : String :=
  let causes := match f.causes with
    | [] => []
    | [cause] => ["", "", "Caused by:", causeText none cause]
    | causes => "" :: "" :: "Caused by:" :: causes.zipIdx.map fun (c, n) => causeText (some n) c
  "Error: " ++ f.message ++ "\n".intercalate causes

end Failure

end ArtifactPlane.CommandLine
