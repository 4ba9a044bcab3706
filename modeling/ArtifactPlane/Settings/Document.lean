import ArtifactPlane.Settings.Basic
import ArtifactPlane.Settings.Scalar

/-!
Settings from YAML text.  A section is a mapping, or nothing; keys that no setting has
are ignored, and a setting that is not given keeps its standard value.
-/

namespace ArtifactPlane.Settings

open Yaml

/-- The entries of a section under the given keys, each at most once. -/
def entries? (d : Document) (keys : List String) (n : Node) : Option (List (String × Node)) := do
  match ← d.follow? n with
  | .scalar _ _ .plain "" => return []
  | .mapping _ pairs =>
    let named ← pairs.mapM fun (k, v) => do return (← text? d k, v)
    let known := named.filter fun e => keys.contains e.1
    if (known.map (·.1)).eraseDups.length = known.length then return known else none
  | _ => none

/-- The value of a setting, or its standard value if it is not given. -/
def valueOr {α : Type} (entries : List (String × Node)) (key : String)
    (read : Node → Option α) (standard : α) : Option α :=
  match entries.lookup key with
  | some n => read n
  | none => some standard

/-- Read the paths. -/
def paths? (d : Document) (n : Node) : Option PathSettings := do
  let es ← entries? d ["source_root", "dist_root", "index_file"] n
  let standard : PathSettings := {}
  return {
    sourceRoot := ← valueOr es "source_root" (text? d) standard.sourceRoot
    distRoot := ← valueOr es "dist_root" (text? d) standard.distRoot
    indexFile := ← valueOr es "index_file" (text? d) standard.indexFile }

/-- Read the settings of the cache. -/
def cache? (d : Document) (n : Node) : Option CacheSettings := do
  let es ← entries? d ["enabled", "capacity", "default_ttl_secs", "shard_count",
    "stale_window_secs", "eviction_fraction"] n
  let standard : CacheSettings := {}
  return {
    enabled := ← valueOr es "enabled" (truth? d) standard.enabled
    capacity := ← valueOr es "capacity" (word? d) standard.capacity
    ttlSecs := ← valueOr es "default_ttl_secs" (word? d) standard.ttlSecs
    shardCount := ← valueOr es "shard_count" (optional? (word? d) d) standard.shardCount
    staleSecs := ← valueOr es "stale_window_secs" (word? d) standard.staleSecs
    fraction := ← valueOr es "eviction_fraction" (float? d) standard.fraction }

/-- Read the settings of the coalescer. -/
def coalescer? (d : Document) (n : Node) : Option CoalescerSettings := do
  let es ← entries? d ["enabled", "shard_count"] n
  let standard : CoalescerSettings := {}
  return {
    enabled := ← valueOr es "enabled" (truth? d) standard.enabled
    shardCount := ← valueOr es "shard_count" (word? d) standard.shardCount }

/-- The settings of a document; those of an empty one are the standard ones. -/
def ofDocument? (d : Document) : Option Settings := do
  match d.root with
  | none => return {}
  | some n =>
    let es ← entries? d ["production_mode", "paths", "cache", "coalescer"] n
    return {
      production := ← valueOr es "production_mode" (truth? d) false
      paths := ← valueOr es "paths" (paths? d) {}
      cache := ← valueOr es "cache" (cache? d) {}
      coalescer := ← valueOr es "coalescer" (coalescer? d) {} }

/-- The settings that a text gives, unless one of them is refused. -/
def ofText (text : String) : Except Error Settings :=
  match (Document.ofText? text).bind ofDocument? with
  | some s => s.checked
  | none => .error (.config .invalidYaml)

end ArtifactPlane.Settings
