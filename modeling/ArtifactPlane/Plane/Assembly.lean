import ArtifactPlane.Plane.Basic
import ArtifactPlane.Settings.Document

/-!
The data plane that settings describe.  A routed plane needs an index that can be
loaded.
-/

namespace ArtifactPlane

/-- The router of an index file. -/
def Router.loadFile (files : Files) (path : String) : Except Error Router := do
  Router.load (← (files.read path).mapError (Error.ofCause path))

/-- The settings that a file gives. -/
def Settings.ofFile (files : Files) (path : String) : Except Error Settings :=
  match files.readText path with
  | .ok text => Settings.ofText text
  | .error cause => .error (.config (.unreadable path cause))

/-- The plane over some files that settings describe, on a machine with so many processors. -/
def Plane.ofSettings (settings : Settings) (files : Files) (processors : Nat := 1) :
    Except Error Plane := do
  let s ← settings.checked
  if s.production then
    let router ← Router.loadFile files s.paths.indexFile
    return .routed (.ofDirectory s.paths.distRoot files)
      { router
        cache := if s.cache.enabled then some (.ofConfig (s.cache.config processors)) else none
        coalescer := if s.coalescer.enabled then some (.ofShards s.coalescer.shardCount) else none
        ttl := s.cache.ttl }
  else return .direct (.ofDirectory s.paths.sourceRoot files)

end ArtifactPlane
