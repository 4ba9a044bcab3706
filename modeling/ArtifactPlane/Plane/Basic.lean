import ArtifactPlane.Cache.Basic
import ArtifactPlane.Coalescer.Basic
import ArtifactPlane.Route.Router
import ArtifactPlane.Storage

/-!
The data plane: one entry point for content.  A direct plane reads sources by their
path.  A routed plane looks the path up, and loads the artifact there through a
coalescer and a cache, if it has them.  A load goes through phases, each a function
here: the clear epoch is read before the path is routed, and a value read from storage
is kept only if the cache was not cleared since.
-/

namespace ArtifactPlane

/-- What a routed plane needs beside storage. -/
structure Routing where
  router : Router
  cache : Option (Cache Octets)
  coalescer : Option Coalescer
  /-- How long a loaded artifact may be served from the cache. -/
  ttl : Duration

/-- What a plane serves. -/
inductive Source where
  | direct
  | routed (routing : Routing)

/-- A data plane. -/
structure Plane where
  storage : Storage
  source : Source

/-- A load on its way. -/
structure PendingLoad where
  /-- The object to read, which is also its key. -/
  object : String
  /-- The clear epoch before routing, where there is a cache. -/
  epoch : Option UInt64
deriving DecidableEq, Repr

/-- How a plane serves. -/
inductive Mode where
  | direct
  | routed
deriving DecidableEq, Repr

namespace Mode

/-- The word for a mode. -/
def text : Mode → String
  | .direct => "direct"
  | .routed => "routed"

end Mode

/-- What a plane has done and holds. -/
structure PlaneStats where
  mode : Mode
  /-- The number of artifacts with a route; none in direct mode. -/
  routes : Nat
  storage : AccessCounts
  cache : Option Cache.Stats
  coalescer : Option Coalescer.Stats

namespace Plane

/-- A plane that serves sources. -/
def direct (storage : Storage) : Plane := ⟨storage, .direct⟩

/-- A plane that serves routed artifacts. -/
def routed (storage : Storage) (routing : Routing) : Plane := ⟨storage, .routed routing⟩

/-- What a plane has beside storage, in routed mode. -/
def routing? (p : Plane) : Option Routing :=
  match p.source with
  | .direct => none
  | .routed r => some r

/-- How a plane serves. -/
def mode (p : Plane) : Mode :=
  match p.source with
  | .direct => .direct
  | .routed _ => .routed

/-- The router, in routed mode. -/
def router? (p : Plane) : Option Router := p.routing?.map (·.router)

/-- The cache, if there is one. -/
def cache? (p : Plane) : Option (Cache Octets) := p.routing?.bind (·.cache)

/-- The coalescer, if there is one. -/
def coalescer? (p : Plane) : Option Coalescer := p.routing?.bind (·.coalescer)

/-- Change what a routed plane has beside storage. -/
def mapRouting (f : Routing → Routing) (p : Plane) : Plane :=
  match p.source with
  | .direct => p
  | .routed r => { p with source := .routed (f r) }

/-- Replace the router, in routed mode. -/
def setRouter (p : Plane) (router : Router) : Plane :=
  p.mapRouting fun r => { r with router }

/-- Replace the cache, in routed mode. -/
def setCache (p : Plane) (cache : Cache Octets) : Plane :=
  p.mapRouting fun r => { r with cache := some cache }

/-- Change the cache, if there is one. -/
def mapCache (f : Cache Octets → Cache Octets) (p : Plane) : Plane :=
  p.mapRouting fun r => { r with cache := r.cache.map f }

/-- Replace the coalescer, in routed mode. -/
def setCoalescer (p : Plane) (coalescer : Coalescer) : Plane :=
  p.mapRouting fun r => { r with coalescer := some coalescer }

/-- The object at a path: the normal form of the path, or where the path is routed. -/
def locate (p : Plane) (path : String) : Except Error String :=
  let object := match p.source with
    | .direct => Path.normalForm? path
    | .routed r => r.router.route? path
  match object with
  | some o => .ok o
  | none => .error (.notFound path)

/-- The clear epoch now, where there is a cache. -/
def epoch? (p : Plane) : Option UInt64 := p.cache?.map (·.epoch)

/-- Find the object of a load, for a caller that has read the clear epoch. -/
def route (p : Plane) (path : String) (epoch : Option UInt64) : Except Error PendingLoad :=
  (p.locate path).map fun object => ⟨object, epoch⟩

/-- Begin a load: read the clear epoch, then find the object. -/
def begin (p : Plane) (path : String) : Except Error PendingLoad :=
  p.route path p.epoch?

/-- Enter the coalescer with a load, if there is one. -/
def enter (p : Plane) (load : PendingLoad) : Option (Coalescer.Role × Nat) × Plane :=
  match p.coalescer? with
  | none => (none, p)
  | some c =>
    let (role, call, c) := c.enter load.object
    (some (role, call), p.setCoalescer c)

/-- Look the object of a load up in the cache; without a cache nothing is found. -/
def lookUp (p : Plane) (load : PendingLoad) (now : Instant) : Cache.Lookup Octets × Plane :=
  match p.cache?, load.epoch with
  | some c, some _ =>
    let (found, c) := c.look load.object now.millis
    (found, p.setCache c)
  | _, _ => (.miss, p)

/-- Ask for the removal of the expired entry that a load has found. -/
def dispose (p : Plane) (load : PendingLoad) (generation : UInt64) (busy : Bool) : Plane :=
  p.mapCache fun c => c.scheduleWhile busy ⟨c.shardOf load.object, load.object, generation⟩

/-- Look for the content of a load in the cache. -/
def consult (p : Plane) (load : PendingLoad) (now : Instant) : Option Octets × Plane :=
  match p.lookUp load now with
  | (.hit content, p) => (some content, p)
  | (.expired generation, p) => (none, p.dispose load generation false)
  | (.miss, p) => (none, p)

/-- Begin to read from storage. -/
def askObject (p : Plane) : Plane := { p with storage := p.storage.ask }

/-- End a read from storage that has begun, with the object of a load. -/
def receiveObject (p : Plane) (load : PendingLoad) : Loaded × Plane :=
  let (r, s) := p.storage.receive load.object
  (r, { p with storage := s })

/-- Read the object of a load from storage. -/
def readObject (p : Plane) (load : PendingLoad) : Loaded × Plane :=
  p.askObject.receiveObject load

/-- Store what a load has read in the cache, unless the cache was cleared since the load
began, and tell whether it was stored.  There is no result where the clock cannot
represent the expiry. -/
def store? (p : Plane) (load : PendingLoad) (content : Octets) (now later : Instant) :
    Option (Bool × Plane) :=
  match p.routing?, p.cache?, load.epoch with
  | some r, some c, some epoch =>
    (c.storeUnlessCleared? load.object content r.ttl epoch now later).map fun (stored, c) =>
      (stored, p.setCache c)
  | _, _, _ => some (false, p)

/-- Keep what a load has read.  The load breaks down where the clock cannot represent the
expiry. -/
def keep (p : Plane) (load : PendingLoad) (content : Octets) (now : Instant) :
    Coalescer.Ending × Plane :=
  match p.store? load content now now with
  | some (_, p) => (.delivered (.ok content), p)
  | none => (.panicked, p)

/-- Read the object of a load and keep it. -/
def readAndKeep (p : Plane) (load : PendingLoad) (now : Instant) : Coalescer.Ending × Plane :=
  match p.readObject load with
  | (.ok content, p) => p.keep load content now
  | (.error e, p) => (.delivered (.error e), p)

/-- End a load that was registered with the coalescer. -/
def finish (p : Plane) (load : PendingLoad) (call : Nat) (e : Coalescer.Ending) : Plane :=
  match p.coalescer? with
  | none => p
  | some c => p.setCoalescer (c.finish load.object call e)

/-- What a caller of a registered load is given, once there is anything to give. -/
def outcome? (p : Plane) (load : PendingLoad) (call : Nat) : Option Loaded :=
  p.coalescer?.bind fun c => (c.call call).outcome? load.object

/-- Whether a path can be served: in direct mode there must be an object, in routed
mode a route is enough. -/
def contains (p : Plane) (path : String) : Bool :=
  match p.locate path with
  | .error _ => false
  | .ok object =>
    match p.source with
    | .direct => p.storage.contains object
    | .routed _ => true

/-- Open the object at a path as a stream, past cache and coalescer. -/
def openStream (p : Plane) (path : String) : Except Error Storage.Stream × Plane :=
  match p.locate path with
  | .error e => (.error e, p)
  | .ok object =>
    let (st, s) := p.storage.openStream object
    (st, { p with storage := s })

/-- Empty the cache, if there is one. -/
def clearCache (p : Plane) : Plane := p.mapCache Cache.clear

/-- Put the tree of an index in force; the cache stays as it is. -/
def install (p : Plane) (index : Octets) : Except Error Plane :=
  match p.router? with
  | none => .error (.config .notRouted)
  | some router => (router.reload index).map p.setRouter

/-- Put the tree of an index in force and empty the cache. -/
def reload (p : Plane) (index : Octets) : Except Error Plane :=
  (p.install index).map clearCache

/-- Put the tree of an index file in force and empty the cache. -/
def reloadFile (p : Plane) (path : String) : Except Error Plane := do
  p.reload (← (p.storage.files.read path).mapError (Error.ofCause path))

/-- Put another tree in force, with the one that was; the cache stays as it is. -/
def swap (p : Plane) (root : RouteTree) : Option RouteTree × Plane :=
  match p.router? with
  | none => (none, p)
  | some router =>
    let (old, router) := router.swap root
    (some old, p.setRouter router)

/-- Every logical path with an artifact, in routed mode. -/
def routes? (p : Plane) : Option (List (String × Artifact)) := p.router?.map (·.routes)

/-- Carry out every queued removal of an expired cache entry. -/
def reap (p : Plane) : Plane := p.mapCache Cache.drain

/-- What a plane has done and holds now. -/
def stats (p : Plane) : PlaneStats where
  mode := p.mode
  routes := (p.router?.map (·.size)).getD 0
  storage := p.storage.counts
  cache := p.cache?.map (·.stats)
  coalescer := p.coalescer?.map (·.stats)

end Plane

end ArtifactPlane
