import ArtifactPlane.Coalescer.Session
import ArtifactPlane.FileTree
import ArtifactPlane.Main
import ArtifactPlane.Route.Outline
import ArtifactPlane.Proofs.Coalescer.Flight
import ArtifactPlane.Proofs.Coalescer.Tracking
import ArtifactPlane.Proofs.Coalescer.SingleFlight
import ArtifactPlane.Proofs.Coalescer.Agreement
import ArtifactPlane.Proofs.Cache.Stored
import ArtifactPlane.Proofs.Plane.Phases
import ArtifactPlane.Proofs.Plane.Service
import ArtifactPlane.Proofs.Plane.Frames
import ArtifactPlane.Proofs.Plane.Transparency
import ArtifactPlane.Proofs.Plane.Renewal
import ArtifactPlane.Proofs.Index.Reads
import ArtifactPlane.Proofs.Route.Height
import ArtifactPlane.Proofs.Index.Stamp
import ArtifactPlane.Proofs.Index.Form
import ArtifactPlane.Proofs.Index.Codec
import ArtifactPlane.Proofs.Cache.Ordered
import ArtifactPlane.Proofs.Cache.Placed
import ArtifactPlane.Proofs.Cache.Requests
import ArtifactPlane.Proofs.Cache.History
import ArtifactPlane.Proofs.Cache.Lossy
import ArtifactPlane.Proofs.Cache.Settle
import ArtifactPlane.Proofs.Cache.Fence
import ArtifactPlane.Proofs.Cache.Capacity
import ArtifactPlane.Proofs.Cache.Removal
import ArtifactPlane.Proofs.Route.Lookup
import ArtifactPlane.Proofs.Plane.Balance
import ArtifactPlane.Proofs.Plane.Accounts
import ArtifactPlane.Proofs.Cache.Sizes
import ArtifactPlane.Proofs.Cache.Upkeep
import ArtifactPlane.Proofs.Cache.Tally
import ArtifactPlane.Proofs.Cache.Bookkeeping
import ArtifactPlane.Proofs.Cache.Cell
import ArtifactPlane.Proofs.Cache.Product
import ArtifactPlane.Proofs.Coalescer.Abandonment
import ArtifactPlane.Proofs.Plane.Rest
import ArtifactPlane.Proofs.Plane.Serving
import ArtifactPlane.Proofs.Coalescer.Sharding
import ArtifactPlane.Proofs.Cache.Eviction
import ArtifactPlane.Proofs.Cache.Lifetime
import ArtifactPlane.Proofs.Cache.Staleness
import ArtifactPlane.Proofs.Route.Listing
import ArtifactPlane.Proofs.Route.Loaded
import ArtifactPlane.Proofs.Route.Replay
import ArtifactPlane.Proofs.Route.Preorder
import ArtifactPlane.Proofs.Cache.Bare
import ArtifactPlane.Proofs.Cache.Alike
import ArtifactPlane.Proofs.Cache.Refused
import ArtifactPlane.Proofs.Coalescer.Vantage
import ArtifactPlane.Proofs.Plane.Histories
import ArtifactPlane.Proofs.Plane.Outlook
import ArtifactPlane.Proofs.Plane.Lockstep
import ArtifactPlane.Proofs.Plane.Completion
import ArtifactPlane.Proofs.Plane.Reload
import ArtifactPlane.Proofs.Path.Confinement
import ArtifactPlane.Proofs.Cache.Reading
import ArtifactPlane.Proofs.Index.Moments
import ArtifactPlane.Proofs.Plane.Entrances
import ArtifactPlane.Proofs.Index.Skeleton
