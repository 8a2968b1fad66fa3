import Scraperack.Keyed
import Scraperack.Runs
import Scraperack.Counters
import Scraperack.Identity
import Scraperack.Data
import Scraperack.Schedule
import Scraperack.Placement
import Scraperack.Rebalancing
import Scraperack.Storage
import Scraperack.Handlers
import Scraperack.System
import Scraperack.Sizes
import Scraperack.Moves
import Scraperack.Sections
import Scraperack.SectionMoves
import Scraperack.Steps
import Scraperack.Coherence
import Scraperack.Control
import Scraperack.Registry
import Scraperack.Names
import Scraperack.Dispatch
import Scraperack.Failures
import Scraperack.Housing
import Scraperack.Tenancy
import Scraperack.Images
import Scraperack.Agreement
import Scraperack.Pools
import Scraperack.Artifacts
import Scraperack.Enrollment
import Scraperack.Tokens
import Scraperack.Load
import Scraperack.Ledger
import Scraperack.Handover
import Scraperack.Reset
import Scraperack.Reload
import Scraperack.Conservation
import Scraperack.Caches
import Scraperack.Vms
import Scraperack.Fleet
import Scraperack.Copies
import Scraperack.Secrets
import Scraperack.Cursor
import Scraperack.Leases
import Scraperack.Starts
import Scraperack.Rejections
import Scraperack.Uniqueness
import Scraperack.Kinds
import Scraperack.Profiles
import Scraperack.Shelves
import Scraperack.Isolation
import Scraperack.Startup
import Scraperack.Markers
import Scraperack.Attempts
import Scraperack.Rows
import Scraperack.Records
import Scraperack.Submissions
import Scraperack.Durability
import Scraperack.References
import Scraperack.Wakeups
import Scraperack.Progress
import Scraperack.Invocations
import Scraperack.Exchanges
import Scraperack.WorkingDirs
import Scraperack.Results
import Scraperack.SnapshotFiles
import Scraperack.Eviction
import Scraperack.Limits
import Scraperack.Substitution
import Scraperack.Interference
import Scraperack.Redaction
import Scraperack.Validation
import Scraperack.Urls
import Scraperack.Routes
import Scraperack.Columns
import Scraperack.Limiter
import Scraperack.Separated
import Scraperack.Packages
import Scraperack.Snapshots
import Scraperack.Migration
import Scraperack.Expiry
import Scraperack.Turns
import Scraperack.Rotation
import Scraperack.Framing
import Scraperack.Wire
import Scraperack.Supplies
import Scraperack.Targets
import Scraperack.Thinning
import Scraperack.Samples
import Scraperack.Ceilings
import Scraperack.Functions
import Scraperack.Uploads
import Scraperack.Reports
import Scraperack.Liaison
import Scraperack.Errands
import Scraperack.Bookkeeping
import Scraperack.Reckoning
