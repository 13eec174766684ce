import Brdns.Proofs.Blocked
import Brdns.Proofs.Budget
import Brdns.Proofs.Enforcement
import Brdns.Proofs.Ingest
import Brdns.Proofs.Isolation
import Brdns.Proofs.Admission
import Brdns.Proofs.Listed
import Brdns.Proofs.Identity
import Brdns.Lib.Framing
import Brdns.Spec.Dot
import Brdns.Proofs.Framing
import Brdns.Proofs.AccountNumbers
import Brdns.Lib.Traced
import Brdns.Spec.Traced
import Brdns.Proofs.ParserSafety
import Brdns.Proofs.Interleaving
import Brdns.Lib.Table
import Brdns.Spec.Schema
import Brdns.Spec.Enums
import Brdns.Spec.Postgres
import Brdns.Proofs.Acceptance
import Brdns.Proofs.Snapshots
import Brdns.Proofs.StaleRules
import Brdns.Proofs.Counters
import Brdns.Proofs.TwoStores
import Brdns.Proofs.StoreRefinement
import Brdns.Proofs.Decompression
import Brdns.Proofs.Layout
import Brdns.Proofs.Messages
import Brdns.Proofs.Truncation
import Brdns.Proofs.DeclaredLength
import Brdns.Proofs.Answerable
import Brdns.Proofs.Echo
import Brdns.Proofs.NameLimits
import Brdns.Proofs.CountedSections
import Brdns.Proofs.Targets
import Brdns.Lib.Calendar
import Brdns.Proofs.Windows
import Brdns.Spec.Admin
import Brdns.Proofs.Additions
import Brdns.Proofs.CategoryRules
import Brdns.Proofs.Hostnames
import Brdns.Proofs.BulkSnapshot
import Brdns.Proofs.Persistence
import Brdns.Lib.Lines
import Brdns.Proofs.Rendering
import Brdns.Proofs.Comments
import Brdns.Spec.Doh
import Brdns.Lib.Percent
import Brdns.Proofs.PercentDecoding
import Brdns.Proofs.DohQuery
import Brdns.Proofs.Pool
import Brdns.Proofs.Authorization
import Brdns.Proofs.WrittenNames
import Brdns.Spec.DohReceiver
import Brdns.Spec.Metrics
import Brdns.Spec.Runtime
import Brdns.Proofs.Book
import Brdns.Proofs.Steps
import Brdns.Proofs.InForce
import Brdns.Proofs.Journal
import Brdns.Proofs.Limits
import Brdns.Proofs.Accounting
import Brdns.Proofs.Listings
import Brdns.Proofs.Backup
import Brdns.Proofs.Readings
import Brdns.Proofs.Exposure
import Brdns.Proofs.Presets
import Brdns.Lib.Sampling
import Brdns.Proofs.Generated
import Brdns.Proofs.Propagation
import Brdns.Proofs.Relay
