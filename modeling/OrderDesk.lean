import OrderDesk.Text.Quoted
import OrderDesk.Text.Blank
import OrderDesk.Text.Utf8
import OrderDesk.Decimal.Notation
import OrderDesk.Decimal.Double
import OrderDesk.Time.Date
import OrderDesk.Time.Duration
import OrderDesk.Time.Rfc3339
import OrderDesk.Json.Record
import OrderDesk.Toml.Document
import OrderDesk.Order.Error
import OrderDesk.Order.Wire
import OrderDesk.Cache.RecencyList
import OrderDesk.Cache.Lru
import OrderDesk.Cache.RecentPairs
import OrderDesk.Cache.OrderCache
import OrderDesk.Cache.BoundedMap
import OrderDesk.Metrics.Cache
import OrderDesk.Storage
import OrderDesk.Service
import OrderDesk.Ingest.Timeline
import OrderDesk.Http.Server
import OrderDesk.Settings.Load
import OrderDesk.Version
import OrderDesk.Proofs.Cache.Linkage
import OrderDesk.Proofs.Cache.Operations
import OrderDesk.Proofs.Cache.PlainSequence
import OrderDesk.Proofs.Cache.Handles
import OrderDesk.Proofs.Cache.RecentlyUsed
import OrderDesk.Proofs.Cache.WorkingSet
import OrderDesk.Proofs.Cache.Inclusion
import OrderDesk.Proofs.Ingest.Delivery
import OrderDesk.Proofs.Ingest.Exchange
import OrderDesk.Proofs.Ingest.Acknowledgement
import OrderDesk.Proofs.Ingest.Retries
import OrderDesk.Proofs.Ingest.Dealings
import OrderDesk.Proofs.Ingest.Intake
import OrderDesk.Proofs.Ingest.Closing
import OrderDesk.Proofs.Ingest.Turns
import OrderDesk.Proofs.Ingest.Deadlines
import OrderDesk.Proofs.Ingest.Moves
import OrderDesk.Proofs.Ingest.Counters
import OrderDesk.Proofs.Ingest.Stories
import OrderDesk.Proofs.Order.Validation
import OrderDesk.Proofs.Order.Address
import OrderDesk.Proofs.Order.Rules
import OrderDesk.Proofs.Ingest.Fates
import OrderDesk.Proofs.Storage
import OrderDesk.Proofs.Cache.Entries
import OrderDesk.Proofs.Cache.Backends
import OrderDesk.Proofs.Service.Lookups
import OrderDesk.Proofs.Service.CacheAside
import OrderDesk.Proofs.Service.WarmUp
import OrderDesk.Proofs.Service.Provenance
import OrderDesk.Proofs.Http.Lookup
import OrderDesk.Proofs.Order.Wire
import OrderDesk.Proofs.Service.Depot
import OrderDesk.Proofs.Storage.Ranking
import OrderDesk.Proofs.Cache.Footprint
import OrderDesk.Proofs.Settings.Layering
import OrderDesk.Proofs.Ingest.Sequence
import OrderDesk.Proofs.Cache.Traversal
import OrderDesk.Proofs.Cache.Metrics
import OrderDesk.Proofs.Ingest.Stopping
