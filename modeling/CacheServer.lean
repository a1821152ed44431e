import CacheServer.Basic
import CacheServer.Lib.CyclicScan
import CacheServer.Lib.Machine
import CacheServer.Lib.Table
import CacheServer.Cache.L1
import CacheServer.Cache.L1Sections
import CacheServer.Cache.L1Capacity
import CacheServer.Cache.L1Limit
import CacheServer.Cache.L1Ring
import CacheServer.Cache.L1Expiry
import CacheServer.Assets.Accounting
import CacheServer.Assets.Handler
import CacheServer.Assets.Coherence
import CacheServer.Cache.L2
import CacheServer.Cache.Manager
import CacheServer.Lib.TtlCell
import CacheServer.Lib.Utf8
import CacheServer.Lib.Fields
import CacheServer.Lib.Json
import CacheServer.Lib.JsonSize
import CacheServer.Lib.JsonText
import CacheServer.Lib.JsonEncode
import CacheServer.Cache.SerialRuns
import CacheServer.Cache.Interleaving
import CacheServer.Cache.Agreement
import CacheServer.Cache.WriteThenGet
import CacheServer.Cache.Visibility
import CacheServer.Cache.Singleflight
import CacheServer.Cache.Invalidation
import CacheServer.Keyspace
import CacheServer.Cache.SerialSchedule
import CacheServer.Cache.L1Hits
import CacheServer.Cache.Provenance
import CacheServer.Cache.Cancellation
import CacheServer.Cache.ColdKey
import CacheServer.Cache.FailedWrites
import CacheServer.Cache.FailedReads
import CacheServer.Startup
import CacheServer.Addresses
import CacheServer.Assets.SerialRequests
import CacheServer.Assets.Uploads
import CacheServer.Assets.Transparency
import CacheServer.Assets.Deletes
import CacheServer.Assets.Registered
import CacheServer.Assets.JsonBodies
import CacheServer.Cache.Counters
import CacheServer.Lib.Program
import CacheServer.Service.Calls
import CacheServer.Service.Batches
import CacheServer.Service.Http
import CacheServer.Service.HttpBatches
import CacheServer.Service.Server
import CacheServer.Service.Lookups
import CacheServer.Service.Atomicity
import CacheServer.Cache.L1Order
import CacheServer.Cache.L1Cursor
import CacheServer.Assets.Eviction
import CacheServer.Cache.Coalescing
import CacheServer.Cache.OriginErrors
import CacheServer.Service.Rates
import CacheServer.Service.Origin
import CacheServer.Cache.Writers
import CacheServer.Service.Lifetimes
import CacheServer.Lib.JsonDepth
import CacheServer.Lib.JsonMarshal
import CacheServer.Lib.Base64
import CacheServer.Lib.Decimal
import CacheServer.Cache.L2Batch
import CacheServer.Service.Messages
import CacheServer.Service.Dispatch
import CacheServer.Cache.Progress
import CacheServer.Cache.Followers
import CacheServer.Service.Progress
import CacheServer.Lib.Url
import CacheServer.Lib.Mux
import CacheServer.Service.Routes
import CacheServer.Lib.JsonStream
import CacheServer.Service.Wire
import CacheServer.Service.Shutdown
