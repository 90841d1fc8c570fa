import LedgerAccounting.Asset
import LedgerAccounting.Chain.Canonical
import LedgerAccounting.Chain.Commitment
import LedgerAccounting.Chain.Localisation
import LedgerAccounting.Chain.Loss
import LedgerAccounting.Chain.Salts
import LedgerAccounting.Chain.Tamper
import LedgerAccounting.Chart
import LedgerAccounting.HashChain
import LedgerAccounting.Http.Auth
import LedgerAccounting.Http.Handlers
import LedgerAccounting.Lib.Alone
import LedgerAccounting.Lib.Amid
import LedgerAccounting.Lib.Delimited
import LedgerAccounting.Lib.DoubleEntry
import LedgerAccounting.Lib.Inserts
import LedgerAccounting.Lib.Keyed
import LedgerAccounting.Lib.Linked
import LedgerAccounting.Lib.Numerals
import LedgerAccounting.Lib.Paging
import LedgerAccounting.Lib.PartialSums
import LedgerAccounting.Lib.Ranking
import LedgerAccounting.Lib.Runs
import LedgerAccounting.Lib.Script
import LedgerAccounting.Lib.Shape
import LedgerAccounting.Memory.Admission
import LedgerAccounting.Memory.AllAssets
import LedgerAccounting.Memory.AppendOnly
import LedgerAccounting.Memory.AsOf
import LedgerAccounting.Memory.AssetClass
import LedgerAccounting.Memory.Bookkeeping
import LedgerAccounting.Memory.Bounds
import LedgerAccounting.Memory.ChainIntegrity
import LedgerAccounting.Memory.Effect
import LedgerAccounting.Memory.EntriesSince
import LedgerAccounting.Memory.Idempotency
import LedgerAccounting.Memory.Integrity
import LedgerAccounting.Memory.Listings
import LedgerAccounting.Memory.Movement
import LedgerAccounting.Memory.OrderIndependence
import LedgerAccounting.Memory.Reconcile
import LedgerAccounting.Memory.Reversal
import LedgerAccounting.Memory.SagaSteps
import LedgerAccounting.Memory.SnapshotAll
import LedgerAccounting.Memory.SnapshotDelta
import LedgerAccounting.Memory.Statement
import LedgerAccounting.Memory.StatementWindow
import LedgerAccounting.Memory.TrialBalance
import LedgerAccounting.Pool.AccountRaces
import LedgerAccounting.Pool.Accounts
import LedgerAccounting.Pool.Anchors
import LedgerAccounting.Pool.Audit
import LedgerAccounting.Pool.Beside
import LedgerAccounting.Pool.Books
import LedgerAccounting.Pool.Cluster
import LedgerAccounting.Pool.Commits
import LedgerAccounting.Pool.CustodialSum
import LedgerAccounting.Pool.Database
import LedgerAccounting.Pool.Durability
import LedgerAccounting.Pool.Idempotency
import LedgerAccounting.Pool.Listings
import LedgerAccounting.Pool.LostRead
import LedgerAccounting.Pool.Migrations
import LedgerAccounting.Pool.Pages
import LedgerAccounting.Pool.Post
import LedgerAccounting.Pool.PostSpec
import LedgerAccounting.Pool.Reads
import LedgerAccounting.Pool.Reconcile
import LedgerAccounting.Pool.Refinement
import LedgerAccounting.Pool.Retry
import LedgerAccounting.Pool.Returns
import LedgerAccounting.Pool.Rows
import LedgerAccounting.Pool.Sequence
import LedgerAccounting.Pool.Sequential
import LedgerAccounting.Pool.SnapshotBalance
import LedgerAccounting.Pool.SnapshotFailures
import LedgerAccounting.Pool.SnapshotReads
import LedgerAccounting.Pool.Statement
import LedgerAccounting.Pool.Summaries
import LedgerAccounting.Pool.Tables
import LedgerAccounting.Posting
import LedgerAccounting.Run
import LedgerAccounting.Service.Boot
import LedgerAccounting.Service.Config
import LedgerAccounting.Service.Grpc
import LedgerAccounting.Service.Protocols
import LedgerAccounting.Service.Replies
import LedgerAccounting.Service.Run
import LedgerAccounting.Snapshot
import LedgerAccounting.State
import LedgerAccounting.Store.Accounts
import LedgerAccounting.Store.Listings
import LedgerAccounting.Store.Post
import LedgerAccounting.Store.PostSpec
import LedgerAccounting.Treasury
