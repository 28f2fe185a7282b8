import Cloudscale.Lib.Checked
import Cloudscale.Lib.Runs
import Cloudscale.Lib.DoubleEntry
import Cloudscale.Lib.Streams
import Cloudscale.Lib.Transactions
import Cloudscale.Lib.Tables
import Cloudscale.Lib.Deliveries
import Cloudscale.Lib.Polling
import Cloudscale.Lib.SqliteInteger
import Cloudscale.Lib.Digits
import Cloudscale.Lib.JsonRoundtrip
import Cloudscale.Python.Text
import Cloudscale.Python.Uuid
import Cloudscale.Python.Datetime
import Cloudscale.Python.Hashlib
import Cloudscale.Domain.Decisions
import Cloudscale.Domain.Results
import Cloudscale.Application.CommandService
import Cloudscale.Application.CommandExecution
import Cloudscale.Adapters.Compat
import Cloudscale.Adapters.CommandUnitOfWork
import Cloudscale.Ledger.Log
import Cloudscale.Ledger.Deciding
import Cloudscale.Ledger.Executing
import Cloudscale.Ledger.Sets
import Cloudscale.Ledger.Coherence
import Cloudscale.Ledger.Reachable
import Cloudscale.Ledger.Conservation
import Cloudscale.Ledger.Holds
import Cloudscale.Ledger.Reverts
import Cloudscale.Ledger.Idempotency
import Cloudscale.Entrypoints.Retention
import Cloudscale.Ledger.Retention
import Cloudscale.Ledger.Accepting
import Cloudscale.Entrypoints.Http.Auth
import Cloudscale.Entrypoints.Http.Commands
import Cloudscale.Ledger.Authorization
import Cloudscale.Ledger.RevertAuthorization
import Cloudscale.Ledger.Outcomes
import Cloudscale.Application.TransfersReadModel
import Cloudscale.Adapters.EventStore
import Cloudscale.Adapters.ProjectionStore
import Cloudscale.Projection.Effects
import Cloudscale.Projection.Delivery
import Cloudscale.Adapters.DeadLetterStore
import Cloudscale.Processes.ResilientConsumer
import Cloudscale.Processes.Consuming
import Cloudscale.Projection.Redrive
import Cloudscale.Projection.Rows
import Cloudscale.Ledger.Linked
import Cloudscale.Projection.Parking
import Cloudscale.Lib.Precedence
import Cloudscale.Projection.RowOrder
import Cloudscale.Projection.Reordering
import Cloudscale.Projection.Unparking
import Cloudscale.Adapters.ProjectionReaders
import Cloudscale.Lib.Sessions
import Cloudscale.Adapters.ProjectionSessions
import Cloudscale.Projection.Concurrent
import Cloudscale.Projection.Alone
import Cloudscale.Lib.ReadCommitted
import Cloudscale.Resilience.CircuitBreaker
import Cloudscale.Resilience.Probing
import Cloudscale.Cqrs.DurableEventStore
import Cloudscale.Cqrs.Commands
import Cloudscale.Cqrs.Memo
import Cloudscale.Cqrs.SharedLog
import Cloudscale.Ledger.Resubmission
import Cloudscale.Lib.Relational
import Cloudscale.Application.RelatedStorages
import Cloudscale.Resilience.Retry
import Cloudscale.Adapters.Faults
import Cloudscale.Entrypoints.Http.Executor
import Cloudscale.Resilience.AtMostOnce
import Cloudscale.Adapters.Postgres.Database
import Cloudscale.Adapters.Postgres.CommandUnitOfWork
import Cloudscale.Postgres.Numbering
import Cloudscale.Postgres.Deciding
import Cloudscale.Postgres.Executing
import Cloudscale.Postgres.Attempts
import Cloudscale.Postgres.Deadlock
import Cloudscale.Postgres.Stores
import Cloudscale.Ledger.Serial
import Cloudscale.Postgres.Commits
import Cloudscale.Postgres.Serializability
import Cloudscale.Lib.Covering
import Cloudscale.Adapters.Postgres.Snapshots
import Cloudscale.Postgres.SoundSnapshots
import Cloudscale.Postgres.Snapshotting
import Cloudscale.Domain.Postings
import Cloudscale.Ledger.Applying
import Cloudscale.Ledger.Totality
import Cloudscale.Ledger.Fingerprint
import Cloudscale.Domain.Envelopes
import Cloudscale.Adapters.Selects
import Cloudscale.Domain.UpcastChain
import Cloudscale.Python.Numbers
import Cloudscale.Application.Snapshots
import Cloudscale.Projection.Expiry
import Cloudscale.Lib.TokenBucket
import Cloudscale.Entrypoints.Http.Limits
import Cloudscale.Adapters.Postgres.RateLimiter
import Cloudscale.RateLimiting.Agreement
import Cloudscale.RateLimiting.Budget
import Cloudscale.RateLimiting.Pruning
import Cloudscale.Scripts.SweepHolds
import Cloudscale.Projection.Sweeping
import Cloudscale.Projection.Claiming
import Cloudscale.Processes.Consumers
import Cloudscale.Processes.ParallelConsuming
import Cloudscale.Adapters.Postgres.EventStore
import Cloudscale.Postgres.Outbox
import Cloudscale.Postgres.Relaying
import Cloudscale.Postgres.Feeding
import Cloudscale.Projection.Feeds
import Cloudscale.Scripts.RestoreDrill
import Cloudscale.Projection.Rebuilding
import Cloudscale.Postgres.Rebuilding
import Cloudscale.Lib.JsonAscii
import Cloudscale.Lib.Following
import Cloudscale.Application.SnapshotTracker
import Cloudscale.Adapters.StreamSnapshots
import Cloudscale.Ledger.SoundSnapshots
import Cloudscale.Ledger.SnapshotTracking
import Cloudscale.Ledger.Snapshotting
import Cloudscale.Lib.Connections
import Cloudscale.Adapters.SqliteConnection
import Cloudscale.Projection.Interrupted
import Cloudscale.Processes.SqliteConsumer
import Cloudscale.Processes.SqliteBooks
import Cloudscale.Processes.SqliteConsuming
import Cloudscale.Processes.SqliteRetrying
