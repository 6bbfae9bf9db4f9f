import PushMetrics.Agent.Backoff
import PushMetrics.Agent.Collection
import PushMetrics.Agent.Config
import PushMetrics.Agent.Delivery
import PushMetrics.Agent.DeliveryError
import PushMetrics.Agent.Endpoint
import PushMetrics.Agent.Event
import PushMetrics.Agent.Host
import PushMetrics.Agent.Queue
import PushMetrics.Agent.Retry
import PushMetrics.Agent.Schedule
import PushMetrics.Agent.Semaphore
import PushMetrics.Agent.State
import PushMetrics.Agent.Transport
import PushMetrics.Collector.Config
import PushMetrics.Collector.Opening
import PushMetrics.Collector.Serving
import PushMetrics.CommandLine
import PushMetrics.Config.Variables
import PushMetrics.Dict
import PushMetrics.Http.Failure
import PushMetrics.Http.Message
import PushMetrics.Http.Service
import PushMetrics.Http.Update
import PushMetrics.Json.Token
import PushMetrics.Json.Value
import PushMetrics.Json.Writer
import PushMetrics.Lock.Named
import PushMetrics.Lock.Registry
import PushMetrics.Main
import PushMetrics.Manager
import PushMetrics.Manager.Layering
import PushMetrics.Manager.Traffic
import PushMetrics.Metric.Basic
import PushMetrics.Metric.Parse
import PushMetrics.Metric.Payload
import PushMetrics.Net.SocketAddress
import PushMetrics.Number.Binary64
import PushMetrics.Number.Decimal
import PushMetrics.Number.Integer
import PushMetrics.Number.Layout
import PushMetrics.Number.Shortest
import PushMetrics.Permits
import PushMetrics.Proofs.Agent.Abandoning
import PushMetrics.Proofs.Agent.Acquisition
import PushMetrics.Proofs.Agent.Admission
import PushMetrics.Proofs.Agent.Backoff
import PushMetrics.Proofs.Agent.Bounds
import PushMetrics.Proofs.Agent.Collection
import PushMetrics.Proofs.Agent.Conservation
import PushMetrics.Proofs.Agent.Delivery
import PushMetrics.Proofs.Agent.Lifecycle
import PushMetrics.Proofs.Agent.Moves
import PushMetrics.Proofs.Agent.Pushing
import PushMetrics.Proofs.Agent.Queue
import PushMetrics.Proofs.Agent.Retry
import PushMetrics.Proofs.Agent.Rounds
import PushMetrics.Proofs.Agent.Semaphore
import PushMetrics.Proofs.Agent.Stages
import PushMetrics.Proofs.Agent.Starting
import PushMetrics.Proofs.Collector.Lifetime
import PushMetrics.Proofs.Collector.Serving
import PushMetrics.Proofs.Dict
import PushMetrics.Proofs.Http.Answers
import PushMetrics.Proofs.Http.Failure
import PushMetrics.Proofs.Http.Service
import PushMetrics.Proofs.Http.Update
import PushMetrics.Proofs.Http.Wire
import PushMetrics.Proofs.Json.Grammar
import PushMetrics.Proofs.Json.Reading
import PushMetrics.Proofs.Lock.Eviction
import PushMetrics.Proofs.Lock.Granularity
import PushMetrics.Proofs.Lock.Ownership
import PushMetrics.Proofs.Lock.Registry
import PushMetrics.Proofs.Manager.Concurrency
import PushMetrics.Proofs.Manager.Failure
import PushMetrics.Proofs.Manager.Grouping
import PushMetrics.Proofs.Manager.Layering
import PushMetrics.Proofs.Manager.Merging
import PushMetrics.Proofs.Manager.Progress
import PushMetrics.Proofs.Manager.Running
import PushMetrics.Proofs.Manager.Serializability
import PushMetrics.Proofs.Manager.Serving
import PushMetrics.Proofs.Metric.Grammar
import PushMetrics.Proofs.Metric.Text
import PushMetrics.Proofs.Number.Accuracy
import PushMetrics.Proofs.Number.Grammar
import PushMetrics.Proofs.Number.Nearest
import PushMetrics.Proofs.Number.Reading
import PushMetrics.Proofs.Number.Rounding
import PushMetrics.Proofs.Number.Shortest
import PushMetrics.Proofs.Number.Truncation
import PushMetrics.Proofs.Permits
import PushMetrics.Proofs.Run
import PushMetrics.Proofs.Snapshot.Codec
import PushMetrics.Proofs.Snapshot.Publication
import PushMetrics.Proofs.Snapshot.Reading
import PushMetrics.Proofs.Sql.Migration
import PushMetrics.Proofs.Sql.Table
import PushMetrics.Proofs.Store.Closing
import PushMetrics.Proofs.Store.Contents
import PushMetrics.Proofs.Store.Disk
import PushMetrics.Proofs.Store.Dumping
import PushMetrics.Proofs.Store.Enumeration
import PushMetrics.Proofs.Store.Exactness
import PushMetrics.Proofs.Store.Faults
import PushMetrics.Proofs.Store.Operations
import PushMetrics.Proofs.Store.Publishing
import PushMetrics.Proofs.Store.Realization
import PushMetrics.Proofs.Store.Reference
import PushMetrics.Proofs.Store.Restart
import PushMetrics.Proofs.Store.Resting
import PushMetrics.Proofs.Store.Restorable
import PushMetrics.Proofs.Store.Restoring
import PushMetrics.Proofs.Store.Retrieval
import PushMetrics.Proofs.Store.Scan
import PushMetrics.Proofs.Store.Session
import PushMetrics.Proofs.Store.Steps
import PushMetrics.Proofs.Store.WellFormed
import PushMetrics.Proofs.Store.WriteThrough
import PushMetrics.Proofs.Store.Writing
import PushMetrics.Proofs.Text.Lines
import PushMetrics.Proofs.Text.Utf8
import PushMetrics.Proofs.Time.Seconds
import PushMetrics.Snapshot.Publication
import PushMetrics.Snapshot.Record
import PushMetrics.Sql.Migration
import PushMetrics.Sql.Schema
import PushMetrics.Sql.Source
import PushMetrics.Sql.Statement
import PushMetrics.Sql.Transaction
import PushMetrics.Store.Backend
import PushMetrics.Store.Clock
import PushMetrics.Store.Disk
import PushMetrics.Store.Enumeration
import PushMetrics.Store.Error
import PushMetrics.Store.Faults
import PushMetrics.Store.Layered
import PushMetrics.Store.Memory
import PushMetrics.Store.Retrieval
import PushMetrics.Store.Scan
import PushMetrics.Store.Storage
import PushMetrics.Store.World
import PushMetrics.Text.Blank
import PushMetrics.Text.Cased
import PushMetrics.Text.Lines
import PushMetrics.Text.Lowercase
import PushMetrics.Text.Quoted
import PushMetrics.Text.Unprintable
import PushMetrics.Text.Utf8
import PushMetrics.Time.Span
