import RelayPoint.Concurrency.Pool
import RelayPoint.Journal.Broker
import RelayPoint.Data.Sha256
import RelayPoint.Signaling.Envelope
import RelayPoint.Data.FifoCache
import RelayPoint.Signaling.Participation
import RelayPoint.Signaling.State
import RelayPoint.Signaling.Machine
import RelayPoint.Signaling.Admission
import RelayPoint.Signaling.Router
import RelayPoint.Signaling.Provenance
import RelayPoint.Signaling.Outline
import RelayPoint.Signaling.Execution
import RelayPoint.Signaling.Coherence
import RelayPoint.Signaling.LogLaws
import RelayPoint.Signaling.Dedup
import RelayPoint.Signaling.Accept
import RelayPoint.Signaling.Verdict
import RelayPoint.Signaling.Binding
import RelayPoint.Concurrency.Takeover
import RelayPoint.Data.FinmapOps
import RelayPoint.Projector.Coverage
import RelayPoint.Projector.State
import RelayPoint.Projector.Machine
import RelayPoint.Projector.Worker
import RelayPoint.Projector.Outline
import RelayPoint.Projector.Execution
import RelayPoint.Projector.Fanout
import RelayPoint.Projector.Delivery
import RelayPoint.Data.Table
import RelayPoint.Data.Wire
import RelayPoint.Journal.Checkpoint
import RelayPoint.Participation.Command
import RelayPoint.Participation.Store
import RelayPoint.Participation.Apply
import RelayPoint.Participation.Effects
import RelayPoint.Participation.Execution
import RelayPoint.Participation.Consistency
import RelayPoint.Participation.Loss
import RelayPoint.Concurrency.Serial
import RelayPoint.Participation.Recovery
import RelayPoint.Participation.Convergence
import RelayPoint.Delivery.Message
import RelayPoint.Delivery.Store
import RelayPoint.Data.UuidText
import RelayPoint.RouteProjection.Fact
import RelayPoint.RouteProjection.Store
import RelayPoint.RouteProjection.Apply
import RelayPoint.Delivery.Acceptance
import RelayPoint.RouteProjection.Effects
import RelayPoint.RouteProjection.Visibility
import RelayPoint.RouteProjection.Recovery
import RelayPoint.Concurrency.Trace
import RelayPoint.Projector.Fence
import RelayPoint.Projector.Lease
import RelayPoint.Projector.Tenure
import RelayPoint.Projector.SingleActive
import RelayPoint.Authcallout.Grants
import RelayPoint.Authcallout.Confinement
import RelayPoint.Authcallout.RoleAgreement
import RelayPoint.Signaling.Authorship
import RelayPoint.Signaling.Interaction
import RelayPoint.Signaling.Refinement
import RelayPoint.Signaling.Isolation
import RelayPoint.Projector.Isolation
import RelayPoint.Projector.Membership
import RelayPoint.Journal.Register
import RelayPoint.Projector.KvLease
import RelayPoint.Concurrency.Moves
import RelayPoint.Signaling.Rejection
import RelayPoint.Signaling.Transfer
import RelayPoint.Journal.Consumer
import RelayPoint.Signaling.Replay
import RelayPoint.Projector.FoldRange
import RelayPoint.Sdk.Delivery
import RelayPoint.Sdk.Ordering
import RelayPoint.Projector.Publishing
import RelayPoint.Projector.Pipeline
import RelayPoint.Authcallout.FeedIsolation
import RelayPoint.Data.Protobuf
import RelayPoint.Sdk.Schema
import RelayPoint.Sdk.Codec
import RelayPoint.Sdk.Feed
import RelayPoint.Sdk.Client
import RelayPoint.Sdk.Readable
import RelayPoint.Sdk.GivingUp
import RelayPoint.Sdk.Reconnect
import RelayPoint.Sdk.Faults
import RelayPoint.Delivery.Receipt
import RelayPoint.Delivery.Outbox
import RelayPoint.Delivery.Acknowledgement
import RelayPoint.Participation.Custody
import RelayPoint.Participation.Holding
import RelayPoint.Participation.Snapshots
import RelayPoint.Participation.Attempts
import RelayPoint.RouteProjection.Snapshots
import RelayPoint.RouteProjection.Batches
import RelayPoint.Projector.Settings
import RelayPoint.Signaling.ResultCache
import RelayPoint.Data.Framed
import RelayPoint.Delivery.Preimages
import RelayPoint.Authcallout.VisitorKeys
import RelayPoint.Projector.FenceRuns
import RelayPoint.Projector.Release
import RelayPoint.Projector.Revocation
import RelayPoint.Sdk.Connection
import RelayPoint.Signaling.Eviction
