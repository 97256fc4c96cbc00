import DisaggregationFabric.Lib.Double
import DisaggregationFabric.Lib.Words
import DisaggregationFabric.Lib.Maps
import DisaggregationFabric.Lib.Ledger
import DisaggregationFabric.Lib.Wire
import DisaggregationFabric.Lib.Decoder
import DisaggregationFabric.Lib.Following
import DisaggregationFabric.Lib.Partial
import DisaggregationFabric.Lib.Program
import DisaggregationFabric.Lib.Cursor
import DisaggregationFabric.Lib.Layout
import DisaggregationFabric.Lib.Run
import DisaggregationFabric.Lib.Interleaving
import DisaggregationFabric.Lib.Stream
import DisaggregationFabric.Lib.Link
import DisaggregationFabric.Lib.Dialogue
import DisaggregationFabric.Lib.Sorting
import DisaggregationFabric.Lib.Bounded
import DisaggregationFabric.Lib.Combinations
import DisaggregationFabric.Lib.Hash
import DisaggregationFabric.Model.Basic
import DisaggregationFabric.Model.Types
import DisaggregationFabric.Engine.Planner
import DisaggregationFabric.Engine.State
import DisaggregationFabric.Engine.Compose
import DisaggregationFabric.Engine.Transaction
import DisaggregationFabric.Engine.Admission
import DisaggregationFabric.Engine.Refresh
import DisaggregationFabric.Backends.Synthetic
import DisaggregationFabric.Codec.Records
import DisaggregationFabric.Codec.Compositions
import DisaggregationFabric.Codec.Messages
import DisaggregationFabric.Codec.Sizes
import DisaggregationFabric.Codec.Storable
import DisaggregationFabric.Engine.Bounds
import DisaggregationFabric.Codec.Roundtrip
import DisaggregationFabric.Codec.Texts
import DisaggregationFabric.Codec.Transfer
import DisaggregationFabric.Codec.Sendable
import DisaggregationFabric.Codec.Durable
import DisaggregationFabric.Codec.Corruption
import DisaggregationFabric.Codec.Layouts
import DisaggregationFabric.Codec.Truncation
import DisaggregationFabric.Codec.Wellformed
import DisaggregationFabric.Codec.Accepted
import DisaggregationFabric.Codec.Replacement
import DisaggregationFabric.Engine.System
import DisaggregationFabric.Engine.Effects
import DisaggregationFabric.Engine.Footprints
import DisaggregationFabric.Engine.Tables
import DisaggregationFabric.Engine.Discovery
import DisaggregationFabric.Safety.Authority
import DisaggregationFabric.Safety.Backing
import DisaggregationFabric.Safety.Holds
import DisaggregationFabric.Safety.Orphans
import DisaggregationFabric.Safety.Binding
import DisaggregationFabric.Safety.Epochs
import DisaggregationFabric.Safety.Dependants
import DisaggregationFabric.Safety.Revalidation
import DisaggregationFabric.Safety.Identities
import DisaggregationFabric.Safety.Durability
import DisaggregationFabric.Safety.Constraints
import DisaggregationFabric.Engine.Order
import DisaggregationFabric.Engine.Combinations
import DisaggregationFabric.Engine.Soundness
import DisaggregationFabric.Engine.Evaluation
import DisaggregationFabric.Engine.Completeness
import DisaggregationFabric.Engine.Placement
import DisaggregationFabric.Engine.Sites
import DisaggregationFabric.Engine.Acceptance
import DisaggregationFabric.Safety.Isolation
import DisaggregationFabric.Safety.Progress
import DisaggregationFabric.Safety.Recomposition
import DisaggregationFabric.Safety.LostUpdates
import DisaggregationFabric.Safety.Undo
import DisaggregationFabric.Safety.Atomicity
import DisaggregationFabric.Safety.Handover
import DisaggregationFabric.Safety.Capabilities
import DisaggregationFabric.Safety.Requirements
import DisaggregationFabric.Safety.Domains
import DisaggregationFabric.Safety.Evidence
import DisaggregationFabric.Safety.Connectivity
import DisaggregationFabric.Protocol.Frames
import DisaggregationFabric.Protocol.Framing
import DisaggregationFabric.Protocol.Connection
import DisaggregationFabric.Protocol.Corruption
import DisaggregationFabric.Deploy.Coordinator
import DisaggregationFabric.Deploy.Malformed
import DisaggregationFabric.Deploy.Inventory
import DisaggregationFabric.Deploy.Responses
import DisaggregationFabric.Deploy.Delivery
import DisaggregationFabric.Deploy.Workers
import DisaggregationFabric.Deploy.Worker
import DisaggregationFabric.Deploy.Registration
import DisaggregationFabric.Deploy.Exchange
import DisaggregationFabric.Deploy.Ownership
import DisaggregationFabric.Lib.Locks
import DisaggregationFabric.Safety.Locks
import DisaggregationFabric.Safety.Lifecycles
import DisaggregationFabric.Lib.Writes
import DisaggregationFabric.Safety.Rediscovery
import DisaggregationFabric.Deploy.Remote
