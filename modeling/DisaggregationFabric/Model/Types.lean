import DisaggregationFabric.Lib.Double
import DisaggregationFabric.Lib.Maps
import DisaggregationFabric.Model.Basic

/-!
# Records

The data model of `model.hpp`, `requirement.hpp`, `graph.hpp`, `authority.hpp`,
`composition.hpp` and `persistence.hpp`, over a type `D` of double-precision numbers. The
`Inhabited` instances give the value a record has when it is default-constructed.

`Resource`, `Node`, `Composition` and the rest carry every field of the source,
in the source's order of meaning; a field the engine never reads (a node's
hostname, say) is still part of what is saved and sent.
-/

namespace DFabric

/-! ### Resources, nodes and evidence -/

/-- Aggregate capacity a resource exposes. -/
structure Capacity (D : Type) where
  computeUnits : D
  acceleratorMemoryBytes : D
  hostMemoryBytes : D
  expandedMemoryBytes : D
  storageBytes : D
  networkBandwidthMbps : D
  networkLatencyUs : D
  /-- Extension dimensions. -/
  extra : OrdMap Str D

/-- A single capability claim. -/
structure Capability where
  kind : CapabilityKind
  state : CapabilityState
  generation : CapabilityGeneration
  evidence : EvidenceId
  detail : Str

/-- A named compatibility facet and its expected value. -/
structure CompatibilityPin where
  name : Str
  value : Str
  generation : CompatibilityGeneration

/-- A compatibility claim. -/
structure Compatibility where
  id : CompatibilityId
  generation : CompatibilityGeneration
  pins : List CompatibilityPin

/-- A failure domain. -/
structure FailureDomain (D : Type) where
  id : FailureDomainId
  type : FailureDomainType
  name : Str
  synthetic : Bool
  localityCoords : OrdMap Str D

/-- A dynamic evidence record. -/
structure Evidence (D : Type) where
  id : EvidenceId
  generation : EvidenceGeneration
  source : EvidenceSource
  state : EvidenceState
  timestampMs : UInt64
  /-- Accepted age; zero means that the evidence must be revalidated. -/
  maxAgeMs : UInt64
  confidence : D
  provenance : Str
  /-- The worker boot, as a decimal string, or a backend label. -/
  owner : Str
  /-- Independently durable, not live worker authority. -/
  durable : Bool

/-- Evidence is current unless it is stale, awaits revalidation, or has no
accepted age. -/
def Evidence.isCurrent {D : Type} (e : Evidence D) : Bool :=
  e.state != .stale && e.state != .revalidationRequired && e.maxAgeMs != 0

/-- Locality coordinates. -/
structure Locality (D : Type) where
  coords : List D
  tags : OrdMap Str D

/-- A resource instance. -/
structure Resource (D : Type) where
  id : ResourceId
  generation : ResourceGeneration
  resourceClass : ResourceClass
  nodeId : NodeId
  provider : Str
  capabilities : List Capability
  compatibility : List Compatibility
  capacity : Capacity D
  health : ResourceHealth
  readiness : Readiness
  reachability : Reachability
  locality : Locality D
  failureDomain : FailureDomain D
  evidence : Evidence D
  authorityOwner : Str
  synthetic : Bool

/-- A node. -/
structure Node (D : Type) where
  id : NodeId
  generation : NodeGeneration
  hostname : Str
  provider : Str
  backend : BackendKind
  inventory : List ResourceId
  failureDomain : FailureDomain D
  locality : Locality D
  reachability : Reachability
  health : ResourceHealth
  workerOwner : Str
  workerBoot : WorkerBootId
  evidenceFreshnessMs : UInt64
  lifecycle : NodeLifecycle
  synthetic : Bool

/-- What a path between two nodes has to offer. -/
structure PathRequirement (D : Type) where
  source : NodeId
  target : NodeId
  minBandwidthMbps : D
  maxLatencyUs : D
  required : Bool
  direct : Bool
  protocol : Str

/-- Evidence that a path exists. -/
structure PathEvidence (D : Type) where
  id : PathEvidenceId
  generation : PathGeneration
  requirement : PathRequirement D
  available : Bool
  bandwidthMbps : D
  latencyUs : D
  verified : Bool
  provider : Str
  source : Str
  evidence : Evidence D

/-! ### Requests -/

/-- Placement and shared-risk constraints. -/
structure FailureDomainConstraint where
  topology : TopologyConstraint
  maxSharedRisk : UInt32
  allowedTypes : List FailureDomainType
deriving DecidableEq

/-- What a consumer asks for. -/
structure CompositionRequest (D : Type) where
  computeUnits : UInt64
  acceleratorCount : UInt32
  acceleratorArchitectures : List Str
  acceleratorMemoryBytes : D
  hostMemoryBytes : D
  expandedMemoryBytes : D
  storageBytes : D
  networkEndpointCount : UInt32
  minBandwidthMbps : D
  maxLatencyUs : D
  mandatoryClasses : OrdSet ResourceClass
  optionalClasses : OrdSet ResourceClass
  requireDirectPath : Bool
  requireCoherence : Bool
  requirePersistence : Bool
  requireIsolation : Bool
  stagingAllowance : Bool
  ignoreReachability : Bool
  compatibility : CompatibilityId
  failureDomain : FailureDomainConstraint
  policy : PolicyId
  policyGeneration : PolicyGeneration
  consumer : ConsumerId
  consumerGeneration : ConsumerGeneration
  constraints : OrdMap Str D

/-! ### Graphs, plans, compositions and reservations -/

/-- A required relationship between two members. -/
structure GraphEdge (D : Type) where
  source : ResourceId
  target : ResourceId
  kind : GraphEdgeKind
  required : Bool
  minBandwidthMbps : D
  maxLatencyUs : D
  protocol : Str
  compatFacet : Str

/-- A resource set with its required relationships. -/
structure ResourceGraph (D : Type) where
  vertices : List ResourceId
  edges : List (GraphEdge D)

/-- Add a vertex unless it is there already. -/
def ResourceGraph.addVertex {D : Type} (g : ResourceGraph D) (id : ResourceId) : ResourceGraph D :=
  if id ∈ g.vertices then g else { g with vertices := g.vertices ++ [id] }

/-- The generations a composition is bound to. -/
structure AuthorityTuple where
  coordinatorEpoch : CoordinatorEpoch
  workerBoots : List WorkerBootId
  nodeGenerations : List NodeGeneration
  resourceGenerations : List ResourceGeneration
  pathGenerations : List PathGeneration
  capabilityGenerations : List CapabilityGeneration
  compatibilityGenerations : List CompatibilityGeneration
  policyGeneration : PolicyGeneration
  evidenceGenerations : List EvidenceGeneration
  reservationGenerations : List ReservationGeneration
  compositionGeneration : CompositionGeneration

/-- A named ranking factor. -/
structure RankingFactor (D : Type) where
  name : Str
  weight : D
  value : D
  detail : Str

/-- A ranking. -/
structure RankScore (D : Type) where
  total : D
  factors : List (RankingFactor D)

/-- A plan returned by `Compose`. -/
structure CompositionPlan (D : Type) where
  id : CompositionId
  generation : CompositionGeneration
  graph : ResourceGraph D
  nodes : List NodeId
  request : CompositionRequest D
  rank : RankScore D
  authority : AuthorityTuple
  lifecycle : CompositionLifecycle
  paths : List (PathEvidence D)

/-- A stored composition. -/
structure Composition (D : Type) where
  id : CompositionId
  generation : CompositionGeneration
  resourceSetId : ResourceSetId
  resourceSetGeneration : ResourceSetGeneration
  graph : ResourceGraph D
  nodes : List NodeId
  request : CompositionRequest D
  authority : AuthorityTuple
  lifecycle : CompositionLifecycle
  rank : RankScore D
  reservation : ReservationId
  paths : List (PathEvidence D)
  outcome : CompositionOutcome
  explanation : Str

/-- The hold of one member. -/
structure ReservationItem (D : Type) where
  resource : ResourceId
  state : ReservationState
  reservedAmount : D

/-- A reservation of a whole resource set. -/
structure Reservation (D : Type) where
  id : ReservationId
  generation : ReservationGeneration
  composition : CompositionId
  items : List (ReservationItem D)
  state : ReservationState

/-- The durable part of the engine's state. -/
structure DurableState (D : Type) where
  epoch : CoordinatorEpoch
  nodes : List (Node D)
  resources : List (Resource D)
  policies : OrdMap PolicyId PolicyGeneration
  compositions : List (Composition D)

/-! ### Default-constructed records -/

instance : Inhabited Capability := ⟨⟨.unknown, .unknown, default, default, []⟩⟩

instance : Inhabited CompatibilityPin := ⟨⟨[], [], default⟩⟩

instance : Inhabited Compatibility := ⟨⟨default, default, []⟩⟩

instance : Inhabited AuthorityTuple :=
  ⟨⟨default, [], [], [], [], [], [], default, [], [], default⟩⟩

instance : Inhabited FailureDomainConstraint := ⟨⟨.none, 0, []⟩⟩

section Default

variable {D : Type} [Double D]

instance : Inhabited (Capacity D) :=
  ⟨⟨Double.zero, Double.zero, Double.zero, Double.zero, Double.zero, Double.zero, Double.zero,
    default⟩⟩

instance : Inhabited (FailureDomain D) := ⟨⟨default, .unknown, [], false, default⟩⟩

instance : Inhabited (Evidence D) :=
  ⟨⟨default, default, .unknown, .provenanceUnknown, 0, 0, Double.zero, [], [], false⟩⟩

instance : Inhabited (Locality D) := ⟨⟨[], default⟩⟩

instance : Inhabited (Resource D) :=
  ⟨⟨default, default, .unknown, default, [], [], [], default, .unknown, .unknown, .unknown,
    default, default, default, [], false⟩⟩

instance : Inhabited (Node D) :=
  ⟨⟨default, default, [], [], .unknown, [], default, default, .unknown, .unknown, [], default, 0,
    .discovered, false⟩⟩

instance : Inhabited (PathRequirement D) :=
  ⟨⟨default, default, Double.zero, Double.zero, false, false, []⟩⟩

instance : Inhabited (PathEvidence D) :=
  ⟨⟨default, default, default, false, Double.zero, Double.zero, false, [], [], default⟩⟩

instance : Inhabited (CompositionRequest D) :=
  ⟨⟨0, 0, [], Double.zero, Double.zero, Double.zero, Double.zero, 0, Double.zero, Double.zero,
    default, default, false, false, false, false, false, false, default, default, default,
    default, default, default, default⟩⟩

instance : Inhabited (GraphEdge D) :=
  ⟨⟨default, default, .reachability, true, Double.zero, Double.zero, [], []⟩⟩

instance : Inhabited (ResourceGraph D) := ⟨⟨[], []⟩⟩

instance : Inhabited (RankingFactor D) := ⟨⟨[], Double.one, Double.zero, []⟩⟩

instance : Inhabited (RankScore D) := ⟨⟨Double.zero, []⟩⟩

instance : Inhabited (CompositionPlan D) :=
  ⟨⟨default, default, default, [], default, default, default, .planned, []⟩⟩

instance : Inhabited (Composition D) :=
  ⟨⟨default, default, default, default, default, [], default, default, .requested, default,
    default, [], .outcomeUnknown, []⟩⟩

instance : Inhabited (ReservationItem D) := ⟨⟨default, .none, Double.zero⟩⟩

instance : Inhabited (Reservation D) := ⟨⟨default, default, default, [], .none⟩⟩

end Default

end DFabric
