import DisaggregationFabric.Codec.Compositions

/-!
# The codecs of the wire

The part of `codec.hpp` that travels between the coordinator and its clients:
resources, paths, graphs and authority tuples as `codec.hpp` has them, and requests,
plans, compositions and reservations.

Most layouts are those of `persistence.cpp`, and the field lists are shared with it;
a nested decoder of `codec.hpp` closes with a test of the reader's flag. The request
has a codec of its own in each of the two files. Here it carries the reachability
waiver as well, and still neither the constraint on failure domains nor the extra
constraints.
-/

namespace DFabric

open Wire

variable {D : Type} [Double D] [DoubleBits D]

/-! ### Resources, paths, graphs, authority -/

/-- The capacity part of `EncodeResource`: no count is checked here. -/
def encodeCapacity (c : Capacity D) : List Token := .flatten [
  Write.dbl c.computeUnits, Write.dbl c.acceleratorMemoryBytes, Write.dbl c.hostMemoryBytes,
  Write.dbl c.expandedMemoryBytes, Write.dbl c.storageBytes, Write.dbl c.networkBandwidthMbps,
  Write.dbl c.networkLatencyUs, Write.numbers c.extra]

/-- `EncodeResource`. -/
def encodeResource (r : Resource D) : List Token := .flatten [
  Write.u64 r.id.value, Write.u64 r.generation.value,
  Write.enum r.resourceClass, Write.u64 r.nodeId.value,
  Write.str r.provider, Write.str r.authorityOwner, Write.flag r.synthetic,
  Write.enum r.health, Write.enum r.readiness, Write.enum r.reachability,
  encodeCapacity r.capacity, writeLocality r.locality, writeFailureDomain r.failureDomain,
  writeEvidence r.evidence,
  counted r.capabilities writeCapability, counted r.compatibility writeCompatibility]

/-- `DecodePath`. -/
def decodePath : Decoder (PathEvidence D) := .block (pathFields wireLimits decodeEvidence)

/-- `DecodeGraph`. -/
def decodeGraph : Decoder (ResourceGraph D) := .closed (graphFields wireLimits)

/-- `DecodeAuthority`. -/
def decodeAuthority : Decoder AuthorityTuple := .closed (authorityFields wireLimits)

/-! ### Requests -/

/-- `EncodeRequest`. -/
def encodeRequest (q : CompositionRequest D) : List Token := .flatten [
  Write.u64 q.computeUnits, Write.u32 q.acceleratorCount,
  counted q.acceleratorArchitectures Write.str,
  Write.dbl q.acceleratorMemoryBytes, Write.dbl q.hostMemoryBytes,
  Write.dbl q.expandedMemoryBytes, Write.dbl q.storageBytes,
  Write.u32 q.networkEndpointCount, Write.dbl q.minBandwidthMbps, Write.dbl q.maxLatencyUs,
  Write.classes q.mandatoryClasses, Write.classes q.optionalClasses,
  Write.flag q.requireDirectPath, Write.flag q.requireCoherence,
  Write.flag q.requirePersistence, Write.flag q.requireIsolation, Write.flag q.stagingAllowance,
  Write.flag q.ignoreReachability,
  Write.u64 q.compatibility.value,
  Write.u64 q.policy.value, Write.u64 q.policyGeneration.value,
  Write.u64 q.consumer.value, Write.u64 q.consumerGeneration.value]

/-- The statements of `DecodeRequest`. -/
def wireRequestFields : List (Decoder (CompositionRequest D)) := [
  Fill.u64 fun v q => { q with computeUnits := v },
  Fill.u32 fun v q => { q with acceleratorCount := v },
  Fill.list wireLimits (·.acceleratorArchitectures)
    (fun v q => { q with acceleratorArchitectures := v }) (.value (Reader.str wireLimits)),
  Fill.dbl fun v q => { q with acceleratorMemoryBytes := v },
  Fill.dbl fun v q => { q with hostMemoryBytes := v },
  Fill.dbl fun v q => { q with expandedMemoryBytes := v },
  Fill.dbl fun v q => { q with storageBytes := v },
  Fill.u32 fun v q => { q with networkEndpointCount := v },
  Fill.dbl fun v q => { q with minBandwidthMbps := v },
  Fill.dbl fun v q => { q with maxLatencyUs := v },
  Fill.classes wireLimits (·.mandatoryClasses) fun v q => { q with mandatoryClasses := v },
  Fill.classes wireLimits (·.optionalClasses) fun v q => { q with optionalClasses := v },
  Fill.flag fun v q => { q with requireDirectPath := v },
  Fill.flag fun v q => { q with requireCoherence := v },
  Fill.flag fun v q => { q with requirePersistence := v },
  Fill.flag fun v q => { q with requireIsolation := v },
  Fill.flag fun v q => { q with stagingAllowance := v },
  Fill.flag fun v q => { q with ignoreReachability := v },
  Fill.u64 fun v q => { q with compatibility := ⟨v⟩ },
  Fill.u64 fun v q => { q with policy := ⟨v⟩ },
  Fill.u64 fun v q => { q with policyGeneration := ⟨v⟩ },
  Fill.u64 fun v q => { q with consumer := ⟨v⟩ },
  Fill.u64 fun v q => { q with consumerGeneration := ⟨v⟩ }]

/-- `DecodeRequest`. -/
def decodeRequest : Decoder (CompositionRequest D) := .closed wireRequestFields

/-! ### Plans -/

/-- The factor part of `EncodePlan`. -/
def encodeFactor (f : RankingFactor D) : List Token := .flatten [
  Write.str f.name, Write.dbl f.weight, Write.dbl f.value, Write.str f.detail]

/-- The body of the factor loop of `DecodePlan`. -/
def factorFields : List (Decoder (RankingFactor D)) := [
  Fill.str wireLimits fun v f => { f with name := v },
  Fill.dbl fun v f => { f with weight := v },
  Fill.dbl fun v f => { f with value := v },
  Fill.str wireLimits fun v f => { f with detail := v }]

/-- `EncodePlan`. -/
def encodePlan (p : CompositionPlan D) : List Token := .flatten [
  Write.u64 p.id.value, Write.u64 p.generation.value,
  writeGraph p.graph, Write.ids p.nodes, encodeRequest p.request,
  Write.dbl p.rank.total, counted p.rank.factors encodeFactor,
  writeAuthority p.authority, Write.enum p.lifecycle, counted p.paths writePath]

/-- The statements of `DecodePlan`. -/
def planFields : List (Decoder (CompositionPlan D)) := [
  Fill.u64 fun v p => { p with id := ⟨v⟩ },
  Fill.u64 fun v p => { p with generation := ⟨v⟩ },
  .into (·.graph) (fun v p => { p with graph := v }) decodeGraph,
  Fill.ids wireLimits (·.nodes) fun v p => { p with nodes := v },
  .into (·.request) (fun v p => { p with request := v }) decodeRequest,
  Fill.dbl fun v p => { p with rank := { p.rank with total := v } },
  Fill.list wireLimits (·.rank.factors) (fun v p => { p with rank := { p.rank with factors := v } })
    (.block factorFields),
  .into (·.authority) (fun v p => { p with authority := v }) decodeAuthority,
  Fill.enum fun v p => { p with lifecycle := v },
  Fill.list wireLimits (·.paths) (fun v p => { p with paths := v }) decodePath]

/-- `DecodePlan`. -/
def decodePlan : Decoder (CompositionPlan D) := .closed planFields

/-! ### Compositions and reservations -/

/-- `EncodeComposition`. The factors of the rank are not sent. -/
def encodeComposition (c : Composition D) : List Token := .flatten [
  Write.u64 c.id.value, Write.u64 c.generation.value,
  Write.u64 c.resourceSetId.value, Write.u64 c.resourceSetGeneration.value,
  Write.ids c.nodes, encodeRequest c.request, writeGraph c.graph, writeAuthority c.authority,
  Write.enum c.lifecycle, Write.u64 c.reservation.value, Write.enum c.outcome,
  Write.dbl c.rank.total, counted c.paths writePath, Write.str c.explanation]

/-- The statements of `DecodeComposition`. -/
def wireCompositionFields : List (Decoder (Composition D)) := [
  Fill.u64 fun v c => { c with id := ⟨v⟩ },
  Fill.u64 fun v c => { c with generation := ⟨v⟩ },
  Fill.u64 fun v c => { c with resourceSetId := ⟨v⟩ },
  Fill.u64 fun v c => { c with resourceSetGeneration := ⟨v⟩ },
  Fill.ids wireLimits (·.nodes) fun v c => { c with nodes := v },
  .into (·.request) (fun v c => { c with request := v }) decodeRequest,
  .into (·.graph) (fun v c => { c with graph := v }) decodeGraph,
  .into (·.authority) (fun v c => { c with authority := v }) decodeAuthority,
  Fill.enum fun v c => { c with lifecycle := v },
  Fill.u64 fun v c => { c with reservation := ⟨v⟩ },
  Fill.enum fun v c => { c with outcome := v },
  Fill.dbl fun v c => { c with rank := { c.rank with total := v } },
  Fill.list wireLimits (·.paths) (fun v c => { c with paths := v }) decodePath,
  Fill.str wireLimits fun v c => { c with explanation := v }]

/-- `DecodeComposition`. -/
def decodeComposition : Decoder (Composition D) := .closed wireCompositionFields

/-- The item part of `EncodeReservation`. -/
def encodeItem (i : ReservationItem D) : List Token := .flatten [
  Write.u64 i.resource.value, Write.enum i.state, Write.dbl i.reservedAmount]

/-- The body of the item loop of `DecodeReservation`. -/
def itemFields : List (Decoder (ReservationItem D)) := [
  Fill.u64 fun v i => { i with resource := ⟨v⟩ },
  Fill.enum fun v i => { i with state := v },
  Fill.dbl fun v i => { i with reservedAmount := v }]

/-- `EncodeReservation`. -/
def encodeReservation (r : Reservation D) : List Token := .flatten [
  Write.u64 r.id.value, Write.u64 r.generation.value, Write.u64 r.composition.value,
  counted r.items encodeItem, Write.enum r.state]

/-- The statements of `DecodeReservation`. -/
def reservationFields : List (Decoder (Reservation D)) := [
  Fill.u64 fun v r => { r with id := ⟨v⟩ },
  Fill.u64 fun v r => { r with generation := ⟨v⟩ },
  Fill.u64 fun v r => { r with composition := ⟨v⟩ },
  Fill.list wireLimits (·.items) (fun v r => { r with items := v }) (.block itemFields),
  Fill.enum fun v r => { r with state := v }]

/-- `DecodeReservation`. -/
def decodeReservation : Decoder (Reservation D) := .closed reservationFields

end DFabric
