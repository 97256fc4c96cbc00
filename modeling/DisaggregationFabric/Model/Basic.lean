import DisaggregationFabric.Lib.Words

/-!
# Identities and enumerations

The strongly typed identities of `ids.hpp` and the enumerations of `enums.hpp`
(with the edge kinds of `graph.hpp`).

An identity or a generation is a 64-bit word bound to a tag; zero is the invalid
value. An enumeration carries the integral value that persistence and protocol
write, and `EnumTraits` the canonical range `1 … maxValue` a decoder accepts.
Values outside that range exist only where the table lists a zero sentinel (and
for `RejectionReason`, whose `unknown` is all ones).
-/

namespace DFabric

/-- A `std::string`: a sequence of bytes. -/
abbrev Str : Type := List UInt8

/-- The bytes of a string literal. -/
def str (s : String) : Str := s.toUTF8.toList

/-! ### Identities -/

/-- The kinds of identity and generation. -/
inductive Tag where
  | resource | resourceSet | composition | node | capability | compatibility | pathEvidence
  | reservation | policy | evidence | workerBoot | coordinator | failureDomain | consumer

/-- A 64-bit identity bound to a tag, so that distinct kinds do not mix. -/
structure StrongId (T : Tag) where
  /-- The numeric value; zero is invalid. -/
  value : UInt64
deriving DecidableEq

/-- A 64-bit generation bound to a tag. -/
structure StrongGeneration (T : Tag) where
  /-- The numeric value; zero is invalid. -/
  value : UInt64
deriving DecidableEq

/-- Decimal rendering, as `std::to_string`. -/
def toDecimal (v : UInt64) : Str := (Nat.toDigits 10 v.toNat).map fun c => c.toNat.toUInt8

/-- The byte of a decimal digit. -/
theorem toNat_digit {c : Char} (h : c.isDigit = true) :
    c.toNat.toUInt8.toNat = c.toNat ∧ 48 ≤ c.toNat := by
  have hrange : 48 ≤ c.toNat ∧ c.toNat ≤ 57 := by
    simp only [Char.isDigit, Bool.and_eq_true, decide_eq_true_eq] at h
    exact h
  refine ⟨?_, hrange.1⟩
  rw [Nat.toUInt8, UInt8.toNat_ofNat']
  omega

/-- The rendering determines the number. -/
theorem toDecimal_injective : Function.Injective toDecimal := by
  intro v w h
  -- the bytes are those of the digits, and the digits give the number back
  have hdigits : ∀ n : ℕ, ((Nat.toDigits 10 n).map fun c => c.toNat.toUInt8).map
      (fun b => Char.ofNat b.toNat) = Nat.toDigits 10 n := by
    intro n
    rw [List.map_map]
    refine (List.map_congr_left ?_).trans (List.map_id _)
    intro c hc
    have hd := toNat_digit (Nat.isDigit_of_mem_toDigits (by decide) (by decide) hc)
    simp only [Function.comp_apply, hd.1, Char.ofNat_toNat, id_eq]
  have heq : Nat.toDigits 10 v.toNat = Nat.toDigits 10 w.toNat := by
    rw [← hdigits v.toNat, ← hdigits w.toNat]
    exact congrArg _ h
  have hnat : v.toNat = w.toNat := by
    rw [← Nat.ofDigitChars_ten_toDigits (n := v.toNat), heq, Nat.ofDigitChars_ten_toDigits]
  exact UInt64.toNat_inj.mp hnat

/-- A rendering has no character below the digits. -/
theorem notMem_toDecimal {b : UInt8} (h : b.toNat < 48) (v : UInt64) : b ∉ toDecimal v := by
  intro hb
  obtain ⟨c, hc, rfl⟩ := List.mem_map.mp hb
  have hd := toNat_digit (Nat.isDigit_of_mem_toDigits (by decide) (by decide) hc)
  rw [hd.1] at h
  omega

/-- A rendering has twenty digits at most. -/
theorem length_toDecimal_le (v : UInt64) : (toDecimal v).length ≤ 20 := by
  rw [toDecimal, List.length_map, Nat.length_toDigits_le_iff (by decide) (by decide)]
  exact v.toNat_lt.trans (by decide)

namespace StrongId

variable {T : Tag}

instance : Inhabited (StrongId T) := ⟨⟨0⟩⟩

/-- An identity is valid when it is not zero. -/
def isValid (a : StrongId T) : Bool := a.value != 0

/-- `ToString`. -/
def toStr (a : StrongId T) : Str := toDecimal a.value

theorem value_injective : Function.Injective (value : StrongId T → UInt64) := by
  rintro ⟨a⟩ ⟨b⟩ h
  exact congrArg _ h

instance : LinearOrder (StrongId T) := LinearOrder.lift' value value_injective

instance : LawfulBEq (StrongId T) := inferInstance

@[simp] theorem isValid_iff {a : StrongId T} : a.isValid = true ↔ a.value ≠ 0 := by
  simp [isValid]

end StrongId

namespace StrongGeneration

variable {T : Tag}

instance : Inhabited (StrongGeneration T) := ⟨⟨0⟩⟩

/-- A generation is valid when it is not zero. -/
def isValid (a : StrongGeneration T) : Bool := a.value != 0

end StrongGeneration

abbrev ResourceId : Type := StrongId .resource
abbrev ResourceGeneration : Type := StrongGeneration .resource
abbrev ResourceSetId : Type := StrongId .resourceSet
abbrev ResourceSetGeneration : Type := StrongGeneration .resourceSet
abbrev CompositionId : Type := StrongId .composition
abbrev CompositionGeneration : Type := StrongGeneration .composition
abbrev NodeId : Type := StrongId .node
abbrev NodeGeneration : Type := StrongGeneration .node
abbrev CapabilityGeneration : Type := StrongGeneration .capability
abbrev CompatibilityId : Type := StrongId .compatibility
abbrev CompatibilityGeneration : Type := StrongGeneration .compatibility
abbrev PathEvidenceId : Type := StrongId .pathEvidence
abbrev PathGeneration : Type := StrongGeneration .pathEvidence
abbrev ReservationId : Type := StrongId .reservation
abbrev ReservationGeneration : Type := StrongGeneration .reservation
abbrev PolicyId : Type := StrongId .policy
abbrev PolicyGeneration : Type := StrongGeneration .policy
abbrev EvidenceId : Type := StrongId .evidence
abbrev EvidenceGeneration : Type := StrongGeneration .evidence
abbrev WorkerBootId : Type := StrongId .workerBoot
abbrev CoordinatorId : Type := StrongId .coordinator
abbrev CoordinatorEpoch : Type := StrongGeneration .coordinator
abbrev FailureDomainId : Type := StrongId .failureDomain
abbrev ConsumerId : Type := StrongId .consumer
abbrev ConsumerGeneration : Type := StrongGeneration .consumer

/-! ### Enumerations -/

/-- The canonical table of an enumeration. -/
class EnumTraits (E : Type) where
  /-- The integral value written to disk and to the wire. -/
  value : E → UInt32
  /-- All enumerators. -/
  table : List E
  /-- The largest value of the canonical range, whose smallest is one. -/
  maxValue : UInt32
  /-- The table is complete. -/
  mem_table : ∀ e, e ∈ table
  /-- Distinct enumerators have distinct values. -/
  value_inj : ∀ e ∈ table, ∀ e' ∈ table, value e = value e' → e = e'
  /-- Every value of the canonical range belongs to an enumerator. -/
  covers : ∀ n ∈ List.range' 1 maxValue.toNat, ∃ e ∈ table, (value e).toNat = n

/-- The kinds of resource a composition is made of. -/
inductive ResourceClass where
  | compute | accelerator | hostMemory | expandedMemory | storage | networkEndpoint
  | fabricEndpoint | dpu | nic | serviceEndpoint | controlProcess | otherRegistered | unknown
deriving DecidableEq, Inhabited

instance : EnumTraits ResourceClass where
  value
    | .compute => 1
    | .accelerator => 2
    | .hostMemory => 3
    | .expandedMemory => 4
    | .storage => 5
    | .networkEndpoint => 6
    | .fabricEndpoint => 7
    | .dpu => 8
    | .nic => 9
    | .serviceEndpoint => 10
    | .controlProcess => 11
    | .otherRegistered => 12
    | .unknown => 0
  table := [
    .compute, .accelerator, .hostMemory, .expandedMemory, .storage, .networkEndpoint,
    .fabricEndpoint, .dpu, .nic, .serviceEndpoint, .controlProcess, .otherRegistered, .unknown]
  maxValue := 12
  mem_table e := by cases e <;> decide
  value_inj := by decide
  covers := by decide

/-- What a capability claim is about. -/
inductive CapabilityKind where
  | cudaExecution | rocmExecution | cpuExecution | hostMemoryAccess | expandedMemoryAccess
  | persistentStorage | directNetworkAccess | rdmaCapable | gpudirectCapable
  | coherentMemoryAccess | nonCoherentMemoryAccess | specificIsa | archGeneration
  | dataFormatCompat | pageSizeSupport | addressWidth | dmaCapable | storageProtocol
  | networkProtocol | computePrecision | atomicSemantics | retryCapable | drainSupport
  | unknown
deriving DecidableEq, Inhabited

instance : EnumTraits CapabilityKind where
  value
    | .cudaExecution => 1
    | .rocmExecution => 2
    | .cpuExecution => 3
    | .hostMemoryAccess => 4
    | .expandedMemoryAccess => 5
    | .persistentStorage => 6
    | .directNetworkAccess => 7
    | .rdmaCapable => 8
    | .gpudirectCapable => 9
    | .coherentMemoryAccess => 10
    | .nonCoherentMemoryAccess => 11
    | .specificIsa => 12
    | .archGeneration => 13
    | .dataFormatCompat => 14
    | .pageSizeSupport => 15
    | .addressWidth => 16
    | .dmaCapable => 17
    | .storageProtocol => 18
    | .networkProtocol => 19
    | .computePrecision => 20
    | .atomicSemantics => 21
    | .retryCapable => 22
    | .drainSupport => 23
    | .unknown => 0
  table := [
    .cudaExecution, .rocmExecution, .cpuExecution, .hostMemoryAccess, .expandedMemoryAccess,
    .persistentStorage, .directNetworkAccess, .rdmaCapable, .gpudirectCapable,
    .coherentMemoryAccess, .nonCoherentMemoryAccess, .specificIsa, .archGeneration,
    .dataFormatCompat, .pageSizeSupport, .addressWidth, .dmaCapable, .storageProtocol,
    .networkProtocol, .computePrecision, .atomicSemantics, .retryCapable, .drainSupport,
    .unknown]
  maxValue := 23
  mem_table e := by cases e <;> decide
  value_inj := by decide
  covers := by decide

/-- What is claimed of a capability; `unknown` is a registered value here. -/
inductive CapabilityState where
  | supported | unsupported | unknown | revalidationRequired
deriving DecidableEq, Inhabited

instance : EnumTraits CapabilityState where
  value
    | .supported => 1
    | .unsupported => 2
    | .unknown => 3
    | .revalidationRequired => 4
  table := [
    .supported, .unsupported, .unknown, .revalidationRequired]
  maxValue := 4
  mem_table e := by cases e <;> decide
  value_inj := by decide
  covers := by decide

/-- Health of a resource or of a node. -/
inductive ResourceHealth where
  | healthy | degraded | offline | unknown
deriving DecidableEq, Inhabited

instance : EnumTraits ResourceHealth where
  value
    | .healthy => 1
    | .degraded => 2
    | .offline => 3
    | .unknown => 0
  table := [
    .healthy, .degraded, .offline, .unknown]
  maxValue := 3
  mem_table e := by cases e <;> decide
  value_inj := by decide
  covers := by decide

/-- Readiness of a resource. -/
inductive Readiness where
  | ready | notReady | unknown
deriving DecidableEq, Inhabited

instance : EnumTraits Readiness where
  value
    | .ready => 1
    | .notReady => 2
    | .unknown => 0
  table := [
    .ready, .notReady, .unknown]
  maxValue := 2
  mem_table e := by cases e <;> decide
  value_inj := by decide
  covers := by decide

/-- Reachability of a resource or of a node. -/
inductive Reachability where
  | reachable | unreachable | unknown
deriving DecidableEq, Inhabited

instance : EnumTraits Reachability where
  value
    | .reachable => 1
    | .unreachable => 2
    | .unknown => 0
  table := [
    .reachable, .unreachable, .unknown]
  maxValue := 2
  mem_table e := by cases e <;> decide
  value_inj := by decide
  covers := by decide

/-- Freshness of an evidence record. -/
inductive EvidenceState where
  | fresh | stale | revalidationRequired | provenanceUnknown
deriving DecidableEq, Inhabited

instance : EnumTraits EvidenceState where
  value
    | .fresh => 1
    | .stale => 2
    | .revalidationRequired => 3
    | .provenanceUnknown => 4
  table := [
    .fresh, .stale, .revalidationRequired, .provenanceUnknown]
  maxValue := 4
  mem_table e := by cases e <;> decide
  value_inj := by decide
  covers := by decide

/-- Who produced an evidence record. -/
inductive EvidenceSource where
  | static | worker | coordinator | backend | direct | unknown
deriving DecidableEq, Inhabited

instance : EnumTraits EvidenceSource where
  value
    | .static => 1
    | .worker => 2
    | .coordinator => 3
    | .backend => 4
    | .direct => 5
    | .unknown => 0
  table := [
    .static, .worker, .coordinator, .backend, .direct, .unknown]
  maxValue := 5
  mem_table e := by cases e <;> decide
  value_inj := by decide
  covers := by decide

/-- Lifecycle of a node. -/
inductive NodeLifecycle where
  | discovered | validated | revalidationRequired | retired
deriving DecidableEq, Inhabited

instance : EnumTraits NodeLifecycle where
  value
    | .discovered => 1
    | .validated => 2
    | .revalidationRequired => 3
    | .retired => 4
  table := [
    .discovered, .validated, .revalidationRequired, .retired]
  maxValue := 4
  mem_table e := by cases e <;> decide
  value_inj := by decide
  covers := by decide

/-- The kind of a failure domain. -/
inductive FailureDomainType where
  | host | numaNode | pciRoot | rack | powerDomain | networkDomain | storageDomain
  | fabricDomain | custom | unknown
deriving DecidableEq, Inhabited

instance : EnumTraits FailureDomainType where
  value
    | .host => 1
    | .numaNode => 2
    | .pciRoot => 3
    | .rack => 4
    | .powerDomain => 5
    | .networkDomain => 6
    | .storageDomain => 7
    | .fabricDomain => 8
    | .custom => 9
    | .unknown => 0
  table := [
    .host, .numaNode, .pciRoot, .rack, .powerDomain, .networkDomain, .storageDomain,
    .fabricDomain, .custom, .unknown]
  maxValue := 9
  mem_table e := by cases e <;> decide
  value_inj := by decide
  covers := by decide

/-- The kind of a backend. -/
inductive BackendKind where
  | real | synthetic | unsupported | unknown
deriving DecidableEq, Inhabited

instance : EnumTraits BackendKind where
  value
    | .real => 1
    | .synthetic => 2
    | .unsupported => 3
    | .unknown => 0
  table := [
    .real, .synthetic, .unsupported, .unknown]
  maxValue := 3
  mem_table e := by cases e <;> decide
  value_inj := by decide
  covers := by decide

/-- Lifecycle of a composition. -/
inductive CompositionLifecycle where
  | requested | discovering | evaluated | planned | reserving | reserved | revalidating
  | committed | active | degraded | draining | recompositionRequired | revalidationRequired
  | fenced | failed | released | retired
deriving DecidableEq, Inhabited

instance : EnumTraits CompositionLifecycle where
  value
    | .requested => 1
    | .discovering => 2
    | .evaluated => 3
    | .planned => 4
    | .reserving => 5
    | .reserved => 6
    | .revalidating => 7
    | .committed => 8
    | .active => 9
    | .degraded => 10
    | .draining => 11
    | .recompositionRequired => 12
    | .revalidationRequired => 13
    | .fenced => 14
    | .failed => 15
    | .released => 16
    | .retired => 17
  table := [
    .requested, .discovering, .evaluated, .planned, .reserving, .reserved, .revalidating,
    .committed, .active, .degraded, .draining, .recompositionRequired, .revalidationRequired,
    .fenced, .failed, .released, .retired]
  maxValue := 17
  mem_table e := by cases e <;> decide
  value_inj := by decide
  covers := by decide

/-- Outcome of an operation on a composition. -/
inductive CompositionOutcome where
  | success | rejected | partialResult | aborted | outcomeUnknown | failed
deriving DecidableEq, Inhabited

instance : EnumTraits CompositionOutcome where
  value
    | .success => 1
    | .rejected => 2
    | .partialResult => 3
    | .aborted => 4
    | .outcomeUnknown => 5
    | .failed => 6
  table := [
    .success, .rejected, .partialResult, .aborted, .outcomeUnknown, .failed]
  maxValue := 6
  mem_table e := by cases e <;> decide
  value_inj := by decide
  covers := by decide

/-- State of a reservation and of its items. -/
inductive ReservationState where
  | none | provisional | committed | released | rolledBack
deriving DecidableEq, Inhabited

instance : EnumTraits ReservationState where
  value
    | .none => 0
    | .provisional => 1
    | .committed => 2
    | .released => 3
    | .rolledBack => 4
  table := [
    .none, .provisional, .committed, .released, .rolledBack]
  maxValue := 4
  mem_table e := by cases e <;> decide
  value_inj := by decide
  covers := by decide

/-- The relationship an edge of a composition graph requires. -/
inductive GraphEdgeKind where
  | reachability | latencyBound | bandwidthBound | compatibility | protocol | locality
  | freshness | generation
deriving DecidableEq, Inhabited

instance : EnumTraits GraphEdgeKind where
  value
    | .reachability => 1
    | .latencyBound => 2
    | .bandwidthBound => 3
    | .compatibility => 4
    | .protocol => 5
    | .locality => 6
    | .freshness => 7
    | .generation => 8
  table := [
    .reachability, .latencyBound, .bandwidthBound, .compatibility, .protocol, .locality,
    .freshness, .generation]
  maxValue := 8
  mem_table e := by cases e <;> decide
  value_inj := by decide
  covers := by decide

/-- Why an operation was rejected. -/
inductive RejectionReason where
  | none | resourceOffline | resourceDegraded | resourceUnreachable
  | resourceRevalidationRequired | capabilityUnsupported | capabilityUnknown
  | compatibilityMismatch | insufficientCapacity | pathUnavailable | pathStale
  | bandwidthInsufficient | latencyLimitExceeded | failureDomainConflict | collocationRequired
  | antiCollocationViolated | policyDenied | wrongResourceGeneration | wrongNodeGeneration
  | wrongWorkerBoot | wrongEpoch | staleEvidence | noValidComposition | duplicateReservation
  | reservationConflict | overcommit | duplicateRelease | staleRelease | resourceWithdrawn
  | resourceDraining | pathEvidenceStale | unverifiedPath | capacityNegative
  | invalidStateTransition | unknown
deriving DecidableEq, Inhabited

instance : EnumTraits RejectionReason where
  value
    | .none => 0
    | .resourceOffline => 1
    | .resourceDegraded => 2
    | .resourceUnreachable => 3
    | .resourceRevalidationRequired => 4
    | .capabilityUnsupported => 5
    | .capabilityUnknown => 6
    | .compatibilityMismatch => 7
    | .insufficientCapacity => 8
    | .pathUnavailable => 9
    | .pathStale => 10
    | .bandwidthInsufficient => 11
    | .latencyLimitExceeded => 12
    | .failureDomainConflict => 13
    | .collocationRequired => 14
    | .antiCollocationViolated => 15
    | .policyDenied => 16
    | .wrongResourceGeneration => 17
    | .wrongNodeGeneration => 18
    | .wrongWorkerBoot => 19
    | .wrongEpoch => 20
    | .staleEvidence => 21
    | .noValidComposition => 22
    | .duplicateReservation => 23
    | .reservationConflict => 24
    | .overcommit => 25
    | .duplicateRelease => 26
    | .staleRelease => 27
    | .resourceWithdrawn => 28
    | .resourceDraining => 29
    | .pathEvidenceStale => 30
    | .unverifiedPath => 31
    | .capacityNegative => 32
    | .invalidStateTransition => 33
    | .unknown => 0xFFFFFFFF
  table := [
    .none, .resourceOffline, .resourceDegraded, .resourceUnreachable,
    .resourceRevalidationRequired, .capabilityUnsupported, .capabilityUnknown,
    .compatibilityMismatch, .insufficientCapacity, .pathUnavailable, .pathStale,
    .bandwidthInsufficient, .latencyLimitExceeded, .failureDomainConflict,
    .collocationRequired, .antiCollocationViolated, .policyDenied, .wrongResourceGeneration,
    .wrongNodeGeneration, .wrongWorkerBoot, .wrongEpoch, .staleEvidence, .noValidComposition,
    .duplicateReservation, .reservationConflict, .overcommit, .duplicateRelease, .staleRelease,
    .resourceWithdrawn, .resourceDraining, .pathEvidenceStale, .unverifiedPath,
    .capacityNegative, .invalidStateTransition, .unknown]
  maxValue := 33
  mem_table e := by cases e <;> decide
  value_inj := by decide
  covers := by decide

/-- Placement constraint of a request. It is never decoded. -/
inductive TopologyConstraint where
  | none | colocate | spread | distinctFailureDomains | maxSharedRisk
deriving DecidableEq, Inhabited

namespace EnumTraits

variable {E : Type} [EnumTraits E]

/-- `ValidEnum` / `WireValidEnum`: the value lies in the canonical range. -/
def valid (E : Type) [EnumTraits E] (v : UInt32) : Bool := 1 ≤ v && v ≤ maxValue E

/-- The enumerator with a given value. -/
def ofValue? (v : UInt32) : Option E := table.find? fun e => value e == v

/-- `static_cast` of an integral value; a value without an enumerator, which a
decoder has already rejected, gives the default. -/
def ofValue [Inhabited E] (v : UInt32) : E := (ofValue? v).getD default

/-- An enumerator of the canonical range: one that a decoder accepts. -/
def Canonical (e : E) : Prop := valid E (value e) = true

instance (e : E) : Decidable (Canonical e) := inferInstanceAs (Decidable (_ = true))

theorem ofValue?_value (e : E) : ofValue? (value e) = some e := by
  obtain ⟨e', he'⟩ : ∃ e', ofValue? (value e) = some (e' : E) :=
    Option.isSome_iff_exists.mp (List.find?_isSome.mpr ⟨e, mem_table e, by simp⟩)
  have hv : value e' = value e := by simpa using List.find?_some he'
  rw [he', value_inj e' (mem_table e') e (mem_table e) hv]

@[simp] theorem ofValue_value [Inhabited E] (e : E) : ofValue (value e) = e := by
  rw [ofValue, ofValue?_value, Option.getD_some]

/-- Casting a value of the canonical range and reading it back. -/
theorem value_ofValue [Inhabited E] {v : UInt32} (h : valid E v = true) :
    value (ofValue v : E) = v := by
  obtain ⟨h1, h2⟩ : 1 ≤ v ∧ v ≤ maxValue E := by simpa [valid] using h
  have h1' : 1 ≤ v.toNat := h1
  have h2' : v.toNat ≤ (maxValue E).toNat := h2
  obtain ⟨e, -, he⟩ := covers (E := E) v.toNat (List.mem_range'_1.mpr ⟨h1', by omega⟩)
  obtain rfl : value e = v := UInt32.toNat_inj.mp he
  rw [ofValue_value]

theorem value_injective : Function.Injective (value : E → UInt32) :=
  fun e e' h => value_inj e (mem_table e) e' (mem_table e') h

theorem canonical_ofValue [Inhabited E] {v : UInt32} (h : valid E v = true) :
    Canonical (ofValue v : E) := by
  rw [Canonical, value_ofValue h]
  exact h

end EnumTraits

/-- Resource classes are ordered by value, the order in which a set of them is
iterated. -/
instance : LinearOrder ResourceClass :=
  LinearOrder.lift' EnumTraits.value EnumTraits.value_injective

end DFabric
