import DisaggregationFabric.Lib.Decoder
import DisaggregationFabric.Model.Types

/-!
# The record codecs

`Write*` and `Read*` of `persistence.cpp`, and the decoders of nodes and resources
of `codec.hpp`. A writer is the list of pieces it appends, a reader the list of
statements it executes, both in the order of the source. The two files share their
layouts, so the statements common to a `Read*` and a `Decode*` are one list
(`evidenceFields`, `resourceFields`, …) under the limits of the file; they differ
in where the reader's flag is tested.
-/

namespace DFabric

open Wire

/-- The limits of `persistence.cpp`: `kMaxLen` and `kMaxCount`. -/
def persistLimits : Limits := ⟨32768, 1048576, str "persist: string too long"⟩

/-- The limits of `codec.hpp`: `kWireMaxLen` and `kWireMaxCount`. -/
def wireLimits : Limits := ⟨32768, 1048576, str "wire: string too long"⟩

/-! ### Pieces and statements -/

namespace Write

variable {D : Type} [DoubleBits D]

/-- `w.U64`. -/
def u64 (v : UInt64) : List Token := [.u64 v]

/-- `w.U32`. -/
def u32 (v : UInt32) : List Token := [.u32 v]

/-- `w.U8` of a flag. -/
def flag (b : Bool) : List Token := [.flag b]

/-- `w.Str`. -/
def str (s : Str) : List Token := [.str s]

/-- `w.Dbl`. -/
def dbl (d : D) : List Token := [.u64 (DoubleBits.toBits d)]

/-- `w.U32` of an enumerator. -/
def enum {E : Type} [EnumTraits E] (e : E) : List Token := [.u32 (EnumTraits.value e)]

/-- A list of identities. -/
def ids {T : Tag} (l : List (StrongId T)) : List Token := counted l fun i => u64 i.value

/-- A list of generations. -/
def generations {T : Tag} (l : List (StrongGeneration T)) : List Token :=
  counted l fun g => u64 g.value

/-- A map from names to numbers. -/
def numbers (m : OrdMap Str D) : List Token := counted m.entries fun e => str e.1 ++ dbl e.2

/-- A set of resource classes. -/
def classes (m : OrdSet ResourceClass) : List Token := counted m.entries fun e => enum e.1

end Write

namespace Fill

variable {R D : Type} [DoubleBits D]

/-- Assign `r.U64()`. -/
def u64 (set : UInt64 → R → R) : Decoder R := .read Reader.u64 set

/-- Assign `r.U32()`. -/
def u32 (set : UInt32 → R → R) : Decoder R := .read Reader.u32 set

/-- Assign `r.U8() != 0`. -/
def flag (set : Bool → R → R) : Decoder R := .read Reader.flag set

/-- Assign `r.Str()`. -/
def str (lim : Limits) (set : Str → R → R) : Decoder R := .read (Reader.str lim) set

/-- `r.Dbl()`. -/
def readDbl : Reader → D × Reader := Reader.map DoubleBits.ofBits Reader.u64

/-- Assign `r.Dbl()`. -/
def dbl (set : D → R → R) : Decoder R := .read readDbl set

/-- The enumerator of a value that passes `ValidEnum`. -/
def validEnum? {E : Type} [EnumTraits E] [Inhabited E] (v : UInt32) : Option E :=
  if EnumTraits.valid E v then some (EnumTraits.ofValue v) else none

/-- Read a value, return `false` unless it passes `ValidEnum`, and assign it. -/
def enum {E : Type} [EnumTraits E] [Inhabited E] (set : E → R → R) : Decoder R :=
  .check Reader.u32 validEnum? set

/-- A counted list, each entry pushed to the back. -/
def list {A : Type} [Inhabited A] (lim : Limits) (get : R → List A) (set : List A → R → R)
    (d : Decoder A) : Decoder R :=
  .collect lim.maxCount get set (fun l a => l ++ [a]) d

/-- A counted list of identities. -/
def ids {T : Tag} (lim : Limits) (get : R → List (StrongId T)) (set : List (StrongId T) → R → R) :
    Decoder R := list lim get set (.value (Reader.map StrongId.mk Reader.u64))

/-- A counted list of generations. -/
def generations {T : Tag} (lim : Limits) (get : R → List (StrongGeneration T))
    (set : List (StrongGeneration T) → R → R) : Decoder R :=
  list lim get set (.value (Reader.map StrongGeneration.mk Reader.u64))

/-- A counted list of names and numbers, each entry assigned in a map. -/
def numbers (lim : Limits) (get : R → OrdMap Str D) (set : OrdMap Str D → R → R) [Inhabited D] :
    Decoder R :=
  .collect lim.maxCount get set (fun m (e : Str × D) => m.insert e.1 e.2)
    (.value (Reader.pair (Reader.str lim) readDbl))

/-- A counted list of resource classes, each validated and inserted in a set. -/
def classes (lim : Limits) (get : R → OrdSet ResourceClass)
    (set : OrdSet ResourceClass → R → R) : Decoder R :=
  .collect lim.maxCount get set (fun m c => m.insert c ()) (enum fun c _ => c)

end Fill

variable {D : Type} [Double D] [DoubleBits D]

/-- The number every field starts from. -/
instance (priority := low) instInhabitedDouble : Inhabited D := ⟨Double.zero⟩

/-! ### Evidence -/

/-- `WriteEvidence` / `EncodeEvidence`. -/
def writeEvidence (e : Evidence D) : List Token := .flatten [
  Write.u64 e.id.value, Write.u64 e.generation.value,
  Write.enum e.source, Write.enum e.state,
  Write.u64 e.timestampMs, Write.u64 e.maxAgeMs, Write.dbl e.confidence,
  Write.str e.provenance, Write.str e.owner, Write.flag e.durable]

/-- The statements of `ReadEvidence` and `DecodeEvidence`. -/
def evidenceFields (lim : Limits) : List (Decoder (Evidence D)) := [
  Fill.u64 fun v e => { e with id := ⟨v⟩ },
  Fill.u64 fun v e => { e with generation := ⟨v⟩ },
  Fill.enum fun v e => { e with source := v },
  Fill.enum fun v e => { e with state := v },
  Fill.u64 fun v e => { e with timestampMs := v },
  Fill.u64 fun v e => { e with maxAgeMs := v },
  Fill.dbl fun v e => { e with confidence := v },
  Fill.str lim fun v e => { e with provenance := v },
  Fill.str lim fun v e => { e with owner := v },
  Fill.flag fun v e => { e with durable := v }]

/-- `ReadEvidence`. -/
def readEvidence : Decoder (Evidence D) := .closed (evidenceFields persistLimits)

/-- `DecodeEvidence`. -/
def decodeEvidence : Decoder (Evidence D) := .closed (evidenceFields wireLimits)

/-! ### Resources -/

/-- The capability part of `WriteResource`; `EncodeCapability`. -/
def writeCapability (c : Capability) : List Token := .flatten [
  Write.enum c.kind, Write.enum c.state,
  Write.u64 c.generation.value, Write.u64 c.evidence.value, Write.str c.detail]

/-- The body of the capability loop of `ReadResource`. -/
def capabilityFields (lim : Limits) : List (Decoder Capability) := [
  Fill.enum fun v c => { c with kind := v },
  Fill.enum fun v c => { c with state := v },
  Fill.u64 fun v c => { c with generation := ⟨v⟩ },
  Fill.u64 fun v c => { c with evidence := ⟨v⟩ },
  Fill.str lim fun v c => { c with detail := v }]

/-- `DecodeCapability`. -/
def decodeCapability : Decoder Capability := .closed (capabilityFields wireLimits)

/-- A compatibility pin. -/
def writePin (p : CompatibilityPin) : List Token := .flatten [
  Write.str p.name, Write.str p.value, Write.u64 p.generation.value]

/-- The body of the pin loop. -/
def pinFields (lim : Limits) : List (Decoder CompatibilityPin) := [
  Fill.str lim fun v p => { p with name := v },
  Fill.str lim fun v p => { p with value := v },
  Fill.u64 fun v p => { p with generation := ⟨v⟩ }]

/-- The compatibility part of `WriteResource`; `EncodeCompatibility`. -/
def writeCompatibility (c : Compatibility) : List Token := .flatten [
  Write.u64 c.id.value, Write.u64 c.generation.value, counted c.pins writePin]

/-- The body of the compatibility loop of `ReadResource`. -/
def compatibilityFields (lim : Limits) : List (Decoder Compatibility) := [
  Fill.u64 fun v c => { c with id := ⟨v⟩ },
  Fill.u64 fun v c => { c with generation := ⟨v⟩ },
  Fill.list lim (·.pins) (fun v c => { c with pins := v }) (.block (pinFields lim))]

/-- `DecodeCompatibility`. -/
def decodeCompatibility : Decoder Compatibility := .closed (compatibilityFields wireLimits)

/-- The scalar dimensions of a capacity. -/
def writeCapacity (c : Capacity D) : List Token := .flatten [
  Write.dbl c.computeUnits, Write.dbl c.acceleratorMemoryBytes, Write.dbl c.hostMemoryBytes,
  Write.dbl c.expandedMemoryBytes, Write.dbl c.storageBytes, Write.dbl c.networkBandwidthMbps,
  Write.dbl c.networkLatencyUs,
  -- the only count that a writer checks; the others are checked when they are read
  .limit c.extra.size persistLimits.maxCount (str "persist: extra too large") ::
    Write.numbers c.extra]

/-- The capacity part of `ReadResource` and `DecodeResource`. -/
def capacityFields (lim : Limits) : List (Decoder (Capacity D)) := [
  Fill.dbl fun v c => { c with computeUnits := v },
  Fill.dbl fun v c => { c with acceleratorMemoryBytes := v },
  Fill.dbl fun v c => { c with hostMemoryBytes := v },
  Fill.dbl fun v c => { c with expandedMemoryBytes := v },
  Fill.dbl fun v c => { c with storageBytes := v },
  Fill.dbl fun v c => { c with networkBandwidthMbps := v },
  Fill.dbl fun v c => { c with networkLatencyUs := v },
  Fill.numbers lim (·.extra) fun v c => { c with extra := v }]

/-- The locality part of `WriteResource` and `WriteNode`. -/
def writeLocality (l : Locality D) : List Token := .flatten [
  counted l.coords Write.dbl, Write.numbers l.tags]

/-- The locality part of the resource and node readers. -/
def localityFields (lim : Limits) : List (Decoder (Locality D)) := [
  Fill.list lim (·.coords) (fun v l => { l with coords := v }) (.value Fill.readDbl),
  Fill.numbers lim (·.tags) fun v l => { l with tags := v }]

/-- The failure-domain part of `WriteResource` and `WriteNode`. The locality
coordinates of the domain are not written. -/
def writeFailureDomain (f : FailureDomain D) : List Token := .flatten [
  Write.u64 f.id.value, Write.enum f.type, Write.str f.name, Write.flag f.synthetic]

/-- The failure-domain part of the resource and node readers. -/
def failureDomainFields (lim : Limits) : List (Decoder (FailureDomain D)) := [
  Fill.u64 fun v f => { f with id := ⟨v⟩ },
  Fill.enum fun v f => { f with type := v },
  Fill.str lim fun v f => { f with name := v },
  Fill.flag fun v f => { f with synthetic := v }]

/-- `WriteResource`. -/
def writeResource (r : Resource D) : List Token := .flatten [
  Write.u64 r.id.value, Write.u64 r.generation.value,
  Write.enum r.resourceClass, Write.u64 r.nodeId.value,
  Write.str r.provider, Write.str r.authorityOwner, Write.flag r.synthetic,
  Write.enum r.health, Write.enum r.readiness, Write.enum r.reachability,
  writeCapacity r.capacity, writeLocality r.locality, writeFailureDomain r.failureDomain,
  writeEvidence r.evidence,
  counted r.capabilities writeCapability, counted r.compatibility writeCompatibility]

/-- The statements of `ReadResource` and `DecodeResource`, which differ in the
readers of the nested records. -/
def resourceFields (lim : Limits) (evidence : Decoder (Evidence D))
    (capability : Decoder Capability) (compatibility : Decoder Compatibility) :
    List (Decoder (Resource D)) := [
  Fill.u64 fun v r => { r with id := ⟨v⟩ },
  Fill.u64 fun v r => { r with generation := ⟨v⟩ },
  Fill.enum fun v r => { r with resourceClass := v },
  Fill.u64 fun v r => { r with nodeId := ⟨v⟩ },
  Fill.str lim fun v r => { r with provider := v },
  Fill.str lim fun v r => { r with authorityOwner := v },
  Fill.flag fun v r => { r with synthetic := v },
  Fill.enum fun v r => { r with health := v },
  Fill.enum fun v r => { r with readiness := v },
  Fill.enum fun v r => { r with reachability := v },
  .into (·.capacity) (fun v r => { r with capacity := v }) (.block (capacityFields lim)),
  .into (·.locality) (fun v r => { r with locality := v }) (.block (localityFields lim)),
  .into (·.failureDomain) (fun v r => { r with failureDomain := v })
    (.block (failureDomainFields lim)),
  .into (·.evidence) (fun v r => { r with evidence := v }) evidence,
  Fill.list lim (·.capabilities) (fun v r => { r with capabilities := v }) capability,
  Fill.list lim (·.compatibility) (fun v r => { r with compatibility := v }) compatibility]

/-- `ReadResource`: the nested records are read in line, the flag is tested at the
end. -/
def readResource : Decoder (Resource D) :=
  .closed (resourceFields persistLimits (.block (evidenceFields persistLimits))
    (.block (capabilityFields persistLimits)) (.block (compatibilityFields persistLimits)))

/-- `DecodeResource`: every nested decoder tests the flag. -/
def decodeResource : Decoder (Resource D) :=
  .closed (resourceFields wireLimits decodeEvidence decodeCapability decodeCompatibility)

/-! ### Nodes -/

/-- `WriteNode` / `EncodeNode`. -/
def writeNode (n : Node D) : List Token := .flatten [
  Write.u64 n.id.value, Write.u64 n.generation.value,
  Write.str n.hostname, Write.str n.provider, Write.enum n.backend,
  Write.ids n.inventory, writeFailureDomain n.failureDomain, writeLocality n.locality,
  Write.enum n.reachability, Write.enum n.health,
  Write.str n.workerOwner, Write.u64 n.workerBoot.value, Write.u64 n.evidenceFreshnessMs,
  Write.enum n.lifecycle, Write.flag n.synthetic]

/-- The statements of `ReadNode` and `DecodeNode`. -/
def nodeFields (lim : Limits) : List (Decoder (Node D)) := [
  Fill.u64 fun v n => { n with id := ⟨v⟩ },
  Fill.u64 fun v n => { n with generation := ⟨v⟩ },
  Fill.str lim fun v n => { n with hostname := v },
  Fill.str lim fun v n => { n with provider := v },
  Fill.enum fun v n => { n with backend := v },
  Fill.ids lim (·.inventory) fun v n => { n with inventory := v },
  .into (·.failureDomain) (fun v n => { n with failureDomain := v })
    (.block (failureDomainFields lim)),
  .into (·.locality) (fun v n => { n with locality := v }) (.block (localityFields lim)),
  Fill.enum fun v n => { n with reachability := v },
  Fill.enum fun v n => { n with health := v },
  Fill.str lim fun v n => { n with workerOwner := v },
  Fill.u64 fun v n => { n with workerBoot := ⟨v⟩ },
  Fill.u64 fun v n => { n with evidenceFreshnessMs := v },
  Fill.enum fun v n => { n with lifecycle := v },
  Fill.flag fun v n => { n with synthetic := v }]

/-- `ReadNode`. -/
def readNode : Decoder (Node D) := .closed (nodeFields persistLimits)

/-- `DecodeNode`. -/
def decodeNode : Decoder (Node D) := .closed (nodeFields wireLimits)

end DFabric
