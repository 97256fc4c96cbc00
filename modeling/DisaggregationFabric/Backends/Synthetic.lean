import DisaggregationFabric.Engine.State

/-!
# The synthetic backend

`synthetic_backend.cpp`: four nodes with seven resources between them, and six links,
each usable in both directions. The coordinator runs over this backend; the knobs that
the proof tests turn (`SetPathAvailable` and the like) are not used by it, so its answers
are a value.

The backend answers for the twelve ordered pairs of its links and for no other
(`resolvePath_eq_some`), with evidence that carries the requirement it was asked for.
-/

namespace DFabric

namespace SyntheticBackend

variable {D : Type} [Double D]

/-! ### Nodes and resources -/

/-- One of the four nodes; they differ in their names. -/
def makeNode (ng : NodeGeneration) (id : NodeId) (hostname : String) (domain : FailureDomainId)
    (rack : String) : Node D :=
  { (default : Node D) with
    id := id
    generation := ng
    hostname := str hostname
    provider := str "synthetic"
    backend := .synthetic
    health := .healthy
    reachability := .reachable
    failureDomain := ⟨domain, .host, str rack, true, default⟩
    lifecycle := .validated
    synthetic := true }

/-- `DiscoverNodes`. -/
def discoverNodes (ng : NodeGeneration) : List (Node D) := [
  makeNode ng ⟨1⟩ "node-a" ⟨1⟩ "rack-1",
  makeNode ng ⟨2⟩ "node-b" ⟨2⟩ "rack-2",
  makeNode ng ⟨3⟩ "node-c" ⟨3⟩ "rack-3",
  makeNode ng ⟨4⟩ "node-d" ⟨4⟩ "rack-4"]

/-- `MakeBase`: a healthy resource with fresh evidence. -/
def makeBase (id : ResourceId) (gen : ResourceGeneration) (cls : ResourceClass) (node : NodeId)
    (provider : Str) : Resource D :=
  { (default : Resource D) with
    id := id
    generation := gen
    resourceClass := cls
    nodeId := node
    provider := provider
    health := .healthy
    readiness := .ready
    reachability := .reachable
    evidence :=
      { id := ⟨id.value * 1000 + 1⟩
        generation := ⟨1⟩
        source := .backend
        state := .fresh
        timestampMs := 1000
        maxAgeMs := 3600000
        confidence := Double.one
        provenance := provider ++ str "/synthetic"
        owner := []
        durable := true }
    synthetic := true
    failureDomain := ⟨⟨node.value * 10 + 1⟩, .host, str "host-" ++ node.toStr, true, default⟩ }

/-- `AddCap`. -/
def addCap (r : Resource D) (kind : CapabilityKind) (state : CapabilityState) (detail : String) :
    Resource D :=
  { r with capabilities := r.capabilities ++ [⟨kind, state, ⟨1⟩, r.evidence.id, str detail⟩] }

/-- An accelerator of the topology. -/
def makeAccelerator (id : ResourceId) (node : NodeId) : Resource D :=
  let gpu : Resource D := makeBase id ⟨1⟩ .accelerator node (str "synthetic")
  let gpu := { gpu with capacity := { gpu.capacity with
    computeUnits := Double.ofRat 40, acceleratorMemoryBytes := Double.ofRat (24 * 2 ^ 30) } }
  let gpu := addCap gpu .cudaExecution .supported "12.0"
  let gpu := addCap gpu .archGeneration .supported "12.0"
  addCap gpu .computePrecision .supported "fp64"

/-- `DiscoverResources`. -/
def discoverResources : List (Resource D) :=
  let cpu : Resource D := makeBase ⟨101⟩ ⟨1⟩ .compute ⟨1⟩ (str "synthetic")
  let cpu := { cpu with capacity := { cpu.capacity with
    computeUnits := Double.ofRat 32
    hostMemoryBytes := Double.ofRat (64 * 2 ^ 30)
    networkLatencyUs := Double.ofRat 1 } }
  let cpu := addCap cpu .cpuExecution .supported ""
  let cpu := addCap cpu .hostMemoryAccess .supported ""
  let cpu := addCap cpu .coherentMemoryAccess .supported ""
  let cpu := addCap cpu .persistentStorage .supported ""
  let hm : Resource D := makeBase ⟨107⟩ ⟨1⟩ .hostMemory ⟨1⟩ (str "synthetic")
  let hm := { hm with capacity := { hm.capacity with
    hostMemoryBytes := Double.ofRat (64 * 2 ^ 30) } }
  let hm := addCap hm .hostMemoryAccess .supported ""
  let mem : Resource D := makeBase ⟨103⟩ ⟨1⟩ .expandedMemory ⟨2⟩ (str "synthetic")
  let mem := { mem with capacity := { mem.capacity with
    expandedMemoryBytes := Double.ofRat (256 * 2 ^ 30) } }
  let mem := addCap mem .expandedMemoryAccess .supported ""
  let mem := addCap mem .hostMemoryAccess .supported ""
  let stor : Resource D := makeBase ⟨104⟩ ⟨1⟩ .storage ⟨3⟩ (str "synthetic")
  let stor := { stor with capacity := { stor.capacity with
    storageBytes := Double.ofRat (2 * 2 ^ 40), networkBandwidthMbps := Double.ofRat 50000 } }
  let stor := addCap stor .persistentStorage .supported ""
  let nic : Resource D := makeBase ⟨105⟩ ⟨1⟩ .networkEndpoint ⟨3⟩ (str "synthetic")
  let nic := { nic with capacity := { nic.capacity with
    networkBandwidthMbps := Double.ofRat 100000 } }
  let nic := addCap nic .directNetworkAccess .supported ""
  let nic := addCap nic .networkProtocol .supported "tcp"
  [cpu, makeAccelerator ⟨102⟩ ⟨1⟩, hm, mem, stor, nic, makeAccelerator ⟨106⟩ ⟨4⟩]

/-! ### Paths -/

/-- `PathState`. -/
structure PathState (D : Type) where
  available : Bool
  bw : D
  lat : D
  gen : PathGeneration

/-- The closure `addPath`: a link works in both directions. -/
def addPath (paths : OrdMap Str (PathState D)) (f t : NodeId) (bw lat : ℚ) :
    OrdMap Str (PathState D) :=
  let p : PathState D := ⟨true, Double.ofRat bw, Double.ofRat lat, ⟨1⟩⟩
  (paths.insert (pathKey f t) p).insert (pathKey t f) p

/-- The path table of the constructor. -/
def pathTable : OrdMap Str (PathState D) :=
  let paths := addPath default ⟨1⟩ ⟨2⟩ 100000 3
  let paths := addPath paths ⟨1⟩ ⟨3⟩ 50000 5
  let paths := addPath paths ⟨2⟩ ⟨3⟩ 50000 8
  let paths := addPath paths ⟨1⟩ ⟨4⟩ 100000 2
  let paths := addPath paths ⟨4⟩ ⟨2⟩ 100000 4
  addPath paths ⟨4⟩ ⟨3⟩ 50000 6

/-- The evidence of a path that the backend has. -/
def pathEvidence (q : PathRequirement D) (p : PathState D) : PathEvidence D :=
  let id := q.source.value * 100 + q.target.value
  { id := ⟨id⟩
    generation := p.gen
    requirement := q
    available := true
    verified := true
    bandwidthMbps := p.bw
    latencyUs := p.lat
    provider := str "synthetic"
    source := str "synthetic"
    evidence :=
      { id := ⟨id⟩
        generation := ⟨1⟩
        source := .backend
        state := .fresh
        timestampMs := 1000
        maxAgeMs := 3600000
        confidence := Double.one
        provenance := []
        owner := []
        durable := true } }

/-- `ResolvePath`. -/
def resolvePath (q : PathRequirement D) : Option (PathEvidence D) :=
  match pathTable.find? (pathKey q.source q.target) with
  | none => none
  | some p => if !p.available then none else some (pathEvidence q p)

/-- What the backend answers for is in its table. -/
theorem resolvePath_eq_some {q : PathRequirement D} {pe : PathEvidence D}
    (h : resolvePath q = some pe) :
    ∃ p, pathTable.find? (pathKey q.source q.target) = some p ∧ pe = pathEvidence q p := by
  unfold resolvePath at h
  rcases hp : pathTable.find? (pathKey q.source q.target) with _ | p
  · rw [hp] at h
    cases h
  · rw [hp] at h
    dsimp only at h
    split at h
    · cases h
    · cases h
      exact ⟨p, rfl, rfl⟩

/-- A link adds two entries at most. -/
theorem size_addPath_le (paths : OrdMap Str (PathState D)) (f t : NodeId) (bw lat : ℚ) :
    (addPath paths f t bw lat).size ≤ paths.size + 2 :=
  (OrdMap.size_insert_le ..).trans (Nat.succ_le_succ (OrdMap.size_insert_le ..))

/-- Six links, in both directions. -/
theorem size_pathTable_le : (pathTable : OrdMap Str (PathState D)).size ≤ 12 := by
  unfold pathTable
  iterate 6 refine (size_addPath_le ..).trans (Nat.add_le_add_right ?_ 2)
  exact le_rfl

end SyntheticBackend

/-- The backend of a coordinator, at a generation of its nodes. -/
def syntheticBackend {D : Type} [Double D] (ng : NodeGeneration) : Backend D where
  discoverNodes := SyntheticBackend.discoverNodes ng
  discoverResources := SyntheticBackend.discoverResources
  resolvePath := SyntheticBackend.resolvePath

end DFabric
