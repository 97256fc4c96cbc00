import DisaggregationFabric.Model.Types
import Mathlib.Data.List.Sort
import Mathlib.Data.List.Dedup

/-!
# Planning functions

The functions of the anonymous namespaces of `engine.cpp`: eligibility, demands,
composition graphs and their validation, the authority tuple and its
revalidation, ranking, and the bounded enumeration of candidate selections. They
are pure functions of the records and of the engine's tables; the operations
that change the engine are in `Engine.State` and `Engine.Compose`.

A check that fills a vector with at most one reason and one note and returns
`false` is an `Except Rejection Unit` here.
-/

namespace DFabric

/-- A typed reason with its note. -/
structure Rejection where
  reason : RejectionReason
  note : Str

/-- The verdict of a check. -/
abbrev Check : Type := Except Rejection Unit

/-- Check the elements in order; the first failure is the verdict. -/
def firstFailure {α : Type} (check : α → Check) : List α → Check
  | [] => .ok ()
  | a :: l =>
    match check a with
    | .ok () => firstFailure check l
    | .error e => .error e

/-- `ToString(ResourceHealth)`. -/
def ResourceHealth.toStr : ResourceHealth → Str
  | .healthy => str "HEALTHY"
  | .degraded => str "DEGRADED"
  | .offline => str "OFFLINE"
  | .unknown => str "UNKNOWN"

/-- `ToString(ResourceClass)`. -/
def ResourceClass.toStr : ResourceClass → Str
  | .compute => str "COMPUTE"
  | .accelerator => str "ACCELERATOR"
  | .hostMemory => str "HOST_MEMORY"
  | .expandedMemory => str "EXPANDED_MEMORY"
  | .storage => str "STORAGE"
  | .networkEndpoint => str "NETWORK_ENDPOINT"
  | .fabricEndpoint => str "FABRIC_ENDPOINT"
  | .dpu => str "DPU"
  | .nic => str "NIC"
  | .serviceEndpoint => str "SERVICE_ENDPOINT"
  | .controlProcess => str "CONTROL_PROCESS"
  | .otherRegistered => str "OTHER_REGISTERED"
  | .unknown => str "UNKNOWN"

/-- The key of an ordered node pair in the path table. -/
def pathKey (a b : NodeId) : Str := a.toStr ++ str "->" ++ b.toStr

/-- The key determines the pair: no dash occurs in a number. -/
theorem pathKey_injective {a b a' b' : NodeId} (h : pathKey a b = pathKey a' b') :
    a = a' ∧ b = b' := by
  have harrow : str "->" = [45, 62] := by decide +kernel
  have hdash : ∀ n : NodeId, (45 : UInt8) ∉ n.toStr := fun n => notMem_toDecimal (by decide) n.value
  have htoStr : ∀ {n m : NodeId}, n.toStr = m.toStr → n = m := fun h =>
    StrongId.value_injective (toDecimal_injective h)
  rw [pathKey, pathKey, harrow, List.append_assoc, List.append_assoc] at h
  have hsplit := (List.append_cons_inj_of_notMem (hdash a)
    (List.not_mem_cons_of_ne_of_not_mem (by decide) (hdash b))).mp h
  exact ⟨htoStr hsplit.1, htoStr (List.cons.inj hsplit.2.2).2⟩

variable {D : Type} [Double D]

/-! ### Eligibility -/

/-- The capability kinds that speak for a resource class. -/
def classCapabilityKinds : ResourceClass → List CapabilityKind
  | .compute => [.cpuExecution]
  | .accelerator => [.cudaExecution, .rocmExecution, .cpuExecution]
  | .hostMemory => [.hostMemoryAccess]
  | .expandedMemory => [.expandedMemoryAccess]
  | .storage => [.persistentStorage]
  | .networkEndpoint | .nic => [.directNetworkAccess, .networkProtocol]
  | .fabricEndpoint => [.networkProtocol, .rdmaCapable]
  | .dpu => [.cpuExecution, .directNetworkAccess]
  | .serviceEndpoint | .controlProcess | .otherRegistered => [.cpuExecution, .networkProtocol]
  | .unknown => []

/-- The first claim of a kind. -/
def findCapability (r : Resource D) (kind : CapabilityKind) : Option Capability :=
  r.capabilities.find? fun c => c.kind = kind

/-- The first claim of a kind is that it is supported. -/
def capabilitySupported (r : Resource D) (kind : CapabilityKind) : Bool :=
  match findCapability r kind with
  | some c => c.state = .supported
  | none => false

/-- The capacity a resource has in a named dimension. -/
def capacityForDimension (r : Resource D) (dim : Str) : D :=
  if dim = str "compute_units" then r.capacity.computeUnits
  else if dim = str "accelerator_memory_bytes" then r.capacity.acceleratorMemoryBytes
  else if dim = str "host_memory_bytes" then r.capacity.hostMemoryBytes
  else if dim = str "expanded_memory_bytes" then r.capacity.expandedMemoryBytes
  else if dim = str "storage_bytes" then r.capacity.storageBytes
  else if dim = str "network_bandwidth_mbps" then r.capacity.networkBandwidthMbps
  -- any other dimension is looked up in the extra table, and is zero if absent
  else (r.capacity.extra.find? dim).getD Double.zero

/-- Whether a resource may be a member of a composition for the request. -/
def resourceEligible (res : Resource D) (req : CompositionRequest D) : Check :=
  if !res.id.isValid then .error ⟨.resourceOffline, str "zero resource id"⟩
  else if res.health = .offline then .error ⟨.resourceOffline, str "offline " ++ res.id.toStr⟩
  else if res.health = .degraded ∨ res.health = .unknown then
    .error ⟨.resourceDegraded,
      str "health " ++ res.health.toStr ++ str " (" ++ res.id.toStr ++ str ")"⟩
  else if !req.ignoreReachability ∧ res.reachability ≠ .reachable then
    .error ⟨.resourceUnreachable, str "unreachable " ++ res.id.toStr⟩
  else if res.readiness = .notReady ∨ res.readiness = .unknown then
    .error ⟨.resourceDegraded, str "not ready " ++ res.id.toStr⟩
  else if !res.evidence.isCurrent then
    .error ⟨.staleEvidence, str "stale evidence " ++ res.id.toStr⟩
  else
    -- the claims found for the kinds of the class; kinds without a claim are skipped
    let claims := (classCapabilityKinds res.resourceClass).filterMap (findCapability res)
    let anyUnknown := claims.any fun c => c.state = .unknown
    let anyOk := claims.any fun c => c.state = .supported
    if !claims.isEmpty && anyUnknown && !anyOk then
      .error ⟨.capabilityUnknown, str "capability unknown " ++ res.id.toStr⟩
    -- the architecture is compared for accelerators only, and only when the request lists any
    else if res.resourceClass = .accelerator ∧ !req.acceleratorArchitectures.isEmpty then
      let matched := match findCapability res .archGeneration with
        | some arch => !arch.detail.isEmpty && req.acceleratorArchitectures.contains arch.detail
        | none => false
      if matched then .ok ()
      else .error ⟨.compatibilityMismatch, str "arch mismatch " ++ res.id.toStr⟩
    else .ok ()

/-- The resource passes `ResourceEligible` for the request. -/
def Eligible (res : Resource D) (req : CompositionRequest D) : Prop :=
  (resourceEligible res req).isOk = true

instance (res : Resource D) (req : CompositionRequest D) : Decidable (Eligible res req) :=
  inferInstanceAs (Decidable (_ = true))

/-- A check that begins with a test is passed when the test does not refuse and the rest is
passed. -/
theorem Check.isOk_ite {p : Prop} [Decidable p] {e : Rejection} {c : Check}
    (h : (if p then .error e else c : Check).isOk = true) : ¬ p ∧ c.isOk = true := by
  by_cases hp : p
  · rw [if_pos hp] at h
    cases h
  · rw [if_neg hp] at h
    exact ⟨hp, h⟩

theorem Check.isOk_ite_of_not {p : Prop} [Decidable p] {e : Rejection} {c : Check} (hp : ¬ p)
    (h : c.isOk = true) : (if p then .error e else c : Check).isOk = true := by
  rw [if_neg hp]
  exact h

omit [Double D] in
/-- An eligible resource has a valid id and current evidence. -/
theorem Eligible.valid_and_current {res : Resource D} {req : CompositionRequest D}
    (h : Eligible res req) : res.id.isValid = true ∧ res.evidence.isCurrent = true := by
  -- of the first six tests, the first and the last are the two facts
  obtain ⟨hid, h⟩ := Check.isOk_ite h
  obtain ⟨-, h⟩ := Check.isOk_ite h
  obtain ⟨-, h⟩ := Check.isOk_ite h
  obtain ⟨-, h⟩ := Check.isOk_ite h
  obtain ⟨-, h⟩ := Check.isOk_ite h
  obtain ⟨hcurrent, -⟩ := Check.isOk_ite h
  exact ⟨by simpa using hid, by simpa using hcurrent⟩

/-! ### Demands -/

/-- What a request asks of one class. -/
structure ClassDemand (D : Type) where
  cls : ResourceClass
  mandatory : Bool
  amountBased : Bool
  amount : D
  count : UInt32
  dimension : Str

/-- The demands of a request, one for each of the six plannable classes. -/
def computeDemands (req : CompositionRequest D) : List (ClassDemand D) :=
  let add (cls : ResourceClass) (amountBased : Bool) (amount : D) (count : UInt32)
      (dim : Str) : ClassDemand D := ⟨cls, false, amountBased, amount, count, dim⟩
  let out := [
    add .compute true (Double.ofRat req.computeUnits.toNat) 0 (str "compute_units"),
    add .accelerator false req.acceleratorMemoryBytes req.acceleratorCount
      (str "accelerator_memory_bytes"),
    add .hostMemory true req.hostMemoryBytes 0 (str "host_memory_bytes"),
    add .expandedMemory true req.expandedMemoryBytes 0 (str "expanded_memory_bytes"),
    add .storage true req.storageBytes 0 (str "storage_bytes"),
    add .networkEndpoint false req.minBandwidthMbps req.networkEndpointCount
      (str "network_bandwidth_mbps")]
  -- the second loop: what is asked for is mandatory, and so is a class listed as such
  out.map fun d =>
    let nonzero := (d.amountBased && Double.lt Double.zero d.amount) ||
      (!d.amountBased && 0 < d.count)
    let required := req.mandatoryClasses.contains d.cls
    { d with
      mandatory := nonzero || required
      -- a mandatory endpoint class without a count asks for one endpoint
      count := if d.cls = .networkEndpoint ∧ required ∧ req.networkEndpointCount = 0 then 1
        else d.count }

/-- Score of a candidate within its class. -/
def classScore (res : Resource D) (d : ClassDemand D) : D :=
  let s := if d.amountBased then Double.max Double.zero (capacityForDimension res d.dimension)
    else if d.cls = .compute then Double.max Double.zero res.capacity.computeUnits
    else Double.one
  let s := if res.health = .healthy then Double.add s (Double.ofRat 1000) else s
  let s := if res.readiness = .ready then Double.add s (Double.ofRat 100) else s
  if res.reachability = .reachable then Double.add s (Double.ofRat 10) else s

/-- The comparator candidates of a class are sorted with: higher score first,
then smaller id. -/
def candidateBefore (d : ClassDemand D) (a b : Resource D) : Bool :=
  let sa := classScore a d
  let sb := classScore b d
  if Double.eq sa sb then a.id < b.id else Double.lt sb sa

/-- Demand satisfaction for a class selection. -/
def meetsDemand (sel : List (Resource D)) (d : ClassDemand D) : Bool :=
  if sel.isEmpty then false
  else if d.amountBased then
    Double.le d.amount
      (sel.foldl (fun sum r => Double.add sum (capacityForDimension r d.dimension)) Double.zero)
  else d.count ≤ sel.length.toUInt32

/-- The recursive closure `combine` of `EnumerateSelections`: extend `cur` by
`need` further indices from `start` on, appending finished selections to `out`
until it holds `cap` of them. The loop bound is an unsigned subtraction. -/
def combine (items : List (Resource D)) (k cap : Nat) :
    Nat → Nat → List ResourceId → List (List ResourceId) → List (List ResourceId)
  | 0, _, cur, out => if cap ≤ out.length then out else out ++ [cur]
  | need + 1, start, cur, out =>
    if cap ≤ out.length then out
    else
      -- `k - need` of the source, in `std::size_t`
      let bound := (2 ^ 64 + k - (need + 1)) % 2 ^ 64
      (List.range' start (bound + 1 - start)).foldl (fun out i =>
        -- the early return of the loop body
        if cap ≤ out.length then out
        else combine items k cap need (i + 1) (cur ++ (items[i]?.map (·.id)).toList) out) out

/-- Bounded enumeration of candidate selections for one class. -/
def enumerateSelections (items : List (Resource D)) (d : ClassDemand D) (cap : Nat) :
    List (List ResourceId) :=
  if items.isEmpty then []
  else
    let want := if d.count ≠ 0 then d.count.toNat else 1
    let k := min items.length 8
    -- only the eight best candidates are combined
    if k < want then []
    else if !d.amountBased then combine items k cap want 0 [] []
    else
      -- by amount: the single candidates, then the pairs that reach the amount together
      let first := items.take k
      let singles := first.map fun r => [r.id]
      let pairs := first.zipIdx.flatMap fun (a, i) =>
        (first.drop (i + 1)).filterMap fun b =>
          if Double.le d.amount (Double.add (capacityForDimension a d.dimension)
              (capacityForDimension b d.dimension)) then some [a.id, b.id] else none
      (singles ++ if Double.lt Double.zero d.amount ∧ 2 ≤ k then pairs else []).take cap

/-- The amount to hold for a member: its capacity in the dimension of its class
when the class is demanded by amount, one otherwise. -/
def holdAmountForResource (r : Resource D) (req : CompositionRequest D) : D :=
  match (computeDemands req).find? fun d => d.cls = r.resourceClass with
  | some d => if d.amountBased then capacityForDimension r d.dimension else Double.one
  | none => Double.one

/-! ### Graphs -/

/-- The cross-resource edges a composition of the set requires. -/
def buildGraph (req : CompositionRequest D) (set : List (Resource D)) : ResourceGraph D :=
  let addEdge (a b : Resource D) (kind : GraphEdgeKind) : List (GraphEdge D) :=
    if a.id = b.id then [] else
      [⟨a.id, b.id, kind, true, req.minBandwidthMbps, req.maxLatencyUs, [], []⟩]
  -- one pair of nested loops over the set, `kinds` being the edges of its body
  let between (p q : ResourceClass → Bool) (kinds : List GraphEdgeKind) : List (GraphEdge D) :=
    (set.filter fun a => p a.resourceClass).flatMap fun a =>
      (set.filter fun b => q b.resourceClass && b.id != a.id).flatMap fun b =>
        kinds.flatMap (addEdge a b)
  { vertices := (set.foldl (fun g r => g.addVertex r.id) (default : ResourceGraph D)).vertices
    edges :=
      between (· = .compute) (· = .accelerator) [.reachability, .compatibility] ++
      between (· = .accelerator) (fun c => c = .hostMemory ∨ c = .expandedMemory)
        [.reachability, .bandwidthBound, .latencyBound] ++
      between (· = .accelerator) (fun c => c = .nic ∨ c = .networkEndpoint)
        [.reachability, .bandwidthBound] ++
      between (· = .compute) (· = .storage) [.reachability, .bandwidthBound] }

/-- One edge against the resources and the path table. Members of one node need
no path. -/
def validateEdge (resources : UMap ResourceId (Resource D)) (paths : OrdMap Str (PathEvidence D))
    (e : GraphEdge D) : Check :=
  match resources.lookup e.source, resources.lookup e.target with
  | some source, some target =>
    let bounds (bw lat : D) : Check :=
      if e.kind = .bandwidthBound ∧ Double.lt Double.zero e.minBandwidthMbps ∧
          Double.lt bw e.minBandwidthMbps then
        .error ⟨.bandwidthInsufficient,
          str "bw edge " ++ source.id.toStr ++ str "-" ++ target.id.toStr⟩
      else if e.kind = .latencyBound ∧ Double.lt Double.zero e.maxLatencyUs ∧
          Double.lt e.maxLatencyUs lat then
        .error ⟨.latencyLimitExceeded,
          str "latency edge " ++ source.id.toStr ++ str "-" ++ target.id.toStr⟩
      else .ok ()
    -- within one node the bandwidth counts as unbounded and the latency as zero
    if source.nodeId = target.nodeId then bounds (Double.ofRat (10 ^ 12)) Double.zero
    else
      match paths.find? (pathKey source.nodeId target.nodeId) with
      | none => .error ⟨.pathUnavailable,
          str "no verified path " ++ pathKey source.nodeId target.nodeId⟩
      | some p =>
        if !p.verified || !p.available then
          .error ⟨.pathUnavailable, str "no verified path " ++ pathKey source.nodeId target.nodeId⟩
        else if p.evidence.state = .stale ∨ !p.evidence.isCurrent then
          .error ⟨.pathStale, str "stale path " ++ pathKey source.nodeId target.nodeId⟩
        else bounds p.bandwidthMbps p.latencyUs
  | _, _ => .error ⟨.resourceOffline, str "edge endpoint missing"⟩

/-- Validate a graph against the current resources and paths. -/
def validateGraph (g : ResourceGraph D) (resources : UMap ResourceId (Resource D))
    (paths : OrdMap Str (PathEvidence D)) : Check :=
  firstFailure (validateEdge resources paths) g.edges

/-- Hard failure-domain constraints. -/
def validateFailureDomains (set : List (Resource D)) (req : CompositionRequest D) : Check :=
  let conflict (note : String) : Check := .error ⟨.failureDomainConflict, str note⟩
  let nodeKeys := (set.map fun r => r.nodeId.toStr).dedup
  match req.failureDomain.topology with
  | .none => .ok ()
  | .distinctFailureDomains =>
    let domains := (set.map fun r => r.nodeId.toStr ++ str ":" ++ r.failureDomain.name).dedup
    if domains.length < 2 then conflict "distinct domains required" else .ok ()
  | .maxSharedRisk =>
    -- the largest class of members that share a domain name
    let counts := set.map fun r =>
      (set.filter fun r' => r'.failureDomain.name = r.failureDomain.name).length
    if 0 < req.failureDomain.maxSharedRisk ∧
        req.failureDomain.maxSharedRisk.toNat < counts.foldr max 0 then
      conflict "max shared risk exceeded" else .ok ()
  | .colocate => if 1 < nodeKeys.length then conflict "colocate required" else .ok ()
  | .spread => if nodeKeys.length < 2 then conflict "spread required" else .ok ()

/-! ### Authority -/

/-- The generations a composition of the set is bound to. -/
def makeAuthority (gen : CompositionGeneration) (req : CompositionRequest D)
    (set : List (Resource D)) (nodes : UMap NodeId (Node D)) (paths : OrdMap Str (PathEvidence D))
    (epoch : CoordinatorEpoch) : AuthorityTuple :=
  -- members whose node is not registered contribute no node generation and no boot
  let hosts := set.filterMap fun r => nodes.lookup r.nodeId
  { coordinatorEpoch := epoch
    workerBoots := (hosts.filter fun n => n.workerBoot.isValid).map (·.workerBoot)
    nodeGenerations := hosts.map (·.generation)
    resourceGenerations := set.map (·.generation)
    -- every path of the table, used by the composition or not
    pathGenerations := paths.entries.map fun e => e.2.generation
    capabilityGenerations := set.flatMap fun r => r.capabilities.map (·.generation)
    compatibilityGenerations := set.flatMap fun r => r.compatibility.map (·.generation)
    policyGeneration := req.policyGeneration
    evidenceGenerations := set.map fun r => r.evidence.generation
    reservationGenerations := []
    compositionGeneration := gen }

/-- The member loop of `RevalidationHolds`: each vertex is registered, has the
generation recorded at its index (if one is recorded there), and has current
evidence. -/
def revalidateMembers (resources : UMap ResourceId (Resource D)) :
    List ResourceId → List ResourceGeneration → Check
  | [], _ => .ok ()
  | rid :: vertices, generations =>
    match resources.lookup rid with
    | none => .error ⟨.resourceOffline, str "resource missing " ++ rid.toStr⟩
    | some r =>
      if !r.id.isValid then .error ⟨.resourceOffline, str "resource missing " ++ rid.toStr⟩
      -- no generation recorded at this index: nothing to compare
      else if generations.head?.any (· ≠ r.generation) then
        .error ⟨.wrongResourceGeneration, str "resource gen changed " ++ rid.toStr⟩
      else if !r.evidence.isCurrent then
        .error ⟨.staleEvidence, str "evidence stale " ++ rid.toStr⟩
      else revalidateMembers resources vertices generations.tail

/-- Pre-activation revalidation. Only the epoch, the resource generations and the
currency of the members' evidence are looked at. -/
def revalidationHolds (c : Composition D) (resources : UMap ResourceId (Resource D))
    (epoch : CoordinatorEpoch) : Check :=
  if c.authority.coordinatorEpoch ≠ epoch then .error ⟨.wrongEpoch, str "epoch mismatch"⟩
  else revalidateMembers resources c.graph.vertices c.authority.resourceGenerations

/-! ### Ranking -/

/-- Deterministic ranking with named factors. -/
def rank (set : List (Resource D)) : RankScore D :=
  let one : D := Double.one
  let tenth : D := Double.ofRat (1 / 10)
  let capacity := set.foldl (fun acc r => Double.add acc
    (Double.add (capacityForDimension r (str "compute_units"))
      (Double.mul (capacityForDimension r (str "host_memory_bytes"))
        (Double.ofRat (1 / 10 ^ 6))))) Double.zero
  let health := set.foldl (fun acc r =>
    if r.health = .healthy then Double.add acc (Double.ofRat 10) else acc) Double.zero
  let positive (x : D) : D := if Double.lt Double.zero x then one else Double.zero
  let headroom := set.foldl (fun acc r => Double.add acc
    (Double.add (positive r.capacity.computeUnits) (positive r.capacity.storageBytes)))
    Double.zero
  let diversity : D := Double.ofRat ((set.map fun r => r.nodeId.toStr).dedup.length : ℚ)
  let factors : List (RankingFactor D) := [
    ⟨str "health", one, health, str "aggregate member health"⟩,
    ⟨str "capacity", one, Double.min one (Double.mul capacity tenth), str "aggregate capacity"⟩,
    ⟨str "failure_domain_diversity", one, diversity, str "distinct nodes"⟩,
    ⟨str "headroom", one, Double.min one (Double.mul headroom tenth), str "spare capacity"⟩]
  { total := factors.foldl (fun acc f => Double.add acc (Double.mul f.weight f.value)) Double.zero
    factors := factors }

end DFabric
