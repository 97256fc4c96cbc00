import DisaggregationFabric.Codec.Records

/-!
# The composition codecs and the durable file

`WritePath` to `WriteComposition` with their readers, and `SaveImpl` / `LoadImpl`
of `persistence.cpp`: a magic number and a version, the epoch, the four counted
tables, and a trailing checksum over everything before it.

What a composition loses on its way to disk is visible in the writers: of the
request, the failure-domain constraint, the reachability waiver and the extra
constraints; of the rank, its factors; and the explanation.
-/

namespace DFabric

open Wire

variable {D : Type} [Double D] [DoubleBits D]

/-! ### Paths and graphs -/

/-- `WritePath` / `EncodePath`. -/
def writePath (p : PathEvidence D) : List Token := .flatten [
  Write.u64 p.id.value, Write.u64 p.generation.value,
  Write.u64 p.requirement.source.value, Write.u64 p.requirement.target.value,
  Write.dbl p.requirement.minBandwidthMbps, Write.dbl p.requirement.maxLatencyUs,
  Write.flag p.requirement.required, Write.flag p.requirement.direct,
  Write.str p.requirement.protocol,
  Write.flag p.available, Write.dbl p.bandwidthMbps, Write.dbl p.latencyUs,
  Write.flag p.verified, Write.str p.provider, Write.str p.source,
  writeEvidence p.evidence]

/-- The statements of `ReadPath` and `DecodePath`; the flag is tested by the reader
of the evidence. -/
def pathFields (lim : Limits) (evidence : Decoder (Evidence D)) :
    List (Decoder (PathEvidence D)) := [
  Fill.u64 fun v p => { p with id := ⟨v⟩ },
  Fill.u64 fun v p => { p with generation := ⟨v⟩ },
  Fill.u64 fun v p => { p with requirement := { p.requirement with source := ⟨v⟩ } },
  Fill.u64 fun v p => { p with requirement := { p.requirement with target := ⟨v⟩ } },
  Fill.dbl fun v p => { p with requirement := { p.requirement with minBandwidthMbps := v } },
  Fill.dbl fun v p => { p with requirement := { p.requirement with maxLatencyUs := v } },
  Fill.flag fun v p => { p with requirement := { p.requirement with required := v } },
  Fill.flag fun v p => { p with requirement := { p.requirement with direct := v } },
  Fill.str lim fun v p => { p with requirement := { p.requirement with protocol := v } },
  Fill.flag fun v p => { p with available := v },
  Fill.dbl fun v p => { p with bandwidthMbps := v },
  Fill.dbl fun v p => { p with latencyUs := v },
  Fill.flag fun v p => { p with verified := v },
  Fill.str lim fun v p => { p with provider := v },
  Fill.str lim fun v p => { p with source := v },
  .into (·.evidence) (fun v p => { p with evidence := v }) evidence]

/-- `ReadPath`. -/
def readPath : Decoder (PathEvidence D) := .block (pathFields persistLimits readEvidence)

/-- The edge part of `WriteGraph`. -/
def writeEdge (e : GraphEdge D) : List Token := .flatten [
  Write.u64 e.source.value, Write.u64 e.target.value, Write.enum e.kind, Write.flag e.required,
  Write.dbl e.minBandwidthMbps, Write.dbl e.maxLatencyUs,
  Write.str e.protocol, Write.str e.compatFacet]

/-- The body of the edge loop of `ReadGraph`. -/
def edgeFields (lim : Limits) : List (Decoder (GraphEdge D)) := [
  Fill.u64 fun v e => { e with source := ⟨v⟩ },
  Fill.u64 fun v e => { e with target := ⟨v⟩ },
  Fill.enum fun v e => { e with kind := v },
  Fill.flag fun v e => { e with required := v },
  Fill.dbl fun v e => { e with minBandwidthMbps := v },
  Fill.dbl fun v e => { e with maxLatencyUs := v },
  Fill.str lim fun v e => { e with protocol := v },
  Fill.str lim fun v e => { e with compatFacet := v }]

/-- `WriteGraph` / `EncodeGraph`. -/
def writeGraph (g : ResourceGraph D) : List Token := .flatten [
  Write.ids g.vertices, counted g.edges writeEdge]

/-- The statements of `ReadGraph` and `DecodeGraph`. -/
def graphFields (lim : Limits) : List (Decoder (ResourceGraph D)) := [
  Fill.ids lim (·.vertices) fun v g => { g with vertices := v },
  Fill.list lim (·.edges) (fun v g => { g with edges := v }) (.block (edgeFields lim))]

/-- `ReadGraph`. -/
def readGraph : Decoder (ResourceGraph D) := .closed (graphFields persistLimits)

/-! ### Authority and requests -/

/-- `WriteAuthority` / `EncodeAuthority`. -/
def writeAuthority (a : AuthorityTuple) : List Token := .flatten [
  Write.u64 a.coordinatorEpoch.value,
  Write.ids a.workerBoots, Write.generations a.nodeGenerations,
  Write.generations a.resourceGenerations, Write.generations a.pathGenerations,
  Write.generations a.capabilityGenerations, Write.generations a.compatibilityGenerations,
  Write.u64 a.policyGeneration.value,
  Write.generations a.evidenceGenerations, Write.generations a.reservationGenerations,
  Write.u64 a.compositionGeneration.value]

/-- The statements of `ReadAuthority` and `DecodeAuthority`. -/
def authorityFields (lim : Limits) : List (Decoder AuthorityTuple) := [
  Fill.u64 fun v a => { a with coordinatorEpoch := ⟨v⟩ },
  Fill.ids lim (·.workerBoots) fun v a => { a with workerBoots := v },
  Fill.generations lim (·.nodeGenerations) fun v a => { a with nodeGenerations := v },
  Fill.generations lim (·.resourceGenerations) fun v a => { a with resourceGenerations := v },
  Fill.generations lim (·.pathGenerations) fun v a => { a with pathGenerations := v },
  Fill.generations lim (·.capabilityGenerations) fun v a => { a with capabilityGenerations := v },
  Fill.generations lim (·.compatibilityGenerations) fun v a =>
    { a with compatibilityGenerations := v },
  Fill.u64 fun v a => { a with policyGeneration := ⟨v⟩ },
  Fill.generations lim (·.evidenceGenerations) fun v a => { a with evidenceGenerations := v },
  Fill.generations lim (·.reservationGenerations) fun v a =>
    { a with reservationGenerations := v },
  Fill.u64 fun v a => { a with compositionGeneration := ⟨v⟩ }]

/-- `ReadAuthority`. -/
def readAuthority : Decoder AuthorityTuple := .closed (authorityFields persistLimits)

/-- `WriteRequest`. -/
def writeRequest (q : CompositionRequest D) : List Token := .flatten [
  Write.u64 q.computeUnits, Write.u32 q.acceleratorCount,
  counted q.acceleratorArchitectures Write.str,
  Write.dbl q.acceleratorMemoryBytes, Write.dbl q.hostMemoryBytes,
  Write.dbl q.expandedMemoryBytes, Write.dbl q.storageBytes,
  Write.u32 q.networkEndpointCount, Write.dbl q.minBandwidthMbps, Write.dbl q.maxLatencyUs,
  Write.classes q.mandatoryClasses, Write.classes q.optionalClasses,
  Write.flag q.requireDirectPath, Write.flag q.requireCoherence,
  Write.flag q.requirePersistence, Write.flag q.requireIsolation, Write.flag q.stagingAllowance,
  Write.u64 q.compatibility.value,
  Write.u64 q.policy.value, Write.u64 q.policyGeneration.value,
  Write.u64 q.consumer.value, Write.u64 q.consumerGeneration.value]

/-- The statements of `ReadRequest`. -/
def requestFields : List (Decoder (CompositionRequest D)) := [
  Fill.u64 fun v q => { q with computeUnits := v },
  Fill.u32 fun v q => { q with acceleratorCount := v },
  Fill.list persistLimits (·.acceleratorArchitectures)
    (fun v q => { q with acceleratorArchitectures := v }) (.value (Reader.str persistLimits)),
  Fill.dbl fun v q => { q with acceleratorMemoryBytes := v },
  Fill.dbl fun v q => { q with hostMemoryBytes := v },
  Fill.dbl fun v q => { q with expandedMemoryBytes := v },
  Fill.dbl fun v q => { q with storageBytes := v },
  Fill.u32 fun v q => { q with networkEndpointCount := v },
  Fill.dbl fun v q => { q with minBandwidthMbps := v },
  Fill.dbl fun v q => { q with maxLatencyUs := v },
  Fill.classes persistLimits (·.mandatoryClasses) fun v q => { q with mandatoryClasses := v },
  Fill.classes persistLimits (·.optionalClasses) fun v q => { q with optionalClasses := v },
  Fill.flag fun v q => { q with requireDirectPath := v },
  Fill.flag fun v q => { q with requireCoherence := v },
  Fill.flag fun v q => { q with requirePersistence := v },
  Fill.flag fun v q => { q with requireIsolation := v },
  Fill.flag fun v q => { q with stagingAllowance := v },
  Fill.u64 fun v q => { q with compatibility := ⟨v⟩ },
  Fill.u64 fun v q => { q with policy := ⟨v⟩ },
  Fill.u64 fun v q => { q with policyGeneration := ⟨v⟩ },
  Fill.u64 fun v q => { q with consumer := ⟨v⟩ },
  Fill.u64 fun v q => { q with consumerGeneration := ⟨v⟩ }]

/-- `ReadRequest`. -/
def readRequest : Decoder (CompositionRequest D) := .closed requestFields

/-! ### Compositions -/

/-- `WriteComposition`. -/
def writeComposition (c : Composition D) : List Token := .flatten [
  Write.u64 c.id.value, Write.u64 c.generation.value,
  Write.u64 c.resourceSetId.value, Write.u64 c.resourceSetGeneration.value,
  Write.ids c.nodes, writeRequest c.request, writeGraph c.graph, writeAuthority c.authority,
  Write.enum c.lifecycle, Write.u64 c.reservation.value, Write.enum c.outcome,
  Write.dbl c.rank.total, counted c.paths writePath]

/-- The statements of `ReadComposition`. -/
def compositionFields : List (Decoder (Composition D)) := [
  Fill.u64 fun v c => { c with id := ⟨v⟩ },
  Fill.u64 fun v c => { c with generation := ⟨v⟩ },
  Fill.u64 fun v c => { c with resourceSetId := ⟨v⟩ },
  Fill.u64 fun v c => { c with resourceSetGeneration := ⟨v⟩ },
  Fill.ids persistLimits (·.nodes) fun v c => { c with nodes := v },
  .into (·.request) (fun v c => { c with request := v }) readRequest,
  .into (·.graph) (fun v c => { c with graph := v }) readGraph,
  .into (·.authority) (fun v c => { c with authority := v }) readAuthority,
  Fill.enum fun v c => { c with lifecycle := v },
  Fill.u64 fun v c => { c with reservation := ⟨v⟩ },
  Fill.enum fun v c => { c with outcome := v },
  Fill.dbl fun v c => { c with rank := { c.rank with total := v } },
  Fill.list persistLimits (·.paths) (fun v c => { c with paths := v }) readPath]

/-- `ReadComposition`. -/
def readComposition : Decoder (Composition D) := .closed compositionFields

/-! ### The file -/

/-- `Checksum`: FNV-1a, 64 bits. -/
def checksum (bs : List UInt8) : UInt64 :=
  bs.foldl (fun h b => (h ^^^ b.toUInt64) * 0x100000001b3) 0xcbf29ce484222325

/-- `kMagic`. -/
def magic : UInt32 := 0x46414244

/-- `kFormatVersion`. -/
def formatVersion : UInt32 := 1

/-- What `SaveImpl` writes between the header and the checksum. -/
def writeBody (s : DurableState D) : List Token := .flatten [
  Write.u64 s.epoch.value,
  counted s.nodes writeNode, counted s.resources writeResource,
  counted s.policies.entries fun e => Write.u64 e.1.value ++ Write.u64 e.2.value,
  counted s.compositions writeComposition]

/-- What `SaveImpl` writes, up to the checksum. -/
def writeState (s : DurableState D) : List Token :=
  Write.u32 magic ++ (Write.u32 formatVersion ++ writeBody s)

/-- `SaveImpl`: the bytes it puts into the file, or the text of the exception. -/
def saveImpl (s : DurableState D) : Except Str (List UInt8) :=
  match write persistLimits (writeState s) with
  -- the checksum covers the header as well
  | .ok bs => .ok (bs ++ Token.bytes (.u64 (checksum bs)))
  | .error text => .error text

/-- One of the four counted loops of `LoadImpl`, with its two error texts. -/
def loadTable {A : Type} [Inhabited A] (overflow malformed : Str) (d : Decoder A) (r : Reader) :
    Except Str (List A × Reader) :=
  let n := r.u32
  -- the count is compared before the flag of the reader is looked at
  if persistLimits.maxCount < n.1 then .error overflow
  else
    match Decoder.rounds n.1.toNat
        (Decoder.addEntry (fun l => l) (fun l _ => l) (fun l a => l ++ [a]) d) [] n.2 with
    | (true, l, r) => .ok (l, r)
    | (false, _, _) => .error malformed

/-- A table that is loaded is a container that is read into an empty list. -/
theorem loadTable_eq_ok {A : Type} [Inhabited A] {overflow malformed : Str} {d : Decoder A}
    {r r' : Reader} {l : List A} :
    loadTable overflow malformed d r = .ok (l, r') ↔
      Decoder.collect persistLimits.maxCount (fun l : List A => l) (fun l _ => l)
        (fun l a => l ++ [a]) d [] r = (true, l, r') := by
  unfold loadTable Decoder.collect
  dsimp only
  split
  · simp
  · -- the loop is the same, its result is tested for the error text only
    split
    · next hrun => rw [hrun]; simp
    · next hrun => rw [hrun]; simp

/-- The policy entry of `LoadImpl`. -/
def readPolicy : Decoder (PolicyId × PolicyGeneration) :=
  .value (Reader.pair (Reader.map StrongId.mk Reader.u64)
    (Reader.map StrongGeneration.mk Reader.u64))

/-- `LoadImpl` behind the header and the checksum test. -/
def loadBody (r : Reader) : Except Str (DurableState D) := do
  let (epoch, r) := r.u64
  let (nodes, r) ← loadTable (str "node count overflow") (str "malformed node") readNode r
  let (resources, r) ←
    loadTable (str "resource count overflow") (str "malformed resource") readResource r
  -- a policy entry is two plain reads, which are never refused: a truncated table
  -- shows in the flag only, below
  let (policies, r) ← loadTable (str "policy count overflow") [] readPolicy r
  let (compositions, r) ←
    loadTable (str "composition count overflow") (str "malformed composition") readComposition r
  if !r.ok then .error (str "truncated payload")
  else .ok {
    epoch := ⟨epoch⟩
    nodes := nodes
    resources := resources
    -- a repeated policy keeps its last generation
    policies := policies.foldl (fun m e => m.insert e.1 e.2) default
    compositions := compositions }

/-- What `LoadImpl` loads: four tables in a row, and the flag of the reader is up at the end. -/
theorem loadBody_ok {r : Reader} {s : DurableState D} (h : loadBody r = .ok s) :
    ∃ nodes resources policies compositions,
      loadTable (str "node count overflow") (str "malformed node") readNode r.u64.2 = .ok nodes ∧
      loadTable (str "resource count overflow") (str "malformed resource") readResource nodes.2 =
        .ok resources ∧
      loadTable (str "policy count overflow") [] readPolicy resources.2 = .ok policies ∧
      loadTable (str "composition count overflow") (str "malformed composition") readComposition
        policies.2 = .ok compositions ∧
      compositions.2.ok = true ∧
      s = {
        epoch := ⟨r.u64.1⟩
        nodes := nodes.1
        resources := resources.1
        policies := policies.1.foldl (fun m e => m.insert e.1 e.2) default
        compositions := compositions.1 } := by
  -- one split for each table, and one for the flag at the end
  unfold loadBody at h
  dsimp only [bind, Except.bind] at h
  split at h
  · cases h
  next _ nodes hnodes =>
  split at h
  · cases h
  next _ resources hresources =>
  split at h
  · cases h
  next _ policies hpolicies =>
  split at h
  · cases h
  next _ compositions hcompositions =>
  split at h
  · cases h
  next hflag =>
  cases h
  exact ⟨nodes, resources, policies, compositions, hnodes, hresources, hpolicies, hcompositions,
    by simpa using hflag, rfl⟩

/-- `LoadImpl`, on the contents of a file that could be opened and read. -/
def loadImpl (file : List UInt8) : Except Str (DurableState D) :=
  if file.isEmpty then .error (str "empty/truncated file")
  else
    let m := (Reader.ofBytes file).u32
    if m.1 ≠ magic then .error (str "bad magic")
    else
      let v := m.2.u32
      if v.1 ≠ formatVersion then .error (str "unsupported format version")
      -- neither comparison looks at the flag: a short file reads as zeros
      else if file.length < 8 then .error (str "truncated (no checksum)")
      else
        let stored := (Reader.ofBytes (file.drop (file.length - 8))).u64.1
        if stored ≠ checksum (file.take (file.length - 8)) then .error (str "checksum mismatch")
        else loadBody v.2

/-- A file that is loaded has passed all tests, and its body was read. -/
theorem loadImpl_passed {file : List UInt8} {s : DurableState D} (h : loadImpl file = .ok s) :
    (Reader.ofBytes file).u32.1 = magic ∧
      (Reader.ofBytes file).u32.2.u32.1 = formatVersion ∧ 8 ≤ file.length ∧
      (Reader.ofBytes (file.drop (file.length - 8))).u64.1 =
        checksum (file.take (file.length - 8)) ∧
      loadBody (Reader.ofBytes file).u32.2.u32.2 = .ok s := by
  -- one split for each test, in their order
  unfold loadImpl at h
  split at h
  · cases h
  dsimp only at h
  split at h
  · cases h
  next hmagic =>
  split at h
  · cases h
  next hversion =>
  split at h
  · cases h
  next hlen =>
  split at h
  · cases h
  next hsum =>
  exact ⟨not_not.mp hmagic, not_not.mp hversion, not_lt.mp hlen, not_not.mp hsum, h⟩

end DFabric
