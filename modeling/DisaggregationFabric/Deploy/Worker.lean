import DisaggregationFabric.Codec.Sizes
import DisaggregationFabric.Codec.Transfer
import DisaggregationFabric.Deploy.Coordinator
import DisaggregationFabric.Lib.Dialogue
import DisaggregationFabric.Protocol.Connection

/-!
# The worker process

`worker.cpp`: a worker connects, announces its boot (`HELLO`) and the nodes it owns (`REGISTER`),
and then answers what the coordinator sends. A descriptor of a node or a resource is stamped as
the worker's own and sent back; a heartbeat is answered; everything else is ignored.

The descriptors that a coordinator serves are those of its topology (`inventory`). Each of them
makes the way to the worker and back unharmed: it fits into a frame, before and after it is
stamped, it is decoded as it was sent, and what is registered in the end is the stamped
descriptor (`Sound.echo`, `Sound.publication`).
-/

namespace DFabric

namespace Deploy

open Wire Proto

variable {D : Type}

/-! ### Descriptors -/

/-- What a worker publishes. -/
inductive Descriptor (D : Type) where
  | node (n : Node D)
  | resource (r : Resource D)

/-- A node that the worker owns. -/
def stampNode (boot : UInt64) (n : Node D) : Node D :=
  { n with workerOwner := toDecimal boot, workerBoot := ⟨boot⟩ }

/-- A resource that the worker owns: its evidence is fresh, and dies with the worker. -/
def stampResource (boot : UInt64) (r : Resource D) : Resource D :=
  { r with
    evidence := { r.evidence with
      owner := toDecimal boot
      provenance := str "worker-" ++ toDecimal boot
      durable := false
      state := .fresh
      maxAgeMs := 3600000
      generation := ⟨boot + 1⟩ }
    authorityOwner := toDecimal boot
    health := .healthy
    readiness := .ready
    reachability := .reachable }

namespace Descriptor

/-- What a worker makes of a descriptor. -/
def stamp (boot : UInt64) : Descriptor D → Descriptor D
  | .node n => .node (stampNode boot n)
  | .resource r => .resource (stampResource boot r)

/-- What a coordinator registers for a descriptor that a worker has published. -/
def own (boot : UInt64) : Descriptor D → Descriptor D
  | .node n => .node (ownNode boot n)
  | .resource r => .resource (ownResource boot r)

variable [DoubleBits D]

/-- The frame that carries a descriptor. -/
def reply (corr : UInt64) : Descriptor D → Reply
  | .node n => ⟨.publishNode, corr, writeNode n⟩
  | .resource r => ⟨.publishResource, corr, encodeResource r⟩

end Descriptor

/-- A frame, once its payload is written. -/
def Reply.frame (r : Reply) : Frame := ⟨r.type, r.correlation, bytesOf r.payload⟩

/-! ### The dispatch of a worker -/

section Dispatch

variable [Double D] [DoubleBits D]

/-- The descriptor in a frame, if there is one that is accepted. -/
def descriptor? (D : Type) [Double D] [DoubleBits D] (f : Frame) : Option (Descriptor D) :=
  match f.type with
  | .publishNode =>
    if accepted (decodeNode : Decoder (Node D)) f.payload then
      some (.node (decoded decodeNode f.payload))
    else none
  | .publishResource =>
    if accepted (decodeResource : Decoder (Resource D)) f.payload then
      some (.resource (decoded decodeResource f.payload))
    else none
  | _ => none

theorem descriptor?_publishNode (corr : UInt64) (payload : List UInt8) :
    descriptor? D ⟨.publishNode, corr, payload⟩ =
      if accepted (decodeNode : Decoder (Node D)) payload then
        some (.node (decoded decodeNode payload))
      else none :=
  rfl

theorem descriptor?_publishResource (corr : UInt64) (payload : List UInt8) :
    descriptor? D ⟨.publishResource, corr, payload⟩ =
      if accepted (decodeResource : Decoder (Resource D)) payload then
        some (.resource (decoded decodeResource payload))
      else none :=
  rfl

/-- What a worker answers to a frame, under the correlation that is next. -/
def echo (D : Type) [Double D] [DoubleBits D] (boot corr : UInt64) (f : Frame) : Option Reply :=
  match f.type with
  | .heartbeat => some ⟨.heartbeat, corr, []⟩
  | _ => (descriptor? D f).map fun d => (d.stamp boot).reply corr

theorem echo_of_descriptor? {f : Frame} {d : Descriptor D} (h : descriptor? D f = some d)
    (boot corr : UInt64) : echo D boot corr f = some ((d.stamp boot).reply corr) := by
  unfold echo
  split
  · next htype =>
    rw [descriptor?, htype] at h
    cases h
  · rw [h]
    rfl

/-- What a worker sends before it receives anything. -/
def openingReplies (boot : UInt64) (ids : List NodeId) : List Reply := [
  ⟨.hello, 1, [.u64 boot]⟩,
  ⟨.register, 2, Write.ids ids⟩]

/-- The local variables of a worker. -/
structure Worker where
  boot : UInt64
  /-- The buffer of its decoder. -/
  buffer : List UInt8
  /-- The correlation of its last answer. -/
  corrNext : UInt64
  alive : Bool

/-- A worker that has connected. -/
def Worker.start (boot : UInt64) : Worker := ⟨boot, [], 100, true⟩

/-- The loop over the frames of a `Feed`. -/
def Worker.serve (D : Type) [Double D] [DoubleBits D] (w : Worker) :
    List Frame → Worker × List Reply
  | [] => (w, [])
  | f :: fs =>
    match echo D w.boot (w.corrNext + 1) f with
    | none => Worker.serve D w fs
    | some r =>
      let rest := Worker.serve D { w with corrNext := w.corrNext + 1 } fs
      (rest.1, r :: rest.2)

/-- `RecvSome` returns bytes. -/
def Worker.receive (D : Type) [Double D] [DoubleBits D] (w : Worker) (bytes : List UInt8) :
    Worker × List Reply :=
  if !w.alive then (w, [])
  else
    let d := frameDecoder.feed w.buffer bytes
    match d.refusal with
    -- a protocol error ends the worker, and nothing of this piece is answered
    | some _ => ({ w with buffer := d.buffer, alive := false }, [])
    | none => Worker.serve D { w with buffer := d.buffer } d.messages

/-- A piece without a protocol error is answered frame by frame. -/
theorem Worker.receive_of_accepted {D : Type} [Double D] [DoubleBits D] {w : Worker}
    {bytes : List UInt8} (halive : w.alive = true)
    (hnone : (frameDecoder.feed w.buffer bytes).refusal = none) :
    w.receive D bytes = Worker.serve D
      { w with buffer := (frameDecoder.feed w.buffer bytes).buffer }
      (frameDecoder.feed w.buffer bytes).messages := by
  simp only [Worker.receive, halive, Bool.not_true, Bool.false_eq_true, if_false, hnone]

end Dispatch

/-! ### What a coordinator serves -/

section Inventory

/-- The descriptors of the nodes with the ids, in the order in which they are served. -/
def inventory (D : Type) [Double D] (ids : List NodeId) : List (Descriptor D) :=
  ids.flatMap fun nid =>
    ((SyntheticBackend.discoverNodes nodeGeneration : List (Node D)).filter (·.id = nid)).map
      Descriptor.node ++
    ((SyntheticBackend.discoverResources : List (Resource D)).filter (·.nodeId = nid)).map
      Descriptor.resource

theorem descriptors_eq [Double D] [DoubleBits D] (corr : UInt64) (ids : List NodeId) :
    descriptors D corr ids = (inventory D ids).map (Descriptor.reply corr) := by
  unfold descriptors inventory
  rw [List.map_flatMap]
  simp only [List.map_append, List.map_map]
  rfl

/-! ### Sizes -/

/-- A resource whose strings are written and that takes no more bytes than that. -/
structure Compact (bytes : ℕ) (r : Resource D) : Prop where
  texts : Short r.texts
  size : r.wireSize ≤ bytes

/-- The capacity numbers take the same room whatever they are. -/
theorem Compact.capacity {bytes : ℕ} {r : Resource D} (h : Compact bytes r) {c : Capacity D}
    (hextra : c.extra = r.capacity.extra) : Compact bytes { r with capacity := c } := by
  constructor
  · have htexts := h.texts
    unfold Resource.texts at htexts ⊢
    rw [← hextra] at htexts
    exact htexts
  · have hsize := h.size
    unfold Resource.wireSize at hsize ⊢
    rw [← hextra] at hsize
    exact hsize

/-- A capability takes as much as its text, and a bit more. -/
theorem Compact.addCap {bytes : ℕ} {r : Resource D} (h : Compact bytes r) (kind : CapabilityKind)
    (state : CapabilityState) {detail : String} (hdetail : (str detail).length ≤ 12) :
    Compact (bytes + 40) (SyntheticBackend.addCap r kind state detail) := by
  constructor
  · -- one more text
    have htexts := h.texts
    simp only [Resource.texts, SyntheticBackend.addCap, List.map_append, short_append, List.map_cons,
      List.map_nil, short_cons, short_nil] at htexts ⊢
    have hshort : (str detail).length ≤ 32768 := hdetail.trans (by decide)
    tauto
  · -- and 28 bytes with it
    have hsize := h.size
    simp only [Resource.wireSize, SyntheticBackend.addCap, listSize, List.map_append,
      List.sum_append, List.map_cons, List.map_nil, List.sum_cons, List.sum_nil,
      Capability.wireSize, textSize] at hsize ⊢
    omega

theorem Compact.mono {bytes bytes' : ℕ} {r : Resource D} (h : Compact bytes r)
    (hle : bytes ≤ bytes') : Compact bytes' r := ⟨h.texts, h.size.trans hle⟩

variable [Double D]

theorem compact_makeBase (id : ResourceId) (gen : ResourceGeneration) (cls : ResourceClass)
    (node : NodeId) :
    Compact 400 (SyntheticBackend.makeBase id gen cls node (str "synthetic") : Resource D) := by
  -- the lengths of the texts, and at most twenty digits of the node
  have hname : (str "synthetic").length = 9 := by decide +kernel
  have hsuffix : (str "/synthetic").length = 10 := by decide +kernel
  have hhost : (str "host-").length = 5 := by decide +kernel
  have hnode : node.toStr.length ≤ 20 := length_toDecimal_le node.value
  have hprovenance : (str "synthetic" ++ str "/synthetic").length = 19 := by
    rw [List.length_append, hname, hsuffix]
  have hdomain : (str "host-" ++ node.toStr).length ≤ 25 := by
    rw [List.length_append, hhost]
    omega
  constructor
  · show Short [str "synthetic", [], str "host-" ++ node.toStr, str "synthetic" ++ str "/synthetic",
      []]
    simp only [short_cons, short_nil, hname, hprovenance, List.length_nil, and_true]
    omega
  · show 41 + (4 + (str "synthetic").length) + 4 + (56 + 4) + (4 + 4) +
      (13 + (4 + (str "host-" ++ node.toStr).length)) +
      (49 + (4 + (str "synthetic" ++ str "/synthetic").length) + 4) + 4 + 4 ≤ 400
    omega

theorem compact_makeAccelerator (id : ResourceId) (node : NodeId) :
    Compact 600 (SyntheticBackend.makeAccelerator id node : Resource D) := by
  have hversion : (str "12.0").length ≤ 12 := by decide +kernel
  have hprecision : (str "fp64").length ≤ 12 := by decide +kernel
  refine Compact.mono ?_ (show 400 + 40 + 40 + 40 ≤ 600 by decide)
  apply Compact.addCap _ _ _ hprecision
  apply Compact.addCap _ _ _ hversion
  apply Compact.addCap _ _ _ hversion
  exact (compact_makeBase ..).capacity rfl

/-- The resources of the topology are small. -/
theorem compact_discoverResources :
    ∀ r ∈ (SyntheticBackend.discoverResources : List (Resource D)), Compact 600 r := by
  have hnone : (str "").length ≤ 12 := by decide +kernel
  have htcp : (str "tcp").length ≤ 12 := by decide +kernel
  simp only [SyntheticBackend.discoverResources, List.forall_mem_cons]
  refine ⟨?_, compact_makeAccelerator .., ?_, ?_, ?_, ?_, compact_makeAccelerator ..,
    List.forall_mem_nil _⟩
  · -- each capability takes forty bytes at most
    refine Compact.mono ?_ (show 400 + 40 + 40 + 40 + 40 ≤ 600 by decide)
    iterate 4 apply Compact.addCap _ _ _ hnone
    exact (compact_makeBase ..).capacity rfl
  · refine Compact.mono ?_ (show 400 + 40 ≤ 600 by decide)
    apply Compact.addCap _ _ _ hnone
    exact (compact_makeBase ..).capacity rfl
  · refine Compact.mono ?_ (show 400 + 40 + 40 ≤ 600 by decide)
    iterate 2 apply Compact.addCap _ _ _ hnone
    exact (compact_makeBase ..).capacity rfl
  · refine Compact.mono ?_ (show 400 + 40 ≤ 600 by decide)
    apply Compact.addCap _ _ _ hnone
    exact (compact_makeBase ..).capacity rfl
  · refine Compact.mono ?_ (show 400 + 40 + 40 ≤ 600 by decide)
    apply Compact.addCap _ _ _ htcp
    apply Compact.addCap _ _ _ hnone
    exact (compact_makeBase ..).capacity rfl

theorem storable_discoverResources :
    ∀ r ∈ (SyntheticBackend.discoverResources : List (Resource D)),
      r.Storable ∧ r.failureDomain.localityCoords = default := by
  have hstorable : ∀ r ∈ (SyntheticBackend.discoverResources : List (Resource D)), r.Storable :=
    of_decide_eq_true rfl
  intro r hr
  refine ⟨hstorable r hr, ?_⟩
  simp only [SyntheticBackend.discoverResources, List.mem_cons, List.not_mem_nil, or_false] at hr
  rcases hr with rfl | rfl | rfl | rfl | rfl | rfl | rfl <;> rfl

omit [Double D] in
/-- The nodes of the topology are small. -/
theorem compact_discoverNodes :
    ∀ n ∈ (SyntheticBackend.discoverNodes nodeGeneration : List (Node D)),
      n.Storable ∧ n.failureDomain.localityCoords = default ∧ Short n.texts ∧ n.wireSize ≤ 600 := by
  have hstorable :
      ∀ n ∈ (SyntheticBackend.discoverNodes nodeGeneration : List (Node D)), n.Storable :=
    of_decide_eq_true rfl
  have hname : (str "synthetic").length = 9 := by decide +kernel
  -- the names of the hosts and of the racks
  have hshort : ∀ s ∈ ["node-a", "node-b", "node-c", "node-d", "rack-1", "rack-2", "rack-3",
      "rack-4"], (str s).length = 6 := by decide +kernel
  have hnode : ∀ (id : NodeId) (domain : FailureDomainId) (host rack : String),
      (str host).length = 6 → (str rack).length = 6 →
      Short (SyntheticBackend.makeNode nodeGeneration id host domain rack : Node D).texts ∧
        (SyntheticBackend.makeNode nodeGeneration id host domain rack : Node D).wireSize ≤ 600 := by
    intro id domain host rack hhost hrack
    constructor
    · show Short [str host, str "synthetic", str rack, []]
      simp only [short_cons, short_nil, hname, hhost, hrack, List.length_nil, and_true]
      omega
    · show 49 + (4 + (str host).length) + (4 + (str "synthetic").length) + 4 +
        (13 + (4 + (str rack).length)) + (4 + 4) + 4 ≤ 600
      omega
  intro n hn
  refine ⟨hstorable n hn, ?_⟩
  simp only [SyntheticBackend.discoverNodes, List.mem_cons, List.not_mem_nil, or_false] at hn
  rcases hn with rfl | rfl | rfl | rfl
  all_goals exact ⟨rfl, hnode _ _ _ _ (hshort _ (by simp)) (hshort _ (by simp))⟩

end Inventory

/-! ### The way to the worker and back -/

/-- A descriptor that goes into a frame and comes out of it. -/
inductive Descriptor.Sound (bytes : ℕ) : Descriptor D → Prop where
  | node {n : Node D} (storable : n.Storable) (plain : n.failureDomain.localityCoords = default)
      (texts : Short n.texts) (size : n.wireSize ≤ bytes) : Sound bytes (.node n)
  | resource {r : Resource D} (storable : r.Storable)
      (plain : r.failureDomain.localityCoords = default) (compact : Compact bytes r) :
      Sound bytes (.resource r)

namespace Descriptor

theorem sound_inventory [Double D] (ids : List NodeId) :
    ∀ d ∈ inventory D ids, d.Sound 600 := by
  intro d hd
  obtain ⟨nid, -, hd⟩ := List.mem_flatMap.mp hd
  rcases List.mem_append.mp hd with hd | hd
  · obtain ⟨n, hn, rfl⟩ := List.mem_map.mp hd
    obtain ⟨hstorable, hplain, htexts, hsize⟩ := compact_discoverNodes n (List.mem_filter.mp hn).1
    exact .node hstorable hplain htexts hsize
  · obtain ⟨r, hr, rfl⟩ := List.mem_map.mp hd
    have hmem := (List.mem_filter.mp hr).1
    obtain ⟨hstorable, hplain⟩ := storable_discoverResources r hmem
    exact .resource hstorable hplain (compact_discoverResources r hmem)

/-- A stamp is short. -/
theorem Sound.stamp {bytes : ℕ} {d : Descriptor D} (h : d.Sound bytes) (boot : UInt64) :
    (d.stamp boot).Sound (bytes + 100) := by
  have hboot := length_toDecimal_le boot
  have hworker : (str "worker-").length = 7 := by decide +kernel
  have hprovenance : (str "worker-" ++ toDecimal boot).length ≤ 27 := by
    rw [List.length_append, hworker]
    omega
  cases h with
  | node storable plain texts size =>
    refine .node ⟨storable.backend, storable.inventory, storable.domainType, storable.locality,
      storable.reachability, storable.health, storable.lifecycle⟩ plain ?_ ?_
    · have howner : (toDecimal boot).length ≤ 32768 := hboot.trans (by decide)
      simp only [Node.texts, stampNode, short_append, short_cons, short_nil, and_true] at texts ⊢
      tauto
    · simp only [Node.wireSize, stampNode, textSize] at size ⊢
      omega
  | resource storable plain compact =>
    -- the values that the stamp sets are ones that a decoder accepts
    have hhealth : EnumTraits.Canonical ResourceHealth.healthy := by decide
    have hready : EnumTraits.Canonical Readiness.ready := by decide
    have hreachable : EnumTraits.Canonical Reachability.reachable := by decide
    have hfresh : EnumTraits.Canonical EvidenceState.fresh := by decide
    refine .resource ⟨storable.resourceClass, hhealth, hready, hreachable, storable.extra,
      storable.locality, storable.domainType, ⟨storable.evidence.source, hfresh⟩,
      storable.capabilities_length, storable.capabilities, storable.compatibility_length,
      storable.compatibility⟩ plain ⟨?_, ?_⟩
    · have htexts := compact.texts
      simp only [Resource.texts, Evidence.texts, stampResource, short_append, short_cons, short_nil,
        and_true] at htexts ⊢
      have howner : (toDecimal boot).length ≤ 32768 := hboot.trans (by decide)
      have hlong : (str "worker-" ++ toDecimal boot).length ≤ 32768 := hprovenance.trans (by decide)
      tauto
    · have hsize := compact.size
      simp only [Resource.wireSize, Evidence.wireSize, stampResource, textSize] at hsize ⊢
      omega

section Codec

variable [DoubleBits D] {d : Descriptor D} {bytes : ℕ}

theorem Sound.writable (h : d.Sound bytes) (corr : UInt64) :
    Writable wireLimits (d.reply corr).payload := by
  cases h with
  | node _ _ texts _ => exact (writable_writeNode rfl).mpr texts
  | resource _ _ compact => exact (writable_encodeResource rfl).mpr compact.texts

theorem Sound.fits (h : d.Sound bytes) (hbytes : bytes ≤ 65536) (corr : UInt64) :
    (d.reply corr).frame.Fits := by
  cases h with
  | @node n _ _ _ size =>
    have hlen : (bytesOf (writeNode n)).length = n.wireSize := size_writeNode n
    exact hlen.trans_le (size.trans hbytes)
  | @resource r _ _ compact =>
    have hlen : (bytesOf (encodeResource r)).length = r.wireSize := size_encodeResource r
    exact hlen.trans_le (compact.size.trans hbytes)

variable [Double D]

/-- What was written is accepted, and decoded as it was. -/
theorem decoded_of_reads {R : Type} [Inhabited R] {dec : Decoder R} {ts : List Token} {y : R}
    (h : Reads wireLimits dec ts default y) (hw : Writable wireLimits ts) :
    accepted dec (bytesOf ts) = true ∧ decoded dec (bytesOf ts) = y := by
  have hrun := h.run hw [] 0
  rw [List.append_nil] at hrun
  have hreader : Reader.ofBytes (bytesOf ts) = ⟨bytesOf ts, 0, true⟩ := rfl
  rw [accepted, decoded, hreader, hrun]
  exact ⟨rfl, rfl⟩

variable [LawfulDoubleBits D]

/-- **A descriptor is decoded as it was sent.** -/
theorem Sound.descriptor? (h : d.Sound bytes) (corr : UInt64) :
    descriptor? D (d.reply corr).frame = some d := by
  have hw := h.writable corr
  -- the decoder gets the record back, since it has nothing that does not travel
  cases h with
  | @node n storable plain texts size =>
    have hreads : Reads wireLimits decodeNode (writeNode n) default n.persisted :=
      .closed (reads_nodeFields rfl storable)
    obtain ⟨hacc, hdec⟩ := decoded_of_reads hreads hw
    rw [reply, Reply.frame, descriptor?_publishNode]
    rw [if_pos hacc, hdec, Node.persisted_eq plain]
  | @resource r storable plain compact =>
    obtain ⟨hacc, hdec⟩ := decoded_of_reads (reads_decodeResource storable) hw
    rw [reply, Reply.frame, descriptor?_publishResource]
    rw [if_pos hacc, hdec, Resource.persisted_eq plain]

/-- A worker answers a descriptor with its stamped copy. -/
theorem Sound.echo (h : d.Sound bytes) (boot corr corr' : UInt64) :
    echo D boot corr' (d.reply corr).frame = some ((d.stamp boot).reply corr') :=
  echo_of_descriptor? (h.descriptor? corr) boot corr'

end Codec

/-- The stamp of the coordinator is the one of the worker again. -/
theorem own_stamp (boot : UInt64) (d : Descriptor D) : (d.stamp boot).own boot = d.stamp boot := by
  cases d <;> rfl

end Descriptor

end Deploy

end DFabric
