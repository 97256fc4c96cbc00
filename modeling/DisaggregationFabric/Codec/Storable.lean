import DisaggregationFabric.Codec.Compositions
import Mathlib.Tactic.MkIffOfInductiveProp

/-!
# What can be read back

A record is *storable* when its enumerators lie in the canonical range and its
lists and maps have at most `maxCount` entries: what the readers insist on beyond
the length of strings, which the writers check themselves. For every record there
are two results:

* `reads_*` — a storable record that is written is read back, as its `persisted`
  version: the fields that are not written have their defaults, and every number
  went through its bit pattern;
* `yields_*` — what a reader accepts is storable.

The readers of `persistence.cpp` and the decoders of `codec.hpp` share the field
lists, so each result is proved once, for any limits whose count bound is
`maxCount`.
-/

namespace DFabric

open Wire EnumTraits

/-- The count bound of both codecs. -/
def maxCount : ℕ := 1048576

/-! ### Storable records -/

/-- The enumerators of an evidence record are canonical. -/
@[mk_iff]
structure Evidence.Storable {D : Type} (e : Evidence D) : Prop where
  source : Canonical e.source
  state : Canonical e.state

/-- The enumerators of a capability are canonical. -/
@[mk_iff]
structure Capability.Storable (c : Capability) : Prop where
  kind : Canonical c.kind
  state : Canonical c.state

/-- The pins of a compatibility claim are within the bound. -/
def Compatibility.Storable (c : Compatibility) : Prop := c.pins.length ≤ maxCount

/-- The containers of a locality are within the bound. -/
@[mk_iff]
structure Locality.Storable {D : Type} (l : Locality D) : Prop where
  coords : l.coords.length ≤ maxCount
  tags : l.tags.size ≤ maxCount

/-- What `ReadResource` and `DecodeResource` insist on. -/
@[mk_iff]
structure Resource.Storable {D : Type} (r : Resource D) : Prop where
  resourceClass : Canonical r.resourceClass
  health : Canonical r.health
  readiness : Canonical r.readiness
  reachability : Canonical r.reachability
  extra : r.capacity.extra.size ≤ maxCount
  locality : r.locality.Storable
  domainType : Canonical r.failureDomain.type
  evidence : r.evidence.Storable
  capabilities_length : r.capabilities.length ≤ maxCount
  capabilities : ∀ c ∈ r.capabilities, c.Storable
  compatibility_length : r.compatibility.length ≤ maxCount
  compatibility : ∀ c ∈ r.compatibility, c.Storable

/-- A storable resource is storable with any canonical health, and with any storable
evidence. -/
theorem Resource.Storable.update {D : Type} {r : Resource D} (h : r.Storable)
    {health : ResourceHealth} (hhealth : Canonical health) {evidence : Evidence D}
    (hevidence : evidence.Storable) :
    ({ r with health := health, evidence := evidence } : Resource D).Storable :=
  ⟨h.resourceClass, hhealth, h.readiness, h.reachability, h.extra, h.locality, h.domainType,
    hevidence, h.capabilities_length, h.capabilities, h.compatibility_length, h.compatibility⟩

/-- What `ReadNode` and `DecodeNode` insist on. -/
@[mk_iff]
structure Node.Storable {D : Type} (n : Node D) : Prop where
  backend : Canonical n.backend
  inventory : n.inventory.length ≤ maxCount
  domainType : Canonical n.failureDomain.type
  locality : n.locality.Storable
  reachability : Canonical n.reachability
  health : Canonical n.health
  lifecycle : Canonical n.lifecycle

/-- What `ReadGraph` insists on. -/
@[mk_iff]
structure ResourceGraph.Storable {D : Type} (g : ResourceGraph D) : Prop where
  vertices : g.vertices.length ≤ maxCount
  edges_length : g.edges.length ≤ maxCount
  edges : ∀ e ∈ g.edges, Canonical e.kind

/-- What `ReadAuthority` insists on. -/
@[mk_iff]
structure AuthorityTuple.Storable (a : AuthorityTuple) : Prop where
  workerBoots : a.workerBoots.length ≤ maxCount
  nodeGenerations : a.nodeGenerations.length ≤ maxCount
  resourceGenerations : a.resourceGenerations.length ≤ maxCount
  pathGenerations : a.pathGenerations.length ≤ maxCount
  capabilityGenerations : a.capabilityGenerations.length ≤ maxCount
  compatibilityGenerations : a.compatibilityGenerations.length ≤ maxCount
  evidenceGenerations : a.evidenceGenerations.length ≤ maxCount
  reservationGenerations : a.reservationGenerations.length ≤ maxCount

/-- What `ReadRequest` insists on. -/
@[mk_iff]
structure CompositionRequest.Storable {D : Type} (q : CompositionRequest D) : Prop where
  architectures : q.acceleratorArchitectures.length ≤ maxCount
  mandatory_size : q.mandatoryClasses.size ≤ maxCount
  mandatory : ∀ e ∈ q.mandatoryClasses.entries, Canonical e.1
  optional_size : q.optionalClasses.size ≤ maxCount
  optional : ∀ e ∈ q.optionalClasses.entries, Canonical e.1

/-- What `ReadComposition` insists on, the lifecycle and the outcome aside. -/
@[mk_iff]
structure Composition.Storable {D : Type} (c : Composition D) : Prop where
  nodes : c.nodes.length ≤ maxCount
  request : c.request.Storable
  graph : c.graph.Storable
  authority : c.authority.Storable
  paths_length : c.paths.length ≤ maxCount
  paths : ∀ p ∈ c.paths, p.evidence.Storable

/-- What makes a plan storable as a composition. -/
@[mk_iff]
structure CompositionPlan.Storable {D : Type} (p : CompositionPlan D) : Prop where
  nodes : p.nodes.length ≤ maxCount
  request : p.request.Storable
  graph : p.graph.Storable
  authority : p.authority.Storable
  paths_length : p.paths.length ≤ maxCount
  paths : ∀ e ∈ p.paths, e.evidence.Storable

/-- What `DecodeReservation` insists on. -/
@[mk_iff]
structure Reservation.Storable {D : Type} (r : Reservation D) : Prop where
  items_length : r.items.length ≤ maxCount
  items : ∀ i ∈ r.items, Canonical i.state
  state : Canonical r.state

/-- Every lifecycle is canonical. -/
theorem CompositionLifecycle.canonical (l : CompositionLifecycle) : Canonical l := by
  cases l <;> decide

/-- Every outcome is canonical. -/
theorem CompositionOutcome.canonical (o : CompositionOutcome) : Canonical o := by
  cases o <;> decide

/-- Every table is within the bound and every record storable. -/
@[mk_iff]
structure DurableState.Storable {D : Type} (s : DurableState D) : Prop where
  nodes_length : s.nodes.length ≤ maxCount
  nodes : ∀ n ∈ s.nodes, n.Storable
  resources_length : s.resources.length ≤ maxCount
  resources : ∀ r ∈ s.resources, r.Storable
  policies : s.policies.size ≤ maxCount
  compositions_length : s.compositions.length ≤ maxCount
  compositions : ∀ c ∈ s.compositions, c.Storable

/-! Whether a record is storable can be computed. -/

section Decidable

variable {D : Type}

instance (c : Compatibility) : Decidable c.Storable :=
  inferInstanceAs (Decidable (c.pins.length ≤ maxCount))

instance (e : Evidence D) : Decidable e.Storable :=
  decidable_of_iff' _ (Evidence.storable_iff e)

instance (c : Capability) : Decidable c.Storable :=
  decidable_of_iff' _ (Capability.storable_iff c)

instance (l : Locality D) : Decidable l.Storable :=
  decidable_of_iff' _ (Locality.storable_iff l)

instance (r : Resource D) : Decidable r.Storable :=
  decidable_of_iff' _ (Resource.storable_iff r)

instance (n : Node D) : Decidable n.Storable :=
  decidable_of_iff' _ (Node.storable_iff n)

instance (g : ResourceGraph D) : Decidable g.Storable :=
  decidable_of_iff' _ (ResourceGraph.storable_iff g)

instance (a : AuthorityTuple) : Decidable a.Storable :=
  decidable_of_iff' _ (AuthorityTuple.storable_iff a)

instance (q : CompositionRequest D) : Decidable q.Storable :=
  decidable_of_iff' _ (CompositionRequest.storable_iff q)

instance (c : Composition D) : Decidable c.Storable :=
  decidable_of_iff' _ (Composition.storable_iff c)

instance (p : CompositionPlan D) : Decidable p.Storable :=
  decidable_of_iff' _ (CompositionPlan.storable_iff p)

instance (r : Reservation D) : Decidable r.Storable :=
  decidable_of_iff' _ (Reservation.storable_iff r)

instance (s : DurableState D) : Decidable s.Storable :=
  decidable_of_iff' _ (DurableState.storable_iff s)

end Decidable

/-! ### What comes back -/

section Persisted

variable {D : Type} [Double D] [DoubleBits D]

/-- A number after it went through its bit pattern. -/
def rebits (d : D) : D := DoubleBits.ofBits (DoubleBits.toBits d)

/-- Everything but the confidence comes back as it is. -/
def Evidence.persisted (e : Evidence D) : Evidence D := { e with confidence := rebits e.confidence }

/-- Every dimension goes through its bits. -/
def Capacity.persisted (c : Capacity D) : Capacity D where
  computeUnits := rebits c.computeUnits
  acceleratorMemoryBytes := rebits c.acceleratorMemoryBytes
  hostMemoryBytes := rebits c.hostMemoryBytes
  expandedMemoryBytes := rebits c.expandedMemoryBytes
  storageBytes := rebits c.storageBytes
  networkBandwidthMbps := rebits c.networkBandwidthMbps
  networkLatencyUs := rebits c.networkLatencyUs
  extra := c.extra.mapVals rebits

/-- The coordinates and the tags go through their bits. -/
def Locality.persisted (l : Locality D) : Locality D where
  coords := l.coords.map rebits
  tags := l.tags.mapVals rebits

/-- Of a failure domain, the coordinates do not come back. -/
def FailureDomain.persisted (f : FailureDomain D) : FailureDomain D :=
  { f with localityCoords := default }

/-- A resource, part by part. -/
def Resource.persisted (r : Resource D) : Resource D :=
  { r with
    capacity := r.capacity.persisted
    locality := r.locality.persisted
    failureDomain := r.failureDomain.persisted
    evidence := r.evidence.persisted }

/-- A node, part by part. -/
def Node.persisted (n : Node D) : Node D :=
  { n with
    failureDomain := n.failureDomain.persisted
    locality := n.locality.persisted }

/-- The required and the measured numbers go through their bits. -/
def PathEvidence.persisted (p : PathEvidence D) : PathEvidence D :=
  { p with
    requirement := { p.requirement with
      minBandwidthMbps := rebits p.requirement.minBandwidthMbps
      maxLatencyUs := rebits p.requirement.maxLatencyUs }
    bandwidthMbps := rebits p.bandwidthMbps
    latencyUs := rebits p.latencyUs
    evidence := p.evidence.persisted }

/-- The two numbers of an edge go through their bits. -/
def GraphEdge.persisted (e : GraphEdge D) : GraphEdge D :=
  { e with
    minBandwidthMbps := rebits e.minBandwidthMbps
    maxLatencyUs := rebits e.maxLatencyUs }

/-- The vertices come back as they are. -/
def ResourceGraph.persisted (g : ResourceGraph D) : ResourceGraph D :=
  { g with edges := g.edges.map GraphEdge.persisted }

/-- Of a request, the constraints on failure domains, the reachability waiver and
the extra constraints do not come back. -/
def CompositionRequest.persisted (q : CompositionRequest D) : CompositionRequest D :=
  { q with
    acceleratorMemoryBytes := rebits q.acceleratorMemoryBytes
    hostMemoryBytes := rebits q.hostMemoryBytes
    expandedMemoryBytes := rebits q.expandedMemoryBytes
    storageBytes := rebits q.storageBytes
    minBandwidthMbps := rebits q.minBandwidthMbps
    maxLatencyUs := rebits q.maxLatencyUs
    ignoreReachability := false
    failureDomain := default
    constraints := default }

/-- Of a composition, the factors of the rank and the explanation do not come
back. -/
def Composition.persisted (c : Composition D) : Composition D :=
  { c with
    request := c.request.persisted
    graph := c.graph.persisted
    rank := ⟨rebits c.rank.total, []⟩
    paths := c.paths.map PathEvidence.persisted
    explanation := [] }

/-- A state, record by record; the epoch and the policies come back as they are. -/
def DurableState.persisted (s : DurableState D) : DurableState D :=
  { s with
    nodes := s.nodes.map Node.persisted
    resources := s.resources.map Resource.persisted
    compositions := s.compositions.map Composition.persisted }

end Persisted

/-! ### Numbers that come back -/

section Lawful

variable {D : Type} [Double D] [DoubleBits D] [LawfulDoubleBits D]

omit [Double D] in
/-- Copying a number through its pattern changes nothing. -/
@[simp] theorem rebits_eq (d : D) : rebits d = d := LawfulDoubleBits.ofBits_toBits d

omit [Double D] in
@[simp] theorem mapVals_rebits (m : OrdMap Str D) : m.mapVals rebits = m := by
  rw [funext rebits_eq]
  exact m.mapVals_id

omit [Double D] in
@[simp] theorem Evidence.persisted_eq (e : Evidence D) : e.persisted = e := by
  simp [persisted]

omit [Double D] in
@[simp] theorem Capacity.persisted_eq (c : Capacity D) : c.persisted = c := by
  simp [persisted]

omit [Double D] in
@[simp] theorem Locality.persisted_eq (l : Locality D) : l.persisted = l := by
  rw [persisted, List.map_id'' rebits_eq, mapVals_rebits]

omit [Double D] in
@[simp] theorem PathEvidence.persisted_eq (p : PathEvidence D) : p.persisted = p := by
  simp [persisted]

omit [Double D] in
@[simp] theorem GraphEdge.persisted_eq (e : GraphEdge D) : e.persisted = e := by
  simp [persisted]

omit [Double D] in
@[simp] theorem ResourceGraph.persisted_eq (g : ResourceGraph D) : g.persisted = g := by
  rw [persisted, List.map_id'' GraphEdge.persisted_eq]

omit [DoubleBits D] [LawfulDoubleBits D] [Double D] in
theorem FailureDomain.persisted_eq {f : FailureDomain D} (h : f.localityCoords = default) :
    f.persisted = f := by
  rw [persisted, ← h]

omit [Double D] in
theorem Resource.persisted_eq {r : Resource D} (h : r.failureDomain.localityCoords = default) :
    r.persisted = r := by
  rw [persisted, FailureDomain.persisted_eq h]
  simp

omit [Double D] in
theorem Node.persisted_eq {n : Node D} (h : n.failureDomain.localityCoords = default) :
    n.persisted = n := by
  rw [persisted, FailureDomain.persisted_eq h]
  simp

end Lawful

/-! ### Rules for the statements of the codecs -/

section Rules

variable {R D : Type} {lim : Limits}

theorem reads_u64 (set : UInt64 → R → R) (v : UInt64) (x : R) :
    Reads lim (Fill.u64 set) (Write.u64 v) x (put set v x) := .read (.u64 v) x

theorem reads_u32 (set : UInt32 → R → R) (v : UInt32) (x : R) :
    Reads lim (Fill.u32 set) (Write.u32 v) x (put set v x) := .read (.u32 v) x

theorem reads_flag (set : Bool → R → R) (v : Bool) (x : R) :
    Reads lim (Fill.flag set) (Write.flag v) x (put set v x) := .read (.flag v) x

theorem reads_str (set : Str → R → R) (v : Str) (x : R) :
    Reads lim (Fill.str lim set) (Write.str v) x (put set v x) := .read (.str v) x

/-- A canonical enumerator passes `ValidEnum` and is the one that was written. -/
theorem reads_enum {E : Type} [EnumTraits E] [Inhabited E] {e : E} (h : Canonical e)
    (set : E → R → R) (x : R) : Reads lim (Fill.enum set) (Write.enum e) x (put set e x) := by
  refine .check (.u32 (value e)) ?_ x
  rw [Fill.validEnum?, if_pos (show valid E (value e) = true from h), ofValue_value]

/-- What passes `ValidEnum` is canonical. -/
theorem yields_enum {E : Type} [EnumTraits E] [Inhabited E] {set : E → R → R} {x : R}
    {Q : R → Prop} (h : ∀ e, Canonical e → Q (put set e x)) : Yields (Fill.enum set) x Q := by
  refine .check ?_
  intro v e hv
  unfold Fill.validEnum? at hv
  split at hv
  · next hvalid =>
    cases hv
    exact h _ (canonical_ofValue hvalid)
  · cases hv

/-- Every class of a set was inserted, hence validated, in some round. -/
theorem canonical_classes {l : List ResourceClass} (h : ∀ c ∈ l, Canonical c) :
    ∀ e ∈ (l.foldl (fun (m : OrdSet ResourceClass) c => m.insert c ()) default).entries,
      Canonical e.1 := by
  intro e he
  rcases OrdMap.mem_foldl_insert (id : ResourceClass → ResourceClass) (fun _ => ()) he with
    ⟨c, hc, heq⟩ | hnone
  · rw [heq]
    exact h c hc
  · exact absurd hnone List.not_mem_nil

/-- Insertion does not add more entries than were read. -/
theorem size_classes_le (l : List ResourceClass) :
    (l.foldl (fun (m : OrdSet ResourceClass) c => m.insert c ()) default).size ≤ l.length := by
  have hsize := OrdMap.size_foldl_insert_le (id : ResourceClass → ResourceClass)
    (fun _ => ()) l default
  rwa [show (default : OrdSet ResourceClass).size = 0 from rfl, zero_add] at hsize

theorem readsTo_dbl [DoubleBits D] (d : D) : ReadsTo lim Fill.readDbl (Write.dbl d) (rebits d) :=
  .map _ (.u64 (DoubleBits.toBits d))

theorem reads_dbl [DoubleBits D] (set : D → R → R) (d : D) (x : R) :
    Reads lim (Fill.dbl set) (Write.dbl d) x (put set (rebits d) x) := .read (readsTo_dbl d) x

variable (hlim : lim.maxCount = 1048576)

include hlim

/-- The bound as the rules of `Decoder` have it. -/
theorem maxCount_eq : lim.maxCount.toNat = maxCount := by rw [hlim]; rfl

/-- A counted list within the bound is appended to what the field holds. -/
theorem reads_list {A B : Type} [Inhabited A] {get : R → List A} {set : List A → R → R}
    {d : Decoder A} {l : List B} {entry : B → List Token} {f : B → A}
    {x : R} (hacc : Accessor get set) (hlen : l.length ≤ maxCount)
    (hd : ∀ b ∈ l, Reads lim d (entry b) default (f b)) :
    Reads lim (Fill.list lim get set d) (counted l entry) x (put set (get x ++ l.map f) x) := by
  rw [← foldl_push (l.map f) (get x)]
  exact .collect hacc (by rw [maxCount_eq hlim]; exact hlen) hd

/-- A list whose entries are read back as they are. -/
theorem reads_list_id {A : Type} [Inhabited A] {get : R → List A} {set : List A → R → R}
    {d : Decoder A} {l : List A} {entry : A → List Token} {x : R}
    (hacc : Accessor get set) (hlen : l.length ≤ maxCount)
    (hd : ∀ a ∈ l, Reads lim d (entry a) default a) :
    Reads lim (Fill.list lim get set d) (counted l entry) x (put set (get x ++ l) x) := by
  have h := reads_list hlim (f := id) (x := x) hacc hlen hd
  rw [List.map_id] at h
  exact h

/-- An accepted list is within the bound, and its entries were accepted. -/
theorem yields_list {A : Type} [Inhabited A] {get : R → List A} {set : List A → R → R}
    {d : Decoder A} {x : R} {P : A → Prop} {Q : R → Prop} (hacc : Accessor get set)
    (hd : Yields d default P)
    (h : ∀ l : List A, l.length ≤ maxCount → (∀ a ∈ l, P a) → Q (put set (get x ++ l) x)) :
    Yields (Fill.list lim get set d) x Q := by
  refine .collect hacc hd ?_
  intro l hl hP
  rw [foldl_push]
  exact h l (by rw [maxCount_eq hlim] at hl; exact hl) hP

theorem reads_ids {T : Tag} {get : R → List (StrongId T)} {set : List (StrongId T) → R → R}
    {l : List (StrongId T)} {x : R} (hacc : Accessor get set) (hlen : l.length ≤ maxCount) :
    Reads lim (Fill.ids lim get set) (Write.ids l) x (put set (get x ++ l) x) :=
  reads_list_id hlim hacc hlen (fun i _ => .value (.map StrongId.mk (.u64 i.value)) default)

theorem reads_generations {T : Tag} {get : R → List (StrongGeneration T)}
    {set : List (StrongGeneration T) → R → R} {l : List (StrongGeneration T)}
    {x : R} (hacc : Accessor get set) (hlen : l.length ≤ maxCount) :
    Reads lim (Fill.generations lim get set) (Write.generations l) x (put set (get x ++ l) x) :=
  reads_list_id hlim hacc hlen (fun i _ => .value (.map StrongGeneration.mk (.u64 i.value)) default)

/-- A set is written in its order, so inserting the entries one by one builds it
again. -/
theorem reads_classes {get : R → OrdSet ResourceClass} {set : OrdSet ResourceClass → R → R}
    {m : OrdSet ResourceClass} {x : R} (hacc : Accessor get set) (hlen : m.size ≤ maxCount)
    (hm : ∀ e ∈ m.entries, Canonical e.1) (hx : get x = default) :
    Reads lim (Fill.classes lim get set) (Write.classes m) x (put set m x) := by
  have h : Reads lim (Fill.classes lim get set) (Write.classes m) x
      (put set ((m.entries.map fun e => e.1).foldl
        (fun (m : OrdSet ResourceClass) c => m.insert c ()) (get x)) x) :=
    .collect hacc (by rw [maxCount_eq hlim]; exact hlen)
      (fun e he => reads_enum (hm e he) (fun c _ => c) default)
  -- a set that is filled in its own order is the set
  have hfold : (m.entries.map fun e => e.1).foldl
      (fun (m : OrdSet ResourceClass) c => m.insert c ()) default = m := by
    rw [List.foldl_map]
    exact OrdMap.foldl_insert_eq (List.map_id m.entries).symm
  rw [hx, hfold] at h
  exact h

/-- An accepted set is within the bound: insertion does not add more entries than
were read. -/
theorem yields_classes {get : R → OrdSet ResourceClass} {set : OrdSet ResourceClass → R → R}
    {x : R} {Q : R → Prop} (hacc : Accessor get set) (hx : get x = default)
    (h : ∀ m : OrdSet ResourceClass, m.size ≤ maxCount → (∀ e ∈ m.entries, Canonical e.1) →
      Q (put set m x)) :
    Yields (Fill.classes lim get set) x Q := by
  refine .collect (P := Canonical) hacc (yields_enum fun e he => he) ?_
  intro l hl hP
  rw [hx]
  rw [maxCount_eq hlim] at hl
  exact h _ ((size_classes_le l).trans hl) (canonical_classes hP)

section Numbers

variable [Double D] [DoubleBits D]

/-- A map is written in the order of its keys, and comes back with its numbers
through their bits. -/
theorem reads_numbers {get : R → OrdMap Str D} {set : OrdMap Str D → R → R} {m : OrdMap Str D}
    {x : R} (hacc : Accessor get set) (hlen : m.size ≤ maxCount) (hx : get x = default) :
    Reads lim (Fill.numbers lim get set) (Write.numbers m) x (put set (m.mapVals rebits) x) := by
  have h : Reads lim (Fill.numbers lim get set) (Write.numbers m) x
      (put set ((m.entries.map fun e : (_ : Str) × D => (e.1, rebits e.2)).foldl
        (fun (m : OrdMap Str D) (e : Str × D) => m.insert e.1 e.2) (get x)) x) :=
    .collect hacc (by rw [maxCount_eq hlim]; exact hlen)
      (fun e _ => .value (.pair (.str e.1) (readsTo_dbl e.2)) default)
  -- a map that is filled in its own order is the map
  have hfold : (m.entries.map fun e : (_ : Str) × D => (e.1, rebits e.2)).foldl
      (fun (m : OrdMap Str D) (e : Str × D) => m.insert e.1 e.2) default = m.mapVals rebits := by
    refine OrdMap.foldl_insert_eq ?_
    rw [List.map_map]
    rfl
  rw [hx, hfold] at h
  exact h

/-- An accepted map is within the bound. -/
theorem yields_numbers {get : R → OrdMap Str D} {set : OrdMap Str D → R → R}
    {x : R} {Q : R → Prop} (hacc : Accessor get set) (hx : get x = default)
    (h : ∀ m : OrdMap Str D, m.size ≤ maxCount → Q (put set m x)) :
    Yields (Fill.numbers lim get set) x Q := by
  -- nothing is known of the entries, only their number counts
  refine .collect (P := fun _ => True) hacc (.trivially ..) ?_
  intro l hl _
  rw [hx]
  rw [maxCount_eq hlim] at hl
  refine h _ ?_
  have hsize := OrdMap.size_foldl_insert_le (Prod.fst : Str × D → Str) Prod.snd l default
  rw [show (default : OrdMap Str D).size = 0 from rfl, zero_add] at hsize
  exact hsize.trans hl

end Numbers

end Rules

end DFabric
