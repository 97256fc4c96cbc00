import DisaggregationFabric.Codec.Roundtrip
import DisaggregationFabric.Codec.Texts

/-!
# Round trips on the wire

What an encoder of `codec.hpp` writes, its decoder reads back, exactly up to where the
record ends, so that records can be written one after another. `ReadsBack` says this for
a record; the doubles are those of a type that is determined by its bit patterns.

For the core types nothing is lost (`core_types_read_back`). A request loses its
constraint on failure domains and its extra constraints, which `EncodeRequest` does not
write: it comes back unchanged exactly when it had neither (`request_reads_back_iff`).
-/

namespace DFabric

open Wire EnumTraits

variable {D : Type} [Double D] [DoubleBits D]

/-! ### The core types -/

omit [Double D] in
/-- The size check of `WriteResource` puts nothing into the buffer. -/
theorem bytesOf_encodeResource (r : Resource D) :
    bytesOf (encodeResource r) = bytesOf (writeResource r) := by
  simp [encodeResource, writeResource, encodeCapacity, writeCapacity, bytesOf, Token.bytes]

/-- `EncodeResource` and `DecodeResource`. -/
theorem reads_decodeResource {r : Resource D} (h : r.Storable) :
    Reads wireLimits decodeResource (encodeResource r) default r.persisted := by
  have hwrite : Reads wireLimits decodeResource (writeResource r) default r.persisted :=
    .closed (reads_resourceFields rfl h (.closed (reads_evidenceFields h.evidence default))
      (fun c hc => .closed (reads_capabilityFields (h.capabilities c hc) default))
      fun c hc => .closed (reads_compatibilityFields rfl (h.compatibility c hc)))
  refine hwrite.of_bytes (bytesOf_encodeResource r) ?_
  intro hw
  exact (writable_writeResource rfl).mpr ⟨h.extra, (writable_encodeResource rfl).mp hw⟩

/-- `EncodePath` and `DecodePath`. -/
theorem reads_decodePath {p : PathEvidence D} (h : p.evidence.Storable) :
    Reads wireLimits decodePath (writePath p) default p.persisted :=
  reads_pathFields (.closed (reads_evidenceFields h default))

section Lawful

variable [LawfulDoubleBits D]

omit [Double D] in
/-- A number comes back as it is. -/
theorem reads_number {R : Type} {lim : Limits} (set : D → R → R) (d : D) (x : R) :
    Reads lim (Fill.dbl set) (Write.dbl d) x (put set d x) := by
  have h : Reads lim (Fill.dbl set) (Write.dbl d) x (put set (rebits d) x) := reads_dbl set d x
  rwa [rebits_eq] at h

/-- A list of paths comes back as it is. -/
theorem reads_paths {R : Type} {get : R → List (PathEvidence D)}
    {set : List (PathEvidence D) → R → R} {l : List (PathEvidence D)} {x : R}
    (hacc : Accessor get set) (hlen : l.length ≤ maxCount) (hl : ∀ p ∈ l, p.evidence.Storable) :
    Reads wireLimits (Fill.list wireLimits get set decodePath) (counted l writePath) x
      (put set (get x ++ l) x) := by
  refine reads_list_id rfl hacc hlen ?_
  intro p hp
  have h := reads_decodePath (hl p hp)
  rwa [PathEvidence.persisted_eq] at h

/-- `EncodeGraph` and `DecodeGraph`. -/
theorem reads_decodeGraph {g : ResourceGraph D} (h : g.Storable) :
    Reads wireLimits decodeGraph (writeGraph g) default g := by
  have hg : Reads wireLimits decodeGraph (writeGraph g) default g.persisted :=
    .closed (reads_graphFields rfl h)
  rwa [ResourceGraph.persisted_eq] at hg

omit [Double D] [DoubleBits D] [LawfulDoubleBits D] in
/-- `EncodeAuthority` and `DecodeAuthority`. -/
theorem reads_decodeAuthority {a : AuthorityTuple} (h : a.Storable) :
    Reads wireLimits decodeAuthority (writeAuthority a) default a :=
  .closed (reads_authorityFields rfl h)

omit [Double D] in
theorem reads_itemFields {i : ReservationItem D} (h : Canonical i.state) (x : ReservationItem D) :
    Reads wireLimits (.block itemFields) (encodeItem i) x i := by
  refine .cons (reads_u64 ..) ?_
  refine .cons (reads_enum h ..) ?_
  refine .cons (reads_number ..) ?_
  dsimp only [put]
  exact .nil _

/-- `EncodeReservation` and `DecodeReservation`. -/
theorem reads_decodeReservation {r : Reservation D} (h : r.Storable) :
    Reads wireLimits decodeReservation (encodeReservation r) default r := by
  refine .closed ?_
  iterate 3 refine .cons (reads_u64 ..) ?_
  refine .cons (reads_list_id rfl ⟨rfl, rfl, rfl⟩ h.items_length
    fun i hi => reads_itemFields (h.items i hi) default) ?_
  refine .cons (reads_enum h.state ..) ?_
  dsimp only [put]
  exact .nil _

/-! ### Requests, plans and compositions -/

/-- What of a request travels: neither the constraint on failure domains nor the extra
constraints. -/
def CompositionRequest.sent (q : CompositionRequest D) : CompositionRequest D :=
  { q with failureDomain := default, constraints := default }

/-- `EncodeRequest` and `DecodeRequest`. -/
theorem reads_decodeRequest {q : CompositionRequest D} (h : q.Storable) :
    Reads wireLimits decodeRequest (encodeRequest q) default q.sent := by
  refine .closed ?_
  refine .cons (reads_u64 ..) ?_
  refine .cons (reads_u32 ..) ?_
  refine .cons (reads_list_id rfl ⟨rfl, rfl, rfl⟩ h.architectures
    fun a _ => .value (.str a) default) ?_
  iterate 4 refine .cons (reads_number ..) ?_
  refine .cons (reads_u32 ..) ?_
  iterate 2 refine .cons (reads_number ..) ?_
  -- the classes, the flags and the ids; nothing of the constraints
  refine .cons (reads_classes rfl ⟨rfl, rfl, rfl⟩ h.mandatory_size h.mandatory rfl) ?_
  refine .cons (reads_classes rfl ⟨rfl, rfl, rfl⟩ h.optional_size h.optional rfl) ?_
  iterate 6 refine .cons (reads_flag ..) ?_
  iterate 5 refine .cons (reads_u64 ..) ?_
  dsimp only [put]
  exact .nil _

omit [Double D] in
theorem reads_factorFields (f x : RankingFactor D) :
    Reads wireLimits (.block factorFields) (encodeFactor f) x f := by
  refine .cons (reads_str ..) ?_
  iterate 2 refine .cons (reads_number ..) ?_
  refine .cons (reads_str ..) ?_
  dsimp only [put]
  exact .nil _

/-- `EncodePlan` and `DecodePlan`. -/
theorem reads_decodePlan {p : CompositionPlan D} (h : p.Storable)
    (hfactors : p.rank.factors.length ≤ maxCount) :
    Reads wireLimits decodePlan (encodePlan p) default { p with request := p.request.sent } := by
  refine .closed ?_
  iterate 2 refine .cons (reads_u64 ..) ?_
  refine .cons (.into (reads_decodeGraph h.graph)) ?_
  refine .cons (reads_ids rfl ⟨rfl, rfl, rfl⟩ h.nodes) ?_
  -- the request comes back without its constraints
  refine .cons (.into (reads_decodeRequest h.request)) ?_
  refine .cons (reads_number ..) ?_
  refine .cons (reads_list_id rfl ⟨rfl, rfl, rfl⟩ hfactors
    fun f _ => reads_factorFields f default) ?_
  refine .cons (.into (reads_decodeAuthority h.authority)) ?_
  refine .cons (reads_enum p.lifecycle.canonical ..) ?_
  refine .cons (reads_paths ⟨rfl, rfl, rfl⟩ h.paths_length h.paths) ?_
  dsimp only [put]
  exact .nil _

/-- What of a composition travels: of the request as much as of any, and not the factors
of the rank. -/
def Composition.sent (c : Composition D) : Composition D :=
  { c with request := c.request.sent, rank := ⟨c.rank.total, []⟩ }

/-- `EncodeComposition` and `DecodeComposition`. -/
theorem reads_decodeComposition {c : Composition D} (h : c.Storable) :
    Reads wireLimits decodeComposition (encodeComposition c) default c.sent := by
  refine .closed ?_
  iterate 4 refine .cons (reads_u64 ..) ?_
  refine .cons (reads_ids rfl ⟨rfl, rfl, rfl⟩ h.nodes) ?_
  -- the records inside; the request comes back without its constraints
  refine .cons (.into (reads_decodeRequest h.request)) ?_
  refine .cons (.into (reads_decodeGraph h.graph)) ?_
  refine .cons (.into (reads_decodeAuthority h.authority)) ?_
  refine .cons (reads_enum c.lifecycle.canonical ..) ?_
  refine .cons (reads_u64 ..) ?_
  refine .cons (reads_enum c.outcome.canonical ..) ?_
  refine .cons (reads_number ..) ?_
  refine .cons (reads_paths ⟨rfl, rfl, rfl⟩ h.paths_length h.paths) ?_
  refine .cons (reads_str ..) ?_
  dsimp only [put]
  exact .nil _

/-! ### The results -/

/-- **The core types come back.** A record whose enumerators are canonical, whose
strings and counts are within the limits and whose failure domain has no coordinates is
encoded, and decoded again as it was, up to the byte where it ends. -/
theorem core_types_read_back :
    (∀ e : Evidence D, e.Storable → Short e.texts →
      ReadsBack wireLimits decodeEvidence (writeEvidence e) e) ∧
    (∀ c : Capability, c.Storable → c.detail.length ≤ 32768 →
      ReadsBack wireLimits decodeCapability (writeCapability c) c) ∧
    (∀ c : Compatibility, c.Storable → Short c.texts →
      ReadsBack wireLimits decodeCompatibility (writeCompatibility c) c) ∧
    (∀ r : Resource D, r.Storable → Short r.texts → r.failureDomain.localityCoords = default →
      ReadsBack wireLimits decodeResource (encodeResource r) r) ∧
    (∀ n : Node D, n.Storable → Short n.texts → n.failureDomain.localityCoords = default →
      ReadsBack wireLimits decodeNode (writeNode n) n) ∧
    (∀ p : PathEvidence D, p.evidence.Storable → Short p.texts →
      ReadsBack wireLimits decodePath (writePath p) p) ∧
    (∀ g : ResourceGraph D, g.Storable → Short g.texts →
      ReadsBack wireLimits decodeGraph (writeGraph g) g) ∧
    (∀ a : AuthorityTuple, a.Storable →
      ReadsBack wireLimits decodeAuthority (writeAuthority a) a) ∧
    ∀ v : Reservation D, v.Storable →
      ReadsBack wireLimits decodeReservation (encodeReservation v) v := by
  -- for each type: it fits its decoder and its frame, and what comes back is it
  refine ⟨?_, ?_, ?_, ?_, ?_, ?_, ?_, ?_, ?_⟩
  · intro e he ht
    have h : Reads wireLimits decodeEvidence (writeEvidence e) default e.persisted :=
      .closed (reads_evidenceFields he default)
    rw [Evidence.persisted_eq] at h
    exact h.readsBack ((writable_writeEvidence rfl).mpr ht)
  · intro c hc ht
    have h : Reads wireLimits decodeCapability (writeCapability c) default c :=
      .closed (reads_capabilityFields hc default)
    exact h.readsBack ((writable_writeCapability rfl).mpr ht)
  · intro c hc ht
    have h : Reads wireLimits decodeCompatibility (writeCompatibility c) default c :=
      .closed (reads_compatibilityFields rfl hc)
    exact h.readsBack ((writable_writeCompatibility rfl).mpr ht)
  · intro r hr ht hcoords
    have h := reads_decodeResource hr
    rw [Resource.persisted_eq hcoords] at h
    exact h.readsBack ((writable_encodeResource rfl).mpr ht)
  · intro n hn ht hcoords
    have h : Reads wireLimits decodeNode (writeNode n) default n.persisted :=
      .closed (reads_nodeFields rfl hn)
    rw [Node.persisted_eq hcoords] at h
    exact h.readsBack ((writable_writeNode rfl).mpr ht)
  · intro p hp ht
    have h := reads_decodePath hp
    rw [PathEvidence.persisted_eq] at h
    exact h.readsBack ((writable_writePath rfl).mpr ht)
  · intro g hg ht
    exact (reads_decodeGraph hg).readsBack ((writable_writeGraph rfl).mpr ht)
  · intro a ha
    exact (reads_decodeAuthority ha).readsBack (writable_writeAuthority a)
  · intro v hv
    exact (reads_decodeReservation hv).readsBack (writable_encodeReservation v)

/-- A resource with a capability, a compatibility pin, a tag and an extension dimension. -/
def sampleAccelerator : Resource Binary64 :=
  { (default : Resource Binary64) with
    id := ⟨1⟩
    generation := ⟨1⟩
    resourceClass := .accelerator
    nodeId := ⟨1⟩
    provider := str "rack"
    capabilities := [⟨.coherentMemoryAccess, .supported, ⟨1⟩, ⟨1⟩, str "link"⟩]
    compatibility := [⟨⟨1⟩, ⟨1⟩, [⟨str "driver", str "5", ⟨1⟩⟩]⟩]
    capacity := { (default : Capacity Binary64) with
      computeUnits := Double.ofRat 8
      extra := OrdMap.insert default (str "lanes") (Double.ofRat 16) }
    health := .healthy
    readiness := .ready
    reachability := .reachable
    locality := ⟨[Double.ofRat 3], OrdMap.insert default (str "row") Double.one⟩
    failureDomain := ⟨⟨1⟩, .rack, str "r1", false, default⟩
    evidence := ⟨⟨1⟩, ⟨1⟩, .worker, .fresh, 10, 1000, Double.one, str "7", str "7", false⟩ }

theorem sampleAccelerator_storable : sampleAccelerator.Storable := by decide +kernel

/-- It comes back. -/
theorem sampleAccelerator_reads_back :
    ReadsBack wireLimits decodeResource (encodeResource sampleAccelerator) sampleAccelerator :=
  core_types_read_back.2.2.2.1 sampleAccelerator sampleAccelerator_storable (by decide +kernel)
    rfl

omit [Double D] [DoubleBits D] [LawfulDoubleBits D] in
/-- A request travels unchanged when it has no constraint on failure domains and no extra
constraints. -/
theorem CompositionRequest.sent_eq_iff {q : CompositionRequest D} :
    q.sent = q ↔ q.failureDomain = default ∧ q.constraints = default := by
  constructor
  · intro h
    rw [← h]
    exact ⟨rfl, rfl⟩
  · rintro ⟨hdomain, hconstraints⟩
    rw [sent, ← hdomain, ← hconstraints]

/-- **Which requests survive the wire.** A request within the limits comes back as it
was exactly when it has no constraint on failure domains and no extra constraints; and a
plan within the limits comes back with the request it had exactly when that request has
none. -/
theorem request_reads_back_iff :
    (∀ q : CompositionRequest D, q.Storable → Short q.acceleratorArchitectures →
      (ReadsBack wireLimits decodeRequest (encodeRequest q) q ↔
        q.failureDomain = default ∧ q.constraints = default)) ∧
    ∀ p : CompositionPlan D, p.Storable → p.rank.factors.length ≤ maxCount → Short p.texts →
      ∃ p', ReadsBack wireLimits decodePlan (encodePlan p) p' ∧
        (p'.request = p.request ↔
          p.request.failureDomain = default ∧ p.request.constraints = default) := by
  refine ⟨?_, ?_⟩
  · intro q hq ht
    have hsent : ReadsBack wireLimits decodeRequest (encodeRequest q) q.sent :=
      (reads_decodeRequest hq).readsBack ((writable_encodeRequest rfl).mpr ht)
    -- what comes back is `q.sent`, and nothing else does
    rw [← CompositionRequest.sent_eq_iff]
    constructor
    · intro h
      exact hsent.unique h
    · intro h
      rwa [h] at hsent
  · intro p hp hfactors ht
    exact ⟨_, (reads_decodePlan hp hfactors).readsBack ((writable_encodePlan rfl).mpr ht),
      CompositionRequest.sent_eq_iff⟩

end Lawful

/-- A request for accelerators of one architecture. -/
def acceleratorRequest : CompositionRequest Binary64 :=
  { (default : CompositionRequest Binary64) with
    computeUnits := 4
    acceleratorArchitectures := [str "sm_90"]
    mandatoryClasses := OrdMap.insert default .accelerator ()
    ignoreReachability := true }

theorem acceleratorRequest_storable : acceleratorRequest.Storable := by decide +kernel

/-- It comes back. -/
theorem acceleratorRequest_reads_back :
    ReadsBack wireLimits decodeRequest (encodeRequest acceleratorRequest) acceleratorRequest :=
  (request_reads_back_iff.1 acceleratorRequest acceleratorRequest_storable
    (by decide +kernel)).mpr ⟨rfl, rfl⟩

/-- The same request, to be spread over failure domains. -/
def spreadRequest : CompositionRequest Binary64 :=
  { acceleratorRequest with failureDomain := ⟨.spread, 0, []⟩ }

/-- **The wire drops a hard constraint.** The request comes back without its
constraint on failure domains. -/
theorem spreadRequest_constraint_lost :
    ¬ ∀ q : CompositionRequest Binary64, q.Storable → Short q.acceleratorArchitectures →
      ReadsBack wireLimits decodeRequest (encodeRequest q) q := by
  intro h
  have hstorable : spreadRequest.Storable := by decide +kernel
  have hshort : Short spreadRequest.acceleratorArchitectures := by decide +kernel
  have hback := h spreadRequest hstorable hshort
  have hsent : ReadsBack wireLimits decodeRequest (encodeRequest spreadRequest)
      spreadRequest.sent :=
    (reads_decodeRequest hstorable).readsBack ((writable_encodeRequest rfl).mpr hshort)
  have hlost : spreadRequest.sent.failureDomain.topology = .none := rfl
  rw [hsent.unique hback] at hlost
  cases hlost

end DFabric
