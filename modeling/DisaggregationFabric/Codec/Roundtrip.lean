import DisaggregationFabric.Codec.Storable

/-!
# Reading back records and files

The two results of `Codec.Storable` for every record, following the field lists
statement by statement: the proofs of `reads_*` and `yields_*` below are the field
lists again, each statement answered by its rule. Then for the file: a storable
state that `SaveImpl` encodes is loaded again (`loadImpl_saveImpl`), and a state
that `LoadImpl` accepts is storable (`storable_of_loadImpl`).
-/

namespace DFabric

open Wire EnumTraits

variable {D : Type} {lim : Limits}

/-! ### Evidence -/

theorem reads_evidenceFields [DoubleBits D] {e : Evidence D} (h : e.Storable) (x : Evidence D) :
    Reads lim (.block (evidenceFields lim)) (writeEvidence e) x e.persisted := by
  iterate 2 refine .cons (reads_u64 ..) ?_
  refine .cons (reads_enum h.source ..) ?_
  refine .cons (reads_enum h.state ..) ?_
  iterate 2 refine .cons (reads_u64 ..) ?_
  refine .cons (reads_dbl ..) ?_
  iterate 2 refine .cons (reads_str ..) ?_
  refine .cons (reads_flag ..) ?_
  dsimp only [put]
  exact .nil _

theorem yields_evidenceFields [DoubleBits D] (x : Evidence D) :
    Yields (.block (evidenceFields lim)) x Evidence.Storable := by
  iterate 2 refine .cons (.read fun _ => ?_)
  refine .cons (yields_enum fun source hsource => ?_)
  refine .cons (yields_enum fun state hstate => ?_)
  iterate 6 refine .cons (.read fun _ => ?_)
  exact .nil ⟨hsource, hstate⟩

/-! ### Resources -/

theorem reads_capabilityFields {c : Capability} (h : c.Storable) (x : Capability) :
    Reads lim (.block (capabilityFields lim)) (writeCapability c) x c := by
  refine .cons (reads_enum h.kind ..) ?_
  refine .cons (reads_enum h.state ..) ?_
  iterate 2 refine .cons (reads_u64 ..) ?_
  refine .cons (reads_str ..) ?_
  dsimp only [put]
  exact .nil _

theorem yields_capabilityFields (x : Capability) :
    Yields (.block (capabilityFields lim)) x Capability.Storable := by
  refine .cons (yields_enum fun kind hkind => ?_)
  refine .cons (yields_enum fun state hstate => ?_)
  iterate 3 refine .cons (.read fun _ => ?_)
  exact .nil ⟨hkind, hstate⟩

theorem reads_pinFields (p x : CompatibilityPin) :
    Reads lim (.block (pinFields lim)) (writePin p) x p := by
  iterate 2 refine .cons (reads_str ..) ?_
  refine .cons (reads_u64 ..) ?_
  dsimp only [put]
  exact .nil _

theorem reads_failureDomainFields {f : FailureDomain D} (h : Canonical f.type) :
    Reads lim (.block (failureDomainFields lim)) (writeFailureDomain f) default f.persisted := by
  refine .cons (reads_u64 ..) ?_
  refine .cons (reads_enum h ..) ?_
  refine .cons (reads_str ..) ?_
  refine .cons (reads_flag ..) ?_
  dsimp only [put]
  exact .nil _

theorem yields_failureDomainFields (x : FailureDomain D) :
    Yields (.block (failureDomainFields lim)) x fun f => Canonical f.type := by
  refine .cons (.read fun _ => ?_)
  refine .cons (yields_enum fun type htype => ?_)
  iterate 2 refine .cons (.read fun _ => ?_)
  exact .nil htype

section Counted

variable [Double D] [DoubleBits D] (hlim : lim.maxCount = 1048576)

include hlim

theorem reads_compatibilityFields {c : Compatibility} (h : c.Storable) :
    Reads lim (.block (compatibilityFields lim)) (writeCompatibility c) default c := by
  iterate 2 refine .cons (reads_u64 ..) ?_
  refine .cons (reads_list_id hlim ⟨rfl, rfl, rfl⟩ h (fun p _ => reads_pinFields p default)) ?_
  dsimp only [put]
  exact .nil _

theorem yields_compatibilityFields :
    Yields (.block (compatibilityFields lim)) default Compatibility.Storable := by
  iterate 2 refine .cons (.read fun _ => ?_)
  refine .cons (yields_list hlim ⟨rfl, rfl, rfl⟩ (.trivially ..)
    fun pins hpins _ => ?_)
  exact .nil hpins

theorem reads_capacityFields (c : Capacity D) :
    Reads lim (.block (capacityFields lim)) (writeCapacity c) default c.persisted := by
  iterate 7 refine .cons (reads_dbl ..) ?_
  -- the writer has checked this count
  refine .cons (.limit fun hn => reads_numbers hlim ⟨rfl, rfl, rfl⟩ (hn.trans_eq rfl) rfl) ?_
  dsimp only [put]
  exact .nil _

theorem yields_capacityFields :
    Yields (.block (capacityFields lim)) (default : Capacity D) fun c =>
      c.extra.size ≤ maxCount := by
  iterate 7 refine .cons (.read fun _ => ?_)
  refine .cons (yields_numbers hlim ⟨rfl, rfl, rfl⟩ rfl fun extra hextra => ?_)
  exact .nil hextra

theorem reads_localityFields {l : Locality D} (h : l.Storable) :
    Reads lim (.block (localityFields lim)) (writeLocality l) default l.persisted := by
  refine .cons (reads_list hlim ⟨rfl, rfl, rfl⟩ h.coords
    fun d _ => .value (readsTo_dbl d) default) ?_
  refine .cons (reads_numbers hlim ⟨rfl, rfl, rfl⟩ h.tags rfl) ?_
  dsimp only [put]
  exact .nil _

theorem yields_localityFields :
    Yields (.block (localityFields lim)) (default : Locality D) Locality.Storable := by
  refine .cons (yields_list hlim ⟨rfl, rfl, rfl⟩ (.trivially ..)
    fun coords hcoords _ => ?_)
  refine .cons (yields_numbers hlim ⟨rfl, rfl, rfl⟩ rfl fun tags htags => ?_)
  exact .nil ⟨hcoords, htags⟩

/-- A storable resource is read back, given that its nested records are. -/
theorem reads_resourceFields {evidence : Decoder (Evidence D)} {capability : Decoder Capability}
    {compatibility : Decoder Compatibility} {r : Resource D} (h : r.Storable)
    (hev : Reads lim evidence (writeEvidence r.evidence) default r.evidence.persisted)
    (hcap : ∀ c ∈ r.capabilities, Reads lim capability (writeCapability c) default c)
    (hcomp : ∀ c ∈ r.compatibility, Reads lim compatibility (writeCompatibility c) default c) :
    Reads lim (.block (resourceFields lim evidence capability compatibility)) (writeResource r)
      default r.persisted := by
  iterate 2 refine .cons (reads_u64 ..) ?_
  refine .cons (reads_enum h.resourceClass ..) ?_
  refine .cons (reads_u64 ..) ?_
  iterate 2 refine .cons (reads_str ..) ?_
  refine .cons (reads_flag ..) ?_
  refine .cons (reads_enum h.health ..) ?_
  refine .cons (reads_enum h.readiness ..) ?_
  refine .cons (reads_enum h.reachability ..) ?_
  -- the records inside the record
  refine .cons (.into (reads_capacityFields hlim r.capacity)) ?_
  refine .cons (.into (reads_localityFields hlim h.locality)) ?_
  refine .cons (.into (reads_failureDomainFields h.domainType)) ?_
  refine .cons (.into hev) ?_
  -- and the two lists of records
  refine .cons (reads_list_id hlim ⟨rfl, rfl, rfl⟩ h.capabilities_length hcap) ?_
  refine .cons (reads_list_id hlim ⟨rfl, rfl, rfl⟩ h.compatibility_length hcomp) ?_
  dsimp only [put]
  exact .nil _

/-- An accepted resource is storable, given that its nested records are. -/
theorem yields_resourceFields {evidence : Decoder (Evidence D)} {capability : Decoder Capability}
    {compatibility : Decoder Compatibility}
    (hev : Yields evidence default Evidence.Storable)
    (hcap : Yields capability default Capability.Storable)
    (hcomp : Yields compatibility default Compatibility.Storable) :
    Yields (.block (resourceFields lim evidence capability compatibility))
      (default : Resource D) Resource.Storable := by
  -- as far as the reader checks what it reads
  iterate 2 refine .cons (.read fun _ => ?_)
  refine .cons (yields_enum fun cls hcls => ?_)
  iterate 4 refine .cons (.read fun _ => ?_)
  refine .cons (yields_enum fun health hhealth => ?_)
  refine .cons (yields_enum fun readiness hreadiness => ?_)
  refine .cons (yields_enum fun reachability hreachability => ?_)
  refine .cons (.into (yields_capacityFields hlim) fun capacity hcapacity => ?_)
  refine .cons (.into (yields_localityFields hlim) fun locality hlocality => ?_)
  refine .cons (.into (yields_failureDomainFields default) fun domain hdomain => ?_)
  refine .cons (.into hev fun ev hev => ?_)
  refine .cons (yields_list hlim ⟨rfl, rfl, rfl⟩ hcap fun caps hcapsLen hcaps => ?_)
  refine .cons (yields_list hlim ⟨rfl, rfl, rfl⟩ hcomp fun comps hcompsLen hcomps => ?_)
  exact .nil
    { resourceClass := hcls
      health := hhealth
      readiness := hreadiness
      reachability := hreachability
      extra := hcapacity
      locality := hlocality
      domainType := hdomain
      evidence := hev
      capabilities_length := hcapsLen
      capabilities := hcaps
      compatibility_length := hcompsLen
      compatibility := hcomps }

/-! ### Nodes -/

theorem reads_nodeFields {n : Node D} (h : n.Storable) :
    Reads lim (.block (nodeFields lim)) (writeNode n) default n.persisted := by
  -- the fields in the order of `WriteNode`
  iterate 2 refine .cons (reads_u64 ..) ?_
  iterate 2 refine .cons (reads_str ..) ?_
  refine .cons (reads_enum h.backend ..) ?_
  refine .cons (reads_ids hlim ⟨rfl, rfl, rfl⟩ h.inventory) ?_
  refine .cons (.into (reads_failureDomainFields h.domainType)) ?_
  refine .cons (.into (reads_localityFields hlim h.locality)) ?_
  refine .cons (reads_enum h.reachability ..) ?_
  refine .cons (reads_enum h.health ..) ?_
  refine .cons (reads_str ..) ?_
  iterate 2 refine .cons (reads_u64 ..) ?_
  refine .cons (reads_enum h.lifecycle ..) ?_
  refine .cons (reads_flag ..) ?_
  dsimp only [put]
  exact .nil _

theorem yields_nodeFields :
    Yields (.block (nodeFields lim)) (default : Node D) Node.Storable := by
  -- only the checked fields leave a fact behind
  iterate 4 refine .cons (.read fun _ => ?_)
  refine .cons (yields_enum fun backend hbackend => ?_)
  refine .cons (yields_list hlim ⟨rfl, rfl, rfl⟩ (.trivially ..)
    fun inventory hinventory _ => ?_)
  refine .cons (.into (yields_failureDomainFields default) fun domain hdomain => ?_)
  refine .cons (.into (yields_localityFields hlim) fun locality hlocality => ?_)
  refine .cons (yields_enum fun reachability hreachability => ?_)
  refine .cons (yields_enum fun health hhealth => ?_)
  iterate 3 refine .cons (.read fun _ => ?_)
  refine .cons (yields_enum fun lifecycle hlifecycle => ?_)
  refine .cons (.read fun _ => ?_)
  exact .nil
    { backend := hbackend
      inventory := hinventory
      domainType := hdomain
      locality := hlocality
      reachability := hreachability
      health := hhealth
      lifecycle := hlifecycle }

end Counted

variable [Double D] [DoubleBits D]

/-- `WriteNode` and `ReadNode`. -/
theorem reads_readNode {n : Node D} (h : n.Storable) :
    Reads persistLimits readNode (writeNode n) default n.persisted :=
  .closed (reads_nodeFields rfl h)

/-- `WriteResource` and `ReadResource`. -/
theorem reads_readResource {r : Resource D} (h : r.Storable) :
    Reads persistLimits readResource (writeResource r) default r.persisted :=
  .closed (reads_resourceFields rfl h (reads_evidenceFields h.evidence default)
    (fun c hc => reads_capabilityFields (h.capabilities c hc) default)
    fun c hc => reads_compatibilityFields rfl (h.compatibility c hc))

/-- A node that `ReadNode` accepts is storable. -/
theorem yields_readNode : Yields readNode (default : Node D) Node.Storable :=
  .closed (yields_nodeFields rfl)

/-- A resource that `ReadResource` accepts is storable. -/
theorem yields_readResource : Yields readResource (default : Resource D) Resource.Storable :=
  .closed (yields_resourceFields rfl (yields_evidenceFields default)
    (yields_capabilityFields default) (yields_compatibilityFields rfl))

/-- A node that `DecodeNode` accepts is storable. -/
theorem yields_decodeNode : Yields decodeNode (default : Node D) Node.Storable :=
  .closed (yields_nodeFields rfl)

/-- A resource that `DecodeResource` accepts is storable. -/
theorem yields_decodeResource : Yields decodeResource (default : Resource D) Resource.Storable :=
  .closed (yields_resourceFields rfl (.closed (yields_evidenceFields default))
    (.closed (yields_capabilityFields default)) (.closed (yields_compatibilityFields rfl)))

/-! ### Paths, graphs, authority -/

/-- A path is read back, given that its evidence is. -/
theorem reads_pathFields {evidence : Decoder (Evidence D)} {p : PathEvidence D}
    (hev : Reads lim evidence (writeEvidence p.evidence) default p.evidence.persisted) :
    Reads lim (.block (pathFields lim evidence)) (writePath p) default p.persisted := by
  iterate 4 refine .cons (reads_u64 ..) ?_
  iterate 2 refine .cons (reads_dbl ..) ?_
  iterate 2 refine .cons (reads_flag ..) ?_
  refine .cons (reads_str ..) ?_
  refine .cons (reads_flag ..) ?_
  iterate 2 refine .cons (reads_dbl ..) ?_
  refine .cons (reads_flag ..) ?_
  iterate 2 refine .cons (reads_str ..) ?_
  refine .cons (.into hev) ?_
  dsimp only [put]
  exact .nil _

/-- An accepted path has storable evidence, given that its evidence was accepted. -/
theorem yields_pathFields {evidence : Decoder (Evidence D)}
    (hev : Yields evidence default Evidence.Storable) :
    Yields (.block (pathFields lim evidence)) (default : PathEvidence D) fun p =>
      p.evidence.Storable := by
  -- a path has no enumerator of its own
  iterate 15 refine .cons (.read fun _ => ?_)
  refine .cons (.into hev fun evidence hevidence => ?_)
  exact .nil hevidence

omit [Double D] in
theorem reads_edgeFields {e : GraphEdge D} (h : Canonical e.kind) (x : GraphEdge D) :
    Reads lim (.block (edgeFields lim)) (writeEdge e) x e.persisted := by
  iterate 2 refine .cons (reads_u64 ..) ?_
  refine .cons (reads_enum h ..) ?_
  refine .cons (reads_flag ..) ?_
  iterate 2 refine .cons (reads_dbl ..) ?_
  iterate 2 refine .cons (reads_str ..) ?_
  dsimp only [put]
  exact .nil _

omit [Double D] in
theorem yields_edgeFields (x : GraphEdge D) :
    Yields (.block (edgeFields lim)) x fun e => Canonical e.kind := by
  iterate 2 refine .cons (.read fun _ => ?_)
  refine .cons (yields_enum fun kind hkind => ?_)
  iterate 5 refine .cons (.read fun _ => ?_)
  exact .nil hkind

section Counted

variable (hlim : lim.maxCount = 1048576)

include hlim

theorem reads_graphFields {g : ResourceGraph D} (h : g.Storable) :
    Reads lim (.block (graphFields lim)) (writeGraph g) default g.persisted := by
  refine .cons (reads_ids hlim ⟨rfl, rfl, rfl⟩ h.vertices) ?_
  refine .cons (reads_list hlim ⟨rfl, rfl, rfl⟩ h.edges_length
    (fun e he => reads_edgeFields (h.edges e he) default)) ?_
  dsimp only [put]
  exact .nil _

theorem yields_graphFields :
    Yields (.block (graphFields lim)) (default : ResourceGraph D) ResourceGraph.Storable := by
  refine .cons (yields_list hlim ⟨rfl, rfl, rfl⟩ (.trivially ..) fun vertices hvertices _ => ?_)
  refine .cons (yields_list hlim ⟨rfl, rfl, rfl⟩ (yields_edgeFields default)
    fun edges hedgesLen hedges => ?_)
  exact .nil ⟨hvertices, hedgesLen, hedges⟩

omit [Double D] [DoubleBits D] in
theorem reads_authorityFields {a : AuthorityTuple} (h : a.Storable) :
    Reads lim (.block (authorityFields lim)) (writeAuthority a) default a := by
  refine .cons (reads_u64 ..) ?_
  refine .cons (reads_ids hlim ⟨rfl, rfl, rfl⟩ h.workerBoots) ?_
  refine .cons (reads_generations hlim ⟨rfl, rfl, rfl⟩ h.nodeGenerations) ?_
  refine .cons (reads_generations hlim ⟨rfl, rfl, rfl⟩ h.resourceGenerations) ?_
  refine .cons (reads_generations hlim ⟨rfl, rfl, rfl⟩ h.pathGenerations) ?_
  refine .cons (reads_generations hlim ⟨rfl, rfl, rfl⟩ h.capabilityGenerations) ?_
  refine .cons (reads_generations hlim ⟨rfl, rfl, rfl⟩ h.compatibilityGenerations) ?_
  refine .cons (reads_u64 ..) ?_
  refine .cons (reads_generations hlim ⟨rfl, rfl, rfl⟩ h.evidenceGenerations) ?_
  refine .cons (reads_generations hlim ⟨rfl, rfl, rfl⟩ h.reservationGenerations) ?_
  refine .cons (reads_u64 ..) ?_
  dsimp only [put]
  exact .nil _

omit [Double D] [DoubleBits D] in
theorem yields_authorityFields :
    Yields (.block (authorityFields lim)) default AuthorityTuple.Storable := by
  -- eight lists between three words, in the order of the tuple
  refine .cons (.read fun _ => ?_)
  refine .cons (yields_list hlim ⟨rfl, rfl, rfl⟩ (.trivially ..) fun boots hboots _ => ?_)
  refine .cons (yields_list hlim ⟨rfl, rfl, rfl⟩ (.trivially ..) fun nodes hnodes _ => ?_)
  refine .cons (yields_list hlim ⟨rfl, rfl, rfl⟩ (.trivially ..) fun resources hresources _ => ?_)
  refine .cons (yields_list hlim ⟨rfl, rfl, rfl⟩ (.trivially ..) fun paths hpaths _ => ?_)
  refine .cons (yields_list hlim ⟨rfl, rfl, rfl⟩ (.trivially ..)
    fun capabilities hcapabilities _ => ?_)
  refine .cons (yields_list hlim ⟨rfl, rfl, rfl⟩ (.trivially ..)
    fun compatibilities hcompatibilities _ => ?_)
  refine .cons (.read fun _ => ?_)
  refine .cons (yields_list hlim ⟨rfl, rfl, rfl⟩ (.trivially ..) fun evidences hevidences _ => ?_)
  refine .cons (yields_list hlim ⟨rfl, rfl, rfl⟩ (.trivially ..)
    fun reservations hreservations _ => ?_)
  refine .cons (.read fun _ => ?_)
  exact .nil ⟨hboots, hnodes, hresources, hpaths, hcapabilities, hcompatibilities, hevidences,
    hreservations⟩

end Counted

/-! ### Compositions -/

/-- `WritePath` and `ReadPath`. -/
theorem reads_readPath {p : PathEvidence D} (h : p.evidence.Storable) :
    Reads persistLimits readPath (writePath p) default p.persisted :=
  reads_pathFields (.closed (reads_evidenceFields h default))

theorem yields_readPath :
    Yields readPath (default : PathEvidence D) fun p => p.evidence.Storable :=
  yields_pathFields (.closed (yields_evidenceFields default))

/-- `WriteRequest` and `ReadRequest`. -/
theorem reads_readRequest {q : CompositionRequest D} (h : q.Storable) :
    Reads persistLimits readRequest (writeRequest q) default q.persisted := by
  -- what is not written keeps its default
  refine .closed ?_
  refine .cons (reads_u64 ..) ?_
  refine .cons (reads_u32 ..) ?_
  refine .cons (reads_list_id rfl ⟨rfl, rfl, rfl⟩ h.architectures
    fun a _ => .value (.str a) default) ?_
  iterate 4 refine .cons (reads_dbl ..) ?_
  refine .cons (reads_u32 ..) ?_
  iterate 2 refine .cons (reads_dbl ..) ?_
  refine .cons (reads_classes rfl ⟨rfl, rfl, rfl⟩ h.mandatory_size h.mandatory rfl) ?_
  refine .cons (reads_classes rfl ⟨rfl, rfl, rfl⟩ h.optional_size h.optional rfl) ?_
  iterate 5 refine .cons (reads_flag ..) ?_
  iterate 5 refine .cons (reads_u64 ..) ?_
  dsimp only [put]
  exact .nil _

theorem yields_readRequest :
    Yields readRequest (default : CompositionRequest D) CompositionRequest.Storable := by
  refine .closed ?_
  iterate 2 refine .cons (.read fun _ => ?_)
  refine .cons (yields_list rfl ⟨rfl, rfl, rfl⟩ (.trivially ..)
    fun architectures harchitectures _ => ?_)
  iterate 7 refine .cons (.read fun _ => ?_)
  refine .cons (yields_classes rfl ⟨rfl, rfl, rfl⟩ rfl
    fun mandatory hmandatorySize hmandatory => ?_)
  refine .cons (yields_classes rfl ⟨rfl, rfl, rfl⟩ rfl
    fun optional hoptionalSize hoptional => ?_)
  iterate 10 refine .cons (.read fun _ => ?_)
  exact .nil ⟨harchitectures, hmandatorySize, hmandatory, hoptionalSize, hoptional⟩

/-- `WriteComposition` and `ReadComposition`. -/
theorem reads_readComposition {c : Composition D} (h : c.Storable) :
    Reads persistLimits readComposition (writeComposition c) default c.persisted := by
  refine .closed ?_
  iterate 4 refine .cons (reads_u64 ..) ?_
  refine .cons (reads_ids rfl ⟨rfl, rfl, rfl⟩ h.nodes) ?_
  -- the three records inside: the request comes back without what is not written
  refine .cons (.into (reads_readRequest h.request)) ?_
  refine .cons (.into (.closed (reads_graphFields rfl h.graph))) ?_
  refine .cons (.into (.closed (reads_authorityFields rfl h.authority))) ?_
  refine .cons (reads_enum c.lifecycle.canonical ..) ?_
  refine .cons (reads_u64 ..) ?_
  refine .cons (reads_enum c.outcome.canonical ..) ?_
  refine .cons (reads_dbl ..) ?_
  refine .cons (reads_list rfl ⟨rfl, rfl, rfl⟩ h.paths_length
    fun p hp => reads_readPath (h.paths p hp)) ?_
  dsimp only [put]
  exact .nil _

theorem yields_readComposition :
    Yields readComposition (default : Composition D) Composition.Storable := by
  refine .closed ?_
  iterate 4 refine .cons (.read fun _ => ?_)
  refine .cons (yields_list rfl ⟨rfl, rfl, rfl⟩ (.trivially ..) fun nodes hnodes _ => ?_)
  refine .cons (.into yields_readRequest fun request hrequest => ?_)
  refine .cons (.into (.closed (yields_graphFields rfl)) fun graph hgraph => ?_)
  refine .cons (.into (.closed (yields_authorityFields rfl)) fun authority hauthority => ?_)
  refine .cons (yields_enum fun lifecycle _ => ?_)
  refine .cons (.read fun _ => ?_)
  refine .cons (yields_enum fun outcome _ => ?_)
  refine .cons (.read fun _ => ?_)
  refine .cons (yields_list rfl ⟨rfl, rfl, rfl⟩ yields_readPath fun paths hpathsLen hpaths => ?_)
  exact .nil ⟨hnodes, hrequest, hgraph, hauthority, hpathsLen, hpaths⟩

/-! ### The file -/

section Table

omit [Double D] [DoubleBits D]

variable {A B : Type} [Inhabited A] {overflow malformed : Str} {d : Decoder A}

/-- A table within the bound is loaded entry by entry. -/
theorem loadTable_reads {l : List B} {entry : B → List Token} {f : B → A}
    (hlen : l.length ≤ maxCount) (hd : ∀ b ∈ l, Reads persistLimits d (entry b) default (f b))
    (hfits : ∀ t ∈ counted l entry, t.Fits persistLimits) (rest : List UInt8) (pos : ℕ) :
    loadTable overflow malformed d ⟨bytesOf (counted l entry) ++ rest, pos, true⟩ =
      .ok (l.map f, ⟨rest, pos + (bytesOf (counted l entry)).length, true⟩) := by
  have hreads : Reads persistLimits
      (Decoder.collect persistLimits.maxCount (fun l : List A => l) (fun l _ => l)
        (fun l a => l ++ [a]) d)
      (counted l entry) [] ((l.map f).foldl (fun l a => l ++ [a]) []) :=
    .collect ⟨rfl, rfl, rfl⟩ hlen hd
  have h := hreads.run hfits rest pos
  rw [foldl_push, List.nil_append] at h
  exact loadTable_eq_ok.mpr h

/-- A table that was loaded is within the bound, and its entries were accepted. -/
theorem storable_of_loadTable {P : A → Prop} (hd : Yields d default P) {r r' : Reader}
    {l : List A} (h : loadTable overflow malformed d r = .ok (l, r')) :
    l.length ≤ maxCount ∧ ∀ a ∈ l, P a := by
  have hyields : Yields (Decoder.collect persistLimits.maxCount (fun l : List A => l)
      (fun l _ => l) (fun l a => l ++ [a]) d) [] fun l => l.length ≤ maxCount ∧ ∀ a ∈ l, P a := by
    refine .collect ⟨rfl, rfl, rfl⟩ hd fun l hlen hP => ?_
    rw [put, foldl_push, List.nil_append]
    exact ⟨hlen, hP⟩
  have hrun := hyields.run r
  rw [loadTable_eq_ok.mp h] at hrun
  exact hrun rfl

end Table

/-- A policy entry comes back. -/
theorem reads_readPolicy (e : (_ : PolicyId) × PolicyGeneration) :
    Reads persistLimits readPolicy (Write.u64 e.1.value ++ Write.u64 e.2.value) default
      (e.1, e.2) :=
  .value (.pair (.map StrongId.mk (.u64 e.1.value)) (.map StrongGeneration.mk (.u64 e.2.value)))
    default

/-- The tables of a storable state are loaded from its body. -/
theorem loadBody_reads {s : DurableState D} (h : s.Storable)
    (hfits : ∀ t ∈ writeBody s, t.Fits persistLimits) (rest : List UInt8) (pos : ℕ) :
    loadBody ⟨bytesOf (writeBody s) ++ rest, pos, true⟩ = .ok s.persisted := by
  simp only [writeBody, List.flatten_cons, List.flatten_nil, List.append_nil,
    List.forall_mem_append] at hfits
  obtain ⟨hepoch, hnodes, hresources, hpolicies, hcompositions⟩ := hfits
  -- the policies are written in the order of the map
  have hfold : (s.policies.entries.map fun e => (e.1, e.2)).foldl
      (fun (m : OrdMap PolicyId PolicyGeneration) e => m.insert e.1 e.2) default = s.policies := by
    refine OrdMap.foldl_insert_eq ?_
    rw [List.map_map]
    exact (List.map_id s.policies.entries).symm
  simp only [writeBody, List.flatten_cons, List.flatten_nil, List.append_nil, bytesOf_append,
    List.append_assoc]
  -- from here on, each read leaves the bytes of what was written after it
  unfold loadBody
  rw [Write.u64, (ReadsTo.u64 s.epoch.value).run hepoch]
  dsimp only
  rw [loadTable_reads h.nodes_length (fun n hn => reads_readNode (h.nodes n hn)) hnodes]
  dsimp only [bind, Except.bind]
  rw [loadTable_reads h.resources_length (fun r hr => reads_readResource (h.resources r hr))
    hresources]
  dsimp only
  rw [loadTable_reads h.policies (fun e _ => reads_readPolicy e) hpolicies]
  dsimp only
  rw [loadTable_reads h.compositions_length
    (fun c hc => reads_readComposition (h.compositions c hc)) hcompositions]
  simp only [Bool.not_true, Bool.false_eq_true, if_false, hfold]
  rfl

/-- What is loaded from a file that was just saved is what the body is read as: the header
and the checksum pass. -/
theorem loadImpl_of_saveImpl {s : DurableState D} {file : List UInt8}
    (hsave : saveImpl s = .ok file) :
    (∀ t ∈ writeBody s, t.Fits persistLimits) ∧ (bytesOf (writeBody s)).length ≤ file.length ∧
      ∃ sum pos, (loadImpl file : Except Str (DurableState D)) =
        loadBody ⟨bytesOf (writeBody s) ++ sum, pos, true⟩ := by
  unfold saveImpl at hsave
  split at hsave
  · next bs hwrite =>
    cases hsave
    obtain ⟨rfl, hfits⟩ := write_ok hwrite
    simp only [writeState, List.forall_mem_append] at hfits
    obtain ⟨hmagic, hversion, hbody⟩ := hfits
    -- the file is the written bytes followed by `sum`, the eight bytes of the checksum
    generalize hsum : Token.bytes (.u64 (checksum (bytesOf (writeState s)))) = sum
    have hlen : (bytesOf (writeState s) ++ sum).length - 8 = (bytesOf (writeState s)).length := by
      simp [← hsum, Token.bytes]
    have hstored : (Reader.ofBytes sum).u64.1 = checksum (bytesOf (writeState s)) := by
      have hreads : ReadsTo persistLimits Reader.u64
          [.u64 (checksum (bytesOf (writeState s)))] (checksum (bytesOf (writeState s))) := .u64 _
      have hread := hreads.run (by simp [Token.Fits, Token.refusal?]) [] 0
      rw [List.append_nil, bytesOf, List.flatMap_singleton, hsum] at hread
      rw [Reader.ofBytes, hread]
    have hfile : bytesOf (writeState s) ++ sum = bytesOf (Write.u32 magic) ++
        (bytesOf (Write.u32 formatVersion) ++ (bytesOf (writeBody s) ++ sum)) := by
      simp only [writeState, bytesOf_append, List.append_assoc]
    have hne : (bytesOf (writeState s) ++ sum).isEmpty = false := by rw [hfile]; rfl
    have hlong : ¬ (bytesOf (writeState s) ++ sum).length < 8 := by
      simp [← hsum, Token.bytes]
    have hread : (Reader.ofBytes (bytesOf (writeState s) ++ sum)).u32 =
        (magic,
          ⟨bytesOf (Write.u32 formatVersion) ++ (bytesOf (writeBody s) ++ sum), 4, true⟩) := by
      rw [hfile]
      exact (ReadsTo.u32 magic).run hmagic _ 0
    refine ⟨hbody, ?_, sum, 4 + (bytesOf (Write.u32 formatVersion)).length, ?_⟩
    · rw [hfile]
      simp only [List.length_append]
      omega
    -- the header and the checksum pass, and the body is read up to the checksum
    unfold loadImpl
    simp only [hne, Bool.false_eq_true, if_false, hread, ne_eq, not_true_eq_false, hlong, hlen,
      List.take_left, List.drop_left, hstored]
    rw [Write.u32, (ReadsTo.u32 formatVersion).run hversion]
    simp only [not_true_eq_false, if_false]
  · cases hsave

/-- **A storable state comes back.** What `SaveImpl` writes for a storable state,
`LoadImpl` accepts, and returns the state as persisted. -/
theorem loadImpl_saveImpl {s : DurableState D} {file : List UInt8} (h : s.Storable)
    (hsave : saveImpl s = .ok file) : loadImpl file = .ok s.persisted := by
  obtain ⟨hbody, -, sum, pos, heq⟩ := loadImpl_of_saveImpl hsave
  rw [heq]
  exact loadBody_reads h hbody sum pos

/-- **Load accepts only storable states.** -/
theorem storable_of_loadImpl {s : DurableState D} {file : List UInt8}
    (h : loadImpl file = .ok s) : s.Storable := by
  obtain ⟨-, -, -, -, hbody⟩ := loadImpl_passed h
  obtain ⟨nodes, resources, policies, compositions, hnodes, hresources, hpolicies,
    hcompositions, -, rfl⟩ := loadBody_ok hbody
  have h1 := storable_of_loadTable yields_readNode hnodes
  have h2 := storable_of_loadTable yields_readResource hresources
  have h3 := storable_of_loadTable (P := fun _ => True) (.trivially ..) hpolicies
  have h4 := storable_of_loadTable yields_readComposition hcompositions
  -- the map has at most as many entries as the table had
  have hsize := OrdMap.size_foldl_insert_le (Prod.fst : PolicyId × PolicyGeneration → PolicyId)
    Prod.snd policies.1 default
  rw [show (default : OrdMap PolicyId PolicyGeneration).size = 0 from rfl, zero_add] at hsize
  exact ⟨h1.1, h1.2, h2.1, h2.2, hsize.trans h3.1, h4.1, h4.2⟩

end DFabric
