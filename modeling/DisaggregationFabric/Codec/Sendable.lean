import DisaggregationFabric.Codec.Transfer
import DisaggregationFabric.Lib.Partial

/-!
# What can be sent on

A record is *sendable* when the encoders of `codec.hpp` write it and their decoders read
it back as it is: it is storable, its strings are within the limit, and it has none of the
parts that do not travel.

What comes in over the wire can be sent on. That is so of every record that a decoder
accepts, and for requests and plans, whose decoders' verdict the coordinator does not look
at, of every record that a decoder leaves (`leaves_*`). Of a resource it also matters how
much of it there is: its capabilities and its compatibility claims are as many as the
payload has room for (`length_capabilities_le`).
-/

namespace DFabric

open Wire EnumTraits

/-! ### Rules for the statements of the decoders -/

section Rules

variable {R : Type} {x : R} {P Q : R → Prop}

/-- A value that nothing depends on. -/
theorem leaves_value {A : Type} {rd : Reader → A × Reader} {set : A → R → R}
    (h : ∀ v, P (put set v x)) : Leaves (.read rd set) x P Q :=
  .read (V := fun _ => True) (fun _ => trivial) fun v _ => h v

theorem leaves_enum {E : Type} [EnumTraits E] [Inhabited E] {set : E → R → R}
    (h : ∀ e, P (put set e x)) (hx : Q x) : Leaves (Fill.enum set) x P Q :=
  .check (fun _ e _ => h e) hx

/-- A string is within the limit when it was read. -/
theorem yields_text {set : Str → R → R} (h : ∀ s : Str, s.length ≤ 32768 → Q (put set s x)) :
    Yields (Fill.str wireLimits set) x Q :=
  ⟨fun r _ => h _ (length_str_le wireLimits r)⟩

theorem leaves_list {A : Type} [Inhabited A] {get : R → List A} {set : List A → R → R}
    {d : Decoder A} {E : A → Prop} (hacc : Accessor get set) (hd : Yields d default E)
    (h : ∀ l : List A, l.length ≤ maxCount → (∀ a ∈ l, E a) → P (put set (get x ++ l) x))
    (hstop : ∀ l : List A, l.length ≤ maxCount → (∀ a ∈ l, E a) → Q (put set (get x ++ l) x)) :
    Leaves (Fill.list wireLimits get set d) x P Q := by
  refine .collect hacc hd ?_ ?_
  · intro l hl hE
    rw [foldl_push]
    exact h l hl hE
  · intro l hl hE
    rw [foldl_push]
    exact hstop l hl hE

theorem leaves_classes {get : R → OrdSet ResourceClass} {set : OrdSet ResourceClass → R → R}
    (hacc : Accessor get set) (hx : get x = default)
    (h : ∀ m : OrdSet ResourceClass, m.size ≤ maxCount → (∀ e ∈ m.entries, Canonical e.1) →
      P (put set m x))
    (hstop : ∀ m : OrdSet ResourceClass, m.size ≤ maxCount → (∀ e ∈ m.entries, Canonical e.1) →
      Q (put set m x)) :
    Leaves (Fill.classes wireLimits get set) x P Q := by
  refine .collect (E := Canonical) hacc (yields_enum fun e he => he) ?_ ?_
  · intro l hl hE
    rw [hx]
    exact h _ ((size_classes_le l).trans hl) (canonical_classes hE)
  · intro l hl hE
    rw [hx]
    exact hstop _ ((size_classes_le l).trans hl) (canonical_classes hE)

/-- The names of a map that was read are within the limit. -/
theorem yields_names {D : Type} [Double D] [DoubleBits D] {get : R → OrdMap Str D}
    {set : OrdMap Str D → R → R} (hacc : Accessor get set) (hx : get x = default)
    (h : ∀ m : OrdMap Str D, Short (names m) → Q (put set m x)) :
    Yields (Fill.numbers wireLimits get set) x Q := by
  refine .collect (P := fun e : Str × D => e.1.length ≤ 32768) hacc
    ⟨fun r _ => length_str_le wireLimits r⟩ ?_
  -- a name of the map is one that was read
  intro l _ hl
  rw [hx]
  refine h _ ?_
  intro name hname
  obtain ⟨e, he, rfl⟩ := List.mem_map.mp hname
  rcases OrdMap.mem_foldl_insert (Prod.fst : Str × D → Str) Prod.snd he with ⟨a, ha, heq⟩ | hnone
  · rw [heq]
    exact hl a ha
  · exact absurd hnone List.not_mem_nil

end Rules

/-! ### Sendable records -/

section Sendable

variable {D : Type}

/-- What `DecodePath` insists on, and what `EncodePath` does. -/
structure PathEvidence.Sendable (p : PathEvidence D) : Prop where
  storable : p.evidence.Storable
  texts : Short p.texts

/-- What `DecodeGraph` and `EncodeGraph` insist on. -/
structure ResourceGraph.Sendable (g : ResourceGraph D) : Prop where
  storable : g.Storable
  texts : Short g.texts

/-- What `DecodeRequest` and `EncodeRequest` insist on, and nothing that does not
travel. -/
structure CompositionRequest.Sendable [Double D] (q : CompositionRequest D) : Prop where
  storable : q.Storable
  texts : Short q.acceleratorArchitectures
  sent : q.sent = q

/-- What `DecodePlan` and `EncodePlan` insist on. -/
structure CompositionPlan.Sendable [Double D] (p : CompositionPlan D) : Prop where
  nodes : p.nodes.length ≤ maxCount
  request : p.request.Sendable
  graph : p.graph.Sendable
  authority : p.authority.Storable
  factors_length : p.rank.factors.length ≤ maxCount
  factors : ∀ f ∈ p.rank.factors, Short [f.name, f.detail]
  paths_length : p.paths.length ≤ maxCount
  paths : ∀ e ∈ p.paths, e.Sendable

/-- What `DecodeComposition` and `EncodeComposition` insist on. -/
structure Composition.Sendable [Double D] (c : Composition D) : Prop where
  nodes : c.nodes.length ≤ maxCount
  request : c.request.Sendable
  graph : c.graph.Sendable
  authority : c.authority.Storable
  paths_length : c.paths.length ≤ maxCount
  paths : ∀ e ∈ c.paths, e.Sendable
  explanation : c.explanation.length ≤ 32768

/-- What `DecodeResource` and `EncodeResource` insist on, the health aside; and what the
size of a frame leaves room for. -/
structure Resource.Sendable [Double D] (r : Resource D) : Prop where
  storable : ({ r with health := .healthy } : Resource D).Storable
  texts : Short r.texts
  coords : r.failureDomain.localityCoords = default
  capabilities : r.capabilities.length ≤ 16384
  compatibility : r.compatibility.length ≤ 16384

theorem ResourceGraph.sendable_default [Double D] : (default : ResourceGraph D).Sendable :=
  ⟨⟨Nat.zero_le _, Nat.zero_le _, fun _ he => absurd he List.not_mem_nil⟩, short_nil⟩

theorem CompositionRequest.sendable_default [Double D] :
    (default : CompositionRequest D).Sendable :=
  ⟨⟨Nat.zero_le _, Nat.zero_le _, fun _ he => absurd he List.not_mem_nil, Nat.zero_le _,
    fun _ he => absurd he List.not_mem_nil⟩, short_nil, rfl⟩

theorem AuthorityTuple.storable_default : (default : AuthorityTuple).Storable := by
  constructor <;> exact Nat.zero_le _

theorem CompositionPlan.sendable_default [Double D] : (default : CompositionPlan D).Sendable where
  nodes := Nat.zero_le _
  request := CompositionRequest.sendable_default
  graph := ResourceGraph.sendable_default
  authority := AuthorityTuple.storable_default
  factors_length := Nat.zero_le _
  factors _ hf := absurd hf List.not_mem_nil
  paths_length := Nat.zero_le _
  paths _ hp := absurd hp List.not_mem_nil

theorem Composition.sendable_default [Double D] : (default : Composition D).Sendable where
  nodes := Nat.zero_le _
  request := CompositionRequest.sendable_default
  graph := ResourceGraph.sendable_default
  authority := AuthorityTuple.storable_default
  paths_length := Nat.zero_le _
  paths _ hp := absurd hp List.not_mem_nil
  explanation := Nat.zero_le _

end Sendable

variable {D : Type} [Double D] [DoubleBits D]

/-! ### Records that are accepted -/

omit [Double D] in
theorem yields_evidenceTexts (x : Evidence D) :
    Yields decodeEvidence x fun e => Short e.texts := by
  refine .closed ?_
  iterate 2 refine .cons (.read fun _ => ?_)
  iterate 2 refine .cons (.check fun _ _ _ => ?_)
  iterate 3 refine .cons (.read fun _ => ?_)
  refine .cons (yields_text fun provenance hprovenance => ?_)
  refine .cons (yields_text fun owner howner => ?_)
  refine .cons (.read fun _ => ?_)
  exact .nil (short_cons.mpr ⟨hprovenance, short_cons.mpr ⟨howner, short_nil⟩⟩)

/-- What `DecodePath` accepts can be sent. -/
theorem yields_decodePath : Yields decodePath (default : PathEvidence D) PathEvidence.Sendable := by
  -- once for what the decoder checks, once for the lengths of the texts
  have hstorable : Yields decodePath (default : PathEvidence D) fun p => p.evidence.Storable :=
    yields_pathFields (.closed (yields_evidenceFields default))
  have htexts : Yields decodePath (default : PathEvidence D) fun p => Short p.texts := by
    iterate 8 refine .cons (.read fun _ => ?_)
    refine .cons (yields_text fun protocol hprotocol => ?_)
    iterate 4 refine .cons (.read fun _ => ?_)
    refine .cons (yields_text fun provider hprovider => ?_)
    refine .cons (yields_text fun source hsource => ?_)
    refine .cons (.into (yields_evidenceTexts _) fun evidence hevidence => ?_)
    exact .nil (short_cons.mpr ⟨hprotocol, short_cons.mpr ⟨hprovider, short_cons.mpr
      ⟨hsource, hevidence⟩⟩⟩)
  exact (hstorable.and htexts).mono fun p hp => ⟨hp.1, hp.2⟩

omit [Double D] in
theorem yields_edgeTexts (x : GraphEdge D) :
    Yields (.block (edgeFields wireLimits)) x fun e => Short [e.protocol, e.compatFacet] := by
  iterate 2 refine .cons (.read fun _ => ?_)
  refine .cons (.check fun _ _ _ => ?_)
  iterate 3 refine .cons (.read fun _ => ?_)
  refine .cons (yields_text fun protocol hprotocol => ?_)
  refine .cons (yields_text fun facet hfacet => ?_)
  exact .nil (short_cons.mpr ⟨hprotocol, short_cons.mpr ⟨hfacet, short_nil⟩⟩)

omit [Double D] in
theorem yields_factorTexts (x : RankingFactor D) :
    Yields (.block factorFields) x fun f => Short [f.name, f.detail] := by
  refine .cons (yields_text fun name hname => ?_)
  iterate 2 refine .cons (.read fun _ => ?_)
  refine .cons (yields_text fun detail hdetail => ?_)
  exact .nil (short_cons.mpr ⟨hname, short_cons.mpr ⟨hdetail, short_nil⟩⟩)

/-! ### Records that are left -/

/-- What `DecodeGraph` leaves can be sent. -/
theorem leaves_decodeGraph :
    Leaves decodeGraph (default : ResourceGraph D) ResourceGraph.Sendable
      ResourceGraph.Sendable := by
  have hnone : Short (List.flatMap (fun e : GraphEdge D => [e.protocol, e.compatFacet]) []) :=
    short_nil
  refine .closed ?_
  -- stopped at the vertices there are no edges; stopped at the edges there are some
  refine .cons (leaves_list ⟨rfl, rfl, rfl⟩ (.trivially ..) (fun vertices hvertices _ => ?_)
    fun vertices hvertices _ => ⟨⟨hvertices, Nat.zero_le _, fun _ he => absurd he List.not_mem_nil⟩,
      hnone⟩)
  have hkinds : Yields (.block (edgeFields wireLimits)) (default : GraphEdge D) fun e =>
      Canonical e.kind := yields_edgeFields default
  have hedges := hkinds.and (yields_edgeTexts default)
  have hgraph : ∀ edges : List (GraphEdge D), edges.length ≤ maxCount →
      (∀ e ∈ edges, Canonical e.kind ∧ Short [e.protocol, e.compatFacet]) →
      (⟨vertices, edges⟩ : ResourceGraph D).Sendable := by
    intro edges hlen h
    exact ⟨⟨hvertices, hlen, fun e he => (h e he).1⟩, short_flatMap.mpr fun e he => (h e he).2⟩
  exact .cons (leaves_list ⟨rfl, rfl, rfl⟩ hedges (fun edges hlen h => .nil (hgraph edges hlen h))
    hgraph)

/-- What `DecodeAuthority` leaves can be sent. -/
theorem leaves_decodeAuthority :
    Leaves decodeAuthority default AuthorityTuple.Storable AuthorityTuple.Storable := by
  have hz : ([] : List UInt64).length ≤ maxCount := Nat.zero_le _
  -- the lists behind the one that stops are empty
  refine .closed ?_
  refine .cons (leaves_value fun _ => ?_)
  refine .cons (leaves_list ⟨rfl, rfl, rfl⟩ (.trivially ..) (fun boots hboots _ => ?_)
    fun _ h _ => ⟨h, hz, hz, hz, hz, hz, hz, hz⟩)
  refine .cons (leaves_list ⟨rfl, rfl, rfl⟩ (.trivially ..) (fun nodes hnodes _ => ?_)
    fun _ h _ => ⟨hboots, h, hz, hz, hz, hz, hz, hz⟩)
  refine .cons (leaves_list ⟨rfl, rfl, rfl⟩ (.trivially ..) (fun resources hresources _ => ?_)
    fun _ h _ => ⟨hboots, hnodes, h, hz, hz, hz, hz, hz⟩)
  refine .cons (leaves_list ⟨rfl, rfl, rfl⟩ (.trivially ..) (fun paths hpaths _ => ?_)
    fun _ h _ => ⟨hboots, hnodes, hresources, h, hz, hz, hz, hz⟩)
  refine .cons (leaves_list ⟨rfl, rfl, rfl⟩ (.trivially ..) (fun caps hcaps _ => ?_)
    fun _ h _ => ⟨hboots, hnodes, hresources, hpaths, h, hz, hz, hz⟩)
  refine .cons (leaves_list ⟨rfl, rfl, rfl⟩ (.trivially ..) (fun comps hcomps _ => ?_)
    fun _ h _ => ⟨hboots, hnodes, hresources, hpaths, hcaps, h, hz, hz⟩)
  refine .cons (leaves_value fun _ => ?_)
  refine .cons (leaves_list ⟨rfl, rfl, rfl⟩ (.trivially ..) (fun evidences hevidences _ => ?_)
    fun _ h _ => ⟨hboots, hnodes, hresources, hpaths, hcaps, hcomps, h, hz⟩)
  refine .cons (leaves_list ⟨rfl, rfl, rfl⟩ (.trivially ..) (fun resvs hresvs _ => ?_)
    fun _ h _ => ⟨hboots, hnodes, hresources, hpaths, hcaps, hcomps, hevidences, h⟩)
  refine .cons (leaves_value fun _ => ?_)
  exact .nil ⟨hboots, hnodes, hresources, hpaths, hcaps, hcomps, hevidences, hresvs⟩

/-- What `DecodeRequest` leaves can be sent. -/
theorem leaves_decodeRequest :
    Leaves decodeRequest (default : CompositionRequest D) CompositionRequest.Sendable
      CompositionRequest.Sendable := by
  -- a request that is left half read has the defaults behind
  have hz : ([] : List UInt64).length ≤ maxCount := Nat.zero_le _
  have hnone : ∀ e ∈ (default : OrdSet ResourceClass).entries, Canonical e.1 :=
    List.forall_mem_nil _
  have htext : Yields (.value (Reader.str wireLimits)) (default : Str) fun s => s.length ≤ 32768 :=
    ⟨fun r _ => length_str_le wireLimits r⟩
  refine .closed ?_
  iterate 2 refine .cons (leaves_value fun _ => ?_)
  refine .cons (leaves_list ⟨rfl, rfl, rfl⟩ htext (fun archs harchs htexts => ?_)
    fun _ h htexts => ⟨⟨h, hz, hnone, hz, hnone⟩, htexts, rfl⟩)
  iterate 7 refine .cons (leaves_value fun _ => ?_)
  refine .cons (leaves_classes ⟨rfl, rfl, rfl⟩ rfl (fun mandatory hmsize hmandatory => ?_)
    fun _ hsize h => ⟨⟨harchs, hsize, h, hz, hnone⟩, htexts, rfl⟩)
  refine .cons (leaves_classes ⟨rfl, rfl, rfl⟩ rfl (fun optional hosize hoptional => ?_)
    fun _ hsize h => ⟨⟨harchs, hmsize, hmandatory, hsize, h⟩, htexts, rfl⟩)
  iterate 11 refine .cons (leaves_value fun _ => ?_)
  exact .nil ⟨⟨harchs, hmsize, hmandatory, hosize, hoptional⟩, htexts, rfl⟩

/-- What `DecodePlan` leaves can be sent, and reserved. -/
theorem leaves_decodePlan :
    Leaves decodePlan (default : CompositionPlan D) CompositionPlan.Sendable
      CompositionPlan.Sendable := by
  have hz : ([] : List UInt64).length ≤ maxCount := Nat.zero_le _
  have hauth : (default : AuthorityTuple).Storable := AuthorityTuple.storable_default
  have hreq : (default : CompositionRequest D).Sendable := CompositionRequest.sendable_default
  have hfactor : ∀ f ∈ ([] : List (RankingFactor D)), Short [f.name, f.detail] :=
    List.forall_mem_nil _
  have hpath : ∀ p ∈ ([] : List (PathEvidence D)), p.Sendable :=
    List.forall_mem_nil _
  -- wherever it stops, the fields before are accepted and those behind are the defaults
  refine .closed ?_
  iterate 2 refine .cons (leaves_value fun _ => ?_)
  refine .cons (.into leaves_decodeGraph (fun graph hgraph => ?_)
    fun _ h => ⟨hz, hreq, h, hauth, hz, hfactor, hz, hpath⟩)
  refine .cons (leaves_list ⟨rfl, rfl, rfl⟩ (.trivially ..) (fun nodes hnodes _ => ?_)
    fun _ h _ => ⟨h, hreq, hgraph, hauth, hz, hfactor, hz, hpath⟩)
  refine .cons (.into leaves_decodeRequest (fun request hrequest => ?_)
    fun _ h => ⟨hnodes, h, hgraph, hauth, hz, hfactor, hz, hpath⟩)
  refine .cons (leaves_value fun _ => ?_)
  refine .cons (leaves_list ⟨rfl, rfl, rfl⟩ (yields_factorTexts default)
    (fun factors hlen hfactors => ?_)
    fun _ hlen h => ⟨hnodes, hrequest, hgraph, hauth, hlen, h, hz, hpath⟩)
  refine .cons (.into leaves_decodeAuthority (fun authority hauthority => ?_)
    fun _ h => ⟨hnodes, hrequest, hgraph, h, hlen, hfactors, hz, hpath⟩)
  refine .cons (leaves_enum (fun lifecycle => ?_)
    ⟨hnodes, hrequest, hgraph, hauthority, hlen, hfactors, hz, hpath⟩)
  refine .cons (leaves_list ⟨rfl, rfl, rfl⟩ yields_decodePath (fun paths hplen hpaths => ?_)
    fun _ hplen h => ⟨hnodes, hrequest, hgraph, hauthority, hlen, hfactors, hplen, h⟩)
  exact .nil ⟨hnodes, hrequest, hgraph, hauthority, hlen, hfactors, hplen, hpaths⟩

/-! ### Resources -/

theorem yields_capabilityTexts (x : Capability) :
    Yields decodeCapability x fun c => c.detail.length ≤ 32768 := by
  refine .closed ?_
  iterate 2 refine .cons (.check fun _ _ _ => ?_)
  iterate 2 refine .cons (.read fun _ => ?_)
  refine .cons (yields_text fun detail hdetail => ?_)
  exact .nil hdetail

theorem yields_pinTexts (x : CompatibilityPin) :
    Yields (.block (pinFields wireLimits)) x fun p => Short [p.name, p.value] := by
  refine .cons (yields_text fun name hname => ?_)
  refine .cons (yields_text fun value hvalue => ?_)
  refine .cons (.read fun _ => ?_)
  exact .nil (short_cons.mpr ⟨hname, short_cons.mpr ⟨hvalue, short_nil⟩⟩)

theorem yields_compatibilityTexts :
    Yields decodeCompatibility (default : Compatibility) fun c => Short c.texts := by
  refine .closed ?_
  iterate 2 refine .cons (.read fun _ => ?_)
  refine .cons (yields_list rfl ⟨rfl, rfl, rfl⟩ (yields_pinTexts default) fun pins _ hpins => ?_)
  exact .nil (short_flatMap.mpr hpins)

/-- The strings of a resource that `DecodeResource` accepts are within the limit, and its
failure domain has no coordinates. -/
theorem yields_resourceTexts :
    Yields decodeResource (default : Resource D) fun r =>
      Short r.texts ∧ r.failureDomain.localityCoords = default := by
  have hcapacity : Yields (.block (capacityFields wireLimits)) (default : Capacity D) fun c =>
      Short (names c.extra) := by
    iterate 7 refine .cons (.read fun _ => ?_)
    exact .cons (yields_names ⟨rfl, rfl, rfl⟩ rfl fun extra hextra => .nil hextra)
  have hlocality : Yields (.block (localityFields wireLimits)) (default : Locality D) fun l =>
      Short (names l.tags) := by
    refine .cons (yields_list rfl ⟨rfl, rfl, rfl⟩ (.trivially ..) fun coords _ _ => ?_)
    exact .cons (yields_names ⟨rfl, rfl, rfl⟩ rfl fun tags htags => .nil htags)
  have hdomain : Yields (.block (failureDomainFields wireLimits)) (default : FailureDomain D)
      fun f => f.name.length ≤ 32768 ∧ f.localityCoords = default := by
    refine .cons (.read fun _ => ?_)
    refine .cons (.check fun _ _ _ => ?_)
    refine .cons (yields_text fun name hname => ?_)
    refine .cons (.read fun _ => ?_)
    exact .nil ⟨hname, rfl⟩
  refine .closed ?_
  iterate 2 refine .cons (.read fun _ => ?_)
  refine .cons (.check fun _ _ _ => ?_)
  refine .cons (.read fun _ => ?_)
  refine .cons (yields_text fun provider hprovider => ?_)
  refine .cons (yields_text fun owner howner => ?_)
  refine .cons (.read fun _ => ?_)
  iterate 3 refine .cons (.check fun _ _ _ => ?_)
  refine .cons (.into hcapacity fun capacity hextra => ?_)
  refine .cons (.into hlocality fun locality htags => ?_)
  refine .cons (.into hdomain fun domain hname => ?_)
  refine .cons (.into (yields_evidenceTexts _) fun evidence hevidence => ?_)
  refine .cons (yields_list rfl ⟨rfl, rfl, rfl⟩ (yields_capabilityTexts default)
    fun caps _ hcaps => ?_)
  refine .cons (yields_list rfl ⟨rfl, rfl, rfl⟩ yields_compatibilityTexts fun comps _ hcomps => ?_)
  refine .nil ⟨?_, hname.2⟩
  change Short ([provider, owner] ++ names capacity.extra ++ names locality.tags ++
    [domain.name] ++ evidence.texts ++ caps.map Capability.detail ++
    comps.flatMap Compatibility.texts)
  simp only [short_append, short_cons, short_nil, short_map, short_flatMap]
  exact ⟨⟨⟨⟨⟨⟨⟨hprovider, howner, trivial⟩, hextra⟩, htags⟩, hname.1, trivial⟩, hevidence⟩, hcaps⟩,
    hcomps⟩

/-! ### How much there is of a resource -/

section Consumed

variable {R E : Type} [EnumTraits E] [Inhabited E] {A : Type} [Inhabited A]

@[simp] theorem consumes_u64 (set : UInt64 → R → R) : Consumes (Fill.u64 set) 0 :=
  (Consumes.read ReadConsumes.u64 set).mono (Nat.zero_le _)

@[simp] theorem consumes_flag (set : Bool → R → R) : Consumes (Fill.flag set) 0 :=
  (Consumes.read ReadConsumes.flag set).mono (Nat.zero_le _)

@[simp] theorem consumes_str (set : Str → R → R) : Consumes (Fill.str wireLimits set) 0 :=
  (Consumes.read (ReadConsumes.str wireLimits) set).mono (Nat.zero_le _)

omit [Double D] in
@[simp] theorem consumes_dbl (set : D → R → R) : Consumes (Fill.dbl set) 0 :=
  (Consumes.read (ReadConsumes.map ReadConsumes.u64) set).mono (Nat.zero_le _)

@[simp] theorem consumes_enum (set : E → R → R) : Consumes (Fill.enum set) 0 :=
  (Consumes.check ReadConsumes.u32 Fill.validEnum? set).mono (Nat.zero_le _)

@[simp] theorem consumes_list {get : R → List A} {set : List A → R → R} {d : Decoder A}
    (h : Consumes d 0) : Consumes (Fill.list wireLimits get set d) 0 :=
  (Consumes.collect h).mono (Nat.zero_le _)

@[simp] theorem consumes_numbers (get : R → OrdMap Str D) (set : OrdMap Str D → R → R) :
    Consumes (Fill.numbers wireLimits get set) 0 := by
  have hentry : ReadConsumes (Reader.pair (Reader.str wireLimits) (Fill.readDbl (D := D))) 12 :=
    .pair (.str wireLimits) (.map .u64)
  exact (Consumes.collect ((Consumes.read hentry _).mono (Nat.zero_le _))).mono (Nat.zero_le _)

end Consumed

/-- The statements of `DecodeResource` before its two lists. -/
def resourceHead : List (Decoder (Resource D)) :=
  (resourceFields wireLimits decodeEvidence decodeCapability decodeCompatibility).take 14

/-- They leave the two lists empty. -/
theorem yields_resourceHead :
    Yields (.block resourceHead) (default : Resource D) fun r =>
      r.capabilities = [] ∧ r.compatibility = [] := by
  iterate 2 refine .cons (.read fun _ => ?_)
  refine .cons (.check fun _ _ _ => ?_)
  iterate 4 refine .cons (.read fun _ => ?_)
  iterate 3 refine .cons (.check fun _ _ _ => ?_)
  iterate 4 refine .cons (.into (.trivially ..) fun _ _ => ?_)
  exact .nil ⟨rfl, rfl⟩

theorem consumes_resourceHead :
    Consumes (.block (resourceHead : List (Decoder (Resource D)))) 0 := by
  have hcapacity : Consumes (.block (capacityFields (D := D) wireLimits)) 0 :=
    .block (by simp [capacityFields])
  have hcoords : Consumes (.value (Fill.readDbl (D := D))) 0 := consumes_dbl _
  have hlocality : Consumes (.block (localityFields (D := D) wireLimits)) 0 :=
    .block (by simp [localityFields, hcoords])
  have hdomain : Consumes (.block (failureDomainFields (D := D) wireLimits)) 0 :=
    .block (by simp [failureDomainFields])
  have hevidence : Consumes (decodeEvidence (D := D)) 0 :=
    .closed (.block (by simp [evidenceFields]))
  exact .block (by simp [resourceHead, resourceFields, hcapacity.into, hlocality.into,
    hdomain.into, hevidence.into])

/-- A capability takes four bytes at least. -/
theorem consumes_decodeCapability : Consumes decodeCapability 4 := by
  refine .closed (.cons (.check .u32 ..) (m := 0) (.block ?_))
  simp

/-- A compatibility claim takes eight. -/
theorem consumes_decodeCompatibility : Consumes decodeCompatibility 8 := by
  refine .closed (.cons (.read .u64 _) (m := 0) (.block ?_))
  have hpin : Consumes (.block (pinFields wireLimits)) 0 := .block (by simp [pinFields])
  simp [hpin]

/-- **A resource is no larger than its payload**, as to its capabilities and its
compatibility claims. -/
theorem length_capabilities_le {payload : List UInt8}
    (h : (decodeResource (default : Resource D) (Reader.ofBytes payload)).1 = true) :
    (decodeResource (default : Resource D) (Reader.ofBytes payload)).2.1.capabilities.length * 4 ≤
        payload.length ∧
      (decodeResource (default : Resource D) (Reader.ofBytes payload)).2.1.compatibility.length * 8 ≤
        payload.length := by
  have hcaps : Consumes decodeCapability 0 := consumes_decodeCapability.mono (Nat.zero_le _)
  have hcomps : Consumes decodeCompatibility 0 := consumes_decodeCompatibility.mono (Nat.zero_le _)
  -- the two lists come last; every entry takes up bytes of the payload
  suffices hwithin : Within payload.length (.block (resourceHead ++ [
      Fill.list wireLimits (·.capabilities) (fun v r => { r with capabilities := v })
        decodeCapability,
      Fill.list wireLimits (·.compatibility) (fun v r => { r with compatibility := v })
        decodeCompatibility])) (default : Resource D) fun r =>
      r.capabilities.length * 4 ≤ payload.length ∧ r.compatibility.length * 8 ≤ payload.length from
    hwithin.closed le_rfl h
  rw [block_append]
  refine .andThen consumes_resourceHead (.block (by simp [hcaps, hcomps]))
    (.of_yields (yields_resourceHead.mono ?_))
  rintro r ⟨hrcaps, hrcomps⟩
  refine .cons (consumes_list hcaps) (.block (by simp [hcomps])) ?_
  refine .list ⟨rfl, rfl, rfl⟩ consumes_decodeCapability fun caps hlen => ?_
  refine .cons (consumes_list hcomps) .nil ?_
  refine .list ⟨rfl, rfl, rfl⟩ consumes_decodeCompatibility fun comps hlen' => .nil ⟨?_, ?_⟩
  · change (r.capabilities ++ caps).length * 4 ≤ _
    rwa [hrcaps]
  · change (r.compatibility ++ comps).length * 8 ≤ _
    rwa [hrcomps]

/-- What `DecodeResource` accepts within a frame can be sent. -/
theorem Resource.sendable_of_accepted {payload : List UInt8} (hlen : payload.length ≤ 65536)
    (h : (decodeResource (default : Resource D) (Reader.ofBytes payload)).1 = true) :
    (decodeResource (default : Resource D) (Reader.ofBytes payload)).2.1.Sendable := by
  have hs := yields_decodeResource.run _ h
  obtain ⟨htexts, hcoords⟩ := yields_resourceTexts.run _ h
  obtain ⟨hcaps, hcomps⟩ := length_capabilities_le h
  refine ⟨?_, htexts, hcoords, by omega, by omega⟩
  have hhealthy : Canonical ResourceHealth.healthy := by decide
  exact hs.update hhealthy hs.evidence

/-! ### Sent and read -/

section Lawful

variable [LawfulDoubleBits D]

theorem CompositionPlan.Sendable.reads {p : CompositionPlan D} (h : p.Sendable) :
    Reads wireLimits decodePlan (encodePlan p) default p := by
  have hs : p.Storable := ⟨h.nodes, h.request.storable, h.graph.storable, h.authority,
    h.paths_length, fun e he => (h.paths e he).storable⟩
  have hp := reads_decodePlan hs h.factors_length
  rwa [h.request.sent] at hp

theorem Composition.Sendable.reads {c : Composition D} (h : c.Sendable) :
    Reads wireLimits decodeComposition (encodeComposition c) default c.sent :=
  reads_decodeComposition ⟨h.nodes, h.request.storable, h.graph.storable, h.authority,
    h.paths_length, fun e he => (h.paths e he).storable⟩

theorem Resource.Sendable.reads {r : Resource D} (h : r.Sendable) (hhealth : r.health ≠ .unknown) :
    Reads wireLimits decodeResource (encodeResource r) default r := by
  have hcanonical : Canonical r.health := by
    revert hhealth
    cases r.health <;> decide
  have hstorable : r.Storable := h.storable.update hcanonical h.storable.evidence
  have hr := reads_decodeResource hstorable
  rwa [Resource.persisted_eq h.coords] at hr

end Lawful

theorem CompositionPlan.Sendable.writable {p : CompositionPlan D} (h : p.Sendable) :
    Writable wireLimits (encodePlan p) := by
  rw [writable_encodePlan rfl, CompositionPlan.texts]
  simp only [short_append, short_flatMap]
  exact ⟨⟨⟨h.graph.texts, h.request.texts⟩, h.factors⟩, fun e he => (h.paths e he).texts⟩

theorem Composition.Sendable.writable {c : Composition D} (h : c.Sendable) :
    Writable wireLimits (encodeComposition c) := by
  rw [writable_encodeComposition rfl, Composition.texts]
  simp only [short_append, short_flatMap]
  exact ⟨⟨⟨h.request.texts, h.graph.texts⟩, fun e he => (h.paths e he).texts⟩, h.explanation⟩

theorem Resource.Sendable.writable {r : Resource D} (h : r.Sendable) :
    Writable wireLimits (encodeResource r) := (writable_encodeResource rfl).mpr h.texts

/-! ### Sent and refused -/

omit [Double D] [DoubleBits D] in
/-- An enumerator out of the canonical range is refused. -/
theorem refuses_enum {R E : Type} [EnumTraits E] [Inhabited E] {e : E} (h : ¬ Canonical e)
    (set : E → R → R) (x : R) : Refuses wireLimits (Fill.enum set) (Write.enum e) x := by
  refine .check (.u32 (value e)) ?_ x
  rw [Fill.validEnum?, if_neg (show ¬ valid E (value e) = true from h)]

/-- `DecodeResource` stops at a health that is unknown. -/
theorem Resource.Sendable.refuses {r : Resource D} (h : r.Sendable)
    (hhealth : r.health = .unknown) :
    Refuses wireLimits decodeResource (encodeResource r) (default : Resource D) := by
  have hnot : ¬ Canonical r.health := by
    rw [hhealth]
    decide
  -- the seven fields in front of the health are read
  refine .closed ?_
  iterate 2 refine .cons (reads_u64 ..) ?_
  refine .cons (reads_enum h.storable.resourceClass ..) ?_
  refine .cons (reads_u64 ..) ?_
  iterate 2 refine .cons (reads_str ..) ?_
  refine .cons (reads_flag ..) ?_
  exact .head (refuses_enum hnot ..)

/-- `DecodeReservation` stops at the state of a default-constructed reservation. -/
theorem refuses_default_reservation :
    Refuses wireLimits decodeReservation (encodeReservation (default : Reservation D))
      (default : Reservation D) := by
  have hnot : ¬ Canonical ReservationState.none := by decide
  refine .closed ?_
  iterate 3 refine .cons (reads_u64 ..) ?_
  refine .cons (reads_list (f := fun i => i) rfl ⟨rfl, rfl, rfl⟩ (Nat.zero_le _)
    fun i hi => absurd hi List.not_mem_nil) ?_
  exact .head (refuses_enum hnot ..)

end DFabric
