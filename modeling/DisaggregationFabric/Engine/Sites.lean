import DisaggregationFabric.Engine.Placement

/-!
# Sites made for a request

What is accepted, and what a plan then looks like, depends on where the resources are and
on what the backends answer. A `Site` fixes both: `pieces` are resources for the mandatory
demands of a request, healthy and with half of each amount, and `built` is the engine in
which they have been registered, the path of the site has been published between any two of
their nodes, and the backends answer as the site says.

For a request whose demands take at most eight resources each, the engine of a site is
exact (`exact_built`), wherever its resources are.
-/

namespace DFabric

namespace Engine

/-- Where the resources of a site are and what is known of them. -/
structure Site where
  nodeOf : ResourceClass → ℕ → NodeId
  domainOf : ResourceClass → ℕ → FailureDomain ℚ
  /-- The accelerator memory of each resource. -/
  memory : ℚ
  /-- The architecture each resource claims. -/
  architecture : Str
  /-- The path that is published for an ordered pair of nodes. -/
  path : NodeId × NodeId → PathEvidence ℚ
  path_nodes : ∀ q, (path q).requirement.source = q.1 ∧ (path q).requirement.target = q.2
  backends : List (Backend ℚ)

/-- The id of the resource with the given index in its class. -/
def keyOf (cls : ResourceClass) (i : ℕ) : ResourceId :=
  ⟨UInt64.ofNat (16 * (EnumTraits.value cls).toNat + i + 1)⟩

theorem value_toNat_keyOf (cls : ResourceClass) {i : ℕ} (hi : i < 8) :
    (keyOf cls i).value.toNat = 16 * (EnumTraits.value cls).toNat + i + 1 := by
  have hvalue : (EnumTraits.value cls).toNat ≤ 12 := by cases cls <;> decide
  exact UInt64.toNat_ofNat_of_lt' (by change _ < 2 ^ 64; omega)

theorem keyOf_injective {cls cls' : ResourceClass} {i j : ℕ} (hi : i < 8) (hj : j < 8)
    (h : keyOf cls i = keyOf cls' j) : cls = cls' ∧ i = j := by
  have hvalue := congrArg (fun id : ResourceId => id.value.toNat) h
  rw [value_toNat_keyOf cls hi, value_toNat_keyOf cls' hj] at hvalue
  have hclass : (EnumTraits.value cls).toNat = (EnumTraits.value cls').toNat := by omega
  refine ⟨?_, by omega⟩
  exact EnumTraits.value_inj cls (EnumTraits.mem_table cls) cls' (EnumTraits.mem_table cls')
    (UInt32.toNat_inj.mp hclass)

variable {req : CompositionRequest ℚ} {site : Site}

/-- Half of an amount, or nothing. -/
def half (amount : ℚ) : ℚ := max amount 0 / 2

/-- A resource of the site: healthy, with half of every amount that is asked for. -/
def piece (req : CompositionRequest ℚ) (site : Site) (cls : ResourceClass) (i : ℕ) :
    Resource ℚ :=
  { (default : Resource ℚ) with
    id := keyOf cls i
    generation := ⟨1⟩
    resourceClass := cls
    nodeId := site.nodeOf cls i
    capabilities := [⟨.archGeneration, .supported, ⟨1⟩, ⟨1⟩, site.architecture⟩,
      ⟨.coherentMemoryAccess, .supported, ⟨1⟩, ⟨1⟩, []⟩]
    capacity := { (default : Capacity ℚ) with
      computeUnits := half (Double.ofRat req.computeUnits.toNat)
      acceleratorMemoryBytes := site.memory
      hostMemoryBytes := half req.hostMemoryBytes
      expandedMemoryBytes := half req.expandedMemoryBytes
      storageBytes := half req.storageBytes }
    health := .healthy
    readiness := .ready
    reachability := .reachable
    failureDomain := site.domainOf cls i
    evidence := { (default : Evidence ℚ) with state := .fresh, maxAgeMs := 1000 } }

/-- The resources of the site: for each mandatory demand as many as it can take. -/
def pieces (req : CompositionRequest ℚ) (site : Site) : List (Resource ℚ) :=
  ((computeDemands req).filter (·.mandatory)).flatMap fun d =>
    (List.range (wanted d)).map (piece req site d.cls)

theorem mem_pieces {r : Resource ℚ} :
    r ∈ pieces req site ↔ ∃ d ∈ computeDemands req, d.mandatory = true ∧
      ∃ i < wanted d, piece req site d.cls i = r := by
  rw [pieces, List.mem_flatMap]
  constructor
  · rintro ⟨d, hd, hr⟩
    obtain ⟨hd, hmandatory⟩ := List.mem_filter.mp hd
    obtain ⟨i, hi, rfl⟩ := List.mem_map.mp hr
    exact ⟨d, hd, hmandatory, i, List.mem_range.mp hi, rfl⟩
  · rintro ⟨d, hd, hmandatory, i, hi, rfl⟩
    exact ⟨d, List.mem_filter.mpr ⟨hd, hmandatory⟩, List.mem_map_of_mem (List.mem_range.mpr hi)⟩

theorem demands_of_mem_pieces {r : Resource ℚ} (h : r ∈ pieces req site) :
    Demands req r.resourceClass := by
  obtain ⟨d, hd, hmandatory, i, -, rfl⟩ := mem_pieces.mp h
  exact ⟨d, hd, hmandatory, rfl⟩

/-- Each demand takes at most eight. -/
def Small (req : CompositionRequest ℚ) : Prop :=
  ∀ d ∈ computeDemands req, d.mandatory = true → wanted d ≤ 8

theorem nodup_ids_pieces (hsmall : Small req) : ((pieces req site).map (·.id)).Nodup := by
  rw [pieces, List.map_flatMap, List.nodup_flatMap]
  constructor
  · -- ids of one class differ in the index
    intro d hd
    obtain ⟨hd, hmandatory⟩ := List.mem_filter.mp hd
    rw [List.map_map]
    refine List.Nodup.map_on ?_ List.nodup_range
    intro i hi j hj heq
    have hle := hsmall d hd hmandatory
    rw [List.mem_range] at hi hj
    exact (keyOf_injective (by omega) (by omega) heq).2
  · -- resources of different classes have different ids
    have hclasses : ((computeDemands req).filter (·.mandatory)).Pairwise
        fun d d' => d.cls ≠ d'.cls :=
      List.pairwise_map.mp ((List.filter_sublist.map _).nodup (nodup_classes_computeDemands req))
    refine List.Pairwise.imp_of_mem ?_ hclasses
    intro d d' hd hd' hne v hv hv'
    obtain ⟨hd, hmandatory⟩ := List.mem_filter.mp hd
    obtain ⟨hd', hmandatory'⟩ := List.mem_filter.mp hd'
    obtain ⟨r, hr, rfl⟩ := List.mem_map.mp hv
    obtain ⟨r', hr', heq⟩ := List.mem_map.mp hv'
    obtain ⟨i, hi, rfl⟩ := List.mem_map.mp hr
    obtain ⟨j, hj, rfl⟩ := List.mem_map.mp hr'
    have hle := hsmall d hd hmandatory
    have hle' := hsmall d' hd' hmandatory'
    rw [List.mem_range] at hi hj
    exact hne (keyOf_injective (by omega) (by omega) heq.symm).1

/-! ### The engine of a site -/

/-- The ordered pairs of nodes of the site. -/
def nodePairs (req : CompositionRequest ℚ) (site : Site) : List (NodeId × NodeId) :=
  (pieces req site).flatMap fun r => (pieces req site).map fun r' => (r.nodeId, r'.nodeId)

/-- Register the resources of the site, publish its paths, and let its backends answer. -/
def siteOps (req : CompositionRequest ℚ) (site : Site) : List (Op ℚ) :=
  (pieces req site).map .registerResource ++
    ((nodePairs req site).map site.path).map .onPathUpdate ++ [.backendsAnswer site.backends]

/-- The engine of the site. -/
def built (req : CompositionRequest ℚ) (site : Site) : Engine ℚ :=
  (fresh sampleConfig).run (siteOps req site)

theorem isValid_keyOf (cls : ResourceClass) {i : ℕ} (hi : i < 8) : (keyOf cls i).isValid = true := by
  refine StrongId.isValid_iff.mpr fun hzero => ?_
  have hvalue := value_toNat_keyOf cls hi
  rw [hzero, UInt64.toNat_zero] at hvalue
  omega

/-- What the engine of the site knows. -/
theorem built_tables (hsmall : Small req) (site : Site) :
    (built req site).resources.values = (pieces req site).reverse ∧
      (built req site).backends = site.backends ∧
      ∀ r ∈ pieces req site, ∀ r' ∈ pieces req site,
        (built req site).paths.find? (pathKey r.nodeId r'.nodeId) =
          some (site.path (r.nodeId, r'.nodeId)) := by
  have hvalid : ∀ r ∈ pieces req site, r.id.isValid = true := by
    intro r hr
    obtain ⟨d, hd, hmandatory, i, hi, rfl⟩ := mem_pieces.mp hr
    exact isValid_keyOf d.cls (lt_of_lt_of_le hi (hsmall d hd hmandatory))
  obtain ⟨resources, hrun, hvalues⟩ := run_registerResource (s := fresh sampleConfig) hvalid
    (nodup_ids_pieces hsmall) fun _ _ => rfl
  obtain ⟨hresources, -, hpaths⟩ := run_onPathUpdate ((nodePairs req site).map site.path)
    { (fresh sampleConfig : Engine ℚ) with resources := resources }
  rw [← hrun] at hresources hpaths
  -- the last operation changes the backends only
  have hbuilt : built req site = { ((fresh sampleConfig).run
      ((pieces req site).map .registerResource)).run
        (((nodePairs req site).map site.path).map .onPathUpdate) with
      backends := site.backends } := by
    rw [built, siteOps, run, Machine.run_append, Machine.run_append]
    rfl
  rw [hbuilt]
  refine ⟨?_, rfl, fun r hr r' hr' => ?_⟩
  · calc _ = UMap.values ((fresh sampleConfig : Engine ℚ).run
          ((pieces req site).map .registerResource)).resources := congrArg UMap.values hresources
      _ = resources.values := by rw [hrun]
      _ = (pieces req site).reverse := by
        rw [hvalues]
        exact List.append_nil _
  · have hmem : (r.nodeId, r'.nodeId) ∈ nodePairs req site :=
      List.mem_flatMap.mpr ⟨r, hr, List.mem_map_of_mem hr'⟩
    refine (congrArg (fun paths => OrdMap.find? paths (pathKey r.nodeId r'.nodeId)) hpaths).trans ?_
    exact find?_foldl_published site.path_nodes (Or.inl hmem)

theorem keyed_built (req : CompositionRequest ℚ) (site : Site) :
    (built req site).ResourcesKeyed := resourcesKeyed_run _ _

/-- The resources of the engine are the pieces. -/
theorem mem_pieces_of_lookup (hsmall : Small req) {v : ResourceId} {r : Resource ℚ}
    (h : (built req site).resources.lookup v = some r) : r ∈ pieces req site := by
  have hmem := UMap.mem_values_of_lookup h
  rw [(built_tables hsmall site).1, List.mem_reverse] at hmem
  exact hmem

/-! ### What the engine of a site accepts -/

/-- The architecture of the site is one that the request allows. -/
def ArchitectureAllowed (req : CompositionRequest ℚ) (site : Site) : Prop :=
  Demands req .accelerator → req.acceleratorArchitectures = [] ∨
    site.architecture ≠ [] ∧ site.architecture ∈ req.acceleratorArchitectures

theorem eligible_piece {cls : ResourceClass} {i : ℕ} (hi : i < 8)
    (harch : cls = .accelerator → req.acceleratorArchitectures = [] ∨
      site.architecture ≠ [] ∧ site.architecture ∈ req.acceleratorArchitectures) :
    Eligible (piece req site cls i) req := by
  -- no claim is of a kind that speaks for the class
  have hclaims : (classCapabilityKinds (piece req site cls i).resourceClass).filterMap
      (findCapability (piece req site cls i)) = [] := by
    cases cls <;> rfl
  unfold Eligible resourceEligible
  refine Check.isOk_ite_of_not (by simp [piece, isValid_keyOf cls hi]) ?_
  refine Check.isOk_ite_of_not (by simp [piece]) ?_
  refine Check.isOk_ite_of_not (by simp [piece]) ?_
  refine Check.isOk_ite_of_not (by simp [piece]) ?_
  refine Check.isOk_ite_of_not (by simp [piece]) ?_
  refine Check.isOk_ite_of_not (by simp [piece, Evidence.isCurrent]) ?_
  dsimp only
  refine Check.isOk_ite_of_not (by simp [hclaims]) ?_
  split
  swap
  · rfl
  -- an accelerator, and the request lists architectures
  next hlisted =>
  have hne : req.acceleratorArchitectures ≠ [] := by simpa using hlisted.2
  obtain ⟨hsome, hmem⟩ := (harch hlisted.1).resolve_left hne
  have hmatched : (!site.architecture.isEmpty &&
      req.acceleratorArchitectures.contains site.architecture) = true := by
    simp [hsome, hmem]
  exact (congrArg Except.isOk (if_pos hmatched)).trans rfl

/-- The candidates for a demand are its pieces. -/
theorem candidates_built (hsmall : Small req) (harch : ArchitectureAllowed req site)
    {d : ClassDemand ℚ} (hd : d ∈ computeDemands req) (hmandatory : d.mandatory = true) :
    ((built req site).candidates req d).Perm
      ((List.range (wanted d)).map (piece req site d.cls)) := by
  have hnodup : ((List.range (wanted d)).map (piece req site d.cls)).Nodup := by
    refine List.Nodup.map_on ?_ List.nodup_range
    intro i hi j hj heq
    have hle := hsmall d hd hmandatory
    rw [List.mem_range] at hi hj
    exact (keyOf_injective (by omega) (by omega) (congrArg Resource.id heq)).2
  refine (List.perm_ext_iff_of_nodup ?_ hnodup).mpr fun r => ?_
  · exact List.Nodup.of_map _ (nodup_ids_candidates (keyed_built req site) d)
  · rw [candidates, List.mem_insertionSort, List.mem_filter, (built_tables hsmall site).1,
      List.mem_reverse, decide_eq_true_eq, List.mem_map]
    constructor
    · -- a piece of the class of the demand was made for it, as no two demands share a class
      rintro ⟨hr, -, hclass⟩
      obtain ⟨d', hd', hmandatory', i, hi, rfl⟩ := mem_pieces.mp hr
      obtain rfl : d' = d :=
        List.inj_on_of_nodup_map (nodup_classes_computeDemands req) hd' hd hclass
      exact ⟨i, List.mem_range.mpr hi, rfl⟩
    · rintro ⟨i, hi, rfl⟩
      rw [List.mem_range] at hi
      refine ⟨mem_pieces.mpr ⟨d, hd, hmandatory, i, hi, rfl⟩, ?_, rfl⟩
      exact eligible_piece (lt_of_lt_of_le hi (hsmall d hd hmandatory)) fun hcls =>
        harch ⟨d, hd, hmandatory, hcls⟩

/-- Everyone is one of the pieces, and all of them are there. -/
theorem everyone_built (hsmall : Small req) (harch : ArchitectureAllowed req site) :
    ((built req site).everyone req).Perm (pieces req site) := by
  refine List.Perm.flatMap_left _ fun d hd => ?_
  obtain ⟨hd, hmandatory⟩ := List.mem_filter.mp hd
  exact candidates_built hsmall harch hd hmandatory

/-- A piece has half of what is asked for by amount. -/
theorem capacityForDimension_piece {d : ClassDemand ℚ} (hd : d ∈ computeDemands req)
    (hbased : d.amountBased = true) (cls : ResourceClass) (i : ℕ) :
    capacityForDimension (piece req site cls i) d.dimension = max d.amount 0 / 2 := by
  obtain ⟨hcompute, hhost, hexpanded, hstorage⟩ :=
    capacityForDimension_amounts (piece req site cls i)
  -- the six demands in their order, the second and the last of them by count
  obtain ⟨⟨k, hk⟩, rfl⟩ := List.mem_iff_get.mp hd
  rcases k with _ | _ | _ | _ | _ | _ | k
  · exact hcompute
  · cases hbased
  · exact hhost
  · exact hexpanded
  · exact hstorage
  · cases hbased
  · exact absurd hk (Nat.not_lt.mpr (Nat.le_add_left 6 k))

/-- The engine of the site has what the request can take, and no more. -/
theorem exact_built (hsmall : Small req) (harch : ArchitectureAllowed req site)
    (hdemanded : ∃ d ∈ computeDemands req, d.mandatory = true) : (built req site).Exact req where
  keyed := keyed_built req site
  nonneg := by
    intro v r hr
    -- a half of what is demanded, where that is positive
    obtain ⟨d, -, -, i, -, rfl⟩ := mem_pieces.mp (mem_pieces_of_lookup hsmall hr)
    exact ⟨div_nonneg (le_max_right _ _) zero_le_two, div_nonneg (le_max_right _ _) zero_le_two⟩
  demanded := hdemanded
  length := by
    intro d hd hmandatory
    refine ⟨?_, hsmall d hd hmandatory⟩
    rw [(candidates_built hsmall harch hd hmandatory).length_eq, List.length_map, List.length_range]
  shares := by
    intro d hd hbased r hr
    obtain ⟨hlookup, -, -⟩ := lookup_of_mem_candidates (keyed_built req site) hr
    obtain ⟨d', -, -, i, -, rfl⟩ := mem_pieces.mp (mem_pieces_of_lookup hsmall hlookup)
    exact capacityForDimension_piece hd hbased d'.cls i

end Engine

end DFabric
