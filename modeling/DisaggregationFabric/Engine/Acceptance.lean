import DisaggregationFabric.Engine.Sites
import Mathlib.Data.Finset.Card
import Mathlib.Data.List.MinMax

/-!
# Requests that can be accepted

Some requests are rejected by every engine: one that asks for nothing, for nine
accelerators, for two places with a single resource. `Acceptable` lists what a request has
to be like.

* What is accepted is acceptable (`acceptable_of_compose_ok`): each condition is read off
  the check that would refuse.
* For every acceptable request there is an engine that accepts it: the one of a site whose
  resources are where the request wants them (`Suits.compose_ok`, `siteFor_suits`). The
  types of the failure domains, the accelerator memory and the backends are free, so that
  the plan can be made to have any of them.
-/

namespace DFabric

variable {D : Type}

/-! ### The placement check -/

/-- At most one value is taken. -/
theorem length_dedup_map_le_one_iff {α β : Type} [DecidableEq β] (f : α → β) (l : List α) :
    (l.map f).dedup.length ≤ 1 ↔ ∀ a ∈ l, ∀ b ∈ l, f a = f b := by
  rw [← List.card_toFinset, Finset.card_le_one]
  simp only [List.mem_toFinset, List.forall_mem_map]

theorem foldr_max_le_iff {l : List ℕ} {n : ℕ} : l.foldr max 0 ≤ n ↔ ∀ k ∈ l, k ≤ n :=
  ⟨fun h _ hk => (List.le_max_of_le hk le_rfl).trans h, List.max_le_of_forall_le l n⟩

/-- The members in the failure domain of the given name. -/
def inDomain (set : List (Resource D)) (name : Str) : List (Resource D) :=
  set.filter fun r => r.failureDomain.name = name

/-- The string that stands for a node and a failure domain. -/
def domainKey (r : Resource D) : Str := r.nodeId.toStr ++ str ":" ++ r.failureDomain.name

/-- What the placement check asks of a set of members. -/
def PlacementChecked (req : CompositionRequest D) (set : List (Resource D)) : Prop :=
  match req.failureDomain.topology with
  | .none => True
  | .colocate => ∀ a ∈ set, ∀ b ∈ set, a.nodeId = b.nodeId
  | .spread => ∃ a ∈ set, ∃ b ∈ set, a.nodeId ≠ b.nodeId
  | .distinctFailureDomains => ∃ a ∈ set, ∃ b ∈ set, domainKey a ≠ domainKey b
  | .maxSharedRisk => 0 < req.failureDomain.maxSharedRisk →
      ∀ r ∈ set, (inDomain set r.failureDomain.name).length ≤ req.failureDomain.maxSharedRisk.toNat

theorem nodeId_toStr_inj {a b : NodeId} : a.toStr = b.toStr ↔ a = b :=
  ⟨fun h => StrongId.value_injective (toDecimal_injective h), fun h => h ▸ rfl⟩

/-- Nodes are told apart in one failure domain. -/
theorem domainKey_ne {a b : Resource D} (hname : a.failureDomain.name = b.failureDomain.name)
    (hnode : a.nodeId ≠ b.nodeId) : domainKey a ≠ domainKey b := by
  intro h
  rw [domainKey, domainKey, hname] at h
  exact hnode (nodeId_toStr_inj.mp (List.append_cancel_right (List.append_cancel_right h)))

/-- **What the placement check means.** -/
theorem isOk_validateFailureDomains_iff {req : CompositionRequest D} {set : List (Resource D)} :
    (validateFailureDomains set req).isOk = true ↔ PlacementChecked req set := by
  -- every topology has a single check
  have hite : ∀ (p : Prop) [Decidable p] (e : Rejection),
      (if p then .error e else .ok () : Check).isOk = true ↔ ¬ p := by
    intro p _ e
    exact ⟨fun h => (Check.isOk_ite h).1, fun h => Check.isOk_ite_of_not h rfl⟩
  unfold validateFailureDomains PlacementChecked
  cases req.failureDomain.topology with
  | none => exact iff_of_true rfl trivial
  | colocate =>
    dsimp only
    rw [hite, not_lt, length_dedup_map_le_one_iff]
    simp only [nodeId_toStr_inj]
  | spread =>
    dsimp only
    rw [hite, Nat.lt_succ_iff, length_dedup_map_le_one_iff]
    push Not
    simp only [ne_eq, nodeId_toStr_inj]
  | distinctFailureDomains =>
    dsimp only
    rw [hite, Nat.lt_succ_iff, length_dedup_map_le_one_iff]
    push Not
    rfl
  | maxSharedRisk =>
    dsimp only
    -- the fullest failure domain is that of one of the members
    rw [hite, not_and, not_lt, foldr_max_le_iff]
    simp only [List.forall_mem_map]
    rfl

/-! ### Edges within a node -/

namespace Engine

/-- An edge within one node is validated unless it asks for more than unbounded bandwidth. -/
theorem validateEdge_same_iff {s : Engine ℚ} {req : CompositionRequest ℚ}
    {paths : OrdMap Str (PathEvidence ℚ)} {a b : Resource ℚ} {kind : GraphEdgeKind}
    (ha : s.resources.lookup a.id = some a) (hb : s.resources.lookup b.id = some b)
    (hnode : a.nodeId = b.nodeId) :
    (validateEdge s.resources paths (requiredEdge req a b kind)).isOk = true ↔
      (kind = .bandwidthBound → req.minBandwidthMbps ≤ 10 ^ 12) := by
  have ha' : s.resources.lookup (requiredEdge req a b kind).source = some a := ha
  have hb' : s.resources.lookup (requiredEdge req a b kind).target = some b := hb
  unfold validateEdge
  rw [ha', hb']
  dsimp only
  rw [if_pos hnode]
  constructor
  · intro h hkind
    obtain ⟨hbandwidth, -⟩ := Check.isOk_ite h
    refine not_lt.mp fun hlt => hbandwidth ⟨hkind, decide_eq_true ?_, decide_eq_true hlt⟩
    -- a bound that is exceeded is positive
    exact lt_trans (by norm_num) hlt
  · intro h
    refine Check.isOk_ite_of_not ?_ (Check.isOk_ite_of_not ?_ rfl)
    · rintro ⟨hkind, -, hlt⟩
      exact absurd (of_decide_eq_true hlt) (not_lt.mpr (h hkind))
    · -- within a node the latency is zero, which no positive bound excludes
      rintro ⟨-, hpos, hlt⟩
      exact lt_asymm (of_decide_eq_true hpos) (of_decide_eq_true hlt)

/-! ### Sizes of selections -/

/-- A selection has as many members as its demand wants, at most, and the demand wants no
more than eight. -/
theorem length_le_wanted {items : List (Resource ℚ)} {d : ClassDemand ℚ} {cap : ℕ}
    {p : List ResourceId} (h : p ∈ enumerateSelections items d cap) :
    p.length ≤ wanted d ∧ wanted d ≤ 8 := by
  unfold wanted
  -- a count of resources, or resources taken one by one until the amount is reached
  rcases mem_enumerateSelections_cases h with ⟨hbased, hwant, h⟩ | ⟨hbased, rs, -, rfl, hlen⟩
  · rw [hbased, if_neg Bool.false_ne_true]
    have hle := (length_of_mem_combine h).resolve_left List.not_mem_nil
    rw [List.length_nil, Nat.zero_add] at hle
    exact ⟨hle, hwant⟩
  · rw [hbased, if_pos rfl, List.length_map]
    have hpos : Double.lt Double.zero d.amount = true ↔ 0 < d.amount := decide_eq_true_iff
    rw [if_congr hpos rfl rfl] at hlen
    refine ⟨hlen, ?_⟩
    split <;> decide

/-- How many resources the request can take. -/
def wantedInAll (req : CompositionRequest ℚ) : ℕ :=
  (((computeDemands req).filter (·.mandatory)).map wanted).sum

variable {s : Engine ℚ} {req : CompositionRequest ℚ}

theorem length_le_of_mem_choices {combo : List ResourceId} (h : combo ∈ s.choices req) :
    combo.length ≤ wantedInAll req := by
  obtain ⟨picks, hall, rfl⟩ := mem_choices.mp h
  clear h
  rw [selectionsOf, List.forall₂_map_right_iff] at hall
  rw [wantedInAll]
  generalize (computeDemands req).filter (·.mandatory) = ds at hall
  induction hall with
  | nil => exact le_rfl
  | @cons p d picks ds hp _ ih =>
    rw [List.flatten_cons, List.length_append, List.map_cons, List.sum_cons]
    exact Nat.add_le_add (length_le_wanted hp).1 ih

/-! ### Acceptable requests -/

/-- **What a request must be like to be accepted anywhere.** -/
structure Acceptable (req : CompositionRequest ℚ) : Prop where
  /-- It asks for something. -/
  demanded : ∃ d ∈ computeDemands req, d.mandatory = true
  /-- It asks for at most eight resources of a class. -/
  small : Small req
  /-- If it lists architectures and asks for accelerators, then one of those listed is not
  the empty text. -/
  architectures : Demands req .accelerator → req.acceleratorArchitectures = [] ∨
    ∃ arch ∈ req.acceleratorArchitectures, arch ≠ []
  /-- If it asks for different places, then for two resources at least. -/
  several : req.failureDomain.topology = .spread ∨
    req.failureDomain.topology = .distinctFailureDomains → 2 ≤ wantedInAll req
  /-- If it asks for one place, then for no more bandwidth than there is within a node. -/
  colocated : req.failureDomain.topology = .colocate → ∀ c c', Demands req c → Demands req c' →
    .bandwidthBound ∈ kindsBetween c c' → req.minBandwidthMbps ≤ 10 ^ 12

/-- No edge joins two members of one class. -/
theorem kindsBetween_self (cls : ResourceClass) : kindsBetween cls cls = [] := by
  cases cls <;> rfl

/-- Members that an edge joins have different ids. -/
theorem id_ne_of_kindsBetween {a b : Resource ℚ} (ha : s.resources.lookup a.id = some a)
    (hb : s.resources.lookup b.id = some b) {kind : GraphEdgeKind}
    (hkind : kind ∈ kindsBetween a.resourceClass b.resourceClass) : a.id ≠ b.id := by
  intro hid
  rw [← hid, ha] at hb
  cases hb
  rw [kindsBetween_self] at hkind
  exact List.not_mem_nil hkind

theorem two_le_length {α : Type} {l : List α} {a b : α} (ha : a ∈ l) (hb : b ∈ l) (hne : a ≠ b) :
    2 ≤ l.length :=
  (List.subperm_of_subset (by simpa using hne) (List.cons_subset.mpr
    ⟨ha, List.cons_subset.mpr ⟨hb, List.nil_subset l⟩⟩)).length_le

/-- A demanded class has a member. -/
theorem Planned.exists_member {before : OrdMap Str (PathEvidence ℚ)} {plan : CompositionPlan ℚ}
    {members : List (Resource ℚ)} (h : s.Planned req before plan members) {cls : ResourceClass}
    (hcls : Demands req cls) : ∃ r ∈ members, r.resourceClass = cls := by
  obtain ⟨d, hd, hmandatory, rfl⟩ := hcls
  obtain ⟨hne, -⟩ := meetsDemand_iff.mp (h.met d hd hmandatory)
  obtain ⟨r, hr⟩ := List.exists_mem_of_ne_nil _ hne
  obtain ⟨hr, hclass⟩ := List.mem_filter.mp hr
  exact ⟨r, hr, of_decide_eq_true hclass⟩

/-- An eligible accelerator has one of the architectures that are listed. -/
theorem Eligible.architecture {r : Resource ℚ} (h : Eligible r req)
    (hclass : r.resourceClass = .accelerator) : req.acceleratorArchitectures = [] ∨
      ∃ arch ∈ req.acceleratorArchitectures, arch ≠ [] := by
  rcases eq_or_ne req.acceleratorArchitectures [] with hnil | hne
  · exact Or.inl hnil
  refine Or.inr ?_
  -- the comparison of the architecture comes after seven tests
  obtain ⟨-, h⟩ := Check.isOk_ite h
  obtain ⟨-, h⟩ := Check.isOk_ite h
  obtain ⟨-, h⟩ := Check.isOk_ite h
  obtain ⟨-, h⟩ := Check.isOk_ite h
  obtain ⟨-, h⟩ := Check.isOk_ite h
  obtain ⟨-, h⟩ := Check.isOk_ite h
  obtain ⟨-, h⟩ := Check.isOk_ite h
  rw [if_pos ⟨hclass, by simpa using hne⟩] at h
  dsimp only at h
  rcases hfind : findCapability r .archGeneration with _ | arch
  · rw [hfind] at h
    cases h
  rw [hfind] at h
  dsimp only at h
  split at h
  swap
  · cases h
  next hmatched =>
  rw [Bool.and_eq_true, Bool.not_eq_true', List.contains_iff_mem] at hmatched
  refine ⟨arch.detail, hmatched.2, fun hnil => ?_⟩
  rw [hnil] at hmatched
  cases hmatched.1

/-- **What is accepted is acceptable.** -/
theorem acceptable_of_compose_ok (hkeyed : s.ResourcesKeyed) (hok : (s.compose req).2.ok = true) :
    Acceptable req := by
  obtain ⟨sels, combos, hcombos, combo, hmem, before, hwon⟩ := compose_won hok
  have hplanned := hwon.planned hkeyed hcombos hmem
  obtain ⟨rfl, hne, hpicks, rfl⟩ := (combosFor_ok_iff hkeyed).mp hcombos
  have hdomains := isOk_validateFailureDomains_iff.mp hplanned.domains
  refine ⟨?_, ?_, ?_, ?_, ?_⟩
  · -- there is a selection, so there is a mandatory demand
    obtain ⟨sel, hsel⟩ := List.exists_mem_of_ne_nil _ hne
    obtain ⟨d, hd, -⟩ := List.mem_map.mp hsel
    exact ⟨d, List.mem_filter.mp hd⟩
  · intro d hd hmandatory
    have hsel := hpicks _ (List.mem_map_of_mem (List.mem_filter.mpr ⟨hd, hmandatory⟩))
    obtain ⟨p, hp⟩ := List.exists_mem_of_ne_nil _ hsel
    exact (length_le_wanted hp).2
  · -- a member that is an accelerator has one of the architectures
    intro hacc
    obtain ⟨r, hr, hclass⟩ := hplanned.exists_member hacc
    exact Eligible.architecture (hplanned.eligible r hr) hclass
  · -- two members that differ
    intro htopology
    have htwo : 2 ≤ (combo.filterMap s.resources.lookup).length := by
      rw [PlacementChecked] at hdomains
      rcases htopology with htopology | htopology
      · rw [htopology] at hdomains
        obtain ⟨a, ha, b, hb, hne⟩ := hdomains
        exact two_le_length ha hb fun heq => hne (congrArg Resource.nodeId heq)
      · rw [htopology] at hdomains
        obtain ⟨a, ha, b, hb, hne⟩ := hdomains
        exact two_le_length ha hb fun heq => hne (congrArg domainKey heq)
    calc 2 ≤ _ := htwo
      _ ≤ combo.length := List.length_filterMap_le _ _
      _ ≤ _ := length_le_of_mem_choices (List.mem_of_mem_take hmem)
  · -- the members of the two classes are on one node, and their edge has been validated
    intro htopology c c' hc hc' hkind
    rw [PlacementChecked, htopology] at hdomains
    obtain ⟨a, ha, rfl⟩ := hplanned.exists_member hc
    obtain ⟨b, hb, rfl⟩ := hplanned.exists_member hc'
    have hid := id_ne_of_kindsBetween (hplanned.lookup a ha) (hplanned.lookup b hb) hkind
    have hmem : requiredEdge req a b .bandwidthBound ∈
        (s.compose req).2.payload.graph.edges := by
      rw [hplanned.graph]
      exact mem_edges_buildGraph.mpr ⟨a, ha, b, hb, _, hkind, hid, rfl⟩
    have hedge := isOk_validateEdge hplanned.valid _ hmem
    exact (validateEdge_same_iff (hplanned.lookup a ha) (hplanned.lookup b hb)
      (hdomains a ha b hb)).mp hedge rfl

/-! ### Sites that suit a request -/

variable {site : Site}

/-- **The site suits the request**: its resources are where they have to be. -/
structure Suits (req : CompositionRequest ℚ) (site : Site) : Prop where
  architecture : ArchitectureAllowed req site
  together : req.failureDomain.topology = .colocate →
    ∀ a ∈ pieces req site, ∀ b ∈ pieces req site, a.nodeId = b.nodeId
  apart : req.failureDomain.topology ≠ .colocate →
    ∀ a ∈ pieces req site, ∀ b ∈ pieces req site, a.resourceClass ≠ b.resourceClass →
      a.nodeId ≠ b.nodeId
  spread : req.failureDomain.topology = .spread ∨
      req.failureDomain.topology = .distinctFailureDomains →
    ∃ a ∈ pieces req site, ∃ b ∈ pieces req site,
      a.nodeId ≠ b.nodeId ∧ a.failureDomain.name = b.failureDomain.name
  risk : req.failureDomain.topology = .maxSharedRisk →
    ∀ a ∈ pieces req site, ∀ b ∈ pieces req site,
      a.failureDomain.name = b.failureDomain.name → a = b
  /-- The published paths pass the validation. -/
  serves : ∀ a ∈ pieces req site, ∀ b ∈ pieces req site, a.nodeId ≠ b.nodeId →
    ∀ kind ∈ kindsBetween a.resourceClass b.resourceClass,
      Serves req kind (site.path (a.nodeId, b.nodeId))

theorem Suits.placementChecked (h : Suits req site) (hsmall : Small req) :
    PlacementChecked req ((built req site).everyone req) := by
  have hperm := everyone_built hsmall h.architecture
  unfold PlacementChecked
  split
  · trivial
  · next htopology =>
    exact fun a ha b hb => h.together htopology a (hperm.mem_iff.mp ha) b (hperm.mem_iff.mp hb)
  · next htopology =>
    obtain ⟨a, ha, b, hb, hnode, -⟩ := h.spread (Or.inl htopology)
    exact ⟨a, hperm.mem_iff.mpr ha, b, hperm.mem_iff.mpr hb, hnode⟩
  · next htopology =>
    obtain ⟨a, ha, b, hb, hnode, hname⟩ := h.spread (Or.inr htopology)
    exact ⟨a, hperm.mem_iff.mpr ha, b, hperm.mem_iff.mpr hb, domainKey_ne hname hnode⟩
  · -- one member in each failure domain
    next htopology =>
    intro hpos r hr
    have hnodup : ((built req site).everyone req).Nodup :=
      hperm.nodup_iff.mpr (List.Nodup.of_map _ (nodup_ids_pieces hsmall))
    have hone : ∀ a ∈ inDomain ((built req site).everyone req) r.failureDomain.name, a = r := by
      intro a ha
      obtain ⟨ha, hname⟩ := List.mem_filter.mp ha
      exact h.risk htopology a (hperm.mem_iff.mp ha) r (hperm.mem_iff.mp hr)
        (of_decide_eq_true hname)
    calc (inDomain ((built req site).everyone req) r.failureDomain.name).length
        ≤ [r].length := by
          refine (List.subperm_of_subset (hnodup.filter _) fun a ha => ?_).length_le
          rw [hone a ha]
          exact List.mem_singleton_self r
      _ ≤ req.failureDomain.maxSharedRisk.toNat := UInt32.lt_iff_toNat_lt.mp hpos

/-- **The engine of a suitable site accepts the request.** -/
theorem Suits.compose_ok (h : Suits req site) (hreq : Acceptable req) :
    ((built req site).compose req).2.ok = true := by
  have hperm := everyone_built hreq.small h.architecture
  obtain ⟨-, -, hpaths⟩ := built_tables hreq.small site
  have hexact := exact_built hreq.small h.architecture hreq.demanded
  have hlookup : ∀ r ∈ (built req site).everyone req,
      (built req site).resources.lookup r.id = some r := by
    intro r hr
    obtain ⟨d, -, hrd⟩ := List.mem_flatMap.mp hr
    exact (lookup_of_mem_candidates (keyed_built req site) hrd).1
  refine hexact.compose_ok ?_ (isOk_validateFailureDomains_iff.mpr (h.placementChecked hreq.small)) ?_
  · refine isOk_validateGraph_iff.mpr fun e he => ?_
    obtain ⟨a, ha, b, hb, kind, hkind, -, rfl⟩ := mem_edges_buildGraph.mp he
    by_cases hnode : a.nodeId = b.nodeId
    · -- members of different classes are on one node only if all are
      refine (validateEdge_same_iff (hlookup a ha) (hlookup b hb) hnode).mpr ?_
      rintro rfl
      have ha' := hperm.mem_iff.mp ha
      have hb' := hperm.mem_iff.mp hb
      have htopology : req.failureDomain.topology = .colocate := by
        by_contra hne
        refine h.apart hne a ha' b hb' (fun hclass => ?_) hnode
        rw [hclass, kindsBetween_self] at hkind
        exact List.not_mem_nil hkind
      exact hreq.colocated htopology _ _ (demands_of_mem_pieces ha') (demands_of_mem_pieces hb') hkind
    · have ha' := hperm.mem_iff.mp ha
      have hb' := hperm.mem_iff.mp hb
      exact (validateEdge_iff (hlookup a ha) (hlookup b hb) hnode).mpr
        ⟨_, pathFor_iff.mpr ⟨hpaths a ha' b hb', h.serves a ha' b hb' hnode kind hkind⟩⟩
  · -- every piece claims coherent access
    intro r hr
    obtain ⟨d, -, -, i, -, rfl⟩ := mem_pieces.mp (hperm.mem_iff.mp hr)
    rfl

/-- What the plan on a suitable site is made of. -/
theorem Suits.planned (h : Suits req site) (hreq : Acceptable req) :
    ∃ selections combo before members,
      (built req site).Won req selections combo before ((built req site).compose req).1.paths
        ((built req site).compose req).2.payload ∧
      (built req site).Planned req before ((built req site).compose req).2.payload members ∧
      (∀ r ∈ members, r ∈ pieces req site) ∧ members ≠ [] := by
  obtain ⟨selections, combo, before, members, hwon, hplanned⟩ :=
    compose_planned (keyed_built req site) (h.compose_ok hreq)
  refine ⟨selections, combo, before, members, hwon, hplanned, fun r hr => ?_, ?_⟩
  · exact mem_pieces_of_lookup hreq.small (hplanned.lookup r hr)
  · obtain ⟨d, hd, hmandatory⟩ := hreq.demanded
    obtain ⟨r, hr, -⟩ := hplanned.exists_member ⟨d, hd, hmandatory, rfl⟩
    exact List.ne_nil_of_mem hr

/-! ### A site for every acceptable request -/

/-- A node for each resource, or one node for all if they are to be together. -/
def spot (req : CompositionRequest ℚ) (cls : ResourceClass) (i : ℕ) : NodeId :=
  if req.failureDomain.topology = .colocate then ⟨1⟩ else ⟨(keyOf cls i).value⟩

/-- A failure domain of the given type for each resource if they are not to share one, and
one for all otherwise. -/
def zone (req : CompositionRequest ℚ) (type : FailureDomainType) (cls : ResourceClass) (i : ℕ) :
    FailureDomain ℚ :=
  { (default : FailureDomain ℚ) with
    type := type
    name := if req.failureDomain.topology = .maxSharedRisk then (keyOf cls i).toStr else [] }

/-- An architecture that the request allows. -/
def allowedArchitecture (req : CompositionRequest ℚ) : Str :=
  (req.acceleratorArchitectures.find? fun arch => arch ≠ []).getD []

/-- A path that satisfies whatever the request asks for. -/
def goodPath (req : CompositionRequest ℚ) (q : NodeId × NodeId) : PathEvidence ℚ :=
  { (default : PathEvidence ℚ) with
    requirement := edgeRequirement req q.1 q.2
    available := true
    bandwidthMbps := req.minBandwidthMbps
    verified := true
    evidence := { (default : Evidence ℚ) with state := .fresh, maxAgeMs := 1000 } }

/-- It serves an edge of any kind. -/
theorem serves_goodPath (req : CompositionRequest ℚ) (q : NodeId × NodeId) (kind : GraphEdgeKind) :
    Serves req kind (goodPath req q) :=
  ⟨rfl, rfl, rfl, fun _ _ => decide_eq_false (lt_irrefl req.minBandwidthMbps),
    fun _ hpos => decide_eq_false (lt_asymm (of_decide_eq_true hpos))⟩

/-- A site made for the request. -/
def siteFor (req : CompositionRequest ℚ) (type : FailureDomainType) (memory : ℚ)
    (backends : List (Backend ℚ)) : Site where
  nodeOf := spot req
  domainOf := zone req type
  memory := memory
  architecture := allowedArchitecture req
  path := goodPath req
  path_nodes := fun _ => ⟨rfl, rfl⟩
  backends := backends

theorem architectureAllowed (hreq : Acceptable req)
    (h : site.architecture = allowedArchitecture req) : ArchitectureAllowed req site := by
  intro hacc
  refine (hreq.architectures hacc).imp_right ?_
  rintro ⟨arch, harch, hne⟩
  rw [h, allowedArchitecture]
  rcases hfind : req.acceleratorArchitectures.find? (fun arch => arch ≠ []) with _ | found
  · exact absurd (decide_eq_true hne) (List.find?_eq_none.mp hfind arch harch)
  · exact ⟨by simpa using List.find?_some hfind, List.mem_of_find?_eq_some hfind⟩

theorem length_pieces (req : CompositionRequest ℚ) (site : Site) :
    (pieces req site).length = wantedInAll req := by
  rw [pieces, wantedInAll, List.length_flatMap]
  simp only [List.length_map, List.length_range]

theorem exists_ne_of_two_le (hsmall : Small req) (site : Site) (h : 2 ≤ wantedInAll req) :
    ∃ a ∈ pieces req site, ∃ b ∈ pieces req site, a ≠ b := by
  have hnodup : (pieces req site).Nodup := List.Nodup.of_map _ (nodup_ids_pieces hsmall)
  rw [← length_pieces req site] at h
  generalize pieces req site = l at h hnodup ⊢
  rcases l with _ | ⟨a, _ | ⟨b, l⟩⟩
  · exact absurd h (by rw [List.length_nil]; decide)
  · exact absurd h (by rw [List.length_singleton]; decide)
  · refine ⟨a, List.mem_cons_self, b, List.mem_cons_of_mem a List.mem_cons_self, ?_⟩
    rintro rfl
    exact (List.nodup_cons.mp hnodup).1 List.mem_cons_self

section Zones

variable {type : FailureDomainType} {a b : Resource ℚ}

/-- In such zones, resources have a failure domain each if they are not to share one. -/
theorem eq_of_domain_eq (hsmall : Small req) (hzone : site.domainOf = zone req type)
    (htopology : req.failureDomain.topology = .maxSharedRisk) (ha : a ∈ pieces req site)
    (hb : b ∈ pieces req site) (hname : a.failureDomain.name = b.failureDomain.name) : a = b := by
  have hdomain : ∀ r ∈ pieces req site, r.failureDomain.name = r.id.toStr := by
    intro r hr
    obtain ⟨d, -, -, i, -, rfl⟩ := mem_pieces.mp hr
    change (site.domainOf d.cls i).name = _
    rw [hzone]
    exact if_pos htopology
  rw [hdomain a ha, hdomain b hb] at hname
  refine List.inj_on_of_nodup_map (nodup_ids_pieces hsmall) ha hb (StrongId.value_injective ?_)
  exact toDecimal_injective hname

/-- Otherwise all have the same. -/
theorem domain_eq (hzone : site.domainOf = zone req type)
    (htopology : req.failureDomain.topology ≠ .maxSharedRisk) (ha : a ∈ pieces req site) :
    a.failureDomain.name = [] := by
  obtain ⟨d, -, -, i, -, rfl⟩ := mem_pieces.mp ha
  change (site.domainOf d.cls i).name = _
  rw [hzone]
  exact if_neg htopology

/-- Different resources of a site made for the request are on different nodes, unless they
are to be together. -/
theorem eq_of_nodeId_eq {memory : ℚ} {backends : List (Backend ℚ)} (hsmall : Small req)
    (htopology : req.failureDomain.topology ≠ .colocate)
    (ha : a ∈ pieces req (siteFor req type memory backends))
    (hb : b ∈ pieces req (siteFor req type memory backends)) (hnode : a.nodeId = b.nodeId) :
    a = b := by
  have hnodeId : ∀ r ∈ pieces req (siteFor req type memory backends), r.nodeId = ⟨r.id.value⟩ := by
    intro r hr
    obtain ⟨d, -, -, i, -, rfl⟩ := mem_pieces.mp hr
    exact if_neg htopology
  rw [hnodeId a ha, hnodeId b hb] at hnode
  refine List.inj_on_of_nodup_map (nodup_ids_pieces hsmall) ha hb (StrongId.value_injective ?_)
  exact StrongId.mk.inj hnode

end Zones

/-- Different places are asked for: then not for one, and not by a bound on the risk. -/
theorem topology_of_spread (h : req.failureDomain.topology = .spread ∨
    req.failureDomain.topology = .distinctFailureDomains) :
    req.failureDomain.topology ≠ .colocate ∧ req.failureDomain.topology ≠ .maxSharedRisk := by
  rcases h with h | h <;> rw [h] <;> decide

/-- **A site made for an acceptable request suits it.** -/
theorem siteFor_suits (hreq : Acceptable req) (type : FailureDomainType) (memory : ℚ)
    (backends : List (Backend ℚ)) : Suits req (siteFor req type memory backends) where
  architecture := architectureAllowed hreq rfl
  together := by
    intro htopology a ha b hb
    obtain ⟨d, -, -, i, -, rfl⟩ := mem_pieces.mp ha
    obtain ⟨d', -, -, j, -, rfl⟩ := mem_pieces.mp hb
    change spot req d.cls i = spot req d'.cls j
    rw [spot, spot, if_pos htopology, if_pos htopology]
  apart := by
    intro htopology a ha b hb hclass hnode
    exact hclass (congrArg Resource.resourceClass
      (eq_of_nodeId_eq hreq.small htopology ha hb hnode))
  spread := by
    intro htopology
    -- there are two resources, and they differ
    obtain ⟨a, ha, b, hb, hne⟩ := exists_ne_of_two_le hreq.small
      (siteFor req type memory backends) (hreq.several htopology)
    obtain ⟨hcolocate, hrisk⟩ := topology_of_spread htopology
    refine ⟨a, ha, b, hb, fun hnode => ?_, (domain_eq rfl hrisk ha).trans (domain_eq rfl hrisk hb).symm⟩
    exact hne (eq_of_nodeId_eq hreq.small hcolocate ha hb hnode)
  risk := fun htopology _ ha _ hb => eq_of_domain_eq hreq.small rfl htopology ha hb
  serves := fun _ _ _ _ _ kind _ => serves_goodPath req _ kind

end Engine

end DFabric
