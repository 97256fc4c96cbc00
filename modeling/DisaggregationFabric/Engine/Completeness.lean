import DisaggregationFabric.Engine.Evaluation
import DisaggregationFabric.Lib.Bounded

/-!
# Which combinations are evaluated

`Compose` forms the product of the selections class by class and cuts it to `comboCap`
combinations after every class. The selections of different classes share no member, so
none is dropped for that, and every partial combination can be continued. What is left to
evaluate are therefore the first `comboCap` choices of one selection for each mandatory
demand, in lexicographic order (`combosFor_ok_iff`).

With capacities that are not negative every score is above that of no plan. A request is
then accepted exactly when one of these choices passes every check
(`compose_ok_iff_choice`); a choice behind them is not looked at (`crowded_rejects`).
-/

namespace DFabric

namespace Engine

variable {D : Type} [Double D] {s : Engine D} {req : CompositionRequest D}

/-! ### The selections of a request -/

/-- The mandatory demands of a request, each with the selections enumerated for it. -/
def selectionsOf (s : Engine D) (req : CompositionRequest D) : List (Selection D) :=
  ((computeDemands req).filter (·.mandatory)).map fun d =>
    ⟨d, enumerateSelections (s.candidates req d) d 24⟩

/-- The demands of a request are for different classes. -/
theorem nodup_classes_computeDemands (req : CompositionRequest D) :
    ((computeDemands req).map (·.cls)).Nodup := by
  have hclasses : (computeDemands req).map (·.cls) = [ResourceClass.compute, .accelerator,
    .hostMemory, .expandedMemory, .storage, .networkEndpoint] := rfl
  rw [hclasses]
  decide

/-- The members of a selection are registered and of the class of its demand. -/
def OfDemand (s : Engine D) (sel : Selection D) : Prop :=
  ∀ p ∈ sel.picks, ∀ v ∈ p, ∃ r, s.resources.lookup v = some r ∧
    r.resourceClass = sel.demand.cls

theorem selectionsOf_ofDemand (hkeyed : s.ResourcesKeyed) :
    ∀ sel ∈ s.selectionsOf req, s.OfDemand sel := by
  intro sel hsel p hp v hv
  obtain ⟨d, -, rfl⟩ := List.mem_map.mp hsel
  obtain ⟨-, hdrawn⟩ := drawn_of_mem_enumerateSelections (nodup_ids_candidates hkeyed d) hp
  obtain ⟨r, hr, rfl⟩ := hdrawn v hv
  obtain ⟨hlookup, -, hclass⟩ := lookup_of_mem_candidates hkeyed hr
  exact ⟨r, hlookup, hclass⟩

/-! ### The product -/

/-- The selection has a member of the combination. -/
def shares (combo pick : List ResourceId) : Bool := pick.any fun rid => combo.contains rid

omit [Double D] in
/-- One class of the product: the continuations without a shared member, cut to the bound. -/
theorem extendCombos_eq (combos picks : List (List ResourceId)) :
    extendCombos combos picks =
      (combos.flatMap fun c => (picks.filter fun p => !shares c p).map (c ++ ·)).take comboCap := by
  have hinner : ∀ (c : List ResourceId) {out : List (List ResourceId)}, out.length ≤ comboCap →
      picks.foldl (fun next p => if comboCap ≤ next.length then next
        else if shares c p then next else next ++ [c ++ p]) out =
      (out ++ (picks.filter fun p => !shares c p).map (c ++ ·)).take comboCap :=
    fun c _ hout => Bounded.foldl_push comboCap (shares c) (c ++ ·) picks hout
  -- the list stays within the bound, so every inner loop is such a cut
  have houter : ∀ (l : List (List ResourceId)) {out : List (List ResourceId)},
      out.length ≤ comboCap →
      l.foldl (fun next c => picks.foldl (fun next p => if comboCap ≤ next.length then next
        else if shares c p then next else next ++ [c ++ p]) next) out =
      l.foldl (fun out c =>
        (out ++ (picks.filter fun p => !shares c p).map (c ++ ·)).take comboCap) out := by
    intro l
    induction l with
    | nil => exact fun _ => rfl
    | cons c l ih =>
      intro out hout
      rw [List.foldl_cons, List.foldl_cons, hinner c hout]
      exact ih (List.length_take_le _ _)
  calc extendCombos combos picks
      = combos.foldl (fun out c =>
          (out ++ (picks.filter fun p => !shares c p).map (c ++ ·)).take comboCap) [] :=
        houter combos (Nat.zero_le _)
    _ = _ := by rw [Bounded.foldl_append_take _ _ _ (Nat.zero_le _), List.nil_append]

omit [Double D] in
/-- No continuation is dropped when the selections share no member with the combinations. -/
theorem extendCombos_of_disjoint {combos picks : List (List ResourceId)}
    (h : ∀ c ∈ combos, ∀ p ∈ picks, ∀ v ∈ p, v ∉ c) :
    extendCombos combos picks = (Bounded.extend combos picks).take comboCap := by
  rw [extendCombos_eq, Bounded.extend]
  congr 1
  refine List.flatMap_congr fun c hc => ?_
  rw [List.filter_eq_self.mpr]
  intro p hp
  rw [Bool.not_eq_true', shares, List.any_eq_false]
  intro v hv hmem
  exact h c hc p hp v hv (List.contains_iff_mem.mp hmem)

omit [Double D] in
/-- The product of selections of different classes, from combinations of other classes. -/
theorem productCombos_eq {combos : List (List ResourceId)} {sels : List (Selection D)}
    (hclasses : (sels.map (·.demand.cls)).Nodup) (hpicks : ∀ sel ∈ sels, sel.picks ≠ [])
    (hdemand : ∀ sel ∈ sels, s.OfDemand sel) (hsome : combos ≠ [])
    (hother : ∀ c ∈ combos, ∀ v ∈ c, ∀ r, s.resources.lookup v = some r →
      r.resourceClass ∉ sels.map (·.demand.cls)) :
    productCombos combos sels = .ok ((sels.map Selection.picks).foldl
      (fun cs ps => (Bounded.extend cs ps).take comboCap) combos) := by
  induction sels generalizing combos with
  | nil => rfl
  | cons sel sels ih =>
    rw [List.map_cons, List.nodup_cons] at hclasses
    rw [List.forall_mem_cons] at hpicks hdemand
    -- a member of the selections has their class, and one of the combinations has not
    have hdisjoint : ∀ c ∈ combos, ∀ p ∈ sel.picks, ∀ v ∈ p, v ∉ c := by
      intro c hc p hp v hv hvc
      obtain ⟨r, hr, hclass⟩ := hdemand.1 p hp v hv
      exact hother c hc v hvc r hr (hclass ▸ List.mem_cons_self)
    have hnext : extendCombos combos sel.picks ≠ [] := by
      obtain ⟨c, hc⟩ := List.exists_mem_of_ne_nil combos hsome
      obtain ⟨p, hp⟩ := List.exists_mem_of_ne_nil sel.picks hpicks.1
      have hmem : c ++ p ∈ Bounded.extend combos sel.picks :=
        List.mem_flatMap.mpr ⟨c, hc, List.mem_map_of_mem hp⟩
      rw [extendCombos_of_disjoint hdisjoint]
      intro hnil
      rcases List.take_eq_nil_iff.mp hnil with hzero | hempty
      · exact absurd hzero (by decide)
      · rw [hempty] at hmem
        exact List.not_mem_nil hmem
    rw [productCombos, List.map_cons, List.foldl_cons]
    rw [if_neg fun h => hnext (List.isEmpty_iff.mp h), ← extendCombos_of_disjoint hdisjoint]
    refine ih hclasses.2 hpicks.2 hdemand.2 hnext ?_
    intro c hc v hv r hr hmem
    rw [extendCombos_of_disjoint hdisjoint] at hc
    obtain ⟨c₀, hc₀, hmap⟩ := List.mem_flatMap.mp (List.mem_of_mem_take hc)
    obtain ⟨p, hp, rfl⟩ := List.mem_map.mp hmap
    rcases List.mem_append.mp hv with hv | hv
    · exact hother c₀ hc₀ v hv r hr (List.mem_cons_of_mem _ hmem)
    · obtain ⟨r', hr', hclass⟩ := hdemand.1 p hp v hv
      rw [hr] at hr'
      cases hr'
      rw [hclass] at hmem
      exact hclasses.1 hmem

/-- The choices of one selection for each mandatory demand, in lexicographic order. -/
def choices (s : Engine D) (req : CompositionRequest D) : List (List ResourceId) :=
  (Bounded.product ((s.selectionsOf req).map Selection.picks)).map List.flatten

/-- **A choice** is one selection for each mandatory demand. -/
theorem mem_choices {combo : List ResourceId} :
    combo ∈ s.choices req ↔ ∃ picks, List.Forall₂ (fun p sel => p ∈ Selection.picks sel) picks
      (s.selectionsOf req) ∧ picks.flatten = combo := by
  rw [choices, List.mem_map]
  refine exists_congr fun picks => and_congr_left fun _ => ?_
  rw [Bounded.mem_product, List.forall₂_map_right_iff]

/-- **The combinations to evaluate** are the first choices, if there is a mandatory demand
and each one has a selection. -/
theorem combosFor_ok_iff (hkeyed : s.ResourcesKeyed) {sels : List (Selection D)}
    {combos : List (List ResourceId)} :
    s.combosFor req = .ok (sels, combos) ↔ sels = s.selectionsOf req ∧ sels ≠ [] ∧
      (∀ sel ∈ sels, sel.picks ≠ []) ∧ combos = (s.choices req).take comboCap := by
  have hclasses : ((s.selectionsOf req).map (·.demand.cls)).Nodup := by
    have hmap : (s.selectionsOf req).map (·.demand.cls) =
        ((computeDemands req).filter (·.mandatory)).map (·.cls) := by
      rw [selectionsOf, List.map_map]
      rfl
    rw [hmap]
    exact (List.filter_sublist.map _).nodup (nodup_classes_computeDemands req)
  -- the product starts from the one empty combination
  have hproduct : (∀ sel ∈ s.selectionsOf req, sel.picks ≠ []) →
      productCombos [[]] (s.selectionsOf req) = .ok ((s.choices req).take comboCap) := by
    intro hpicks
    have hlists : ∀ ps ∈ (s.selectionsOf req).map Selection.picks, ps ≠ [] := by
      intro ps hps
      obtain ⟨sel, hsel, rfl⟩ := List.mem_map.mp hps
      exact hpicks sel hsel
    rw [productCombos_eq hclasses hpicks (selectionsOf_ofDemand hkeyed) (List.cons_ne_nil _ _)
      (List.forall_mem_singleton.mpr (List.forall_mem_nil _))]
    have hcut := Bounded.foldl_extend_take comboCap hlists [[]]
    rw [Bounded.foldl_extend, List.flatMap_singleton] at hcut
    exact congrArg Except.ok hcut
  rw [combosFor_eq_ok_iff, enumerateAll_ok_iff, ← selectionsOf]
  constructor
  · rintro ⟨⟨rfl, hpicks⟩, hne, heq⟩
    rw [hproduct hpicks] at heq
    exact ⟨rfl, hne, hpicks, (Except.ok.inj heq).symm⟩
  · rintro ⟨rfl, hne, hpicks, rfl⟩
    exact ⟨⟨rfl, hpicks⟩, hne, hproduct hpicks⟩

/-! ### The members of a plan -/

/-- The request has a mandatory demand for the class. -/
def Demands (req : CompositionRequest D) (cls : ResourceClass) : Prop :=
  ∃ d ∈ computeDemands req, d.mandatory = true ∧ d.cls = cls

/-- **What is known of a plan and its members**: they are different registered resources of
demanded classes, eligible, and together they passed every check, the paths being those
of a table `before`. -/
structure Planned (s : Engine D) (req : CompositionRequest D)
    (before : OrdMap Str (PathEvidence D)) (plan : CompositionPlan D)
    (members : List (Resource D)) : Prop where
  nodup : (members.map (·.id)).Nodup
  vertices : plan.graph.vertices = members.map (·.id)
  graph : plan.graph = buildGraph req members
  lookup : ∀ r ∈ members, s.resources.lookup r.id = some r
  eligible : ∀ r ∈ members, Eligible r req
  demanded : ∀ r ∈ members, Demands req r.resourceClass
  met : ∀ d ∈ computeDemands req, d.mandatory = true →
    meetsDemand (ofClass members d.cls) d = true
  valid : (validateGraph plan.graph s.resources before).isOk = true
  domains : (validateFailureDomains members req).isOk = true
  coherent : req.requireCoherence = true →
    ∀ r ∈ members, capabilitySupported r .coherentMemoryAccess = true

/-- A member of a choice is of a demanded class. -/
theorem demands_of_mem_choices (hkeyed : s.ResourcesKeyed) {combo : List ResourceId}
    (hcombo : combo ∈ s.choices req) {v : ResourceId} (hv : v ∈ combo) :
    ∃ r, s.resources.lookup v = some r ∧ Demands req r.resourceClass := by
  obtain ⟨picks, hall, rfl⟩ := mem_choices.mp hcombo
  obtain ⟨p, hp, hvp⟩ := List.mem_flatten.mp hv
  obtain ⟨sel, hsel, hmem⟩ := Bounded.exists_of_mem_left hall hp
  obtain ⟨r, hr, hclass⟩ := selectionsOf_ofDemand hkeyed sel hsel p hmem v hvp
  obtain ⟨d, hd, rfl⟩ := List.mem_map.mp hsel
  obtain ⟨hd, hmandatory⟩ := List.mem_filter.mp hd
  exact ⟨r, hr, d, hd, hmandatory, hclass.symm⟩

/-- **The plan of the combination that won.** -/
theorem Won.planned (hkeyed : s.ResourcesKeyed) {selections : List (Selection D)}
    {combos : List (List ResourceId)} (hcombos : s.combosFor req = .ok (selections, combos))
    {combo : List ResourceId} (hmem : combo ∈ combos)
    {before after : OrdMap Str (PathEvidence D)} {plan : CompositionPlan D}
    (h : s.Won req selections combo before after plan) :
    s.Planned req before plan (combo.filterMap s.resources.lookup) := by
  obtain ⟨hdemands, hcombines⟩ := combosFor_combines hkeyed hcombos
  have hcombo := hcombines combo hmem
  obtain ⟨hids, -, hlookup⟩ := hcombo.lookups hkeyed
  have hnodup : ((combo.filterMap s.resources.lookup).map (·.id)).Nodup := by
    rw [hids]
    exact hcombo.1
  -- the four checks of the evaluation
  have hfeasible := h.feasible
  unfold Engine.feasible at hfeasible
  simp only [Bool.and_eq_true] at hfeasible
  obtain ⟨⟨⟨hmeets, hgraph⟩, hdomains⟩, hcoherent⟩ := hfeasible
  refine ⟨hnodup, ?_, h.graph, fun r hr => (hlookup r hr).1, fun r hr => (hlookup r hr).2, ?_, ?_,
    ?_, hdomains, ?_⟩
  · rw [h.graph, vertices_buildGraph req hnodup]
  · -- a member comes from a selection, which was made for a demand of its class
    intro r hr
    obtain ⟨-, -, -, rfl⟩ := (combosFor_ok_iff hkeyed).mp hcombos
    obtain ⟨v, hv, hvr⟩ := List.mem_filterMap.mp hr
    obtain ⟨r', hr', hdemand⟩ := demands_of_mem_choices hkeyed (List.mem_of_mem_take hmem) hv
    rw [hvr] at hr'
    cases hr'
    exact hdemand
  · intro d hd hmandatory
    obtain ⟨sel, hsel, rfl⟩ := hdemands d hd hmandatory
    exact List.all_eq_true.mp hmeets sel hsel
  · rw [h.graph]
    exact hgraph
  · intro hreq r hr
    rw [hreq, Bool.not_true, Bool.false_or] at hcoherent
    exact List.all_eq_true.mp hcoherent r hr

/-- **What is known of a plan that `Compose` returns.** -/
theorem compose_planned [LawfulDoubleOrder D] (hkeyed : s.ResourcesKeyed)
    (hok : (s.compose req).2.ok = true) :
    ∃ selections combo before members,
      s.Won req selections combo before (s.compose req).1.paths (s.compose req).2.payload ∧
      s.Planned req before (s.compose req).2.payload members := by
  obtain ⟨selections, combos, hcombos, combo, hmem, before, hwon⟩ := compose_won hok
  exact ⟨selections, combo, before, _, hwon, hwon.planned hkeyed hcombos hmem⟩

/-- The members of a plan, as they are registered. -/
def planMembers (s : Engine D) (plan : CompositionPlan D) : List (Resource D) :=
  plan.graph.vertices.filterMap s.resources.lookup

theorem Planned.planMembers_eq {before : OrdMap Str (PathEvidence D)} {plan : CompositionPlan D}
    {members : List (Resource D)} (h : s.Planned req before plan members) :
    s.planMembers plan = members := by
  rw [planMembers, h.vertices, List.filterMap_map]
  refine (List.filterMap_congr fun r hr => ?_).trans List.filterMap_some
  exact h.lookup r hr

section Paths

variable {before after : OrdMap Str (PathEvidence D)} {plan : CompositionPlan D}
  {members : List (Resource D)} (h : s.Planned req before plan members)

include h

/-- An edge between two nodes joins two members. -/
theorem Planned.members_of_crosses {e : GraphEdge D} (he : e ∈ plan.graph.edges) {a b : NodeId}
    (hcross : s.Crosses e a b) :
    ∃ r ∈ members, ∃ r' ∈ members, ∃ kind ∈ kindsBetween r.resourceClass r'.resourceClass,
      e = requiredEdge req r r' kind ∧ r.nodeId = a ∧ r'.nodeId = b ∧ a ≠ b := by
  rw [h.graph] at he
  obtain ⟨r, hr, r', hr', kind, hkind, -, rfl⟩ := mem_edges_buildGraph.mp he
  exact ⟨r, hr, r', hr', kind, hkind, rfl, hcross.nodes (h.lookup r hr) (h.lookup r' hr')⟩

/-- Members of joined classes on different nodes are joined between these nodes. -/
theorem Planned.crosses {r r' : Resource D} (hr : r ∈ members) (hr' : r' ∈ members)
    {kind : GraphEdgeKind} (hkind : kind ∈ kindsBetween r.resourceClass r'.resourceClass)
    (hnode : r.nodeId ≠ r'.nodeId) :
    requiredEdge req r r' kind ∈ plan.graph.edges ∧
      s.Crosses (requiredEdge req r r' kind) r.nodeId r'.nodeId := by
  refine ⟨?_, r, r', h.lookup r hr, h.lookup r' hr', rfl, rfl, hnode⟩
  rw [h.graph]
  refine mem_edges_buildGraph.mpr ⟨r, hr, r', hr', kind, hkind, fun hid => hnode ?_, rfl⟩
  have hlookup := h.lookup r' hr'
  rw [← hid, h.lookup r hr] at hlookup
  rw [Option.some.inj hlookup]

/-- The table had a path for every edge between two nodes. -/
theorem Planned.pathFor {r r' : Resource D} (hr : r ∈ members) (hr' : r' ∈ members)
    {kind : GraphEdgeKind} (hkind : kind ∈ kindsBetween r.resourceClass r'.resourceClass)
    (hnode : r.nodeId ≠ r'.nodeId) : ∃ p, PathFor req before r.nodeId r'.nodeId kind p :=
  (validateEdge_iff (h.lookup r hr) (h.lookup r' hr') hnode).mp
    (isOk_validateEdge h.valid _ (h.crosses hr hr' hkind hnode).1)

end Paths

/-- **The members of a plan are joined over entries that could be used before the call.** -/
theorem usablePath_of_compose [LawfulDoubleOrder D] (hkeyed : s.ResourcesKeyed)
    (hok : (s.compose req).2.ok = true)
    {e : GraphEdge D} (he : e ∈ (s.compose req).2.payload.graph.edges) {a b : NodeId}
    (hcross : s.Crosses e a b) : ∃ p, UsablePath s.paths a b p := by
  obtain ⟨selections, combo, before, members, hwon, hplanned⟩ := compose_planned hkeyed hok
  obtain ⟨r, hr, r', hr', kind, hkind, rfl, rfl, rfl, hne⟩ := hplanned.members_of_crosses he hcross
  obtain ⟨p, ⟨hp, -⟩⟩ := hplanned.pathFor hr hr' hkind hne
  rcases s.grounded_compose req r.nodeId r'.nodeId with hsame | husable
  swap
  · exact husable
  -- the table of the moment had the old entry, or the answer that it is left with
  have hbefore : before.find? (pathKey r.nodeId r'.nodeId) =
      s.paths.find? (pathKey r.nodeId r'.nodeId) := by
    rcases hwon.refreshes r.nodeId r'.nodeId with heq | ⟨pe, hpe, heq⟩
    · exact heq
    · rw [heq, ← hsame, hwon.find?_of_some he hcross hpe]
  exact ⟨p, hbefore ▸ hp.found, hp.verified, hp.available, hp.current⟩

/-! ### Scores -/

/-- No capacity that the ranking reads is negative. -/
def CapacitiesNonneg (s : Engine ℚ) : Prop :=
  ∀ v r, s.resources.lookup v = some r →
    0 ≤ r.capacity.computeUnits ∧ 0 ≤ r.capacity.hostMemoryBytes

theorem ofRat_nonneg {q : ℚ} (h : 0 ≤ q) : 0 ≤ (Double.ofRat q : ℚ) := h

/-- The capped factor of a number that is not negative. -/
theorem min_one_tenth_nonneg {x : ℚ} (hx : 0 ≤ x) :
    0 ≤ Double.min (Double.one : ℚ) (Double.mul x (Double.ofRat (1 / 10))) := by
  have hmul : 0 ≤ Double.mul x (Double.ofRat (1 / 10)) := mul_nonneg hx (ofRat_nonneg (by norm_num))
  unfold Double.min
  split
  · exact hmul
  · exact zero_le_one

/-- A score without a negative capacity is not negative. -/
theorem rank_total_nonneg {set : List (Resource ℚ)}
    (h : ∀ r ∈ set, 0 ≤ r.capacity.computeUnits ∧ 0 ≤ r.capacity.hostMemoryBytes) :
    0 ≤ (rank set).total := by
  -- the four factors, each of them a sum of numbers that are not negative
  have hcapacity : 0 ≤ set.foldl (fun acc r => Double.add acc
      (Double.add (capacityForDimension r (str "compute_units"))
        (Double.mul (capacityForDimension r (str "host_memory_bytes"))
          (Double.ofRat (1 / 10 ^ 6))))) (0 : ℚ) := by
    refine List.foldlRecOn set _ le_rfl fun acc hacc r hr => ?_
    obtain ⟨hcompute, hhost, -⟩ := capacityForDimension_amounts r
    rw [hcompute, hhost]
    exact add_nonneg hacc (add_nonneg (h r hr).1 (mul_nonneg (h r hr).2 (ofRat_nonneg (by norm_num))))
  have hhealth : 0 ≤ set.foldl (fun acc r =>
      if r.health = .healthy then Double.add acc (Double.ofRat 10) else acc) (0 : ℚ) := by
    refine List.foldlRecOn set _ le_rfl fun acc hacc r _ => ?_
    split
    · exact add_nonneg hacc (ofRat_nonneg (by norm_num))
    · exact hacc
  have hpositive : ∀ x : ℚ, 0 ≤ if Double.lt Double.zero x then (Double.one : ℚ) else 0 := by
    intro x
    split
    · exact zero_le_one
    · exact le_rfl
  have hheadroom : 0 ≤ set.foldl (fun acc r => Double.add acc
      (Double.add (if Double.lt Double.zero r.capacity.computeUnits then (Double.one : ℚ) else 0)
        (if Double.lt Double.zero r.capacity.storageBytes then Double.one else 0))) (0 : ℚ) :=
    List.foldlRecOn set _ le_rfl fun acc hacc r _ =>
      add_nonneg hacc (add_nonneg (hpositive _) (hpositive _))
  have hdiversity : (0 : ℚ) ≤ ((set.map fun r => r.nodeId.toStr).dedup.length : ℚ) :=
    Nat.cast_nonneg _
  exact add_nonneg (add_nonneg (add_nonneg (add_nonneg le_rfl (mul_nonneg zero_le_one hhealth))
    (mul_nonneg zero_le_one (min_one_tenth_nonneg hcapacity)))
    (mul_nonneg zero_le_one hdiversity))
    (mul_nonneg zero_le_one (min_one_tenth_nonneg hheadroom))

/-! ### Completeness -/

/-- A choice within the bound that passes every check is enough. -/
theorem compose_ok_of_choice {s : Engine ℚ} {req : CompositionRequest ℚ}
    (hkeyed : s.ResourcesKeyed) (hcapacity : s.CapacitiesNonneg) (hne : s.selectionsOf req ≠ [])
    {combo : List ResourceId} (hmem : combo ∈ (s.choices req).take comboCap)
    (hfeasible : s.feasible req (s.selectionsOf req) s.paths
      (combo.filterMap s.resources.lookup) = true) :
    (s.compose req).2.ok = true := by
  -- where there is a choice, every demand has a selection
  have hpicks : ∀ sel ∈ s.selectionsOf req, sel.picks ≠ [] := by
    obtain ⟨picks, hall, -⟩ := mem_choices.mp (List.mem_of_mem_take hmem)
    intro sel hsel
    obtain ⟨p, -, hp⟩ := Bounded.exists_of_mem_left hall.flip hsel
    exact List.ne_nil_of_mem hp
  have hcombos := (combosFor_ok_iff hkeyed).mpr ⟨rfl, hne, hpicks, rfl⟩
  obtain ⟨-, hcombines⟩ := combosFor_combines hkeyed hcombos
  obtain ⟨-, hregistered⟩ := hcombines combo hmem
  refine (compose_ok_iff s req).mpr
    ⟨_, _, hcombos, combo, hmem, ⟨List.all_eq_true.mpr fun v hv => ?_, hfeasible⟩, ?_⟩
  · obtain ⟨r, hr, -⟩ := hregistered v hv
    rw [hr]
    rfl
  · have hnonneg : 0 ≤ (rank (combo.filterMap s.resources.lookup)).total := by
      refine rank_total_nonneg fun r hr => ?_
      obtain ⟨v, -, hv⟩ := List.mem_filterMap.mp hr
      exact hcapacity v r hv
    exact decide_eq_true (lt_of_lt_of_le neg_one_lt_zero hnonneg)

/-- **`Compose` rejects nothing that one of the choices it looks at satisfies.** In every
state without negative capacities, a request is accepted if and only if it has a mandatory
demand and one of the first `comboCap` choices of a selection for each mandatory demand
meets every demand and passes the validation of the graph and of the failure domains and
the coherence check. -/
theorem compose_ok_iff_choice (s : Engine ℚ) (req : CompositionRequest ℚ)
    (hkeyed : s.ResourcesKeyed) (hcapacity : s.CapacitiesNonneg) :
    (s.compose req).2.ok = true ↔ s.selectionsOf req ≠ [] ∧
      ∃ combo ∈ (s.choices req).take comboCap,
        s.feasible req (s.selectionsOf req) s.paths (combo.filterMap s.resources.lookup) = true := by
  constructor
  · intro hok
    obtain ⟨sels, combos, hcombos, combo, hmem, ⟨-, hfeasible⟩, -⟩ := (compose_ok_iff s req).mp hok
    obtain ⟨rfl, hne, -, rfl⟩ := (combosFor_ok_iff hkeyed).mp hcombos
    exact ⟨hne, combo, hmem, hfeasible⟩
  · rintro ⟨hne, combo, hmem, hfeasible⟩
    exact compose_ok_of_choice hkeyed hcapacity hne hmem hfeasible

/-- Two registered resources: one of the choices for 32 bytes passes. -/
theorem registered_choice :
    ∃ combo ∈ ((registered ⟨1⟩ ⟨2⟩).choices (sampleRequest 32)).take comboCap,
      (registered ⟨1⟩ ⟨2⟩).feasible (sampleRequest 32)
        ((registered ⟨1⟩ ⟨2⟩).selectionsOf (sampleRequest 32)) (registered ⟨1⟩ ⟨2⟩).paths
        (combo.filterMap (registered ⟨1⟩ ⟨2⟩).resources.lookup) = true := by
  have hvalues : ∀ r ∈ (registered ⟨1⟩ ⟨2⟩).resources.values,
      0 ≤ r.capacity.computeUnits ∧ 0 ≤ r.capacity.hostMemoryBytes := by decide +kernel
  exact ((compose_ok_iff_choice (registered ⟨1⟩ ⟨2⟩) (sampleRequest 32) (resourcesKeyed_run _ _)
    fun _ r hr => hvalues r (UMap.mem_values_of_lookup hr)).mp (by decide +kernel)).2

/-- A resource with one byte of host memory, of expanded memory and of storage. -/
def byteOf (cls : ResourceClass) (id : UInt64) : Resource ℚ :=
  { sampleMemory ⟨id⟩ 1 with
    resourceClass := cls
    capacity := { (default : Capacity ℚ) with
      hostMemoryBytes := 1, expandedMemoryBytes := 1, storageBytes := 1 } }

/-- An engine with eight resources of one byte in each of three classes. -/
def crowded : Engine ℚ :=
  (fresh sampleConfig).run
    ([1, 2, 3, 4, 5, 6, 7, 8].map (fun id => .registerResource (byteOf .hostMemory id)) ++
      [11, 12, 13, 14, 15, 16, 17, 18].map
        (fun id => .registerResource (byteOf .expandedMemory id)) ++
      [21, 22, 23, 24, 25, 26, 27, 28].map (fun id => .registerResource (byteOf .storage id)))

/-- A request for two bytes of each. -/
def twoOfEach : CompositionRequest ℚ :=
  { (default : CompositionRequest ℚ) with
    hostMemoryBytes := 2, expandedMemoryBytes := 2, storageBytes := 2 }

/-- **The bound hides a feasible choice.** The first two resources of each class together
satisfy the request, and are among the 24 selections of their class; but single resources
are enumerated first, so that the first 400 choices all have a single resource of host
memory, and the request is rejected. -/
theorem crowded_rejects :
    crowded.CapacitiesNonneg ∧
      (∃ picks, List.Forall₂ (fun p sel => p ∈ Selection.picks sel) picks
          (crowded.selectionsOf twoOfEach) ∧
        crowded.feasible twoOfEach (crowded.selectionsOf twoOfEach) crowded.paths
          (picks.flatten.filterMap crowded.resources.lookup) = true) ∧
      (crowded.compose twoOfEach).2.ok = false := by
  refine ⟨?_, ?_, Bool.eq_false_of_not_eq_true ?_⟩
  · have hvalues : ∀ r ∈ crowded.resources.values,
        0 ≤ r.capacity.computeUnits ∧ 0 ≤ r.capacity.hostMemoryBytes := by decide +kernel
    exact fun _ r hr => hvalues r (UMap.mem_values_of_lookup hr)
  · have hmem : [⟨1⟩, ⟨2⟩, ⟨11⟩, ⟨12⟩, ⟨21⟩, ⟨22⟩] ∈ crowded.choices twoOfEach := by decide +kernel
    obtain ⟨picks, hpicks, hflatten⟩ := mem_choices.mp hmem
    refine ⟨picks, hpicks, ?_⟩
    rw [hflatten]
    decide +kernel
  · -- each of the first 400 choices is evaluated and fails
    rw [compose_ok_iff]
    rintro ⟨sels, combos, hcombos, combo, hmem, ⟨-, hfeasible⟩, -⟩
    obtain ⟨rfl, -, -, rfl⟩ := (combosFor_ok_iff (resourcesKeyed_run _ _)).mp hcombos
    have hnone : ∀ combo ∈ (crowded.choices twoOfEach).take comboCap,
        crowded.feasible twoOfEach (crowded.selectionsOf twoOfEach) crowded.paths
          (combo.filterMap crowded.resources.lookup) = false := by decide +kernel
    exact Bool.false_ne_true ((hnone combo hmem).symm.trans hfeasible)

end Engine

end DFabric
