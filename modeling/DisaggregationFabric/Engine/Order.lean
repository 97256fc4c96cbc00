import DisaggregationFabric.Engine.Tables
import DisaggregationFabric.Safety.Authority
import DisaggregationFabric.Lib.Sorting

/-!
# Planning and the order of the tables

The tables of nodes and of resources are unordered maps, so the order in which `Compose`
meets the resources is arbitrary. It forgets that order at once: the candidates of a class
are sorted, and the comparator decides between any two resources because their ids differ
(`candidates_eq`). From there on the tables are only looked things up in
(`SameUpToOrder.considerCombo`), which gives `compose_eq_of_sameUpToOrder`.

The comparator orders scores, so the result is about exact arithmetic.
-/

namespace DFabric

/-! ### The comparator -/

/-- Higher score first, then smaller id. -/
theorem candidateBefore_iff {d : ClassDemand ℚ} {a b : Resource ℚ} :
    candidateBefore d a b = true ↔
      classScore b d < classScore a d ∨ classScore a d = classScore b d ∧ a.id < b.id := by
  unfold candidateBefore
  simp only [Double.rat_eq, Double.rat_lt, decide_eq_true_eq]
  by_cases heq : classScore a d = classScore b d
  · have hlt : ¬ classScore b d < classScore a d := by rw [heq]; exact lt_irrefl _
    rw [if_pos heq, decide_eq_true_iff]
    exact ⟨fun h => Or.inr ⟨heq, h⟩, fun h => (h.resolve_left hlt).2⟩
  · rw [if_neg heq, decide_eq_true_iff]
    exact ⟨Or.inl, fun h => h.resolve_right fun h => heq h.1⟩

theorem candidateBefore_trans {d : ClassDemand ℚ} (a b c : Resource ℚ)
    (hab : candidateBefore d a b = true) (hbc : candidateBefore d b c = true) :
    candidateBefore d a c = true := by
  rw [candidateBefore_iff] at hab hbc ⊢
  rcases hab with hab | ⟨hab, hid⟩ <;> rcases hbc with hbc | ⟨hbc, hid'⟩
  · exact Or.inl (hbc.trans hab)
  · exact Or.inl (hbc ▸ hab)
  · exact Or.inl (hab ▸ hbc)
  · exact Or.inr ⟨hab.trans hbc, lt_trans hid hid'⟩

theorem candidateBefore_asymm {d : ClassDemand ℚ} (a b : Resource ℚ)
    (hab : candidateBefore d a b = true) : ¬ candidateBefore d b a = true := by
  rw [candidateBefore_iff] at hab ⊢
  rintro (hba | ⟨hba, hid'⟩) <;> rcases hab with hab | ⟨hab, hid⟩
  · exact lt_asymm hab hba
  · exact hba.ne hab
  · exact hab.ne hba
  · exact lt_asymm hid hid'

/-- Two resources with different ids are decided between. -/
theorem candidateBefore_total {d : ClassDemand ℚ} {a b : Resource ℚ} (hne : a.id ≠ b.id) :
    candidateBefore d a b = true ∨ candidateBefore d b a = true := by
  rw [candidateBefore_iff, candidateBefore_iff]
  rcases lt_trichotomy (classScore a d) (classScore b d) with h | h | h
  · exact Or.inr (Or.inl h)
  · rcases lt_or_gt_of_ne hne with hid | hid
    · exact Or.inl (Or.inr ⟨h, hid⟩)
    · exact Or.inr (Or.inr ⟨h.symm, hid⟩)
  · exact Or.inl (Or.inl h)

namespace Engine

/-! ### The tables -/

section Tables

variable {D : Type}

/-- Two engines that differ in the iteration order of their tables of nodes and resources
at most, as far as planning reads them. -/
structure SameUpToOrder (s t : Engine D) : Prop where
  backends : s.backends = t.backends
  policies : s.policies = t.policies
  paths : s.paths = t.paths
  epoch : s.epoch = t.epoch
  nextComp : s.nextComp = t.nextComp
  nextRes : s.nextRes = t.nextRes
  nextRs : s.nextRs = t.nextRs
  nextResv : s.nextResv = t.nextResv
  nodes : s.nodes.entries.Perm t.nodes.entries
  resources : s.resources.entries.Perm t.resources.entries

variable {s t : Engine D}

theorem SameUpToOrder.lookup_resources (h : SameUpToOrder s t) (v : ResourceId) :
    s.resources.lookup v = t.resources.lookup v := AList.perm_lookup h.resources

theorem SameUpToOrder.lookup_nodes (h : SameUpToOrder s t) (n : NodeId) :
    s.nodes.lookup n = t.nodes.lookup n := AList.perm_lookup h.nodes

theorem SameUpToOrder.resolvePath (h : SameUpToOrder s t) : s.resolvePath = t.resolvePath := by
  unfold Engine.resolvePath
  rw [h.backends]

/-! ### After the candidates are sorted -/

variable [Double D]

theorem SameUpToOrder.validateGraph (h : SameUpToOrder s t) (g : ResourceGraph D) :
    validateGraph g s.resources = validateGraph g t.resources := by
  have hedge : validateEdge s.resources = validateEdge (D := D) t.resources := by
    ext1 paths
    ext1 e
    unfold validateEdge
    rw [h.lookup_resources, h.lookup_resources]
  ext1 paths
  unfold DFabric.validateGraph
  rw [hedge]

/-- The evaluation of a combination reads the tables by key only. -/
theorem SameUpToOrder.considerCombo (h : SameUpToOrder s t) (req : CompositionRequest D)
    (selections : List (Selection D)) :
    s.considerCombo req selections = t.considerCombo req selections := by
  -- all that is read is looked up by an id
  have hfeasible : s.feasible req selections = t.feasible req selections := by
    ext1 paths
    ext1 set
    unfold feasible
    rw [h.validateGraph]
  have hresolve : s.resolveEdge req = t.resolveEdge req := by
    ext1 acc
    ext1 e
    unfold resolveEdge
    rw [h.lookup_resources, h.lookup_resources, h.resolvePath]
  ext1 acc
  ext1 combo
  unfold Engine.considerCombo
  simp only [h.lookup_resources, hfeasible, hresolve]

omit [Double D] in
/-- And so does the authority tuple. -/
theorem SameUpToOrder.finishPlan (h : SameUpToOrder s t) (req : CompositionRequest D)
    (paths : OrdMap Str (PathEvidence D)) (plan : CompositionPlan D) :
    s.finishPlan req paths plan = t.finishPlan req paths plan := by
  unfold Engine.finishPlan makeAuthority
  simp only [h.lookup_resources, h.lookup_nodes, h.nextComp, h.epoch]

end Tables

/-! ### The candidates -/

variable {s t : Engine ℚ}

/-- Resources that are stored under their ids have pairwise different ids. -/
theorem ResourcesKeyed.values {D : Type} {s : Engine D} (hkeyed : s.ResourcesKeyed) :
    (s.resources.values.map (·.id)).Nodup := by
  have hids : s.resources.values.map (·.id) = s.resources.entries.map (·.1) := by
    unfold UMap.values
    rw [List.map_map]
    refine List.map_congr_left ?_
    rintro ⟨v, r⟩ he
    exact hkeyed v r (AList.mem_lookup_iff.mpr he)
  rw [hids]
  exact s.resources.nodupKeys

/-- **The candidates of a class do not depend on the order of the table.** -/
theorem SameUpToOrder.candidates (h : SameUpToOrder s t) (hkeyed : s.ResourcesKeyed)
    (req : CompositionRequest ℚ) (d : ClassDemand ℚ) :
    s.candidates req d = t.candidates req d := by
  have hids := hkeyed.values
  have hperm : s.resources.values.Perm t.resources.values := by
    unfold UMap.values
    exact h.resources.map _
  refine Sorting.insertionSort_eq_of_perm (fun a b c => candidateBefore_trans a b c)
    (fun a b => candidateBefore_asymm a b) (hperm.filter _) (hids.of_map.filter _) ?_
  intro a ha b hb hne
  refine candidateBefore_total fun hid => hne ?_
  exact List.inj_on_of_nodup_map hids (List.mem_of_mem_filter ha) (List.mem_of_mem_filter hb) hid

theorem SameUpToOrder.enumerateAll (h : SameUpToOrder s t) (hkeyed : s.ResourcesKeyed)
    (req : CompositionRequest ℚ) (ds : List (ClassDemand ℚ)) :
    s.enumerateAll req ds = t.enumerateAll req ds := by
  induction ds with
  | nil => rfl
  | cons d ds ih =>
    unfold Engine.enumerateAll
    rw [h.candidates hkeyed, ih]

/-- **Planning does not depend on the order of registration.** Two engines whose tables of
nodes and resources have the same entries, in whatever order, return the same outcome and
the same plan. -/
theorem compose_eq_of_sameUpToOrder (s t : Engine ℚ) (hkeyed : s.ResourcesKeyed)
    (h : SameUpToOrder s t) (req : CompositionRequest ℚ) :
    (s.compose req).2 = (t.compose req).2 := by
  -- the order of the tables is gone once the candidates are sorted
  have hcombos : s.combosFor req = t.combosFor req := by
    unfold combosFor
    rw [h.enumerateAll hkeyed]
  unfold compose
  rw [hcombos]
  rcases t.combosFor req with ⟨reason, notes⟩ | ⟨selections, combos⟩
  · rfl
  dsimp only
  -- the loop and the finished plan look records up by their ids
  rw [h.considerCombo, h.paths]
  unfold finish
  split
  · dsimp only
    rw [h.finishPlan]
  · rfl

/-- Two resources of the same size, registered in the given order. -/
def registered (v w : ResourceId) : Engine ℚ :=
  (fresh sampleConfig).run
    [.registerResource (sampleMemory v 64), .registerResource (sampleMemory w 64)]

/-- Both orders give the plan with the two resources, the smaller id first. -/
theorem compose_registered_eq :
    ((registered ⟨1⟩ ⟨2⟩).compose (sampleRequest 32)).2.payload.graph.vertices = [⟨1⟩, ⟨2⟩] ∧
      ((registered ⟨1⟩ ⟨2⟩).compose (sampleRequest 32)).2 =
        ((registered ⟨2⟩ ⟨1⟩).compose (sampleRequest 32)).2 := by
  refine ⟨by decide +kernel, compose_eq_of_sameUpToOrder _ _ (resourcesKeyed_run _ _) ?_ _⟩
  -- the two registrations have put the entries in opposite orders
  have hswap : (registered ⟨1⟩ ⟨2⟩).resources.entries.Perm
      (registered ⟨2⟩ ⟨1⟩).resources.entries := List.Perm.swap _ _ _
  exact ⟨rfl, rfl, rfl, rfl, rfl, rfl, rfl, rfl, List.Perm.refl _, hswap⟩

end Engine

end DFabric
