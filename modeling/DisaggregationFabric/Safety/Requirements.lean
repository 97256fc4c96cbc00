import DisaggregationFabric.Engine.Acceptance

/-!
# Hard requirements of a request

The fields of a request become demands on six classes and edges of a few kinds, and a field
binds only where a check reads it.

* A mandatory class outside the six has no demand.
* Accelerators are demanded by count; the amount of accelerator memory is put into the
  demand and never compared.
* Every edge carries both bounds, but the bandwidth is tested on some kinds of edges and
  the latency on another, and after the test the paths are asked for again.

`requirements_hard_iff` says for which requests every plan meets these requirements.
-/

namespace DFabric

namespace Engine

variable {s : Engine ℚ} {req : CompositionRequest ℚ}

/-- **The plan meets the requirements**: every mandatory class has a member, the
accelerators have the memory, and the table has a path within both bounds for every edge
between two nodes. -/
structure RequirementsHard (s : Engine ℚ) (req : CompositionRequest ℚ)
    (after : OrdMap Str (PathEvidence ℚ)) (plan : CompositionPlan ℚ) : Prop where
  classes : ∀ cls, req.mandatoryClasses.contains cls = true → cls ≠ .unknown →
    ∃ r ∈ s.planMembers plan, r.resourceClass = cls
  memory : req.acceleratorMemoryBytes ≤
    totalOf (·.acceleratorMemoryBytes) (ofClass (s.planMembers plan) .accelerator)
  paths : ∀ e ∈ plan.graph.edges, ∀ a b, s.Crosses e a b →
    ∃ p, after.find? (pathKey a b) = some p ∧ MeetsBandwidth req p ∧ MeetsLatency req p

/-- The classes that can be demanded. -/
def plannable : List ResourceClass :=
  [.compute, .accelerator, .hostMemory, .expandedMemory, .storage, .networkEndpoint]

/-- **The request asks for nothing but what is enforced.** -/
structure RequirementsEnforced (req : CompositionRequest ℚ) : Prop where
  /-- Every mandatory class can be demanded. -/
  classes : ∀ cls, req.mandatoryClasses.contains cls = true → cls ≠ .unknown → cls ∈ plannable
  /-- No accelerator is asked for, and no accelerator memory. -/
  accelerators : ¬ Demands req .accelerator ∧ req.acceleratorMemoryBytes ≤ 0
  /-- Compute units and storage are on one node or not both asked for, or there is no
  bound. -/
  bounds : req.failureDomain.topology = .colocate ∨
    ¬ (Demands req .compute ∧ Demands req .storage) ∨
    (req.minBandwidthMbps ≤ 0 ∧ req.maxLatencyUs ≤ 0)

/-! ### What is demanded -/

theorem cls_mem_plannable {d : ClassDemand ℚ} (hd : d ∈ computeDemands req) : d.cls ∈ plannable :=
  List.mem_map_of_mem (f := ClassDemand.cls) hd

/-- A mandatory class that can be demanded is. -/
theorem demands_of_contains {cls : ResourceClass} (hcls : cls ∈ plannable)
    (h : req.mandatoryClasses.contains cls = true) : Demands req cls := by
  have hclasses : plannable = (computeDemands req).map (·.cls) := rfl
  rw [hclasses] at hcls
  obtain ⟨d, hd, rfl⟩ := List.mem_map.mp hcls
  refine ⟨d, hd, ?_, rfl⟩
  obtain ⟨d₀, -, rfl⟩ := List.mem_map.mp hd
  exact Bool.or_eq_true_iff.mpr (Or.inr h)

/-! ### What is enforced -/

section Enforced

variable {before after : OrdMap Str (PathEvidence ℚ)} {plan : CompositionPlan ℚ}
  {members : List (Resource ℚ)} {selections : List (Selection ℚ)} {combo : List ResourceId}

/-- A class that is not demanded has no member. -/
theorem Planned.ofClass_eq_nil (h : s.Planned req before plan members) {cls : ResourceClass}
    (hcls : ¬ Demands req cls) : ofClass members cls = [] := by
  refine List.filter_eq_nil_iff.mpr fun r hr hclass => hcls ?_
  rw [← of_decide_eq_true hclass]
  exact h.demanded r hr

/-- A path was found for every edge between two nodes. -/
theorem Won.exists_path (hwon : s.Won req selections combo before after plan)
    (h : s.Planned req before plan members) {e : GraphEdge ℚ} (he : e ∈ plan.graph.edges)
    {a b : NodeId} (hcross : s.Crosses e a b) : ∃ p, after.find? (pathKey a b) = some p := by
  rcases hanswer : s.resolvePath (edgeRequirement req a b) with _ | pe
  · -- the path that was validated is still there
    obtain ⟨r, hr, r', hr', kind, hkind, rfl, rfl, rfl, hne⟩ := h.members_of_crosses he hcross
    obtain ⟨p, ⟨hfound, -⟩, -⟩ := h.pathFor hr hr' hkind hne
    obtain ⟨hbefore, hafter⟩ := hwon.find?_of_none hanswer
    exact ⟨p, hafter.trans (hbefore.symm.trans hfound)⟩
  · exact ⟨pe, hwon.find?_of_some he hcross hanswer⟩

/-- Without accelerators, edges join compute units to storage only. -/
theorem kindsBetween_without_accelerator {c c' : ResourceClass} {kind : GraphEdgeKind}
    (hkind : kind ∈ kindsBetween c c') (hc : c ≠ .accelerator) (hc' : c' ≠ .accelerator) :
    c = .compute ∧ c' = .storage := by
  unfold kindsBetween at hkind
  split at hkind
  · exact absurd rfl hc'
  · exact absurd rfl hc
  · exact absurd rfl hc
  · exact absurd rfl hc
  · exact absurd rfl hc
  · exact ⟨rfl, rfl⟩
  · exact absurd hkind List.not_mem_nil

/-- What is enforced is met. -/
theorem RequirementsEnforced.hard (h : RequirementsEnforced req)
    (hwon : s.Won req selections combo before after plan)
    (hplanned : s.Planned req before plan members) : s.RequirementsHard req after plan := by
  refine ⟨fun cls hcls hknown => ?_, ?_, fun e he a b hcross => ?_⟩
  · rw [hplanned.planMembers_eq]
    exact hplanned.exists_member (demands_of_contains (h.classes cls hcls hknown) hcls)
  · rw [hplanned.planMembers_eq, hplanned.ofClass_eq_nil h.accelerators.1]
    exact h.accelerators.2
  · obtain ⟨p, hp⟩ := hwon.exists_path hplanned he hcross
    obtain ⟨r, hr, r', hr', kind, hkind, rfl, rfl, rfl, hne⟩ :=
      hplanned.members_of_crosses he hcross
    -- without accelerators the only edges are from compute to storage
    have haccelerator : ∀ r ∈ members, r.resourceClass ≠ .accelerator := fun r hr hclass =>
      h.accelerators.1 (hclass ▸ hplanned.demanded r hr)
    obtain ⟨hcompute, hstorage⟩ := kindsBetween_without_accelerator hkind
      (haccelerator r hr) (haccelerator r' hr')
    rcases h.bounds with htopology | hboth | ⟨hbandwidth, hlatency⟩
    · -- members on one node have no edge between nodes
      have hchecked := isOk_validateFailureDomains_iff.mp hplanned.domains
      rw [PlacementChecked, htopology] at hchecked
      exact absurd (hchecked r hr r' hr') hne
    · exact absurd ⟨hcompute ▸ hplanned.demanded r hr, hstorage ▸ hplanned.demanded r' hr'⟩ hboth
    · exact ⟨p, hp, fun hpos => absurd (of_decide_eq_true hpos) (not_lt.mpr hbandwidth),
        fun hpos => absurd (of_decide_eq_true hpos) (not_lt.mpr hlatency)⟩

end Enforced

/-! ### What is not -/

/-- A sum of equal negative numbers is at most one of them. -/
theorem totalOf_le {l : List (Resource ℚ)} {m : ℚ} (hm : m ≤ 0) (hne : l ≠ [])
    (hl : ∀ r ∈ l, r.capacity.acceleratorMemoryBytes = m) :
    totalOf (·.acceleratorMemoryBytes) l ≤ m := by
  -- the sum falls with every member
  have hfold : ∀ (l : List (Resource ℚ)) (acc : ℚ),
      (∀ r ∈ l, r.capacity.acceleratorMemoryBytes = m) →
      l.foldl (fun sum r => Double.add sum r.capacity.acceleratorMemoryBytes) acc ≤ acc := by
    intro l
    induction l with
    | nil => exact fun acc _ => le_rfl
    | cons r l ih =>
      intro acc hl
      rw [List.forall_mem_cons] at hl
      rw [List.foldl_cons]
      refine (ih _ hl.2).trans ?_
      rw [hl.1]
      exact add_le_of_nonpos_right hm
  obtain ⟨r, l, rfl⟩ := List.exists_cons_of_ne_nil hne
  rw [List.forall_mem_cons] at hl
  calc totalOf (·.acceleratorMemoryBytes) (r :: l)
      ≤ 0 + r.capacity.acceleratorMemoryBytes := hfold l _ hl.2
    _ = m := by rw [hl.1, zero_add]

/-- A backend that answers for every pair with a path outside both bounds. -/
def slowBackend (req : CompositionRequest ℚ) : Backend ℚ where
  discoverNodes := []
  discoverResources := []
  resolvePath pr := some { goodPath req (pr.source, pr.target) with
    bandwidthMbps := 0
    latencyUs := req.maxLatencyUs + 1 }

section NotEnforced

variable (hreq : Acceptable req)

include hreq

/-- Accelerators without memory are accepted. -/
theorem exists_plan_without_memory (hacc : Demands req .accelerator) :
    ∃ memory, ¬ (built req (siteFor req .host memory [])).RequirementsHard req
      ((built req (siteFor req .host memory [])).compose req).1.paths
      ((built req (siteFor req .host memory [])).compose req).2.payload := by
  -- the memory that is recorded may be any number, and is never looked at
  refine ⟨min req.acceleratorMemoryBytes 0 - 1, fun hhard => ?_⟩
  obtain ⟨-, -, before, members, -, hplanned, hpieces, -⟩ := (siteFor_suits hreq .host
    (min req.acceleratorMemoryBytes 0 - 1) []).planned hreq
  have hne : ofClass members .accelerator ≠ [] := by
    obtain ⟨r, hr, hclass⟩ := hplanned.exists_member hacc
    exact List.ne_nil_of_mem (List.mem_filter.mpr ⟨hr, decide_eq_true hclass⟩)
  have hmemory := hhard.memory
  rw [hplanned.planMembers_eq] at hmemory
  have hle : totalOf (·.acceleratorMemoryBytes) (ofClass members .accelerator) ≤
      min req.acceleratorMemoryBytes 0 - 1 := by
    refine totalOf_le ?_ hne fun r hr => ?_
    · linarith [min_le_right req.acceleratorMemoryBytes 0]
    · obtain ⟨d, -, -, i, -, rfl⟩ := mem_pieces.mp (hpieces r (List.mem_of_mem_filter hr))
      rfl
  linarith [min_le_left req.acceleratorMemoryBytes 0]

/-- A path outside the bounds is accepted. -/
theorem plan_over_slow_path (htopology : req.failureDomain.topology ≠ .colocate)
    (hcompute : Demands req .compute) (hstorage : Demands req .storage)
    (hbound : 0 < req.minBandwidthMbps ∨ 0 < req.maxLatencyUs) :
    ¬ (built req (siteFor req .host 0 [slowBackend req])).RequirementsHard req
      ((built req (siteFor req .host 0 [slowBackend req])).compose req).1.paths
      ((built req (siteFor req .host 0 [slowBackend req])).compose req).2.payload := by
  intro hhard
  have hsuits := siteFor_suits hreq .host 0 [slowBackend req]
  obtain ⟨_, _, before, members, hwon, hplanned, hpieces, -⟩ := hsuits.planned hreq
  obtain ⟨r, hr, hclass⟩ := hplanned.exists_member hcompute
  obtain ⟨r', hr', hclass'⟩ := hplanned.exists_member hstorage
  have hnode : r.nodeId ≠ r'.nodeId := by
    refine hsuits.apart htopology r (hpieces r hr) r' (hpieces r' hr') ?_
    rw [hclass, hclass']
    decide
  have hkind : .reachability ∈ kindsBetween r.resourceClass r'.resourceClass := by
    rw [hclass, hclass']
    decide
  obtain ⟨he, hcross⟩ := hplanned.crosses hr hr' hkind hnode
  -- the backend's answer is what the table is left with
  have hanswer : (built req (siteFor req .host 0 [slowBackend req])).resolvePath
      (edgeRequirement req r.nodeId r'.nodeId) =
        some { goodPath req (r.nodeId, r'.nodeId) with
          bandwidthMbps := 0, latencyUs := req.maxLatencyUs + 1 } := by
    rw [resolvePath, (built_tables hreq.small _).2.1]
    rfl
  obtain ⟨p, hp, hbandwidth, hlatency⟩ := hhard.paths _ he _ _ hcross
  rw [hwon.find?_of_some he hcross hanswer] at hp
  cases hp
  rcases hbound with hpos | hpos
  · exact absurd hpos (of_decide_eq_false (hbandwidth (decide_eq_true hpos)))
  · exact absurd (lt_add_one _) (of_decide_eq_false (hlatency (decide_eq_true hpos)))

end NotEnforced

/-- **Which requirements are hard.** For every request: every plan that an engine returns
for it, after whatever operations, has a member of every mandatory class, the accelerator
memory asked for, and paths within both bounds, exactly if the request asks for nothing but
what is enforced, or no engine can accept it. -/
theorem requirements_hard_iff (req : CompositionRequest ℚ) :
    (∀ (cfg : EngineConfig) (ops : List (Op ℚ)),
        (((fresh cfg).run ops).compose req).2.ok = true →
        ((fresh cfg).run ops).RequirementsHard req (((fresh cfg).run ops).compose req).1.paths
          (((fresh cfg).run ops).compose req).2.payload) ↔
      ¬ Acceptable req ∨ RequirementsEnforced req := by
  constructor
  · intro h
    by_contra hnot
    rw [not_or, not_not] at hnot
    obtain ⟨hreq, henforced⟩ := hnot
    -- the sites made for the request are among the engines
    have hhard : ∀ memory backends,
        (built req (siteFor req .host memory backends)).RequirementsHard req
          ((built req (siteFor req .host memory backends)).compose req).1.paths
          ((built req (siteFor req .host memory backends)).compose req).2.payload :=
      fun memory backends => h sampleConfig (siteOps req (siteFor req .host memory backends))
        ((siteFor_suits hreq .host memory backends).compose_ok hreq)
    have haccelerator : ¬ Demands req .accelerator := by
      intro hacc
      obtain ⟨memory, hnot⟩ := exists_plan_without_memory hreq hacc
      exact hnot (hhard memory [])
    refine henforced ⟨?_, ⟨haccelerator, ?_⟩, ?_⟩
    · -- a member of a class is of a class that can be demanded
      intro cls hcls hknown
      obtain ⟨-, -, before, members, -, hplanned, -⟩ := (siteFor_suits hreq .host 0 []).planned hreq
      obtain ⟨r, hr, rfl⟩ := (hhard 0 []).classes cls hcls hknown
      rw [hplanned.planMembers_eq] at hr
      obtain ⟨d, hd, -, hclass⟩ := hplanned.demanded r hr
      rw [← hclass]
      exact cls_mem_plannable hd
    · -- without accelerators the total is zero
      obtain ⟨-, -, before, members, -, hplanned, -⟩ := (siteFor_suits hreq .host 0 []).planned hreq
      have hmemory := (hhard 0 []).memory
      rw [hplanned.planMembers_eq, hplanned.ofClass_eq_nil haccelerator] at hmemory
      exact hmemory
    · by_contra hbounds
      rw [not_or, not_or, not_not, not_and_or, not_le, not_le] at hbounds
      obtain ⟨htopology, ⟨hcompute, hstorage⟩, hbound⟩ := hbounds
      exact plan_over_slow_path hreq htopology hcompute hstorage hbound (hhard 0 [slowBackend req])
  · rintro (hreq | henforced) cfg ops hok
    · exact absurd (acceptable_of_compose_ok (resourcesKeyed_run cfg ops) hok) hreq
    · obtain ⟨selections, combo, before, members, hwon, hplanned⟩ :=
        compose_planned (resourcesKeyed_run cfg ops) hok
      exact henforced.hard hwon hplanned

/-! ### A mandatory class without a member -/

/-- A request for 32 bytes of host memory, in which a network interface is mandatory. -/
def interfaceRequest : CompositionRequest ℚ :=
  { sampleRequest 32 with mandatoryClasses := OrdMap.insert default .nic () }

/-- **A mandatory class is dropped.** The engine has host memory and nothing else, and
accepts the request. -/
theorem interface_dropped :
    ((registered ⟨1⟩ ⟨2⟩).compose interfaceRequest).2.ok = true ∧
      ¬ (registered ⟨1⟩ ⟨2⟩).RequirementsHard interfaceRequest
        ((registered ⟨1⟩ ⟨2⟩).compose interfaceRequest).1.paths
        ((registered ⟨1⟩ ⟨2⟩).compose interfaceRequest).2.payload := by
  have hclasses : ∀ r ∈ (registered ⟨1⟩ ⟨2⟩).planMembers
      ((registered ⟨1⟩ ⟨2⟩).compose interfaceRequest).2.payload,
      r.resourceClass ≠ .nic := by decide +kernel
  refine ⟨by decide +kernel, fun h => ?_⟩
  obtain ⟨r, hr, hclass⟩ := h.classes .nic (by decide +kernel) (by decide)
  exact hclasses r hr hclass

end Engine

end DFabric
