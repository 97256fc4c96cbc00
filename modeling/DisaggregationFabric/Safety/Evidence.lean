import DisaggregationFabric.Engine.Acceptance
import Mathlib.Logic.Equiv.Basic

/-!
# The evidence a plan carries

`BuildGraph` puts both bounds of the request on every edge, and `ValidateGraph` tests each of
them on the edges of one kind only. What it tests is the path table; when a candidate becomes
the best one its paths are asked for again, the answers go into the table and into the plan,
and nothing validates them. So a plan carries evidence within the bounds of its edges if

* every answer of the backends is verified, available, current and within both bounds, and
* where they do not answer, and the entry that was validated goes into the plan, every bound
  that is asked for is one that was tested

(`AnswersServe`). `plan_evidence_iff` says that nothing less will do: for every request that
can be accepted without being put on one node, and all backends that do not serve it, there is
an engine whose plan is not valid on what it carries.
-/

namespace DFabric

namespace Engine

variable {s : Engine ℚ} {req : CompositionRequest ℚ}

/-- The evidence is within the bounds of the edge, whatever the kind of the edge. -/
def KeepsBounds (e : GraphEdge ℚ) (pe : PathEvidence ℚ) : Prop :=
  (0 < e.minBandwidthMbps → e.minBandwidthMbps ≤ pe.bandwidthMbps) ∧
    (0 < e.maxLatencyUs → pe.latencyUs ≤ e.maxLatencyUs)

/-- The evidence for a pair of nodes is verified, available and current, and within the bounds
of every edge of the graph between them. -/
def Covers (s : Engine ℚ) (g : ResourceGraph ℚ) (q : NodeId × NodeId) (pe : PathEvidence ℚ) :
    Prop :=
  pe.verified = true ∧ pe.available = true ∧ pe.evidence.isCurrent = true ∧
    ∀ e ∈ g.edges, s.crossing e = some q → KeepsBounds e pe

/-- **The plan is valid on the evidence it carries**: its graph passes the validation against
the table that `Compose` leaves, it has for each edge between two nodes, in the order of the
edges, evidence that covers the two, and a second `Compose` succeeds. -/
structure EvidenceHolds (s : Engine ℚ) (req : CompositionRequest ℚ) : Prop where
  graph : (validateGraph (s.compose req).2.payload.graph (s.compose req).1.resources
    (s.compose req).1.paths).isOk = true
  paths : List.Forall₂ (s.Covers (s.compose req).2.payload.graph)
    ((s.compose req).2.payload.graph.edges.filterMap s.crossing) (s.compose req).2.payload.paths
  again : ((s.compose req).1.compose req).2.ok = true

/-- What the backends answer. -/
def answerOf (bs : List (Backend ℚ)) (pr : PathRequirement ℚ) : Option (PathEvidence ℚ) :=
  bs.findSome? fun b => b.resolvePath pr

/-- The evidence can be relied on for an edge of any kind, within both bounds. -/
def ServesAll (req : CompositionRequest ℚ) (pe : PathEvidence ℚ) : Prop :=
  pe.verified = true ∧ pe.available = true ∧ pe.evidence.isCurrent = true ∧
    MeetsBandwidth req pe ∧ MeetsLatency req pe

/-- Each bound that is asked for is tested on some edge between the two classes. -/
def BoundsTested (req : CompositionRequest ℚ) (c c' : ResourceClass) : Prop :=
  (0 < req.minBandwidthMbps → .bandwidthBound ∈ kindsBetween c c') ∧
    (0 < req.maxLatencyUs → .latencyBound ∈ kindsBetween c c')

/-- **The answers serve the request**: whatever two nodes two demanded classes that are joined
are on, the answer for these nodes is good in every respect, and no answer is needed. -/
def AnswersServe (bs : List (Backend ℚ)) (req : CompositionRequest ℚ) : Prop :=
  ∀ c c', Demands req c → Demands req c' → kindsBetween c c' ≠ [] → ∀ a b, a ≠ b →
    (∀ pe, answerOf bs (edgeRequirement req a b) = some pe → ServesAll req pe) ∧
      (answerOf bs (edgeRequirement req a b) = none → BoundsTested req c c')

theorem ServesAll.serves {pe : PathEvidence ℚ} (h : ServesAll req pe) (kind : GraphEdgeKind) :
    Serves req kind pe :=
  ⟨h.1, h.2.1, h.2.2.1, fun _ => h.2.2.2.1, fun _ => h.2.2.2.2⟩

/-- All edges of a graph have the bounds of the request. -/
theorem keepsBounds_requiredEdge {a b : Resource ℚ} {kind : GraphEdgeKind} {pe : PathEvidence ℚ} :
    KeepsBounds (requiredEdge req a b kind) pe ↔ MeetsBandwidth req pe ∧ MeetsLatency req pe := by
  simp [KeepsBounds, requiredEdge, MeetsBandwidth, MeetsLatency]

/-- A relation to what a partial function gives holds along a list if the function is defined
on all of it, and the relation holds for each member. -/
theorem forall₂_filterMap_iff {α β : Type} {R : α → β → Prop} {f : α → Option β} {l : List α} :
    List.Forall₂ R l (l.filterMap f) ↔ ∀ a ∈ l, ∃ b, f a = some b ∧ R a b := by
  induction l with
  | nil => simp
  | cons a l ih =>
    rw [List.forall_mem_cons, ← ih]
    cases hf : f a with
    | none =>
      -- without a value for it there are too few
      rw [List.filterMap_cons_none hf]
      refine iff_of_false (fun h => ?_) (by simp)
      have hlength := h.length_eq
      have hle := List.length_filterMap_le f l
      rw [List.length_cons] at hlength
      omega
    | some b =>
      rw [List.filterMap_cons_some hf, List.forall₂_cons]
      simp

/-! ### Answers that serve -/

section Serve

variable {before after : OrdMap Str (PathEvidence ℚ)} {plan : CompositionPlan ℚ}
  {members : List (Resource ℚ)} {selections : List (Selection ℚ)} {combo : List ResourceId}

/-- The table is left with a path within both bounds for every two joined members. -/
theorem Won.servesAll_after (hwon : s.Won req selections combo before after plan)
    (h : s.Planned req before plan members) (hserve : AnswersServe s.backends req)
    {r r' : Resource ℚ} (hr : r ∈ members) (hr' : r' ∈ members) {kind : GraphEdgeKind}
    (hkind : kind ∈ kindsBetween r.resourceClass r'.resourceClass) (hnode : r.nodeId ≠ r'.nodeId) :
    ∃ p, after.find? (pathKey r.nodeId r'.nodeId) = some p ∧ ServesAll req p := by
  obtain ⟨hsome, hnone⟩ := hserve _ _ (h.demanded r hr) (h.demanded r' hr')
    (List.ne_nil_of_mem hkind) _ _ hnode
  rcases hanswer : s.resolvePath (edgeRequirement req r.nodeId r'.nodeId) with _ | pe
  · -- what was validated is still there, and each bound asked for was tested on it
    obtain ⟨hbandwidth, hlatency⟩ := hnone hanswer
    obtain ⟨hbefore, hafter⟩ := hwon.find?_of_none hanswer
    obtain ⟨p, hp⟩ := h.pathFor hr hr' hkind hnode
    have hsame : ∀ kind' ∈ kindsBetween r.resourceClass r'.resourceClass,
        PathFor req before r.nodeId r'.nodeId kind' p := by
      intro kind' hkind'
      obtain ⟨p', hp'⟩ := h.pathFor hr hr' hkind' hnode
      obtain rfl : p' = p := Option.some.inj (hp'.1.found.symm.trans hp.1.found)
      exact hp'
    refine ⟨p, ?_, hp.1.verified, hp.1.available, hp.1.current, fun hpos => ?_, fun hpos => ?_⟩
    · rw [hafter, ← hbefore, hp.1.found]
    · exact (hsame _ (hbandwidth (of_decide_eq_true hpos))).2.1 rfl hpos
    · exact (hsame _ (hlatency (of_decide_eq_true hpos))).2.2 rfl hpos
  · obtain ⟨he, hcross⟩ := h.crosses hr hr' hkind hnode
    exact ⟨pe, hwon.find?_of_some he hcross hanswer, hsome pe hanswer⟩

/-- Planning again succeeds if the graph of the plan is still valid. -/
theorem Won.compose_again {combos : List (List ResourceId)} (hkeyed : s.ResourcesKeyed)
    (hcombos : s.combosFor req = .ok (selections, combos)) (hmem : combo ∈ combos)
    (hwon : s.Won req selections combo before after plan) {paths : OrdMap Str (PathEvidence ℚ)}
    (hvalid : (validateGraph plan.graph s.resources paths).isOk = true) (n : UInt64) :
    (compose { s with paths := paths, nextComp := n } req).2.ok = true := by
  -- the combinations do not depend on the paths
  have hcombos' : combosFor { s with paths := paths, nextComp := n } req =
      .ok (selections, combos) := by
    have hkeyed' : ResourcesKeyed { s with paths := paths, nextComp := n } := hkeyed
    exact (combosFor_ok_iff hkeyed').mpr ((combosFor_ok_iff hkeyed).mp hcombos)
  refine (compose_ok_iff _ _).mpr ⟨selections, combos, hcombos', combo, hmem,
    ⟨hwon.registered, ?_⟩, hwon.scored⟩
  -- nor does any check but that of the graph
  have hfeasible := hwon.feasible
  rw [hwon.graph] at hvalid
  unfold Engine.feasible at hfeasible ⊢
  simp only [Bool.and_eq_true] at hfeasible ⊢
  exact ⟨⟨⟨hfeasible.1.1.1, hvalid⟩, hfeasible.1.2⟩, hfeasible.2⟩

/-- **A table with a path within both bounds for every edge is enough.** -/
theorem evidenceHolds_of_servesAll (hkeyed : s.ResourcesKeyed) (hok : (s.compose req).2.ok = true)
    (hpath : ∀ {selections combo before members},
      s.Won req selections combo before (s.compose req).1.paths (s.compose req).2.payload →
      s.Planned req before (s.compose req).2.payload members →
      ∀ r ∈ members, ∀ r' ∈ members, ∀ kind ∈ kindsBetween r.resourceClass r'.resourceClass,
        r.nodeId ≠ r'.nodeId →
        ∃ p, (s.compose req).1.paths.find? (pathKey r.nodeId r'.nodeId) = some p ∧
          ServesAll req p) :
    s.EvidenceHolds req := by
  obtain ⟨selections, combos, hcombos, combo, hmem, before, hwon⟩ := compose_won hok
  have hplanned := hwon.planned hkeyed hcombos hmem
  have hafter := hpath hwon hplanned
  have hvalid : (validateGraph (s.compose req).2.payload.graph s.resources
      (s.compose req).1.paths).isOk = true := by
    refine isOk_validateGraph_iff.mpr fun e he => ?_
    have hbefore := isOk_validateEdge hplanned.valid e he
    rw [hplanned.graph] at he
    obtain ⟨r, hr, r', hr', kind, hkind, -, rfl⟩ := mem_edges_buildGraph.mp he
    by_cases hnode : r.nodeId = r'.nodeId
    · -- within a node no path is looked at
      rw [validateEdge_same_iff (hplanned.lookup r hr) (hplanned.lookup r' hr') hnode] at hbefore ⊢
      exact hbefore
    · obtain ⟨p, hfound, hp⟩ := hafter r hr r' hr' kind hkind hnode
      exact (validateEdge_iff (hplanned.lookup r hr) (hplanned.lookup r' hr') hnode).mpr
        ⟨p, pathFor_iff.mpr ⟨hfound, hp.serves kind⟩⟩
  obtain ⟨paths, ⟨hrejected, -⟩ | ⟨-, heq, -⟩⟩ := s.compose_cases req
  · rw [hok] at hrejected
    cases hrejected
  refine ⟨?_, ?_, ?_⟩
  · rw [heq] at hvalid ⊢
    exact hvalid
  · -- the paths of the plan are the entries of the pairs that its edges join
    rw [hwon.paths_eq, forall₂_filterMap_iff]
    rintro ⟨a, b⟩ hq
    obtain ⟨e, he, hcross⟩ := List.mem_filterMap.mp hq
    obtain ⟨r, hr, r', hr', kind, hkind, -, rfl, rfl, hne⟩ :=
      hplanned.members_of_crosses he (crossing_eq_some_iff.mp hcross)
    obtain ⟨p, hfound, hp⟩ := hafter r hr r' hr' kind hkind hne
    refine ⟨p, hfound, hp.1, hp.2.1, hp.2.2.1, fun e' he' hcross' => ?_⟩
    -- and all of them have the bounds of the request
    obtain ⟨_, -, _, -, _, -, rfl, -⟩ :=
      hplanned.members_of_crosses he' (crossing_eq_some_iff.mp hcross')
    exact keepsBounds_requiredEdge.mpr hp.2.2.2
  · rw [heq] at hvalid ⊢
    exact hwon.compose_again hkeyed hcombos hmem hvalid _

/-- Two joined members have evidence within both bounds, if the plan is valid on what it
carries. -/
theorem EvidenceHolds.servesAll (h : s.EvidenceHolds req)
    (hwon : s.Won req selections combo before (s.compose req).1.paths (s.compose req).2.payload)
    (hplanned : s.Planned req before (s.compose req).2.payload members) {r r' : Resource ℚ}
    (hr : r ∈ members) (hr' : r' ∈ members) {kind : GraphEdgeKind}
    (hkind : kind ∈ kindsBetween r.resourceClass r'.resourceClass) (hnode : r.nodeId ≠ r'.nodeId) :
    ∃ p, (s.compose req).1.paths.find? (pathKey r.nodeId r'.nodeId) = some p ∧
      ServesAll req p := by
  obtain ⟨he, hcross⟩ := hplanned.crosses hr hr' hkind hnode
  have hpair := crossing_eq_some_iff.mpr hcross
  have hpaths := h.paths
  rw [hwon.paths_eq, forall₂_filterMap_iff] at hpaths
  obtain ⟨p, hfound, hverified, havailable, hcurrent, hbounds⟩ :=
    hpaths _ (List.mem_filterMap.mpr ⟨_, he, hpair⟩)
  exact ⟨p, hfound, hverified, havailable, hcurrent,
    keepsBounds_requiredEdge.mp (hbounds _ he hpair)⟩

end Serve

/-! ### An answer that does not -/

/-- Two places can be moved to any two others. -/
theorem exists_perm_map {α : Type} [DecidableEq α] {x y a b : α} (hxy : x ≠ y) (hab : a ≠ b) :
    ∃ σ : Equiv.Perm α, σ x = a ∧ σ y = b := by
  have hmoved : Equiv.swap x a y ≠ a := by
    intro h
    have hsame := h.trans (Equiv.swap_apply_left x a).symm
    exact hxy ((Equiv.swap x a).injective hsame).symm
  refine ⟨(Equiv.swap x a).trans (Equiv.swap (Equiv.swap x a y) b), ?_, ?_⟩
  · rw [Equiv.trans_apply, Equiv.swap_apply_left,
      Equiv.swap_apply_of_ne_of_ne hmoved.symm hab]
  · rw [Equiv.trans_apply, Equiv.swap_apply_left]

/-- A path that passes on edges of these kinds, and is outside every bound that they do not
test. -/
def lapsedPath (req : CompositionRequest ℚ) (kinds : List GraphEdgeKind) (q : NodeId × NodeId) :
    PathEvidence ℚ :=
  { goodPath req q with
    bandwidthMbps := if .bandwidthBound ∈ kinds then req.minBandwidthMbps else 0
    latencyUs := if .latencyBound ∈ kinds then 0 else req.maxLatencyUs + 1 }

theorem serves_lapsedPath {kinds : List GraphEdgeKind} {kind : GraphEdgeKind} (h : kind ∈ kinds)
    (q : NodeId × NodeId) : Serves req kind (lapsedPath req kinds q) := by
  refine ⟨rfl, rfl, rfl, ?_, ?_⟩
  · rintro rfl _
    rw [lapsedPath, if_pos h]
    exact decide_eq_false (lt_irrefl req.minBandwidthMbps)
  · rintro rfl hpos
    rw [lapsedPath, if_pos h]
    exact decide_eq_false (lt_asymm (of_decide_eq_true hpos))

/-- A bound that is asked for and not tested is broken. -/
theorem not_servesAll_lapsedPath {c c' : ResourceClass} (h : ¬ BoundsTested req c c')
    (q : NodeId × NodeId) : ¬ ServesAll req (lapsedPath req (kindsBetween c c') q) := by
  rintro ⟨-, -, -, hbandwidth, hlatency⟩
  refine h ⟨fun hpos => ?_, fun hpos => ?_⟩
  · by_contra hkind
    have hlt := hbandwidth (decide_eq_true hpos)
    rw [lapsedPath, if_neg hkind] at hlt
    exact of_decide_eq_false hlt hpos
  · by_contra hkind
    have hlt := hlatency (decide_eq_true hpos)
    rw [lapsedPath, if_neg hkind] at hlt
    exact of_decide_eq_false hlt (lt_add_one req.maxLatencyUs)

/-- The node of a class. -/
def classNode (σ : Equiv.Perm NodeId) (cls : ResourceClass) : NodeId := σ ⟨(keyOf cls 0).value⟩

theorem classNode_injective (σ : Equiv.Perm NodeId) : Function.Injective (classNode σ) := by
  intro c c' h
  have hkey := StrongId.mk.inj (σ.injective h)
  exact (keyOf_injective (by decide) (by decide) (StrongId.value_injective hkey)).1

/-- A site with a node for each class, and a path between those of two classes that is outside
the bounds that are not tested between them. -/
def classSite (req : CompositionRequest ℚ) (bs : List (Backend ℚ)) (σ : Equiv.Perm NodeId)
    (c c' : ResourceClass) : Site :=
  { siteFor req .host 0 bs with
    nodeOf := fun cls _ => classNode σ cls
    path := fun q =>
      if q = (classNode σ c, classNode σ c') then lapsedPath req (kindsBetween c c') q
      else goodPath req q
    path_nodes := by
      intro q
      split <;> exact ⟨rfl, rfl⟩ }

section ClassSite

variable {bs : List (Backend ℚ)} {σ : Equiv.Perm NodeId} {c c' : ResourceClass}

theorem nodeId_of_classSite {r : Resource ℚ} (h : r ∈ pieces req (classSite req bs σ c c')) :
    r.nodeId = classNode σ r.resourceClass := by
  obtain ⟨d, -, -, i, -, rfl⟩ := mem_pieces.mp h
  rfl

/-- Different classes are on different nodes. -/
theorem nodeId_ne_of_classSite {a b : Resource ℚ} (ha : a ∈ pieces req (classSite req bs σ c c'))
    (hb : b ∈ pieces req (classSite req bs σ c c')) (hclass : a.resourceClass ≠ b.resourceClass) :
    a.nodeId ≠ b.nodeId := by
  rw [nodeId_of_classSite ha, nodeId_of_classSite hb]
  exact fun hnode => hclass (classNode_injective σ hnode)

/-- Such a site suits a request that does not ask for one place, if two classes are
demanded. -/
theorem classSite_suits (hreq : Acceptable req) (bs : List (Backend ℚ)) (σ : Equiv.Perm NodeId)
    (htopology : req.failureDomain.topology ≠ .colocate) (hc : Demands req c)
    (hc' : Demands req c') (hne : c ≠ c') : Suits req (classSite req bs σ c c') where
  architecture := architectureAllowed hreq rfl
  together := fun h => absurd h htopology
  apart := fun _ _ ha _ hb => nodeId_ne_of_classSite ha hb
  spread := by
    intro hspread
    obtain ⟨-, hrisk⟩ := topology_of_spread hspread
    obtain ⟨d, hd, hmandatory, rfl⟩ := hc
    obtain ⟨d', hd', hmandatory', rfl⟩ := hc'
    -- the first resources of the two classes
    have ha : piece req (classSite req bs σ d.cls d'.cls) d.cls 0 ∈
        pieces req (classSite req bs σ d.cls d'.cls) :=
      mem_pieces.mpr ⟨d, hd, hmandatory, 0, wanted_pos d, rfl⟩
    have hb : piece req (classSite req bs σ d.cls d'.cls) d'.cls 0 ∈
        pieces req (classSite req bs σ d.cls d'.cls) :=
      mem_pieces.mpr ⟨d', hd', hmandatory', 0, wanted_pos d', rfl⟩
    exact ⟨_, ha, _, hb, nodeId_ne_of_classSite ha hb hne,
      (domain_eq rfl hrisk ha).trans (domain_eq rfl hrisk hb).symm⟩
  risk := fun hrisk _ ha _ hb => eq_of_domain_eq hreq.small rfl hrisk ha hb
  serves := by
    intro a ha b hb _ kind hkind
    show Serves req kind (if (a.nodeId, b.nodeId) = (classNode σ c, classNode σ c') then
      lapsedPath req (kindsBetween c c') (a.nodeId, b.nodeId) else goodPath req (a.nodeId, b.nodeId))
    split
    swap
    · exact serves_goodPath req _ kind
    -- only members of the two classes are on the two nodes
    next hpair =>
    rw [Prod.mk.injEq, nodeId_of_classSite ha, nodeId_of_classSite hb] at hpair
    obtain rfl : a.resourceClass = c := classNode_injective σ hpair.1
    obtain rfl : b.resourceClass = c' := classNode_injective σ hpair.2
    exact serves_lapsedPath hkind _

end ClassSite

/-- **Evidence that does not serve is carried into a plan.** -/
theorem exists_evidence_lost (hreq : Acceptable req)
    (htopology : req.failureDomain.topology ≠ .colocate) {bs : List (Backend ℚ)}
    (hnot : ¬ AnswersServe bs req) :
    ∃ site : Site, site.backends = bs ∧ ((built req site).compose req).2.ok = true ∧
      ¬ (built req site).EvidenceHolds req := by
  unfold AnswersServe at hnot
  push Not at hnot
  obtain ⟨c, c', hc, hc', hkinds, a, b, hab, hlost⟩ := hnot
  obtain ⟨kind, hkind⟩ := List.exists_mem_of_ne_nil _ hkinds
  have hne : c ≠ c' := by
    rintro rfl
    rw [kindsBetween_self] at hkind
    exact List.not_mem_nil hkind
  -- the two classes are put on the two nodes
  have hkey : (⟨(keyOf c 0).value⟩ : NodeId) ≠ ⟨(keyOf c' 0).value⟩ := fun h =>
    hne (classNode_injective (Equiv.refl _) h)
  obtain ⟨σ, hσ, hσ'⟩ := exists_perm_map hkey hab
  have hsuits := classSite_suits hreq bs σ htopology hc hc' hne
  refine ⟨classSite req bs σ c c', rfl, hsuits.compose_ok hreq, fun hholds => ?_⟩
  obtain ⟨_, _, before, members, hwon, hplanned, hpieces, -⟩ := hsuits.planned hreq
  obtain ⟨r, hr, rfl⟩ := hplanned.exists_member hc
  obtain ⟨r', hr', rfl⟩ := hplanned.exists_member hc'
  obtain rfl : r.nodeId = a := (nodeId_of_classSite (hpieces r hr)).trans hσ
  obtain rfl : r'.nodeId = b := (nodeId_of_classSite (hpieces r' hr')).trans hσ'
  -- the plan would have to carry evidence within both bounds for them
  obtain ⟨p, hfound, hserves⟩ := hholds.servesAll hwon hplanned hr hr' hkind hab
  obtain ⟨he, hcross⟩ := hplanned.crosses hr hr' hkind hab
  obtain ⟨-, hbackends, htable⟩ :=
    built_tables hreq.small (classSite req bs σ r.resourceClass r'.resourceClass)
  have hresolve : (built req (classSite req bs σ r.resourceClass r'.resourceClass)).resolvePath
      (edgeRequirement req r.nodeId r'.nodeId) =
        answerOf bs (edgeRequirement req r.nodeId r'.nodeId) := by
    rw [resolvePath, hbackends]
    rfl
  rcases hanswer : answerOf bs (edgeRequirement req r.nodeId r'.nodeId) with _ | pe
  · -- without an answer it carries the path that was published
    rw [hanswer] at hresolve
    have hpath : (classSite req bs σ r.resourceClass r'.resourceClass).path (r.nodeId, r'.nodeId) =
        lapsedPath req (kindsBetween r.resourceClass r'.resourceClass) (r.nodeId, r'.nodeId) := by
      refine if_pos ?_
      rw [nodeId_of_classSite (hpieces r hr), nodeId_of_classSite (hpieces r' hr')]
    rw [(hwon.find?_of_none hresolve).2, htable r (hpieces r hr) r' (hpieces r' hr'), hpath]
      at hfound
    cases hfound
    refine not_servesAll_lapsedPath (hlost ?_).2 _ hserves
    rintro pe hpe
    rw [hanswer] at hpe
    cases hpe
  · -- the answer is what the table is left with
    rw [hanswer] at hresolve
    rw [hwon.find?_of_some he hcross hresolve] at hfound
    cases hfound
    have hall : ∀ pe', answerOf bs (edgeRequirement req r.nodeId r'.nodeId) = some pe' →
        ServesAll req pe' := by
      intro pe' hpe'
      rw [hanswer] at hpe'
      cases hpe'
      exact hserves
    have hnone := (hlost hall).1
    rw [hanswer] at hnone
    cases hnone

/-- **When a plan is valid on the evidence it carries.** For all backends, whatever they
answer, and every request: every plan that an engine with these backends returns for it,
after whatever operations, is valid on the evidence it carries, and planning again
succeeds, exactly if the answers serve the request, or it puts all members on one node, or no
engine can accept it. -/
theorem plan_evidence_iff (bs : List (Backend ℚ)) (req : CompositionRequest ℚ) :
    (∀ (cfg : EngineConfig) (ops : List (Op ℚ)), ((fresh cfg).run ops).backends = bs →
        (((fresh cfg).run ops).compose req).2.ok = true →
        ((fresh cfg).run ops).EvidenceHolds req) ↔
      ¬ Acceptable req ∨ req.failureDomain.topology = .colocate ∨ AnswersServe bs req := by
  constructor
  · intro h
    by_contra hnot
    rw [not_or, not_or, not_not] at hnot
    obtain ⟨hreq, htopology, hserve⟩ := hnot
    obtain ⟨site, hbackends, hok, hlost⟩ := exists_evidence_lost hreq htopology hserve
    exact hlost (h sampleConfig (siteOps req site)
      ((built_tables hreq.small site).2.1.trans hbackends) hok)
  · rintro (hreq | htopology | hserve) cfg ops rfl hok
    · exact absurd (acceptable_of_compose_ok (resourcesKeyed_run cfg ops) hok) hreq
    · -- there is no edge between nodes
      refine evidenceHolds_of_servesAll (resourcesKeyed_run cfg ops) hok ?_
      intro _ _ _ members _ hplanned r hr r' hr' _ _ hnode
      have hchecked := isOk_validateFailureDomains_iff.mp hplanned.domains
      rw [PlacementChecked, htopology] at hchecked
      exact absurd (hchecked r hr r' hr') hnode
    · refine evidenceHolds_of_servesAll (resourcesKeyed_run cfg ops) hok ?_
      intro _ _ _ members hwon hplanned r hr r' hr' kind hkind hnode
      exact hwon.servesAll_after hplanned hserve hr hr' hkind hnode

/-! ### A path that slows down -/

/-- A backend that answers for every pair with the given bandwidth. -/
def linkBackend (mbps : ℚ) : Backend ℚ where
  discoverNodes := []
  discoverResources := []
  resolvePath pr := some
    { (default : PathEvidence ℚ) with
      requirement := pr
      available := true
      bandwidthMbps := mbps
      verified := true
      evidence := { (default : Evidence ℚ) with state := .fresh, maxAgeMs := 3600000 } }

/-- A compute unit on one node and a byte of storage on another. -/
def twoNodes : List (Op ℚ) := [
  .registerNode { (default : Node ℚ) with id := ⟨1⟩ },
  .registerNode { (default : Node ℚ) with id := ⟨2⟩ },
  .registerResource { sampleMemory ⟨1⟩ 0 with
    resourceClass := .compute
    capacity := { (default : Capacity ℚ) with computeUnits := 1 } },
  .registerResource { sampleMemory ⟨2⟩ 0 with
    resourceClass := .storage
    nodeId := ⟨2⟩
    capacity := { (default : Capacity ℚ) with storageBytes := 1 } }]

/-- The path is discovered with a bandwidth of 1000, then the bandwidth drops to 1. -/
def slowedDown : Engine ℚ :=
  (fresh sampleConfig).run
    (twoNodes ++ [.addBackend (linkBackend 1000), .discover, .backendsAnswer [linkBackend 1]])

/-- A request for both, with a bandwidth of 100. -/
def linkRequest : CompositionRequest ℚ :=
  { (default : CompositionRequest ℚ) with
    computeUnits := 1
    storageBytes := 1
    minBandwidthMbps := 100 }

/-- **A plan carries a path that it would not have passed with.** -/
theorem slowedDown_accepted :
    (slowedDown.compose linkRequest).2.ok = true ∧ ¬ slowedDown.EvidenceHolds linkRequest ∧
      ((slowedDown.compose linkRequest).2.payload.paths.map (·.bandwidthMbps)) = [1, 1] := by
  refine ⟨by decide +kernel, fun h => ?_, by decide +kernel⟩
  have hrejected : ((slowedDown.compose linkRequest).1.compose linkRequest).2.ok = false := by
    decide +kernel
  exact Bool.false_ne_true (hrejected.symm.trans h.again)

end Engine

end DFabric
