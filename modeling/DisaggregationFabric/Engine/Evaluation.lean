import DisaggregationFabric.Engine.Soundness

/-!
# How the evaluation ends

Two results about the loop over the candidates of a request, for any backends.

* It ends with a plan exactly when some candidate passes every check against the table as
  it is before the call (`compose_ok_iff`): as long as no candidate has won, the table is
  the old one, and the first one that passes wins.
* The plan and the table it leaves are those of the last candidate that won (`Won`). That
  candidate was validated against the table of the moment; then its paths were asked for
  again, and the answers went into the table and the plan. A pair the backends do not
  answer for keeps the entry it had before the call (`Won.find?_of_none`).
-/

namespace DFabric

variable {D : Type}

/-! ### Edges of a graph -/

/-- The edges that `BuildGraph` puts between members of two classes. -/
def kindsBetween : ResourceClass → ResourceClass → List GraphEdgeKind
  | .compute, .accelerator => [.reachability, .compatibility]
  | .accelerator, .hostMemory | .accelerator, .expandedMemory =>
    [.reachability, .bandwidthBound, .latencyBound]
  | .accelerator, .nic | .accelerator, .networkEndpoint | .compute, .storage =>
    [.reachability, .bandwidthBound]
  | _, _ => []

namespace Engine

/-- One pair of loops over the set, seen from an edge. -/
theorem mem_between_iff {req : CompositionRequest D} (p q : ResourceClass → Bool)
    {set : List (Resource D)} {kinds : List GraphEdgeKind} {e : GraphEdge D} :
    (e ∈ (set.filter fun a => p a.resourceClass).flatMap fun a =>
        (set.filter fun b => q b.resourceClass && b.id != a.id).flatMap fun b =>
          kinds.flatMap fun kind => if a.id = b.id then [] else [requiredEdge req a b kind]) ↔
      ∃ a ∈ set, ∃ b ∈ set, ∃ kind ∈ kinds, a.id ≠ b.id ∧ p a.resourceClass = true ∧
        q b.resourceClass = true ∧ e = requiredEdge req a b kind := by
  constructor
  · -- the three loops from the outside to the inside
    intro h
    obtain ⟨a, ha, h⟩ := List.mem_flatMap.mp h
    obtain ⟨b, hb, h⟩ := List.mem_flatMap.mp h
    obtain ⟨kind, hkind, h⟩ := List.mem_flatMap.mp h
    obtain ⟨ha, hp⟩ := List.mem_filter.mp ha
    obtain ⟨hb, hq⟩ := List.mem_filter.mp hb
    split at h
    · exact absurd h List.not_mem_nil
    · next hne =>
      rw [Bool.and_eq_true] at hq
      exact ⟨a, ha, b, hb, kind, hkind, hne, hp, hq.1, List.mem_singleton.mp h⟩
  · rintro ⟨a, ha, b, hb, kind, hkind, hne, hp, hq, rfl⟩
    exact mem_between p q ha hb hp hq hne kind hkind

/-- **The edges of a graph.** -/
theorem mem_edges_buildGraph {req : CompositionRequest D} {set : List (Resource D)}
    {e : GraphEdge D} :
    e ∈ (buildGraph req set).edges ↔
      ∃ a ∈ set, ∃ b ∈ set, ∃ kind ∈ kindsBetween a.resourceClass b.resourceClass,
        a.id ≠ b.id ∧ e = requiredEdge req a b kind := by
  -- the four pairs of loops, one after the other
  have hedges : e ∈ (buildGraph req set).edges ↔ _ := List.mem_append.trans (or_congr_left
    (List.mem_append.trans (or_congr_left List.mem_append)))
  rw [hedges]
  constructor
  · rintro (((h | h) | h) | h)
    · obtain ⟨a, ha, b, hb, kind, hkind, hne, hp, hq, heq⟩ :=
        (mem_between_iff (· = .compute) (· = .accelerator)).mp h
      refine ⟨a, ha, b, hb, kind, ?_, hne, heq⟩
      rw [of_decide_eq_true hp, of_decide_eq_true hq]
      exact hkind
    · obtain ⟨a, ha, b, hb, kind, hkind, hne, hp, hq, heq⟩ :=
        (mem_between_iff (· = .accelerator) (fun c => c = .hostMemory ∨ c = .expandedMemory)).mp h
      refine ⟨a, ha, b, hb, kind, ?_, hne, heq⟩
      rw [of_decide_eq_true hp]
      rcases of_decide_eq_true hq with hq | hq <;> rw [hq] <;> exact hkind
    · obtain ⟨a, ha, b, hb, kind, hkind, hne, hp, hq, heq⟩ :=
        (mem_between_iff (· = .accelerator) (fun c => c = .nic ∨ c = .networkEndpoint)).mp h
      refine ⟨a, ha, b, hb, kind, ?_, hne, heq⟩
      rw [of_decide_eq_true hp]
      rcases of_decide_eq_true hq with hq | hq <;> rw [hq] <;> exact hkind
    · obtain ⟨a, ha, b, hb, kind, hkind, hne, hp, hq, heq⟩ :=
        (mem_between_iff (· = .compute) (· = .storage)).mp h
      refine ⟨a, ha, b, hb, kind, ?_, hne, heq⟩
      rw [of_decide_eq_true hp, of_decide_eq_true hq]
      exact hkind
  · rintro ⟨a, ha, b, hb, kind, hkind, hne, rfl⟩
    obtain ⟨h₁, h₂, h₃, h₄⟩ := requiredEdge_mem req ha hb hne
    rw [← hedges]
    -- the pairs of classes that `kindsBetween` lists
    unfold kindsBetween at hkind
    split at hkind
    · next hp hq => exact h₁ hp hq kind hkind
    · next hp hq => exact h₂ hp (Or.inl hq) kind hkind
    · next hp hq => exact h₂ hp (Or.inr hq) kind hkind
    · next hp hq => exact h₃ hp (Or.inl hq) kind hkind
    · next hp hq => exact h₃ hp (Or.inr hq) kind hkind
    · next hp hq => exact h₄ hp hq kind hkind
    · exact absurd hkind List.not_mem_nil

/-! ### Validation of a graph -/

variable [Double D] {s : Engine D} {req : CompositionRequest D}

/-- A graph is validated when each of its edges is. -/
theorem isOk_validateGraph_iff {g : ResourceGraph D} {resources : UMap ResourceId (Resource D)}
    {paths : OrdMap Str (PathEvidence D)} :
    (validateGraph g resources paths).isOk = true ↔
      ∀ e ∈ g.edges, (validateEdge resources paths e).isOk = true := by
  refine ⟨isOk_validateEdge, fun h => ?_⟩
  unfold validateGraph
  generalize g.edges = edges at h
  -- the first edge that fails decides
  induction edges with
  | nil => rfl
  | cons e edges ih =>
    rw [List.forall_mem_cons] at h
    unfold firstFailure
    rcases hv : validateEdge resources paths e with err | ⟨⟨⟩⟩
    · rw [hv] at h
      cases h.1
    · exact ih h.2

/-- The path of the table may be relied on for an edge of the given kind. -/
def PathFor (req : CompositionRequest D) (paths : OrdMap Str (PathEvidence D)) (a b : NodeId)
    (kind : GraphEdgeKind) (p : PathEvidence D) : Prop :=
  UsablePath paths a b p ∧ (kind = .bandwidthBound → MeetsBandwidth req p) ∧
    (kind = .latencyBound → MeetsLatency req p)

/-- The evidence is good enough for an edge of the given kind. -/
def Serves (req : CompositionRequest D) (kind : GraphEdgeKind) (pe : PathEvidence D) : Prop :=
  pe.verified = true ∧ pe.available = true ∧ pe.evidence.isCurrent = true ∧
    (kind = .bandwidthBound → MeetsBandwidth req pe) ∧ (kind = .latencyBound → MeetsLatency req pe)

theorem pathFor_iff {paths : OrdMap Str (PathEvidence D)} {a b : NodeId} {kind : GraphEdgeKind}
    {pe : PathEvidence D} :
    PathFor req paths a b kind pe ↔ paths.find? (pathKey a b) = some pe ∧ Serves req kind pe :=
  ⟨fun ⟨⟨hfound, hverified, havailable, hcurrent⟩, hbounds⟩ =>
    ⟨hfound, hverified, havailable, hcurrent, hbounds⟩,
  fun ⟨hfound, hverified, havailable, hcurrent, hbounds⟩ =>
    ⟨⟨hfound, hverified, havailable, hcurrent⟩, hbounds⟩⟩

/-- An edge between two nodes is validated when the table has a path for it. -/
theorem validateEdge_iff {paths : OrdMap Str (PathEvidence D)} {a b : Resource D}
    {kind : GraphEdgeKind} (ha : s.resources.lookup a.id = some a)
    (hb : s.resources.lookup b.id = some b) (hnode : a.nodeId ≠ b.nodeId) :
    (validateEdge s.resources paths (requiredEdge req a b kind)).isOk = true ↔
      ∃ p, PathFor req paths a.nodeId b.nodeId kind p := by
  refine ⟨usablePath_of_validateEdge ha hb hnode, ?_⟩
  rintro ⟨p, ⟨hfound, hverified, havailable, hcurrent⟩, hbandwidth, hlatency⟩
  have ha' : s.resources.lookup (requiredEdge req a b kind).source = some a := ha
  have hb' : s.resources.lookup (requiredEdge req a b kind).target = some b := hb
  -- a current path is not a stale one, so both checks of its age pass
  have hstate : p.evidence.state ≠ .stale := by
    intro hstale
    rw [Evidence.isCurrent, hstale] at hcurrent
    cases hcurrent
  unfold validateEdge
  rw [ha', hb']
  dsimp only
  rw [if_neg hnode, hfound]
  dsimp only
  rw [hverified, havailable, if_neg (by decide), hcurrent, if_neg (by simpa using hstate), if_neg,
    if_neg]
  · rfl
  · rintro ⟨hkind, hpos, hlt⟩
    rw [requiredEdge] at hlt hpos
    rw [hlatency hkind hpos] at hlt
    cases hlt
  · rintro ⟨hkind, hpos, hlt⟩
    rw [requiredEdge] at hlt hpos
    rw [hbandwidth hkind hpos] at hlt
    cases hlt

/-! ### When there is a plan -/

variable {selections : List (Selection D)}

/-- The combination passes the evaluation and has a score above that of no plan. -/
def Wins (s : Engine D) (req : CompositionRequest D) (selections : List (Selection D))
    (combo : List ResourceId) : Prop :=
  s.Passes req selections combo ∧
    Double.lt (Double.ofRat (-1)) (rank (combo.filterMap s.resources.lookup)).total = true

/-- A plan is replaced by a plan. -/
theorem ok_foldl_considerCombo (combos : List (List ResourceId))
    {best : OrdMap Str (PathEvidence D) × Result (CompositionPlan D)} (h : best.2.ok = true) :
    (combos.foldl (s.considerCombo req selections) best).2.ok = true := by
  induction combos generalizing best with
  | nil => exact h
  | cons combo combos ih =>
    refine ih ?_
    rcases s.considerCombo_cases req selections best combo with ⟨-, heq⟩ | ⟨-, heq⟩
    · rw [heq, h]
    · rw [heq]
      rfl

/-- The first combination that passes wins: up to it nothing has been written. -/
theorem foldl_considerCombo_ok_iff (combos : List (List ResourceId)) :
    (combos.foldl (s.considerCombo req selections) (s.paths, noPlan)).2.ok = true ↔
      ∃ combo ∈ combos, s.Wins req selections combo := by
  induction combos with
  | nil =>
    -- `noPlan` is no success
    refine iff_of_false (fun h => by cases h) ?_
    rintro ⟨combo, hmem, -⟩
    exact List.not_mem_nil hmem
  | cons combo combos ih =>
    rw [List.foldl_cons, List.exists_mem_cons_iff]
    rcases s.considerCombo_cases req selections (s.paths, noPlan) combo with
      ⟨hfalse, heq⟩ | ⟨htrue, heq⟩
    · -- no plan yet, so the table is the one before the call for the rest too
      have hnot : ¬ s.Wins req selections combo := by
        rintro ⟨⟨hall, hfeasible⟩, hlt⟩
        rw [hall, hfeasible, Bool.and_self, Bool.true_and] at hfalse
        exact Bool.false_ne_true (hfalse.symm.trans hlt)
      rw [heq, ih, or_iff_right hnot]
    · rw [Bool.and_eq_true, Bool.and_eq_true] at htrue
      rw [heq]
      exact iff_of_true (ok_foldl_considerCombo combos rfl) (Or.inl htrue)

/-- **When `Compose` succeeds**: when one of the combinations passes every check against
the path table as it is before the call. -/
theorem compose_ok_iff (s : Engine D) (req : CompositionRequest D) :
    (s.compose req).2.ok = true ↔
      ∃ selections combos, s.combosFor req = .ok (selections, combos) ∧
        ∃ combo ∈ combos, s.Wins req selections combo := by
  unfold compose
  rcases s.combosFor req with ⟨reason, notes⟩ | ⟨selections, combos⟩
  · -- without combinations there is nothing to win
    refine iff_of_false (fun h => by cases h) ?_
    rintro ⟨selections, combos, h, -⟩
    cases h
  · -- the id of the plan is given after the decision
    have hfinish : ∀ r, (s.finish req r).2.ok = r.2.ok := by
      intro r
      unfold finish
      split
      · rfl
      · next hr => exact (Bool.eq_false_of_not_eq_true hr).symm
    dsimp only
    rw [hfinish, foldl_considerCombo_ok_iff]
    constructor
    · exact fun h => ⟨selections, combos, rfl, h⟩
    · rintro ⟨selections', combos', heq, h⟩
      cases heq
      exact h

/-! ### What a winning candidate writes -/

section Writes

omit [Double D]

variable {acc : OrdMap Str (PathEvidence D) × List (PathEvidence D)} {e : GraphEdge D}
  {a b : NodeId}

/-- An edge leaves the entry of a pair alone that the backends do not answer for. -/
theorem find?_resolveEdge_of_none (hnone : s.resolvePath (edgeRequirement req a b) = none) :
    (s.resolveEdge req acc e).1.find? (pathKey a b) = acc.1.find? (pathKey a b) := by
  rcases s.resolveEdge_cases req acc e with ⟨heq, -⟩ | ⟨a', b', pe', -, hpe', heq⟩
  · rw [heq]
  · rw [heq, OrdMap.find?_insert, if_neg]
    intro hkey
    obtain ⟨rfl, rfl⟩ := pathKey_injective hkey
    rw [hnone] at hpe'
    cases hpe'

theorem find?_foldl_resolveEdge_of_none (edges : List (GraphEdge D))
    (hnone : s.resolvePath (edgeRequirement req a b) = none) :
    (edges.foldl (s.resolveEdge req) acc).1.find? (pathKey a b) = acc.1.find? (pathKey a b) := by
  induction edges generalizing acc with
  | nil => rfl
  | cons e edges ih => rw [List.foldl_cons, ih, find?_resolveEdge_of_none hnone]

/-- The pair of nodes that an edge joins, if it joins two. -/
def crossing (s : Engine D) (e : GraphEdge D) : Option (NodeId × NodeId) :=
  match s.resources.lookup e.source, s.resources.lookup e.target with
  | some source, some target =>
    if source.nodeId = target.nodeId then none else some (source.nodeId, target.nodeId)
  | _, _ => none

theorem crossing_eq_some_iff : s.crossing e = some (a, b) ↔ s.Crosses e a b := by
  unfold crossing Crosses
  -- an edge with an unknown end joins nothing
  rcases s.resources.lookup e.source with _ | source
  · simp
  rcases s.resources.lookup e.target with _ | target
  · simp
  by_cases hnode : source.nodeId = target.nodeId
  · -- nor does one within a node
    simp only [hnode, if_true, Option.some.injEq]
    refine iff_of_false (by simp) ?_
    rintro ⟨_, _, rfl, rfl, ha, hb, hne⟩
    exact hne (ha.symm.trans (hnode.trans hb))
  · simp only [hnode, if_false, Option.some.injEq, Prod.mk.injEq]
    constructor
    · rintro ⟨rfl, rfl⟩
      exact ⟨source, target, rfl, rfl, rfl, rfl, hnode⟩
    · rintro ⟨_, _, rfl, rfl, ha, hb, -⟩
      exact ⟨ha, hb⟩

/-- An edge adds the entry of the pair it joins, as it is afterwards. -/
theorem used_resolveEdge (s : Engine D) (req : CompositionRequest D)
    (acc : OrdMap Str (PathEvidence D) × List (PathEvidence D)) (e : GraphEdge D) :
    (s.resolveEdge req acc e).2 = acc.2 ++ ((s.crossing e).bind fun q =>
      (s.resolveEdge req acc e).1.find? (pathKey q.1 q.2)).toList := by
  unfold resolveEdge crossing
  -- the cases are those of `resolveEdge`: an unknown end, one node, two nodes
  rcases s.resources.lookup e.source with _ | source
  · simp
  rcases s.resources.lookup e.target with _ | target
  · simp
  dsimp only
  by_cases hnode : source.nodeId = target.nodeId
  · rw [if_pos hnode, if_pos hnode]
    simp
  rw [if_neg hnode, if_neg hnode]
  rcases s.resolvePath (edgeRequirement req source.nodeId target.nodeId) with _ | pe
  · -- without an answer it is the entry of the table, if there is one
    dsimp only
    cases hfind : acc.1.find? (pathKey source.nodeId target.nodeId) with
    | none => simp [hfind]
    | some pe => simp [hfind]
  · simp [OrdMap.find?_insert]

/-- **The paths of a plan**: for each edge between two nodes, in the order of the edges, the
entry that the table is left with. -/
theorem used_foldl_resolveEdge (edges : List (GraphEdge D))
    (acc : OrdMap Str (PathEvidence D) × List (PathEvidence D)) :
    (edges.foldl (s.resolveEdge req) acc).2 = acc.2 ++
      (edges.filterMap s.crossing).filterMap fun q =>
        (edges.foldl (s.resolveEdge req) acc).1.find? (pathKey q.1 q.2) := by
  induction edges generalizing acc with
  | nil => exact (List.append_nil _).symm
  | cons e edges ih =>
    rw [List.foldl_cons, ih, used_resolveEdge, List.append_assoc]
    congr 1
    cases hcross : s.crossing e with
    | none => rw [List.filterMap_cons_none hcross]; rfl
    | some q =>
      obtain ⟨a, b⟩ := q
      -- later edges write the same answer to this pair, or nothing
      have hkept : (edges.foldl (s.resolveEdge req) (s.resolveEdge req acc e)).1.find?
          (pathKey a b) = (s.resolveEdge req acc e).1.find? (pathKey a b) := by
        rcases hanswer : s.resolvePath (edgeRequirement req a b) with _ | pe
        · exact find?_foldl_resolveEdge_of_none edges hanswer
        · have hfound : (s.resolveEdge req acc e).1.find? (pathKey a b) = some pe :=
            find?_resolveEdge (crossing_eq_some_iff.mp hcross) hanswer
          rw [hfound, Current.foldl_resolveEdge hanswer edges hfound]
      rw [List.filterMap_cons_some hcross, List.filterMap_cons, hkept, Option.bind_some]
      dsimp only
      cases (s.resolveEdge req acc e).1.find? (pathKey a b) <;> rfl

/-- Every pair has the entry it had before the call, or what the backends answer. -/
def Refreshes (s : Engine D) (req : CompositionRequest D) (paths : OrdMap Str (PathEvidence D)) :
    Prop :=
  ∀ a b, paths.find? (pathKey a b) = s.paths.find? (pathKey a b) ∨
    ∃ pe, s.resolvePath (edgeRequirement req a b) = some pe ∧
      paths.find? (pathKey a b) = some pe

theorem Refreshes.foldl_resolveEdge (h : s.Refreshes req acc.1) (edges : List (GraphEdge D)) :
    s.Refreshes req (edges.foldl (s.resolveEdge req) acc).1 := by
  induction edges generalizing acc with
  | nil => exact h
  | cons e edges ih =>
    refine ih fun a b => ?_
    rcases s.resolveEdge_cases req acc e with ⟨heq, -⟩ | ⟨a', b', pe, -, hpe, heq⟩
    · -- no backend answers for this edge
      rw [heq]
      exact h a b
    · rw [heq, OrdMap.find?_insert]
      split
      · next hkey =>
        obtain ⟨rfl, rfl⟩ := pathKey_injective hkey
        exact Or.inr ⟨pe, hpe, rfl⟩
      · exact h a b

end Writes

/-! ### Which pairs are written -/

/-- Every pair has the entry it had before the call, or one that could be used then. -/
def Grounded (s : Engine D) (paths : OrdMap Str (PathEvidence D)) : Prop :=
  ∀ a b, paths.find? (pathKey a b) = s.paths.find? (pathKey a b) ∨ ∃ p, UsablePath s.paths a b p

omit [Double D] in
/-- What can be used now could be used then. -/
theorem Grounded.usable {paths : OrdMap Str (PathEvidence D)} (h : s.Grounded paths)
    {a b : NodeId} {p : PathEvidence D} (hp : UsablePath paths a b p) :
    ∃ p, UsablePath s.paths a b p := by
  refine (h a b).elim (fun heq => ?_) id
  exact ⟨p, heq ▸ hp.found, hp.verified, hp.available, hp.current⟩

omit [Double D] in
theorem Grounded.foldl_resolveEdge {edges : List (GraphEdge D)}
    {acc : OrdMap Str (PathEvidence D) × List (PathEvidence D)} (h : s.Grounded acc.1)
    (hedges : ∀ e ∈ edges, ∀ a b, s.Crosses e a b → ∃ p, UsablePath s.paths a b p) :
    s.Grounded (edges.foldl (s.resolveEdge req) acc).1 := by
  induction edges generalizing acc with
  | nil => exact h
  | cons e edges ih =>
    rw [List.forall_mem_cons] at hedges
    refine ih (fun a b => ?_) hedges.2
    rcases s.resolveEdge_cases req acc e with ⟨heq, -⟩ | ⟨a', b', pe, hcross, -, heq⟩
    · -- nothing is written for this edge
      rw [heq]
      exact h a b
    · -- an entry is written for a pair that an edge joins
      rw [heq, OrdMap.find?_insert]
      split
      · next hkey =>
        obtain ⟨rfl, rfl⟩ := pathKey_injective hkey
        exact Or.inr (hedges.1 _ _ hcross)
      · exact h a b

theorem Grounded.considerCombo {selections : List (Selection D)}
    {best : OrdMap Str (PathEvidence D) × Result (CompositionPlan D)} (h : s.Grounded best.1)
    (combo : List ResourceId) : s.Grounded (s.considerCombo req selections best combo).1 := by
  rcases s.considerCombo_cases req selections best combo with ⟨-, heq⟩ | ⟨htrue, heq⟩
  · rw [heq]
    exact h
  · rw [heq]
    rw [Bool.and_eq_true, Bool.and_eq_true] at htrue
    obtain ⟨⟨-, hfeasible⟩, -⟩ := htrue
    unfold feasible at hfeasible
    simp only [Bool.and_eq_true] at hfeasible
    have hbefore : s.Grounded (best.1, ([] : List (PathEvidence D))).1 := h
    refine hbefore.foldl_resolveEdge fun e he a b hcross => ?_
    -- the edge was validated against the table of the moment
    obtain ⟨source, target, hsource, htarget, rfl, rfl, hnode⟩ := hcross
    obtain ⟨p, hp, -⟩ := usablePath_of_isOk hsource htarget hnode
      (isOk_validateEdge hfeasible.1.1.2 e he)
    exact h.usable hp

theorem Grounded.foldl_considerCombo {selections : List (Selection D)}
    {best : OrdMap Str (PathEvidence D) × Result (CompositionPlan D)} (h : s.Grounded best.1)
    (combos : List (List ResourceId)) :
    s.Grounded (combos.foldl (s.considerCombo req selections) best).1 := by
  induction combos generalizing best with
  | nil => exact h
  | cons combo combos ih => exact ih (h.considerCombo combo)

/-- **Planning adds no entry for a pair without one that can be used.** -/
theorem grounded_compose (s : Engine D) (req : CompositionRequest D) :
    s.Grounded (s.compose req).1.paths := by
  -- the last step of `Compose` leaves the table alone
  have hfinish : ∀ r, (s.finish req r).1.paths = r.1 := by
    intro r
    unfold finish
    split <;> rfl
  unfold compose
  split
  · exact fun a b => Or.inl rfl
  · next selections combos _ =>
    rw [hfinish]
    have hstart : s.Grounded (s.paths, (noPlan : Result (CompositionPlan D))).1 :=
      fun a b => Or.inl rfl
    exact hstart.foldl_considerCombo combos

/-! ### The candidate that won last -/

/-- **The candidate that won last.** It passed every check against a table `before`, in
which every pair has its old entry or an answer of the backends; `after` and the paths of
the plan are what asking for its paths again has made of that table. -/
structure Won (s : Engine D) (req : CompositionRequest D) (selections : List (Selection D))
    (combo : List ResourceId) (before after : OrdMap Str (PathEvidence D))
    (plan : CompositionPlan D) : Prop where
  registered : combo.all (fun rid => (s.resources.lookup rid).isSome) = true
  feasible : s.feasible req selections before (combo.filterMap s.resources.lookup) = true
  scored : Double.lt (Double.ofRat (-1)) (rank (combo.filterMap s.resources.lookup)).total = true
  refreshes : s.Refreshes req before
  graph : plan.graph = buildGraph req (combo.filterMap s.resources.lookup)
  table : after = (plan.graph.edges.foldl (s.resolveEdge req) (before, [])).1
  paths : plan.paths = (plan.graph.edges.foldl (s.resolveEdge req) (before, [])).2

/-- The best plan so far is the one of a combination that has won, or there is none. -/
structure Leads (s : Engine D) (req : CompositionRequest D) (selections : List (Selection D))
    (seen : List (List ResourceId))
    (best : OrdMap Str (PathEvidence D) × Result (CompositionPlan D)) : Prop where
  refreshes : s.Refreshes req best.1
  score : best.2.payload.rank.total = Double.ofRat (-1) ∨
    Double.lt (Double.ofRat (-1)) best.2.payload.rank.total = true
  made : best.2.ok = true → ∃ combo ∈ seen, ∃ before,
    s.Won req selections combo before best.1 best.2.payload

section Lawful

variable [LawfulDoubleOrder D]

/-- One more combination. -/
theorem Leads.considerCombo {seen : List (List ResourceId)}
    {best : OrdMap Str (PathEvidence D) × Result (CompositionPlan D)}
    (h : s.Leads req selections seen best) (combo : List ResourceId) :
    s.Leads req selections (seen ++ [combo]) (s.considerCombo req selections best combo) := by
  rcases s.considerCombo_cases req selections best combo with ⟨-, heq⟩ | ⟨htrue, heq⟩
  · rw [heq]
    refine ⟨h.refreshes, h.score, fun hok => ?_⟩
    obtain ⟨c, hc, hmade⟩ := h.made hok
    exact ⟨c, List.mem_append_left _ hc, hmade⟩
  · rw [Bool.and_eq_true, Bool.and_eq_true] at htrue
    obtain ⟨⟨hall, hfeasible⟩, hlt⟩ := htrue
    -- it is above the best one, and so above no plan
    have hscored : Double.lt (Double.ofRat (-1))
        (rank (combo.filterMap s.resources.lookup)).total = true := by
      rcases h.score with hnone | habove
      · rw [← hnone]
        exact hlt
      · exact LawfulDoubleOrder.lt_trans _ _ _ habove hlt
    rw [heq]
    refine ⟨?_, Or.inr hscored, fun _ => ⟨combo, List.mem_append_right _ List.mem_cons_self,
      best.1, hall, hfeasible, hscored, h.refreshes, rfl, rfl, rfl⟩⟩
    have hbefore : s.Refreshes req (best.1, ([] : List (PathEvidence D))).1 := h.refreshes
    exact hbefore.foldl_resolveEdge _

theorem Leads.foldl_considerCombo {seen combos : List (List ResourceId)}
    {best : OrdMap Str (PathEvidence D) × Result (CompositionPlan D)}
    (h : s.Leads req selections seen best) :
    s.Leads req selections (seen ++ combos)
      (combos.foldl (s.considerCombo req selections) best) := by
  induction combos generalizing seen best with
  | nil =>
    rw [List.append_nil]
    exact h
  | cons combo combos ih =>
    have hnext := ih (h.considerCombo combo)
    rw [List.append_assoc, List.singleton_append] at hnext
    exact hnext

/-- **What a successful `Compose` leaves**: the plan and the table of the combination that
won last. -/
theorem compose_won (hok : (s.compose req).2.ok = true) :
    ∃ selections combos, s.combosFor req = .ok (selections, combos) ∧ ∃ combo ∈ combos, ∃ before,
      s.Won req selections combo before (s.compose req).1.paths (s.compose req).2.payload := by
  revert hok
  unfold compose
  rcases s.combosFor req with ⟨reason, notes⟩ | ⟨selections, combos⟩
  · exact fun hok => by cases hok
  dsimp only
  have hstart : s.Leads req selections [] (s.paths, noPlan) :=
    ⟨fun a b => Or.inl rfl, Or.inl rfl, (by intro hok; cases hok)⟩
  have hleads : s.Leads req selections ([] ++ combos)
      (combos.foldl (s.considerCombo req selections) (s.paths, noPlan)) :=
    hstart.foldl_considerCombo
  rw [List.nil_append] at hleads
  generalize combos.foldl (s.considerCombo req selections) (s.paths, noPlan) = best at hleads ⊢
  unfold finish
  by_cases hr : best.2.ok = true
  · rw [if_pos hr]
    intro _
    obtain ⟨combo, hmem, before, hwon⟩ := hleads.made hr
    -- finishing the plan keeps its graph and its paths
    exact ⟨selections, combos, rfl, combo, hmem, before, hwon.registered, hwon.feasible,
      hwon.scored, hwon.refreshes, hwon.graph, hwon.table, hwon.paths⟩
  · rw [if_neg hr]
    exact fun hok => by cases hok

end Lawful

/-! ### The plan and its members -/

variable {before after : OrdMap Str (PathEvidence D)} {plan : CompositionPlan D}

namespace Won

variable {combo : List ResourceId} (h : s.Won req selections combo before after plan)

include h

/-- A pair the backends do not answer for has the entry it had before the call. -/
theorem find?_of_none {a b : NodeId} (hnone : s.resolvePath (edgeRequirement req a b) = none) :
    before.find? (pathKey a b) = s.paths.find? (pathKey a b) ∧
      after.find? (pathKey a b) = s.paths.find? (pathKey a b) := by
  have hbefore : before.find? (pathKey a b) = s.paths.find? (pathKey a b) := by
    rcases h.refreshes a b with heq | ⟨pe, hpe, -⟩
    · exact heq
    · rw [hnone] at hpe
      cases hpe
  refine ⟨hbefore, ?_⟩
  rw [h.table]
  exact (find?_foldl_resolveEdge_of_none _ hnone).trans hbefore

/-- A pair that an edge of the plan joins has the answer of the backends. -/
theorem find?_of_some {e : GraphEdge D} (he : e ∈ plan.graph.edges) {a b : NodeId}
    (hcross : s.Crosses e a b) {pe : PathEvidence D}
    (hpe : s.resolvePath (edgeRequirement req a b) = some pe) :
    after.find? (pathKey a b) = some pe := by
  rw [h.table]
  exact find?_foldl_resolveEdge he hcross hpe

/-- The paths of the plan are the entries of the pairs its edges join. -/
theorem paths_eq : plan.paths = (plan.graph.edges.filterMap s.crossing).filterMap fun q =>
    after.find? (pathKey q.1 q.2) := by
  rw [h.paths, used_foldl_resolveEdge, List.nil_append, ← h.table]

end Won

end Engine

end DFabric
