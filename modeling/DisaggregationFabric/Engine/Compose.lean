import DisaggregationFabric.Engine.State

/-!
# Composition planning

`ComposeDeterministic`: filter the eligible resources, sort them class by class,
enumerate bounded selections, form their capped product, evaluate every candidate
and keep the best one. The stages are separate functions; the composed operation
writes only the path table and the composition counter (`compose_cases`).
-/

namespace DFabric

/-- The result of an operation: its outcome, what it returns, and the reasons and
notes of a rejection. -/
structure Result (α : Type) where
  outcome : CompositionOutcome
  payload : α
  reasons : List RejectionReason
  notes : List Str

/-- The operation succeeded. -/
def Result.ok {α : Type} (r : Result α) : Bool := r.outcome = .success

/-- A rejection. -/
def Result.reject {α : Type} [Inhabited α] (reason : RejectionReason) (notes : List Str) :
    Result α := ⟨.rejected, default, [reason], notes⟩

namespace Engine

variable {D : Type} [Double D]

/-- A mandatory demand with the selections enumerated for it. -/
structure Selection (D : Type) where
  demand : ClassDemand D
  picks : List (List ResourceId)

/-- `CheckEligibility`. -/
def checkEligibility (s : Engine D) (id : ResourceId) (req : CompositionRequest D) : Check :=
  match s.resources.lookup id with
  | none => .error ⟨.resourceOffline, str "resource not registered"⟩
  | some r => resourceEligible r req

/-- The eligible resources of a class, best candidate first. -/
def candidates (s : Engine D) (req : CompositionRequest D) (d : ClassDemand D) :
    List (Resource D) :=
  (s.resources.values.filter fun r => Eligible r req ∧ r.resourceClass = d.cls).insertionSort
    fun a b => candidateBefore d a b = true

/-- Enumerate the selections of every mandatory demand. -/
def enumerateAll (s : Engine D) (req : CompositionRequest D) :
    List (ClassDemand D) → Except (RejectionReason × List Str) (List (Selection D))
  | [] => .ok []
  | d :: ds =>
    if !d.mandatory then s.enumerateAll req ds
    else
      -- an empty class enumerates to nothing, so both failures give the same note
      let picks := enumerateSelections (s.candidates req d) d 24
      if picks.isEmpty then
        .error (.noValidComposition,
          [str "no eligible candidate for mandatory class " ++ d.cls.toStr])
      else
        match s.enumerateAll req ds with
        | .ok rest => .ok (⟨d, picks⟩ :: rest)
        | .error e => .error e

/-- The bound on the product of selections. -/
def comboCap : Nat := 400

/-- Extend every combination by every selection that shares no member with it,
until the bound is reached. -/
def extendCombos (combos picks : List (List ResourceId)) : List (List ResourceId) :=
  combos.foldl (fun next combo =>
    picks.foldl (fun next pick =>
      -- both `break`s of the source: once the bound is reached nothing is added
      if comboCap ≤ next.length then next
      else if pick.any (fun rid => combo.contains rid) then next
      else next ++ [combo ++ pick]) next) []

/-- The bounded product of the selections. -/
def productCombos : List (List ResourceId) → List (Selection D) →
    Except (RejectionReason × List Str) (List (List ResourceId))
  | combos, [] => .ok combos
  | combos, sel :: sels =>
    let next := extendCombos combos sel.picks
    -- this rejection carries no note
    if next.isEmpty then .error (.noValidComposition, []) else productCombos next sels

/-- A candidate set passes every hard check against the resources and a path
table. -/
def feasible (s : Engine D) (req : CompositionRequest D) (selections : List (Selection D))
    (paths : OrdMap Str (PathEvidence D)) (set : List (Resource D)) : Bool :=
  selections.all (fun sel =>
    meetsDemand (set.filter fun r => r.resourceClass = sel.demand.cls) sel.demand) &&
  (validateGraph (buildGraph req set) s.resources paths).isOk &&
  (validateFailureDomains set req).isOk &&
  (!req.requireCoherence || set.all fun r => capabilitySupported r .coherentMemoryAccess)

/-- The path requirement `Compose` resolves for a cross-node edge. -/
def edgeRequirement (req : CompositionRequest D) (a b : NodeId) : PathRequirement D where
  source := a
  target := b
  minBandwidthMbps := req.minBandwidthMbps
  maxLatencyUs := req.maxLatencyUs
  required := true
  direct := req.requireDirectPath
  protocol := []

/-- Resolve the path of one edge: a backend's answer goes into the path table and
the plan; without one, a table entry goes into the plan. -/
def resolveEdge (s : Engine D) (req : CompositionRequest D)
    (acc : OrdMap Str (PathEvidence D) × List (PathEvidence D)) (e : GraphEdge D) :
    OrdMap Str (PathEvidence D) × List (PathEvidence D) :=
  match s.resources.lookup e.source, s.resources.lookup e.target with
  | some source, some target =>
    -- members of one node need no path
    if source.nodeId = target.nodeId then acc
    else
      let key := pathKey source.nodeId target.nodeId
      match s.resolvePath (edgeRequirement req source.nodeId target.nodeId) with
      | some pe => (acc.1.insert key pe, acc.2 ++ [pe])
      | none =>
        match acc.1.find? key with
        | some pe => (acc.1, acc.2 ++ [pe])
        | none => acc
  | _, _ => acc

/-- The distinct nodes of a set, in order of first appearance. -/
def distinctNodes (set : List (Resource D)) : List NodeId :=
  set.foldl (fun nodes r => if nodes.contains r.nodeId then nodes else nodes ++ [r.nodeId]) []

/-- Evaluate one combination against the path table of the moment; a better one
replaces the best plan so far and refreshes the paths it uses. -/
def considerCombo (s : Engine D) (req : CompositionRequest D) (selections : List (Selection D))
    (acc : OrdMap Str (PathEvidence D) × Result (CompositionPlan D)) (combo : List ResourceId) :
    OrdMap Str (PathEvidence D) × Result (CompositionPlan D) :=
  let set := combo.filterMap s.resources.lookup
  if !combo.all (fun rid => (s.resources.lookup rid).isSome) then acc
  else if !s.feasible req selections acc.1 set then acc
  else
    let score := rank set
    -- a tie keeps the earlier candidate
    if !Double.lt acc.2.payload.rank.total score.total then acc
    else
      let g := buildGraph req set
      -- the path table is written here even if a later candidate wins
      let (paths, used) := g.edges.foldl (s.resolveEdge req) (acc.1, [])
      (paths,
        { acc.2 with
          outcome := .success
          payload := { acc.2.payload with
            graph := g
            request := req
            rank := score
            nodes := distinctNodes set
            paths := used } })

/-- The best plan before any candidate was evaluated. -/
def noPlan : Result (CompositionPlan D) where
  outcome := .rejected
  payload := { (default : CompositionPlan D) with
    rank := { (default : RankScore D) with total := Double.ofRat (-1) } }
  reasons := []
  notes := []

/-- The combinations to evaluate, or why there are none. -/
def combosFor (s : Engine D) (req : CompositionRequest D) :
    Except (RejectionReason × List Str) (List (Selection D) × List (List ResourceId)) :=
  match s.enumerateAll req (computeDemands req) with
  | .error e => .error e
  | .ok [] => .error (.noValidComposition, [str "request defines no mandatory resource class"])
  | .ok selections =>
    match productCombos [[]] selections with
    | .error e => .error e
    | .ok combos => .ok (selections, combos)

/-- The winning plan with its identity and authority. -/
def finishPlan (s : Engine D) (req : CompositionRequest D) (paths : OrdMap Str (PathEvidence D))
    (plan : CompositionPlan D) : CompositionPlan D :=
  { plan with
    generation := ⟨s.nextComp⟩
    id := ⟨s.nextComp⟩
    -- the members are looked up again, in vertex order
    authority := makeAuthority ⟨s.nextComp⟩ req (plan.graph.vertices.filterMap s.resources.lookup)
      s.nodes paths s.epoch
    lifecycle := .planned }

/-- The outcome of evaluating the combinations in order. -/
def finish (s : Engine D) (req : CompositionRequest D)
    (r : OrdMap Str (PathEvidence D) × Result (CompositionPlan D)) :
    Engine D × Result (CompositionPlan D) :=
  if r.2.ok then
    ({ s with paths := r.1, nextComp := s.nextComp + 1 },
      { r.2 with payload := s.finishPlan req r.1 r.2.payload })
  else
    ({ s with paths := r.1 },
      .reject .noValidComposition [str "no feasible cross-resource combination"])

/-- `Compose` / `ComposeDeterministic` (which ignores its seed). -/
def compose (s : Engine D) (req : CompositionRequest D) :
    Engine D × Result (CompositionPlan D) :=
  match s.combosFor req with
  | .error (reason, notes) => (s, .reject reason notes)
  | .ok (selections, combos) =>
    s.finish req (combos.foldl (s.considerCombo req selections) (s.paths, noPlan))

/-! ### What planning does to the engine -/

/-- `Compose` writes the path table and nothing else when it rejects; otherwise it
also consumes the composition counter, and the returned plan carries that counter
as its id, is bound to the current epoch, and records the generations of its
members in vertex order. -/
theorem compose_cases (s : Engine D) (req : CompositionRequest D) :
    ∃ paths,
      ((s.compose req).2.ok = false ∧ (s.compose req).1 = { s with paths := paths }) ∨
      ((s.compose req).2.ok = true ∧
        (s.compose req).1 = { s with paths := paths, nextComp := s.nextComp + 1 } ∧
        ∃ plan, (s.compose req).2.payload = s.finishPlan req paths plan) := by
  unfold compose
  split
  · exact ⟨s.paths, Or.inl ⟨rfl, rfl⟩⟩
  · next selections combos _ =>
    -- whatever the evaluation came to, `finish` only looks at its verdict
    generalize combos.foldl (s.considerCombo req selections) (s.paths, noPlan) = r
    refine ⟨r.1, ?_⟩
    unfold finish
    split
    · next hok => exact Or.inr ⟨hok, rfl, r.2.payload, rfl⟩
    · exact Or.inl ⟨rfl, rfl⟩

/-- A candidate changes the best plan, and no reason. -/
theorem reasons_considerCombo (s : Engine D) (req : CompositionRequest D)
    (selections : List (Selection D))
    (acc : OrdMap Str (PathEvidence D) × Result (CompositionPlan D)) (combo : List ResourceId) :
    (s.considerCombo req selections acc combo).2.reasons = acc.2.reasons := by
  unfold considerCombo
  dsimp only
  split
  · rfl
  split
  · rfl
  split
  · rfl
  · rfl

theorem reasons_foldl_considerCombo (s : Engine D) (req : CompositionRequest D)
    (selections : List (Selection D)) (combos : List (List ResourceId))
    (acc : OrdMap Str (PathEvidence D) × Result (CompositionPlan D)) :
    (combos.foldl (s.considerCombo req selections) acc).2.reasons = acc.2.reasons := by
  induction combos generalizing acc with
  | nil => rfl
  | cons combo combos ih => rw [List.foldl_cons, ih, reasons_considerCombo]

/-- A plan is returned without a reason, and a rejection with one and a default-constructed
plan. -/
theorem compose_reasons (s : Engine D) (req : CompositionRequest D) :
    ((s.compose req).2.ok = true → (s.compose req).2.reasons = []) ∧
      ((s.compose req).2.ok = false →
        ∃ reason notes, (s.compose req).2 = .reject reason notes) := by
  unfold compose
  split
  · exact ⟨fun hok => (by cases hok), fun _ => ⟨_, _, rfl⟩⟩
  · next selections combos _ =>
    -- no plan that is considered has reasons
    have hnone : (combos.foldl (s.considerCombo req selections) (s.paths, noPlan)).2.reasons =
        [] := s.reasons_foldl_considerCombo req selections combos (s.paths, noPlan)
    generalize combos.foldl (s.considerCombo req selections) (s.paths, noPlan) = r at hnone ⊢
    unfold finish
    split
    · next hok => exact ⟨fun _ => hnone, fun h => absurd (h.symm.trans hok) Bool.false_ne_true⟩
    · exact ⟨fun hok => (by cases hok), fun _ => ⟨_, _, rfl⟩⟩

omit [Double D] in
/-- The vertices of a composition graph are the ids of its set. -/
theorem exists_mem_of_mem_vertices {req : CompositionRequest D} {set : List (Resource D)}
    {v : ResourceId} (h : v ∈ (buildGraph req set).vertices) : ∃ r ∈ set, r.id = v := by
  -- by induction on the set, for any graph the vertices are added to
  have hfold : ∀ (l : List (Resource D)) (g : ResourceGraph D),
      v ∈ (l.foldl (fun g r => g.addVertex r.id) g).vertices →
        v ∈ g.vertices ∨ ∃ r ∈ l, r.id = v := by
    intro l
    induction l with
    | nil => exact fun g hv => Or.inl hv
    | cons r l ih =>
      intro g hv
      rcases ih (g.addVertex r.id) hv with hadd | ⟨r', hr', heq⟩
      · unfold ResourceGraph.addVertex at hadd
        split at hadd
        · exact Or.inl hadd
        · rcases List.mem_append.mp hadd with hg | hr
          · exact Or.inl hg
          · exact Or.inr ⟨r, List.mem_cons_self, (List.mem_singleton.mp hr).symm⟩
      · exact Or.inr ⟨r', List.mem_cons_of_mem r hr', heq⟩
  rcases hfold set default h with hnone | hset
  · exact absurd hnone List.not_mem_nil
  · exact hset

/-- Evaluating a combination keeps the best plan's vertices among the registered
resources. -/
theorem considerCombo_registered {s : Engine D}
    (hkeyed : ∀ v r, s.resources.lookup v = some r → r.id = v) {req : CompositionRequest D}
    {selections : List (Selection D)}
    {acc : OrdMap Str (PathEvidence D) × Result (CompositionPlan D)} (combo : List ResourceId)
    (h : ∀ v ∈ acc.2.payload.graph.vertices, ∃ r, s.resources.lookup v = some r) :
    ∀ v ∈ (s.considerCombo req selections acc combo).2.payload.graph.vertices,
      ∃ r, s.resources.lookup v = some r := by
  unfold considerCombo
  dsimp only
  -- a missing member, an infeasible set and a lower score leave the best plan alone
  split
  · exact h
  · split
    · exact h
    · split
      · exact h
      · -- the combination wins: its vertices are ids of resources just looked up
        intro v hv
        obtain ⟨r, hr, rfl⟩ := exists_mem_of_mem_vertices hv
        obtain ⟨rid, -, hlook⟩ := List.mem_filterMap.mp hr
        rw [hkeyed rid r hlook]
        exact ⟨r, hlook⟩

/-- **What a returned plan records.** Its vertices are registered, and its authority
is made from their records of the moment. -/
theorem compose_payload {s : Engine D}
    (hkeyed : ∀ v r, s.resources.lookup v = some r → r.id = v) {req : CompositionRequest D}
    (hok : (s.compose req).2.ok = true) :
    (∀ v ∈ (s.compose req).2.payload.graph.vertices, ∃ r, s.resources.lookup v = some r) ∧
      ∃ paths, (s.compose req).2.payload.authority =
        makeAuthority ⟨s.nextComp⟩ req
          ((s.compose req).2.payload.graph.vertices.filterMap s.resources.lookup)
          s.nodes paths s.epoch := by
  revert hok
  unfold compose
  rcases s.combosFor req with ⟨reason, notes⟩ | ⟨selections, combos⟩
  · exact fun hok => by cases hok
  · dsimp only
    -- the loop over the combinations, from a best plan without vertices
    have hreg : ∀ (l : List (List ResourceId))
        (acc : OrdMap Str (PathEvidence D) × Result (CompositionPlan D)),
        (∀ v ∈ acc.2.payload.graph.vertices, ∃ r, s.resources.lookup v = some r) →
        ∀ v ∈ (l.foldl (s.considerCombo req selections) acc).2.payload.graph.vertices,
          ∃ r, s.resources.lookup v = some r := by
      intro l
      induction l with
      | nil => exact fun acc h => h
      | cons combo l ih => exact fun acc h => ih _ (considerCombo_registered hkeyed combo h)
    have hbest := hreg combos (s.paths, noPlan) (List.forall_mem_nil _)
    generalize combos.foldl (s.considerCombo req selections) (s.paths, noPlan) = r at hbest ⊢
    unfold finish
    by_cases hr : r.2.ok = true
    · rw [if_pos hr]
      exact fun _ => ⟨hbest, r.1, rfl⟩
    · rw [if_neg hr]
      exact fun hok => by cases hok

end Engine

end DFabric
