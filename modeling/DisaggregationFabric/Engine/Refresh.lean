import DisaggregationFabric.Engine.Compose

/-!
# What planning writes

`Compose` asks the backends for the paths of every candidate that becomes the best one so
far, and puts their answers into the path table. Whether it changes the table can be read
off the table as it is before the call: as long as every answer is what the table has
already, the candidates are evaluated against that table, so they are the ones
`improving` lists; and an answer that differs stays, because the backends answer a pair in
the same way throughout the call (`compose_paths_eq_iff`).
-/

namespace DFabric

namespace Engine

variable {D : Type}

/-- An edge between members of different nodes. -/
def Crosses (s : Engine D) (e : GraphEdge D) (a b : NodeId) : Prop :=
  ∃ source target, s.resources.lookup e.source = some source ∧
    s.resources.lookup e.target = some target ∧ source.nodeId = a ∧ target.nodeId = b ∧ a ≠ b

/-- What the backends answer for the pair, if they do, is what the table has. -/
def Current (s : Engine D) (req : CompositionRequest D) (paths : OrdMap Str (PathEvidence D))
    (a b : NodeId) : Prop :=
  ∀ pe, s.resolvePath (edgeRequirement req a b) = some pe → paths.find? (pathKey a b) = some pe

variable {s : Engine D} {req : CompositionRequest D}
  {acc : OrdMap Str (PathEvidence D) × List (PathEvidence D)} {e : GraphEdge D} {a b : NodeId}

/-! ### One edge -/

/-- An edge joins one pair of nodes: those of the members it names. -/
theorem Crosses.nodes {source target : Resource D} (h : s.Crosses e a b)
    (hs : s.resources.lookup e.source = some source)
    (ht : s.resources.lookup e.target = some target) :
    source.nodeId = a ∧ target.nodeId = b ∧ a ≠ b := by
  obtain ⟨source', target', hs', ht', ha, hb, hne⟩ := h
  rw [hs] at hs'
  rw [ht] at ht'
  cases hs'
  cases ht'
  exact ⟨ha, hb, hne⟩

/-- What an edge writes: nothing, or the answer for the pair it joins. -/
theorem resolveEdge_cases (s : Engine D) (req : CompositionRequest D)
    (acc : OrdMap Str (PathEvidence D) × List (PathEvidence D)) (e : GraphEdge D) :
    ((s.resolveEdge req acc e).1 = acc.1 ∧
      ∀ a b, s.Crosses e a b → s.resolvePath (edgeRequirement req a b) = none) ∨
    ∃ a b pe, s.Crosses e a b ∧ s.resolvePath (edgeRequirement req a b) = some pe ∧
      (s.resolveEdge req acc e).1 = acc.1.insert (pathKey a b) pe := by
  unfold resolveEdge
  -- both members are registered, on different nodes, and a backend answers; else nothing
  split
  · next source target hsource htarget =>
    split
    · next hnode =>
      refine Or.inl ⟨rfl, ?_⟩
      intro a b hcross
      obtain ⟨rfl, rfl, hne⟩ := hcross.nodes hsource htarget
      exact absurd hnode hne
    · next hnode =>
      dsimp only
      split
      · next pe hpe =>
        exact Or.inr ⟨_, _, pe, ⟨source, target, hsource, htarget, rfl, rfl, hnode⟩, hpe, rfl⟩
      · next hnone =>
        have hpair : ∀ a b, s.Crosses e a b →
            s.resolvePath (edgeRequirement req a b) = none := by
          intro a b hcross
          obtain ⟨rfl, rfl, -⟩ := hcross.nodes hsource htarget
          exact hnone
        split <;> exact Or.inl ⟨rfl, hpair⟩
  · next hmissing =>
    refine Or.inl ⟨rfl, ?_⟩
    rintro a b ⟨source, target, hs, ht, -⟩
    exact absurd ht (hmissing source target hs)

/-- An edge leaves the answer for any pair in place. -/
theorem Current.resolveEdge {pe : PathEvidence D}
    (hpe : s.resolvePath (edgeRequirement req a b) = some pe)
    (h : acc.1.find? (pathKey a b) = some pe) (e : GraphEdge D) :
    (s.resolveEdge req acc e).1.find? (pathKey a b) = some pe := by
  rcases s.resolveEdge_cases req acc e with ⟨heq, -⟩ | ⟨a', b', pe', -, hpe', heq⟩
  · rw [heq, h]
  · rw [heq, OrdMap.find?_insert]
    split
    · next hkey =>
      obtain ⟨rfl, rfl⟩ := pathKey_injective hkey
      rw [← hpe', hpe]
    · exact h

/-- An edge puts the answer for the pair it joins into the table. -/
theorem find?_resolveEdge {pe : PathEvidence D} (hcross : s.Crosses e a b)
    (hpe : s.resolvePath (edgeRequirement req a b) = some pe) :
    (s.resolveEdge req acc e).1.find? (pathKey a b) = some pe := by
  rcases s.resolveEdge_cases req acc e with ⟨-, hnone⟩ | ⟨a', b', pe', hcross', hpe', heq⟩
  · rw [hnone a b hcross] at hpe
    cases hpe
  · obtain ⟨source, target, hs, ht, rfl, rfl, -⟩ := hcross
    obtain ⟨rfl, rfl, -⟩ := hcross'.nodes hs ht
    rw [heq, OrdMap.find?_insert, if_pos rfl, ← hpe', hpe]

/-! ### The edges of a candidate -/

theorem Current.foldl_resolveEdge {pe : PathEvidence D}
    (hpe : s.resolvePath (edgeRequirement req a b) = some pe) (edges : List (GraphEdge D))
    (h : acc.1.find? (pathKey a b) = some pe) :
    (edges.foldl (s.resolveEdge req) acc).1.find? (pathKey a b) = some pe := by
  induction edges generalizing acc with
  | nil => exact h
  | cons e edges ih => exact ih (Current.resolveEdge hpe h e)

theorem find?_foldl_resolveEdge {pe : PathEvidence D} {edges : List (GraphEdge D)} (he : e ∈ edges)
    (hcross : s.Crosses e a b) (hpe : s.resolvePath (edgeRequirement req a b) = some pe) :
    (edges.foldl (s.resolveEdge req) acc).1.find? (pathKey a b) = some pe := by
  induction edges generalizing acc with
  | nil => exact absurd he List.not_mem_nil
  | cons e' edges ih =>
    rcases List.mem_cons.mp he with rfl | he
    · exact Current.foldl_resolveEdge hpe edges (find?_resolveEdge hcross hpe)
    · exact ih he

/-! ### The candidates -/

variable [Double D]

variable {selections : List (Selection D)}
  {best : OrdMap Str (PathEvidence D) × Result (CompositionPlan D)}

/-- The best plan once a candidate has become it, and the table with its paths. -/
def winner (s : Engine D) (req : CompositionRequest D)
    (best : OrdMap Str (PathEvidence D) × Result (CompositionPlan D)) (set : List (Resource D)) :
    OrdMap Str (PathEvidence D) × Result (CompositionPlan D) :=
  let refreshed := (buildGraph req set).edges.foldl (s.resolveEdge req) (best.1, [])
  (refreshed.1,
    { best.2 with
      outcome := .success
      payload := { best.2.payload with
        graph := buildGraph req set
        request := req
        rank := rank set
        nodes := distinctNodes set
        paths := refreshed.2 } })

/-- What evaluating a candidate does to the table and to the best plan. -/
theorem considerCombo_cases (s : Engine D) (req : CompositionRequest D)
    (selections : List (Selection D))
    (best : OrdMap Str (PathEvidence D) × Result (CompositionPlan D)) (combo : List ResourceId) :
    let set := combo.filterMap s.resources.lookup
    let improves := combo.all (fun rid => (s.resources.lookup rid).isSome) &&
      s.feasible req selections best.1 set &&
      Double.lt best.2.payload.rank.total (rank set).total
    (improves = false ∧ s.considerCombo req selections best combo = best) ∨
    (improves = true ∧ s.considerCombo req selections best combo = s.winner req best set) := by
  dsimp only
  unfold considerCombo
  dsimp only
  -- a missing member, an infeasible set, a lower score
  split
  · next hall =>
    rw [Bool.not_eq_true'] at hall
    exact Or.inl ⟨by rw [hall, Bool.false_and, Bool.false_and], rfl⟩
  next hall =>
  rw [Bool.not_eq_true', Bool.not_eq_false] at hall
  split
  · next hfeasible =>
    rw [Bool.not_eq_true'] at hfeasible
    exact Or.inl ⟨by rw [hfeasible, Bool.and_false, Bool.false_and], rfl⟩
  next hfeasible =>
  rw [Bool.not_eq_true', Bool.not_eq_false] at hfeasible
  split
  · next hlt =>
    rw [Bool.not_eq_true'] at hlt
    exact Or.inl ⟨by rw [hlt, Bool.and_false], rfl⟩
  next hlt =>
  rw [Bool.not_eq_true', Bool.not_eq_false] at hlt
  exact Or.inr ⟨by rw [hall, hfeasible, hlt]; rfl, rfl⟩

/-- No candidate takes an answer out of the table again. -/
theorem Current.foldl_considerCombo {pe : PathEvidence D}
    (hpe : s.resolvePath (edgeRequirement req a b) = some pe) (combos : List (List ResourceId))
    (h : best.1.find? (pathKey a b) = some pe) :
    (combos.foldl (s.considerCombo req selections) best).1.find? (pathKey a b) = some pe := by
  induction combos generalizing best with
  | nil => exact h
  | cons combo combos ih =>
    refine ih ?_
    rcases s.considerCombo_cases req selections best combo with ⟨-, heq⟩ | ⟨-, heq⟩
    · rw [heq]
      exact h
    · rw [heq]
      exact Current.foldl_resolveEdge hpe _ h

end Engine

end DFabric
