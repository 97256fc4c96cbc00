import DisaggregationFabric.Engine.Refresh
import DisaggregationFabric.Codec.Storable

/-!
# How large a plan is

`Compose` bounds its search: of a class it combines the eight best candidates, so a
selection has eight members at most, and the six classes give a set of forty-eight. What a
returned plan consists of is all made from such a set (`compose_best`), and from paths
that were in the table or have been answered by a backend.
-/

namespace DFabric

open EnumTraits

variable {D : Type} [Double D]

/-! ### Selections -/

omit [Double D] in
/-- Where the entries of a list that a loop adds to come from. -/
theorem mem_foldl_of_step {A B : Type} {f : List B → A → List B} {b : B} {Q : A → Prop}
    (hf : ∀ acc a, b ∈ f acc a → b ∈ acc ∨ Q a) {l : List A} {acc : List B}
    (h : b ∈ l.foldl f acc) : b ∈ acc ∨ ∃ a ∈ l, Q a := by
  induction l generalizing acc with
  | nil => exact Or.inl h
  | cons a l ih =>
    rcases ih h with h | ⟨a', ha', hQ⟩
    · exact (hf acc a h).imp_right fun hQ => ⟨a, List.mem_cons_self, hQ⟩
    · exact Or.inr ⟨a', List.mem_cons_of_mem a ha', hQ⟩

omit [Double D] in
/-- A selection that `combine` adds extends the current one by as many members as are
needed. -/
theorem length_of_mem_combine {items : List (Resource D)} {k cap need start : ℕ}
    {cur : List ResourceId} {out : List (List ResourceId)} {p : List ResourceId}
    (h : p ∈ combine items k cap need start cur out) : p ∈ out ∨ p.length ≤ cur.length + need := by
  induction need generalizing start cur out with
  | zero =>
    unfold combine at h
    split at h
    · exact Or.inl h
    · rcases List.mem_append.mp h with h | h
      · exact Or.inl h
      · rw [List.mem_singleton.mp h]
        exact Or.inr le_rfl
  | succ need ih =>
    unfold combine at h
    split at h
    · exact Or.inl h
    -- each index adds one member before the rest is chosen
    refine (mem_foldl_of_step (Q := fun _ => p.length ≤ cur.length + (need + 1)) ?_ h).imp_right
      fun ⟨_, _, hlen⟩ => hlen
    intro acc i hp
    split at hp
    · exact Or.inl hp
    refine (ih hp).imp_right fun hlen => hlen.trans ?_
    have hone : (items[i]?.map (·.id)).toList.length ≤ 1 := by
      cases items[i]? <;> simp
    rw [List.length_append]
    omega

/-- **How a selection is made.** By count, `combine` picks as many as are wanted out of the
eight best; by amount, there are one or two in the order of the candidates, and two only
for a positive amount. -/
theorem mem_enumerateSelections_cases {items : List (Resource D)} {d : ClassDemand D} {cap : ℕ}
    {p : List ResourceId} (h : p ∈ enumerateSelections items d cap) :
    (d.amountBased = false ∧
      (if d.count ≠ 0 then d.count.toNat else 1) ≤ 8 ∧
      p ∈ combine items (min items.length 8) cap
        (if d.count ≠ 0 then d.count.toNat else 1) 0 [] []) ∨
    (d.amountBased = true ∧ ∃ rs : List (Resource D), rs.Sublist items ∧ p = rs.map (·.id) ∧
      rs.length ≤ if Double.lt Double.zero d.amount then 2 else 1) := by
  unfold enumerateSelections at h
  split at h
  · exact absurd h List.not_mem_nil
  dsimp only at h
  generalize (if d.count ≠ 0 then d.count.toNat else 1) = want at h ⊢
  split at h
  · exact absurd h List.not_mem_nil
  next hwant =>
  split at h
  · next hbased =>
    rw [Bool.not_eq_true'] at hbased
    exact Or.inl ⟨hbased, (not_lt.mp hwant).trans (min_le_right _ _), h⟩
  next hbased =>
  rw [Bool.not_eq_true', Bool.not_eq_false] at hbased
  refine Or.inr ⟨hbased, ?_⟩
  generalize hfirst : items.take (min items.length 8) = first at h
  have hsub : first.Sublist items := hfirst ▸ List.take_sublist _ items
  rcases List.mem_append.mp (List.mem_of_mem_take h) with h | h
  · obtain ⟨r, hr, rfl⟩ := List.mem_map.mp h
    refine ⟨[r], List.singleton_sublist.mpr (hsub.subset hr), rfl, ?_⟩
    rw [List.length_singleton]
    split <;> decide
  split at h
  swap
  · exact absurd h List.not_mem_nil
  next hpos =>
  obtain ⟨⟨a, i⟩, ha, h⟩ := List.mem_flatMap.mp h
  obtain ⟨b, hb, h⟩ := List.mem_filterMap.mp h
  dsimp only at hb h
  split at h
  swap
  · cases h
  cases h
  -- the second of a pair comes after the first
  have hget : first[i]? = some a := List.mk_mem_zipIdx_iff_getElem?.mp ha
  have hpair : [a, b].Sublist first := by
    have hdrop : [a, b].Sublist (a :: first.drop (i + 1)) :=
      (List.singleton_sublist.mpr hb).cons_cons a
    obtain ⟨hi, rfl⟩ := List.getElem?_eq_some_iff.mp hget
    rw [List.getElem_cons_drop] at hdrop
    exact hdrop.trans (List.drop_sublist i first)
  refine ⟨[a, b], hpair.trans hsub, rfl, ?_⟩
  rw [if_pos hpos.1]
  exact le_rfl

/-- A selection has eight members at most. -/
theorem length_of_mem_enumerateSelections {items : List (Resource D)} {d : ClassDemand D}
    {cap : ℕ} {p : List ResourceId} (h : p ∈ enumerateSelections items d cap) : p.length ≤ 8 := by
  rcases mem_enumerateSelections_cases h with ⟨-, hwant, h⟩ | ⟨-, rs, -, rfl, hlen⟩
  · have hle := (length_of_mem_combine h).resolve_left List.not_mem_nil
    rw [List.length_nil, Nat.zero_add] at hle
    exact hle.trans hwant
  · rw [List.length_map]
    split at hlen <;> omega

namespace Engine

variable {s : Engine D} {req : CompositionRequest D}

/-- The enumeration goes through if every mandatory demand has a selection. -/
theorem enumerateAll_ok_iff {ds : List (ClassDemand D)} {sels : List (Selection D)} :
    s.enumerateAll req ds = .ok sels ↔
      sels = ((ds.filter (·.mandatory)).map fun d =>
        ⟨d, enumerateSelections (s.candidates req d) d 24⟩) ∧ ∀ sel ∈ sels, sel.picks ≠ [] := by
  induction ds generalizing sels with
  | nil =>
    rw [enumerateAll, List.filter_nil, List.map_nil]
    constructor
    · rintro h
      cases h
      exact ⟨rfl, List.forall_mem_nil _⟩
    · rintro ⟨rfl, -⟩
      rfl
  | cons d ds ih =>
    rw [enumerateAll]
    cases hmandatory : d.mandatory with
    | false =>
      -- a class that is not mandatory makes no selection
      rw [if_pos (by rw [Bool.not_false]), ih, List.filter_cons_of_neg (by simp [hmandatory])]
    | true =>
      rw [if_neg (by simp), List.filter_cons_of_pos hmandatory, List.map_cons]
      dsimp only
      by_cases hempty : enumerateSelections (s.candidates req d) d 24 = []
      · -- a mandatory class without a selection is refused
        rw [if_pos (List.isEmpty_iff.mpr hempty)]
        refine iff_of_false (fun h => by cases h) ?_
        rintro ⟨rfl, hpicks⟩
        exact hpicks _ List.mem_cons_self hempty
      · rw [if_neg (fun h => hempty (List.isEmpty_iff.mp h))]
        constructor
        · intro h
          split at h
          · next rest hrest =>
            cases h
            obtain ⟨rfl, hpicks⟩ := ih.mp hrest
            exact ⟨rfl, List.forall_mem_cons.mpr ⟨hempty, hpicks⟩⟩
          · cases h
        · rintro ⟨rfl, hpicks⟩
          rw [ih.mpr ⟨rfl, (List.forall_mem_cons.mp hpicks).2⟩]

/-- There are no more selections than demands, each of them with eight members at most. -/
theorem length_of_enumerateAll {ds : List (ClassDemand D)} {sels : List (Selection D)}
    (h : s.enumerateAll req ds = .ok sels) :
    sels.length ≤ ds.length ∧ ∀ sel ∈ sels, ∀ p ∈ sel.picks, p.length ≤ 8 := by
  obtain ⟨rfl, -⟩ := enumerateAll_ok_iff.mp h
  constructor
  · rw [List.length_map]
    exact List.length_filter_le _ _
  · intro sel hsel p hp
    obtain ⟨d, -, rfl⟩ := List.mem_map.mp hsel
    exact length_of_mem_enumerateSelections hp

/-! ### Combinations -/

/-- A combination that was extended is one that was there, with a selection behind it that
shares no member with it. -/
theorem mem_extendCombos {combos picks : List (List ResourceId)} {c : List ResourceId}
    (h : c ∈ extendCombos combos picks) :
    ∃ combo ∈ combos, ∃ p ∈ picks, List.Disjoint combo p ∧ c = combo ++ p := by
  unfold extendCombos at h
  -- the outer loop is over the combinations, the inner one over the selections
  refine (mem_foldl_of_step ?_ h).resolve_left List.not_mem_nil
  intro next combo h
  refine mem_foldl_of_step ?_ h
  intro next p h
  split at h
  · exact Or.inl h
  split at h
  · exact Or.inl h
  next hshared =>
  rcases List.mem_append.mp h with h | h
  · exact Or.inl h
  · refine Or.inr ⟨?_, List.mem_singleton.mp h⟩
    intro v hv hvp
    exact hshared (List.any_eq_true.mpr ⟨v, hvp, List.contains_iff_mem.mpr hv⟩)

omit [Double D] in
theorem length_of_productCombos {combos combos' : List (List ResourceId)}
    {sels : List (Selection D)} {n : ℕ} (h : productCombos combos sels = .ok combos')
    (hcombos : ∀ c ∈ combos, c.length ≤ n)
    (hpicks : ∀ sel ∈ sels, ∀ p ∈ sel.picks, p.length ≤ 8) :
    ∀ c ∈ combos', c.length ≤ n + 8 * sels.length := by
  -- each selection adds at most eight members
  induction sels generalizing combos n with
  | nil =>
    cases h
    exact hcombos
  | cons sel sels ih =>
    unfold productCombos at h
    dsimp only at h
    split at h
    · cases h
    rw [List.forall_mem_cons] at hpicks
    have hnext : ∀ c ∈ extendCombos combos sel.picks, c.length ≤ n + 8 := by
      intro c hc
      obtain ⟨combo, hcombo, p, hp, -, rfl⟩ := mem_extendCombos hc
      rw [List.length_append]
      exact Nat.add_le_add (hcombos combo hcombo) (hpicks.1 p hp)
    intro c hc
    have hlen := ih h hnext hpicks.2 c hc
    rw [List.length_cons]
    omega

/-- The combinations are the product of the selections, of which there has to be one. -/
theorem combosFor_eq_ok_iff {selections : List (Selection D)} {combos : List (List ResourceId)} :
    s.combosFor req = .ok (selections, combos) ↔
      s.enumerateAll req (computeDemands req) = .ok selections ∧ selections ≠ [] ∧
        productCombos [[]] selections = .ok combos := by
  unfold combosFor
  constructor
  · intro h
    -- no mandatory class, a class without candidates, or a product that is cut off
    split at h
    · cases h
    · cases h
    next sels hne henum =>
    split at h
    · cases h
    next combos' hproduct =>
    cases h
    exact ⟨henum, hne, hproduct⟩
  · rintro ⟨henum, hne, hproduct⟩
    rw [henum]
    split
    · next heq => cases heq
    · next heq => exact absurd (Except.ok.inj heq) hne
    · next heq =>
      cases heq
      rw [hproduct]

/-- **A combination has forty-eight members at most.** -/
theorem length_of_combosFor {selections : List (Selection D)} {combos : List (List ResourceId)}
    (h : s.combosFor req = .ok (selections, combos)) : ∀ c ∈ combos, c.length ≤ 48 := by
  obtain ⟨hsels, -, hproduct⟩ := combosFor_eq_ok_iff.mp h
  obtain ⟨hlen, hpicks⟩ := length_of_enumerateAll hsels
  -- six classes, eight members each
  have hsix : (computeDemands req).length = 6 := rfl
  intro c hc
  have hc' := length_of_productCombos (n := 0) hproduct (by simp) hpicks c hc
  omega

/-! ### Sets -/

omit [Double D] in
/-- A loop whose rounds add one each adds no more than its rounds. -/
theorem size_foldl_le {A S : Type} (size : S → ℕ) {f : S → A → S}
    (hf : ∀ x a, size (f x a) ≤ size x + 1) (l : List A) (x : S) :
    size (l.foldl f x) ≤ size x + l.length := by
  induction l generalizing x with
  | nil => exact le_rfl
  | cons a l ih =>
    refine (ih (f x a)).trans ?_
    have hone := hf x a
    rw [List.length_cons]
    omega

omit [Double D] in
/-- A graph has a vertex for each member at most. -/
theorem length_vertices_le (req : CompositionRequest D) (set : List (Resource D)) :
    (buildGraph req set).vertices.length ≤ set.length := by
  have hadd : ∀ (g : ResourceGraph D) (r : Resource D),
      (g.addVertex r.id).vertices.length ≤ g.vertices.length + 1 := by
    intro g r
    unfold ResourceGraph.addVertex
    split
    · exact Nat.le_succ _
    · simp
  have hset := size_foldl_le (fun g : ResourceGraph D => g.vertices.length) hadd set default
  rwa [show (default : ResourceGraph D).vertices.length = 0 from rfl, Nat.zero_add] at hset

omit [Double D] in
/-- The nodes of a set are no more than its members. -/
theorem length_distinctNodes_le (set : List (Resource D)) :
    (distinctNodes set).length ≤ set.length := by
  refine (size_foldl_le List.length ?_ set []).trans (Nat.zero_add _).le
  intro nodes r
  split
  · exact Nat.le_succ _
  · simp

omit [Double D] in
theorem length_flatMap_le {A B : Type} {l : List A} {f : A → List B} {n : ℕ}
    (h : ∀ a ∈ l, (f a).length ≤ n) : (l.flatMap f).length ≤ l.length * n := by
  induction l with
  | nil => simp
  | cons a l ih =>
    rw [List.forall_mem_cons] at h
    rw [List.flatMap_cons, List.length_append, List.length_cons, Nat.succ_mul, Nat.add_comm]
    exact Nat.add_le_add (ih h.2) h.1

omit [Double D] in
/-- The edges of one pair of loops over the set. -/
theorem edges_between (req : CompositionRequest D) (set : List (Resource D))
    (p q : ResourceClass → Bool) (kinds : List GraphEdgeKind) (hkinds : ∀ k ∈ kinds, Canonical k) :
    let edges := (set.filter fun a => p a.resourceClass).flatMap fun a =>
      (set.filter fun b => q b.resourceClass && b.id != a.id).flatMap fun b =>
        kinds.flatMap fun kind => if a.id = b.id then [] else
          [(⟨a.id, b.id, kind, true, req.minBandwidthMbps, req.maxLatencyUs, [], []⟩ : GraphEdge D)]
    edges.length ≤ set.length * set.length * kinds.length ∧
      ∀ e ∈ edges, Canonical e.kind ∧ e.protocol = [] ∧ e.compatFacet = [] := by
  dsimp only
  refine ⟨?_, ?_⟩
  -- three nested loops: over the sources, the targets and the kinds
  · rw [Nat.mul_assoc]
    refine (length_flatMap_le (n := set.length * kinds.length) fun a _ => ?_).trans
      (Nat.mul_le_mul_right _ (List.length_filter_le _ _))
    refine (length_flatMap_le (n := kinds.length) fun b _ => ?_).trans
      (Nat.mul_le_mul_right _ (List.length_filter_le _ _))
    refine (length_flatMap_le (n := 1) fun kind _ => ?_).trans (Nat.mul_one _).le
    split
    · exact Nat.zero_le _
    · exact le_rfl
  · intro e he
    obtain ⟨a, -, he⟩ := List.mem_flatMap.mp he
    obtain ⟨b, -, he⟩ := List.mem_flatMap.mp he
    obtain ⟨kind, hkind, he⟩ := List.mem_flatMap.mp he
    split at he
    · exact absurd he List.not_mem_nil
    · rw [List.mem_singleton.mp he]
      exact ⟨hkinds kind hkind, rfl, rfl⟩

omit [Double D] in
/-- The edges of a graph: at most nine for each pair of members, each of them of a
canonical kind and without text. -/
theorem buildGraph_edges (req : CompositionRequest D) (set : List (Resource D)) :
    (buildGraph req set).edges.length ≤ 9 * (set.length * set.length) ∧
      ∀ e ∈ (buildGraph req set).edges,
        Canonical e.kind ∧ e.protocol = [] ∧ e.compatFacet = [] := by
  -- the four pairs of loops of `BuildGraph`, with two, three, two and two kinds
  have h1 := edges_between req set (· = .compute) (· = .accelerator) [.reachability, .compatibility]
    (by decide)
  have h2 := edges_between req set (· = .accelerator)
    (fun c => c = .hostMemory ∨ c = .expandedMemory)
    [.reachability, .bandwidthBound, .latencyBound] (by decide)
  have h3 := edges_between req set (· = .accelerator) (fun c => c = .nic ∨ c = .networkEndpoint)
    [.reachability, .bandwidthBound] (by decide)
  have h4 := edges_between req set (· = .compute) (· = .storage)
    [.reachability, .bandwidthBound] (by decide)
  dsimp only at h1 h2 h3 h4
  refine ⟨?_, ?_⟩
  · simp only [buildGraph, List.length_append]
    refine (Nat.add_le_add (Nat.add_le_add (Nat.add_le_add h1.1 h2.1) h3.1) h4.1).trans ?_
    simp only [List.length_cons, List.length_nil]
    omega
  · intro e he
    simp only [buildGraph, List.mem_append] at he
    rcases he with ((he | he) | he) | he
    · exact h1.2 e he
    · exact h2.2 e he
    · exact h3.2 e he
    · exact h4.2 e he

/-! ### What a returned plan is made from -/

/-- The plan is made from the set, its paths having the property `P`. -/
structure MadeFrom (req : CompositionRequest D) (P : PathEvidence D → Prop)
    (set : List (Resource D)) (plan : CompositionPlan D) : Prop where
  graph : plan.graph = buildGraph req set
  request : plan.request = req
  rank : plan.rank = DFabric.rank set
  nodes : plan.nodes = distinctNodes set
  paths_length : plan.paths.length ≤ (buildGraph req set).edges.length
  paths : ∀ p ∈ plan.paths, P p

/-- What is in the table. -/
def TableHas (paths : OrdMap Str (PathEvidence D)) (K : Str → Prop) (P : PathEvidence D → Prop) :
    Prop := ∀ e ∈ paths.entries, K e.1 ∧ P e.2

omit [Double D] in
theorem TableHas.insert {paths : OrdMap Str (PathEvidence D)} {K : Str → Prop}
    {P : PathEvidence D → Prop} (h : TableHas paths K P) {key : Str} {pe : PathEvidence D}
    (hkey : K key) (hpe : P pe) : TableHas (paths.insert key pe) K P := by
  intro e he
  rcases OrdMap.mem_insertList he with rfl | he
  · exact ⟨hkey, hpe⟩
  · exact h e he

/-- What the backends answer. -/
def Answers (s : Engine D) (req : CompositionRequest D) (K : Str → Prop)
    (P : PathEvidence D → Prop) : Prop :=
  ∀ a b pe, s.resolvePath (edgeRequirement req a b) = some pe → K (pathKey a b) ∧ P pe

variable {s : Engine D} {req : CompositionRequest D} {K : Str → Prop} {P : PathEvidence D → Prop}

omit [Double D] in
/-- An edge adds one path at most, from the table or from a backend. -/
theorem resolveEdge_used (hanswers : s.Answers req K P)
    {acc : OrdMap Str (PathEvidence D) × List (PathEvidence D)} (e : GraphEdge D)
    (htable : TableHas acc.1 K P) (hused : ∀ p ∈ acc.2, P p) :
    TableHas (s.resolveEdge req acc e).1 K P ∧ (∀ p ∈ (s.resolveEdge req acc e).2, P p) ∧
      (s.resolveEdge req acc e).2.length ≤ acc.2.length + 1 := by
  unfold resolveEdge
  split
  swap
  · exact ⟨htable, hused, Nat.le_succ _⟩
  split
  · exact ⟨htable, hused, Nat.le_succ _⟩
  dsimp only
  -- a fresh answer goes into the table; without one the entry of the table is used
  split
  · next pe hpe =>
    obtain ⟨hK, hP⟩ := hanswers _ _ pe hpe
    exact ⟨htable.insert hK hP,
      List.forall_mem_append.mpr ⟨hused, List.forall_mem_singleton.mpr hP⟩, by simp⟩
  · split
    · next pe hpe =>
      have hP := (htable _ (OrdMap.mem_of_find?_eq hpe)).2
      exact ⟨htable, List.forall_mem_append.mpr ⟨hused, List.forall_mem_singleton.mpr hP⟩, by simp⟩
    · exact ⟨htable, hused, Nat.le_succ _⟩

omit [Double D] in
theorem foldl_resolveEdge_used (hanswers : s.Answers req K P) (edges : List (GraphEdge D))
    (acc : OrdMap Str (PathEvidence D) × List (PathEvidence D)) (htable : TableHas acc.1 K P)
    (hused : ∀ p ∈ acc.2, P p) :
    TableHas (edges.foldl (s.resolveEdge req) acc).1 K P ∧
      (∀ p ∈ (edges.foldl (s.resolveEdge req) acc).2, P p) ∧
      (edges.foldl (s.resolveEdge req) acc).2.length ≤ acc.2.length + edges.length := by
  induction edges generalizing acc with
  | nil => exact ⟨htable, hused, le_rfl⟩
  | cons e edges ih =>
    obtain ⟨htable', hused', hlen'⟩ := resolveEdge_used hanswers e htable hused
    obtain ⟨h1, h2, h3⟩ := ih _ htable' hused'
    refine ⟨h1, h2, h3.trans ?_⟩
    rw [List.length_cons]
    omega

/-- Evaluating a combination keeps the table, and the best plan made from a combination. -/
theorem considerCombo_madeFrom (hanswers : s.Answers req K P) (selections : List (Selection D))
    {C : List ResourceId → Prop}
    {best : OrdMap Str (PathEvidence D) × Result (CompositionPlan D)} {combo : List ResourceId}
    (hcombo : C combo) (htable : TableHas best.1 K P)
    (hbest : best.2.ok = true →
      ∃ c, C c ∧ MadeFrom req P (c.filterMap s.resources.lookup) best.2.payload) :
    TableHas (s.considerCombo req selections best combo).1 K P ∧
      ((s.considerCombo req selections best combo).2.ok = true →
        ∃ c, C c ∧ MadeFrom req P (c.filterMap s.resources.lookup)
          (s.considerCombo req selections best combo).2.payload) := by
  unfold considerCombo
  dsimp only
  -- a missing member, an infeasible set, a lower score: the best one stays
  split
  · exact ⟨htable, hbest⟩
  split
  · exact ⟨htable, hbest⟩
  split
  · exact ⟨htable, hbest⟩
  obtain ⟨h1, h2, h3⟩ := foldl_resolveEdge_used hanswers
    (buildGraph req (combo.filterMap s.resources.lookup)).edges (best.1, []) htable
    (List.forall_mem_nil _)
  refine ⟨h1, fun _ => ⟨combo, hcombo, rfl, rfl, rfl, rfl, ?_, h2⟩⟩
  simpa using h3

theorem foldl_considerCombo_madeFrom (hanswers : s.Answers req K P)
    (selections : List (Selection D)) {C : List ResourceId → Prop} {combos : List (List ResourceId)}
    (hcombos : ∀ c ∈ combos, C c) (best : OrdMap Str (PathEvidence D) × Result (CompositionPlan D))
    (htable : TableHas best.1 K P)
    (hbest : best.2.ok = true →
      ∃ c, C c ∧ MadeFrom req P (c.filterMap s.resources.lookup) best.2.payload) :
    TableHas (combos.foldl (s.considerCombo req selections) best).1 K P ∧
      ((combos.foldl (s.considerCombo req selections) best).2.ok = true →
        ∃ c, C c ∧ MadeFrom req P (c.filterMap s.resources.lookup)
          (combos.foldl (s.considerCombo req selections) best).2.payload) := by
  induction combos generalizing best with
  | nil => exact ⟨htable, hbest⟩
  | cons combo combos ih =>
    rw [List.forall_mem_cons] at hcombos
    obtain ⟨htable', hbest'⟩ := considerCombo_madeFrom hanswers selections hcombos.1 htable hbest
    exact ih hcombos.2 _ htable' hbest'

/-- **What `Compose` returns.** A rejection returns a default-constructed plan. Otherwise
the plan is made from a set of forty-eight registered resources at most, and its authority
from its vertices and the path table after the call. -/
theorem compose_best (hanswers : s.Answers req K P) (htable : TableHas s.paths K P) :
    TableHas (s.compose req).1.paths K P ∧
      ((s.compose req).2.ok = false → (s.compose req).2.payload = default) ∧
      ((s.compose req).2.ok = true →
        ∃ set : List (Resource D), set.length ≤ 48 ∧ MadeFrom req P set (s.compose req).2.payload ∧
          (s.compose req).2.payload.authority =
            makeAuthority ⟨s.nextComp⟩ req
              ((s.compose req).2.payload.graph.vertices.filterMap s.resources.lookup)
              s.nodes (s.compose req).1.paths s.epoch) := by
  unfold compose
  rcases hcombos : s.combosFor req with ⟨reason, notes⟩ | ⟨selections, combos⟩
  · exact ⟨htable, fun _ => rfl, fun hok => by cases hok⟩
  dsimp only
  obtain ⟨ht, hb⟩ := foldl_considerCombo_madeFrom hanswers selections (length_of_combosFor hcombos)
    (s.paths, noPlan) htable (fun hok => by cases hok)
  generalize combos.foldl (s.considerCombo req selections) (s.paths, noPlan) = r at ht hb ⊢
  -- `finish` sets the id, the lifecycle and the authority, and leaves the rest of the plan
  -- alone
  unfold finish
  by_cases hr : r.2.ok = true
  · rw [if_pos hr]
    obtain ⟨c, hlen, hmade⟩ := hb hr
    refine ⟨ht, fun hok => absurd (hok.symm.trans hr) Bool.false_ne_true, fun _ => ?_⟩
    refine ⟨c.filterMap s.resources.lookup, (List.length_filterMap_le _ _).trans hlen, ?_, rfl⟩
    exact ⟨hmade.graph, hmade.request, hmade.rank, hmade.nodes, hmade.paths_length, hmade.paths⟩
  · rw [if_neg hr]
    exact ⟨ht, fun _ => rfl, fun hok => by cases hok⟩

end Engine

end DFabric
