import DisaggregationFabric.Backends.Synthetic
import DisaggregationFabric.Engine.Bounds
import DisaggregationFabric.Engine.Discovery
import DisaggregationFabric.Engine.Order

/-!
# What a returned plan satisfies

A plan comes out of five stages, and each of them keeps something:

* the candidates of a class are eligible, and their ids are pairwise different;
* a selection takes different candidates of one class (`Drawn`), `combine` going through
  the indices upwards;
* the product drops a selection that shares a member with the combination it would extend,
  so a combination has no member twice and its graph has exactly its members as vertices
  (`vertices_buildGraph`);
* a combination that is not feasible is passed over, so the best one meets the demands and
  has the paths its edges stand for (`Satisfies`);
* a best plan is given up for a better one only, and `<` is transitive, so no feasible
  combination beats the last one (`BestOf`).

Evaluating a combination may write the path table, and later ones are validated against
what was written. Where the backends answer what `Compose` asks in agreement with the table
(`Agrees`), what validation reads of the table stays as it was (`TablesAlike`): an answer is
written only for a pair that has an entry already, and the two are alike. The backends may
put what they like into the rest of an answer; the synthetic one repeats the question there.
-/

namespace DFabric

variable {D : Type}

/-! ### Selections -/

/-- A selection without repetitions from the ids of a list of candidates. -/
def Drawn (items : List (Resource D)) (p : List ResourceId) : Prop :=
  p.Nodup ∧ ∀ v ∈ p, ∃ r ∈ items, r.id = v

/-- The current selection has candidates of smaller indices only. -/
def DrawnBelow (items : List (Resource D)) (start : ℕ) (p : List ResourceId) : Prop :=
  p.Nodup ∧ ∀ v ∈ p, ∃ j < start, ∃ r, items[j]? = some r ∧ r.id = v

theorem DrawnBelow.drawn {items : List (Resource D)} {start : ℕ} {p : List ResourceId}
    (h : DrawnBelow items start p) : Drawn items p := by
  refine ⟨h.1, fun v hv => ?_⟩
  obtain ⟨j, -, r, hr, hid⟩ := h.2 v hv
  exact ⟨r, List.mem_of_getElem? hr, hid⟩

/-- Adding the candidate of an index that has not been reached. -/
theorem DrawnBelow.push {items : List (Resource D)} (hids : (items.map (·.id)).Nodup)
    {start i : ℕ} {p : List ResourceId} (h : DrawnBelow items start p) (hi : start ≤ i) :
    DrawnBelow items (i + 1) (p ++ (items[i]?.map (·.id)).toList) := by
  have hold : ∀ v ∈ p, ∃ j < i + 1, ∃ r, items[j]? = some r ∧ r.id = v := by
    intro v hv
    obtain ⟨j, hj, hr⟩ := h.2 v hv
    exact ⟨j, by omega, hr⟩
  cases hget : items[i]? with
  | none =>
    rw [Option.map_none, Option.toList_none, List.append_nil]
    exact ⟨h.1, hold⟩
  | some r =>
    rw [Option.map_some, Option.toList_some]
    refine ⟨?_, List.forall_mem_append.mpr ⟨hold, List.forall_mem_singleton.mpr
      ⟨i, Nat.lt_succ_self i, r, hget, rfl⟩⟩⟩
    -- the same id at a smaller index would be the same index
    have hnew : r.id ∉ p := by
      intro hmem
      obtain ⟨j, hj, r', hr', hid⟩ := h.2 r.id hmem
      have hij : (items.map (·.id))[j]? = (items.map (·.id))[i]? := by
        rw [List.getElem?_map, List.getElem?_map, hr', hget, Option.map_some, Option.map_some, hid]
      have hlt : j < (items.map (·.id)).length := by
        rw [List.length_map]
        exact (List.getElem?_eq_some_iff.mp hr').1
      have : j = i := (List.getElem?_inj hlt hids).mp hij
      omega
    exact List.nodup_append.mpr ⟨h.1, List.nodup_singleton _, by
      rintro a ha b hb rfl
      exact hnew (List.mem_singleton.mp hb ▸ ha)⟩

theorem drawn_of_mem_combine {items : List (Resource D)} (hids : (items.map (·.id)).Nodup)
    {k cap need start : ℕ} {cur : List ResourceId} {out : List (List ResourceId)}
    {p : List ResourceId} (hcur : DrawnBelow items start cur)
    (h : p ∈ combine items k cap need start cur out) : p ∈ out ∨ Drawn items p := by
  induction need generalizing start cur out with
  | zero =>
    unfold combine at h
    split at h
    · exact Or.inl h
    · rcases List.mem_append.mp h with h | h
      · exact Or.inl h
      · rw [List.mem_singleton.mp h]
        exact Or.inr hcur.drawn
  | succ need ih =>
    unfold combine at h
    split at h
    · exact Or.inl h
    -- the indices of the loop are those from `start` on
    have hloop := mem_foldl_of_step (Q := fun i => start ≤ i → Drawn items p) ?_ h
    · rcases hloop with h | ⟨i, hi, hdrawn⟩
      · exact Or.inl h
      · exact Or.inr (hdrawn (List.mem_range'_1.mp hi).1)
    intro acc i hp
    split at hp
    · exact Or.inl hp
    by_cases hi : start ≤ i
    · exact (ih (hcur.push hids hi) hp).imp_right fun hdrawn _ => hdrawn
    · exact Or.inr fun hle => absurd hle hi

variable [Double D]

theorem drawn_of_mem_enumerateSelections {items : List (Resource D)}
    (hids : (items.map (·.id)).Nodup) {d : ClassDemand D} {cap : ℕ} {p : List ResourceId}
    (h : p ∈ enumerateSelections items d cap) : Drawn items p := by
  rcases mem_enumerateSelections_cases h with ⟨-, -, h⟩ | ⟨-, rs, hsub, rfl, -⟩
  · refine (drawn_of_mem_combine hids ?_ h).resolve_left List.not_mem_nil
    exact ⟨List.nodup_nil, List.forall_mem_nil _⟩
  · refine ⟨(hsub.map _).nodup hids, ?_⟩
    intro v hv
    obtain ⟨r, hr, rfl⟩ := List.mem_map.mp hv
    exact ⟨r, hsub.subset hr, rfl⟩

namespace Engine

variable {s : Engine D} {req : CompositionRequest D}

/-! ### Combinations -/

/-- The members of a combination are pairwise different, registered and eligible. -/
def Combines (s : Engine D) (req : CompositionRequest D) (combo : List ResourceId) : Prop :=
  combo.Nodup ∧ ∀ v ∈ combo, ∃ r, s.resources.lookup v = some r ∧ Eligible r req

/-- A candidate is stored under its id, and is of the class of the demand. -/
theorem lookup_of_mem_candidates (hkeyed : s.ResourcesKeyed) {d : ClassDemand D} {r : Resource D}
    (h : r ∈ s.candidates req d) :
    s.resources.lookup r.id = some r ∧ Eligible r req ∧ r.resourceClass = d.cls := by
  have hfilter := List.mem_filter.mp ((List.mem_insertionSort _).mp h)
  obtain ⟨k, hk⟩ := UMap.exists_lookup_of_mem_values hfilter.1
  rw [hkeyed k r hk]
  exact ⟨hk, of_decide_eq_true hfilter.2⟩

/-- The candidates of a class are different resources, so their ids differ. -/
theorem nodup_ids_candidates (hkeyed : s.ResourcesKeyed) (d : ClassDemand D) :
    ((s.candidates req d).map (·.id)).Nodup := by
  have hperm := (List.perm_insertionSort (fun a b => candidateBefore d a b = true)
    (s.resources.values.filter fun r => Eligible r req ∧ r.resourceClass = d.cls)).map (·.id)
  exact hperm.nodup_iff.mpr ((List.filter_sublist.map _).nodup hkeyed.values)

theorem combines_of_drawn (hkeyed : s.ResourcesKeyed) {d : ClassDemand D} {p : List ResourceId}
    (h : Drawn (s.candidates req d) p) : s.Combines req p := by
  refine ⟨h.1, fun v hv => ?_⟩
  obtain ⟨r, hr, rfl⟩ := h.2 v hv
  obtain ⟨hlookup, heligible, -⟩ := lookup_of_mem_candidates hkeyed hr
  exact ⟨r, hlookup, heligible⟩

/-- Every mandatory demand has a selection, and what is selected are eligible resources. -/
theorem enumerateAll_selections (hkeyed : s.ResourcesKeyed) {ds : List (ClassDemand D)}
    {sels : List (Selection D)} (h : s.enumerateAll req ds = .ok sels) :
    (∀ d ∈ ds, d.mandatory = true → ∃ sel ∈ sels, sel.demand = d) ∧
      ∀ sel ∈ sels, ∀ p ∈ sel.picks, s.Combines req p := by
  obtain ⟨rfl, -⟩ := enumerateAll_ok_iff.mp h
  constructor
  · intro d hd hmandatory
    exact ⟨_, List.mem_map_of_mem (List.mem_filter.mpr ⟨hd, hmandatory⟩), rfl⟩
  · intro sel hsel p hp
    obtain ⟨d, -, rfl⟩ := List.mem_map.mp hsel
    exact combines_of_drawn hkeyed
      (drawn_of_mem_enumerateSelections (nodup_ids_candidates hkeyed d) hp)

omit [Double D] in
/-- A selection is put behind a combination only if they share no member. -/
theorem extendCombos_combines {combos picks : List (List ResourceId)}
    (hcombos : ∀ c ∈ combos, s.Combines req c) (hpicks : ∀ p ∈ picks, s.Combines req p) :
    ∀ c ∈ extendCombos combos picks, s.Combines req c := by
  intro c hc
  obtain ⟨combo, hcombo, p, hp, hdisjoint, rfl⟩ := mem_extendCombos hc
  exact ⟨List.Nodup.append (hcombos combo hcombo).1 (hpicks p hp).1 hdisjoint,
    List.forall_mem_append.mpr ⟨(hcombos combo hcombo).2, (hpicks p hp).2⟩⟩

omit [Double D] in
theorem productCombos_combines {combos combos' : List (List ResourceId)}
    {sels : List (Selection D)} (h : productCombos combos sels = .ok combos')
    (hcombos : ∀ c ∈ combos, s.Combines req c)
    (hpicks : ∀ sel ∈ sels, ∀ p ∈ sel.picks, s.Combines req p) :
    ∀ c ∈ combos', s.Combines req c := by
  induction sels generalizing combos with
  | nil =>
    cases h
    exact hcombos
  | cons sel sels ih =>
    -- a product that is cut off is no result
    unfold productCombos at h
    dsimp only at h
    split at h
    · cases h
    rw [List.forall_mem_cons] at hpicks
    exact ih h (extendCombos_combines hcombos hpicks.1) hpicks.2

/-- **The combinations to evaluate.** Each has pairwise different eligible members, and
there is a selection for each mandatory demand. -/
theorem combosFor_combines (hkeyed : s.ResourcesKeyed) {selections : List (Selection D)}
    {combos : List (List ResourceId)} (h : s.combosFor req = .ok (selections, combos)) :
    (∀ d ∈ computeDemands req, d.mandatory = true → ∃ sel ∈ selections, sel.demand = d) ∧
      ∀ c ∈ combos, s.Combines req c := by
  obtain ⟨hsels, -, hproduct⟩ := combosFor_eq_ok_iff.mp h
  obtain ⟨hdemands, hpicks⟩ := enumerateAll_selections hkeyed hsels
  refine ⟨hdemands, productCombos_combines hproduct ?_ hpicks⟩
  exact List.forall_mem_singleton.mpr ⟨List.nodup_nil, List.forall_mem_nil _⟩

/-! ### Sets and graphs -/

omit [Double D] in
/-- The records of a combination, in its order. -/
theorem Combines.lookups (hkeyed : s.ResourcesKeyed) {combo : List ResourceId}
    (h : s.Combines req combo) :
    (combo.filterMap s.resources.lookup).map (·.id) = combo ∧
      combo.map s.resources.lookup = (combo.filterMap s.resources.lookup).map some ∧
      ∀ r ∈ combo.filterMap s.resources.lookup, s.resources.lookup r.id = some r ∧
        Eligible r req := by
  obtain ⟨-, hall⟩ := h
  induction combo with
  | nil => exact ⟨rfl, rfl, List.forall_mem_nil _⟩
  | cons v combo ih =>
    rw [List.forall_mem_cons] at hall
    obtain ⟨⟨r, hr, heligible⟩, hrest⟩ := hall
    obtain ⟨hids, hmap, hmem⟩ := ih hrest
    -- the members are registered, so none is dropped
    have hcons : (v :: combo).filterMap s.resources.lookup =
        r :: combo.filterMap s.resources.lookup := List.filterMap_cons_some hr
    rw [hcons]
    have hid : r.id = v := hkeyed v r hr
    refine ⟨?_, ?_, List.forall_mem_cons.mpr ⟨⟨?_, heligible⟩, hmem⟩⟩
    · rw [List.map_cons, hids, hid]
    · rw [List.map_cons, List.map_cons, hmap, hr]
    · rw [hid, hr]

omit [Double D] in
/-- The graph of a set without repetitions has its members as vertices, in order. -/
theorem vertices_buildGraph (req : CompositionRequest D) {set : List (Resource D)}
    (h : (set.map (·.id)).Nodup) : (buildGraph req set).vertices = set.map (·.id) := by
  -- for any graph the vertices are added to, if it has none of them
  have hfold : ∀ (l : List (Resource D)) (g : ResourceGraph D),
      (g.vertices ++ l.map (·.id)).Nodup →
      (l.foldl (fun g r => g.addVertex r.id) g).vertices = g.vertices ++ l.map (·.id) := by
    intro l
    induction l with
    | nil => exact fun g _ => (List.append_nil _).symm
    | cons r l ih =>
      intro g hnodup
      have hnew : r.id ∉ g.vertices := by
        intro hmem
        exact (List.disjoint_of_nodup_append hnodup) hmem List.mem_cons_self
      have hadd : (g.addVertex r.id).vertices = g.vertices ++ [r.id] := by
        unfold ResourceGraph.addVertex
        rw [if_neg hnew]
      have hassoc : g.vertices ++ (r :: l).map (·.id) =
          (g.addVertex r.id).vertices ++ l.map (·.id) := by
        rw [hadd, List.append_assoc, List.map_cons, List.singleton_append]
      rw [hassoc] at hnodup ⊢
      exact ih _ hnodup
  exact hfold set default h

/-- The edge that `BuildGraph` adds from one member to another. -/
def requiredEdge (req : CompositionRequest D) (a b : Resource D) (kind : GraphEdgeKind) :
    GraphEdge D := ⟨a.id, b.id, kind, true, req.minBandwidthMbps, req.maxLatencyUs, [], []⟩

omit [Double D] in
/-- One pair of loops over the set reaches every pair of its members. -/
theorem mem_between (p q : ResourceClass → Bool) {set : List (Resource D)}
    {kinds : List GraphEdgeKind} {a b : Resource D} (ha : a ∈ set) (hb : b ∈ set)
    (hp : p a.resourceClass = true) (hq : q b.resourceClass = true) (hne : a.id ≠ b.id) :
    ∀ kind ∈ kinds, requiredEdge req a b kind ∈
      (set.filter fun a => p a.resourceClass).flatMap fun a =>
        (set.filter fun b => q b.resourceClass && b.id != a.id).flatMap fun b =>
          kinds.flatMap fun kind => if a.id = b.id then [] else [requiredEdge req a b kind] := by
  intro kind hkind
  refine List.mem_flatMap.mpr ⟨a, List.mem_filter.mpr ⟨ha, hp⟩, ?_⟩
  refine List.mem_flatMap.mpr ⟨b, List.mem_filter.mpr ⟨hb, ?_⟩, ?_⟩
  · rw [hq, Bool.true_and, bne_iff_ne]
    exact hne.symm
  · refine List.mem_flatMap.mpr ⟨kind, hkind, ?_⟩
    rw [if_neg hne]
    exact List.mem_singleton_self _

omit [Double D] in
/-- **The edges of a graph**, class by class. -/
theorem requiredEdge_mem (req : CompositionRequest D) {set : List (Resource D)} {a b : Resource D}
    (ha : a ∈ set) (hb : b ∈ set) (hne : a.id ≠ b.id) :
    (a.resourceClass = .compute → b.resourceClass = .accelerator →
      ∀ kind ∈ [GraphEdgeKind.reachability, .compatibility],
        requiredEdge req a b kind ∈ (buildGraph req set).edges) ∧
    (a.resourceClass = .accelerator →
      b.resourceClass = .hostMemory ∨ b.resourceClass = .expandedMemory →
      ∀ kind ∈ [GraphEdgeKind.reachability, .bandwidthBound, .latencyBound],
        requiredEdge req a b kind ∈ (buildGraph req set).edges) ∧
    (a.resourceClass = .accelerator →
      b.resourceClass = .nic ∨ b.resourceClass = .networkEndpoint →
      ∀ kind ∈ [GraphEdgeKind.reachability, .bandwidthBound],
        requiredEdge req a b kind ∈ (buildGraph req set).edges) ∧
    (a.resourceClass = .compute → b.resourceClass = .storage →
      ∀ kind ∈ [GraphEdgeKind.reachability, .bandwidthBound],
        requiredEdge req a b kind ∈ (buildGraph req set).edges) := by
  refine ⟨fun hp hq kind hkind => ?_, fun hp hq kind hkind => ?_, fun hp hq kind hkind => ?_,
    fun hp hq kind hkind => ?_⟩
  · -- each of the four pairs of loops appends its edges to those before
    refine List.mem_append_left _ (List.mem_append_left _ (List.mem_append_left _ ?_))
    exact mem_between (· = .compute) (· = .accelerator) ha hb (decide_eq_true hp)
      (decide_eq_true hq) hne kind hkind
  · refine List.mem_append_left _ (List.mem_append_left _ (List.mem_append_right _ ?_))
    exact mem_between (· = .accelerator)
      (fun c => c = .hostMemory ∨ c = .expandedMemory) ha hb (decide_eq_true hp)
      (decide_eq_true hq) hne kind hkind
  · refine List.mem_append_left _ (List.mem_append_right _ ?_)
    exact mem_between (· = .accelerator)
      (fun c => c = .nic ∨ c = .networkEndpoint) ha hb (decide_eq_true hp)
      (decide_eq_true hq) hne kind hkind
  · refine List.mem_append_right _ ?_
    exact mem_between (· = .compute) (· = .storage) ha hb (decide_eq_true hp)
      (decide_eq_true hq) hne kind hkind

/-! ### Paths -/

/-- A path of the table that a composition may rely on. -/
structure UsablePath (paths : OrdMap Str (PathEvidence D)) (a b : NodeId) (p : PathEvidence D) :
    Prop where
  found : paths.find? (pathKey a b) = some p
  verified : p.verified = true
  available : p.available = true
  current : p.evidence.isCurrent = true

/-- The path is not below a positive bound on the bandwidth. -/
def MeetsBandwidth (req : CompositionRequest D) (p : PathEvidence D) : Prop :=
  Double.lt Double.zero req.minBandwidthMbps = true →
    Double.lt p.bandwidthMbps req.minBandwidthMbps = false

/-- The path is not above a positive bound on the latency. -/
def MeetsLatency (req : CompositionRequest D) (p : PathEvidence D) : Prop :=
  Double.lt Double.zero req.maxLatencyUs = true →
    Double.lt req.maxLatencyUs p.latencyUs = false

/-- What a validated edge between two nodes says about the path table. -/
theorem usablePath_of_isOk {paths : OrdMap Str (PathEvidence D)} {e : GraphEdge D}
    {source target : Resource D} (hsource : s.resources.lookup e.source = some source)
    (htarget : s.resources.lookup e.target = some target) (hnode : source.nodeId ≠ target.nodeId)
    (h : (validateEdge s.resources paths e).isOk = true) :
    ∃ p, UsablePath paths source.nodeId target.nodeId p ∧
      (e.kind = .bandwidthBound → Double.lt Double.zero e.minBandwidthMbps = true →
        Double.lt p.bandwidthMbps e.minBandwidthMbps = false) ∧
      (e.kind = .latencyBound → Double.lt Double.zero e.maxLatencyUs = true →
        Double.lt e.maxLatencyUs p.latencyUs = false) := by
  unfold validateEdge at h
  rw [hsource, htarget] at h
  dsimp only at h
  rw [if_neg hnode] at h
  split at h
  · cases h
  next p hp =>
  -- the checks of a path, in their order
  obtain ⟨hunverified, h⟩ := Check.isOk_ite h
  obtain ⟨hstale, h⟩ := Check.isOk_ite h
  obtain ⟨hbandwidth, h⟩ := Check.isOk_ite h
  obtain ⟨hlatency, -⟩ := Check.isOk_ite h
  rw [Bool.or_eq_true, Bool.not_eq_true', Bool.not_eq_true', not_or, Bool.not_eq_false,
    Bool.not_eq_false] at hunverified
  rw [not_or, Bool.not_eq_true', Bool.not_eq_false] at hstale
  refine ⟨p, ⟨hp, hunverified.1, hunverified.2, hstale.2⟩, ?_, ?_⟩
  · intro hkind hpos
    exact Bool.eq_false_of_not_eq_true fun hlt => hbandwidth ⟨hkind, hpos, hlt⟩
  · intro hkind hpos
    exact Bool.eq_false_of_not_eq_true fun hlt => hlatency ⟨hkind, hpos, hlt⟩

/-- The same of an edge that a graph requires. -/
theorem usablePath_of_validateEdge {paths : OrdMap Str (PathEvidence D)} {a b : Resource D}
    {kind : GraphEdgeKind} (ha : s.resources.lookup a.id = some a)
    (hb : s.resources.lookup b.id = some b) (hnode : a.nodeId ≠ b.nodeId)
    (h : (validateEdge s.resources paths (requiredEdge req a b kind)).isOk = true) :
    ∃ p, UsablePath paths a.nodeId b.nodeId p ∧
      (kind = .bandwidthBound → MeetsBandwidth req p) ∧
      (kind = .latencyBound → MeetsLatency req p) :=
  usablePath_of_isOk (e := requiredEdge req a b kind) ha hb hnode h

/-! ### Demands -/

/-- What a request asks of a class by amount, with the capacity that counts towards it. -/
structure AmountAsked (D : Type) where
  cls : ResourceClass
  amount : D
  capacity : Capacity D → D

/-- The classes that are asked for by amount. -/
def amountsAsked (req : CompositionRequest D) : List (AmountAsked D) := [
  ⟨.compute, Double.ofRat req.computeUnits.toNat, (·.computeUnits)⟩,
  ⟨.hostMemory, req.hostMemoryBytes, (·.hostMemoryBytes)⟩,
  ⟨.expandedMemory, req.expandedMemoryBytes, (·.expandedMemoryBytes)⟩,
  ⟨.storage, req.storageBytes, (·.storageBytes)⟩]

/-- The classes that are asked for by count. -/
def countsAsked (req : CompositionRequest D) : List (ResourceClass × UInt32) :=
  [(.accelerator, req.acceleratorCount), (.networkEndpoint, req.networkEndpointCount)]

/-- The members of a class. -/
def ofClass (members : List (Resource D)) (cls : ResourceClass) : List (Resource D) :=
  members.filter fun r => r.resourceClass = cls

/-- The sum of a capacity over some members. -/
def totalOf (capacity : Capacity D → D) (members : List (Resource D)) : D :=
  members.foldl (fun sum r => Double.add sum (capacity r.capacity)) Double.zero

/-- **What a plan with these members satisfies.** -/
structure Satisfies (s : Engine D) (req : CompositionRequest D) (members : List (Resource D)) :
    Prop where
  eligible : ∀ r ∈ members, Eligible r req
  /-- A class that is asked for or mandatory has a member, and enough capacity. -/
  amounts : ∀ a ∈ amountsAsked req,
    Double.lt Double.zero a.amount = true ∨ req.mandatoryClasses.contains a.cls = true →
      ofClass members a.cls ≠ [] ∧
        Double.le a.amount (totalOf a.capacity (ofClass members a.cls)) = true
  counts : ∀ c ∈ countsAsked req, c.2.toNat ≤ (ofClass members c.1).length ∧
    (req.mandatoryClasses.contains c.1 = true → ofClass members c.1 ≠ [])
  compute_accelerator : ∀ a ∈ members, ∀ b ∈ members, a.resourceClass = .compute →
    b.resourceClass = .accelerator → a.nodeId ≠ b.nodeId →
    ∃ p, UsablePath s.paths a.nodeId b.nodeId p
  accelerator_memory : ∀ a ∈ members, ∀ b ∈ members, a.resourceClass = .accelerator →
    b.resourceClass = .hostMemory ∨ b.resourceClass = .expandedMemory → a.nodeId ≠ b.nodeId →
    ∃ p, UsablePath s.paths a.nodeId b.nodeId p ∧ MeetsBandwidth req p ∧ MeetsLatency req p
  accelerator_network : ∀ a ∈ members, ∀ b ∈ members, a.resourceClass = .accelerator →
    b.resourceClass = .nic ∨ b.resourceClass = .networkEndpoint → a.nodeId ≠ b.nodeId →
    ∃ p, UsablePath s.paths a.nodeId b.nodeId p ∧ MeetsBandwidth req p
  compute_storage : ∀ a ∈ members, ∀ b ∈ members, a.resourceClass = .compute →
    b.resourceClass = .storage → a.nodeId ≠ b.nodeId →
    ∃ p, UsablePath s.paths a.nodeId b.nodeId p ∧ MeetsBandwidth req p
  coherent : req.requireCoherence = true →
    ∀ r ∈ members, capabilitySupported r .coherentMemoryAccess = true

/-- The capacity that each dimension by amount names. -/
theorem capacityForDimension_amounts (r : Resource D) :
    capacityForDimension r (str "compute_units") = r.capacity.computeUnits ∧
      capacityForDimension r (str "host_memory_bytes") = r.capacity.hostMemoryBytes ∧
      capacityForDimension r (str "expanded_memory_bytes") = r.capacity.expandedMemoryBytes ∧
      capacityForDimension r (str "storage_bytes") = r.capacity.storageBytes := by
  unfold capacityForDimension
  refine ⟨if_pos rfl, ?_, ?_, ?_⟩
  · rw [if_neg (by decide +kernel), if_neg (by decide +kernel), if_pos rfl]
  · rw [if_neg (by decide +kernel), if_neg (by decide +kernel), if_neg (by decide +kernel),
      if_pos rfl]
  · rw [if_neg (by decide +kernel), if_neg (by decide +kernel), if_neg (by decide +kernel),
      if_neg (by decide +kernel), if_pos rfl]

/-- The six demands. -/
theorem get_mem_computeDemands (req : CompositionRequest D) (i : ℕ) (hi : i < 6) :
    (computeDemands req).get ⟨i, hi⟩ ∈ computeDemands req := List.get_mem _ _

/-- The demand for a class that is asked for by amount. -/
theorem demand_of_amount {a : AmountAsked D} (ha : a ∈ amountsAsked req) :
    ∃ d ∈ computeDemands req, d.cls = a.cls ∧ d.amountBased = true ∧ d.amount = a.amount ∧
      (∀ r : Resource D, capacityForDimension r d.dimension = a.capacity r.capacity) ∧
      d.mandatory = (Double.lt Double.zero a.amount || req.mandatoryClasses.contains a.cls) := by
  -- the first, third, fourth and fifth of the six demands
  have hmandatory : ∀ x y : Bool, (true && x || !true && false || y) = (x || y) := by decide
  simp only [amountsAsked, List.mem_cons, List.not_mem_nil, or_false] at ha
  rcases ha with rfl | rfl | rfl | rfl
  · exact ⟨_, get_mem_computeDemands req 0 (by decide), rfl, rfl, rfl,
      fun r => (capacityForDimension_amounts r).1, hmandatory _ _⟩
  · exact ⟨_, get_mem_computeDemands req 2 (by decide), rfl, rfl, rfl,
      fun r => (capacityForDimension_amounts r).2.1, hmandatory _ _⟩
  · exact ⟨_, get_mem_computeDemands req 3 (by decide), rfl, rfl, rfl,
      fun r => (capacityForDimension_amounts r).2.2.1, hmandatory _ _⟩
  · exact ⟨_, get_mem_computeDemands req 4 (by decide), rfl, rfl, rfl,
      fun r => (capacityForDimension_amounts r).2.2.2, hmandatory _ _⟩

/-- The demand for a class that is asked for by count. -/
theorem demand_of_count {c : ResourceClass × UInt32} (hc : c ∈ countsAsked req) :
    ∃ d ∈ computeDemands req, d.cls = c.1 ∧ d.amountBased = false ∧ c.2 ≤ d.count ∧
      d.mandatory = (decide (0 < c.2) || req.mandatoryClasses.contains c.1) := by
  simp only [countsAsked, List.mem_cons, List.not_mem_nil, or_false] at hc
  rcases hc with rfl | rfl
  · refine ⟨_, get_mem_computeDemands req 1 (by decide), rfl, rfl, ?_, rfl⟩
    exact le_of_eq rfl
  · refine ⟨_, get_mem_computeDemands req 5 (by decide), rfl, rfl, ?_, rfl⟩
    -- a mandatory endpoint class without a count is asked for one endpoint
    change req.networkEndpointCount ≤ (if _ then 1 else req.networkEndpointCount)
    split
    · next hzero =>
      rw [hzero.2.2]
      decide
    · exact le_rfl

/-- What a selection that meets its demand has. -/
theorem meetsDemand_iff {sel : List (Resource D)} {d : ClassDemand D} :
    meetsDemand sel d = true ↔ sel ≠ [] ∧
      (d.amountBased = true → Double.le d.amount (sel.foldl (fun sum r =>
        Double.add sum (capacityForDimension r d.dimension)) Double.zero) = true) ∧
      (d.amountBased = false → d.count ≤ sel.length.toUInt32) := by
  unfold meetsDemand
  cases sel with
  | nil => simp
  | cons r sel => cases d.amountBased <;> simp

/-- An edge of a validated graph is validated. -/
theorem isOk_validateEdge {g : ResourceGraph D} {resources : UMap ResourceId (Resource D)}
    {paths : OrdMap Str (PathEvidence D)} (h : (validateGraph g resources paths).isOk = true) :
    ∀ e ∈ g.edges, (validateEdge resources paths e).isOk = true := by
  unfold validateGraph at h
  generalize g.edges = edges at h
  induction edges with
  | nil => exact List.forall_mem_nil _
  | cons e edges ih =>
    unfold firstFailure at h
    split at h
    · next hok => exact List.forall_mem_cons.mpr ⟨by rw [hok]; rfl, ih h⟩
    · cases h

/-- Members that meet every mandatory demand have the amounts that are asked for. -/
theorem amounts_of_meetsDemand {members : List (Resource D)}
    (hmet : ∀ d ∈ computeDemands req, d.mandatory = true →
      meetsDemand (ofClass members d.cls) d = true) {a : AmountAsked D} (ha : a ∈ amountsAsked req)
    (hasked : Double.lt Double.zero a.amount = true ∨ req.mandatoryClasses.contains a.cls = true) :
    ofClass members a.cls ≠ [] ∧
      Double.le a.amount (totalOf a.capacity (ofClass members a.cls)) = true := by
  obtain ⟨d, hd, hcls, hbased, hamount, hcap, hmandatory⟩ := demand_of_amount ha
  have hm := meetsDemand_iff.mp (hmet d hd (by rw [hmandatory, Bool.or_eq_true]; exact hasked))
  rw [hcls, hamount] at hm
  have hle := hm.2.1 hbased
  simp only [hcap] at hle
  exact ⟨hm.1, hle⟩

/-- And the counts. -/
theorem counts_of_meetsDemand {members : List (Resource D)}
    (hmet : ∀ d ∈ computeDemands req, d.mandatory = true →
      meetsDemand (ofClass members d.cls) d = true) {c : ResourceClass × UInt32}
    (hc : c ∈ countsAsked req) :
    c.2.toNat ≤ (ofClass members c.1).length ∧
      (req.mandatoryClasses.contains c.1 = true → ofClass members c.1 ≠ []) := by
  obtain ⟨d, hd, hcls, hbased, hcount, hmandatory⟩ := demand_of_count hc
  refine ⟨?_, fun hreq => ?_⟩
  · by_cases hpos : 0 < c.2
    · have hm := meetsDemand_iff.mp (hmet d hd (by rw [hmandatory, decide_eq_true hpos]; rfl))
      rw [hcls] at hm
      have hle : c.2 ≤ (ofClass members c.1).length.toUInt32 := hcount.trans (hm.2.2 hbased)
      -- the cast of the size to 32 bits makes it no larger
      refine (UInt32.le_iff_toNat_le.mp hle).trans ?_
      rw [UInt32.toNat_ofNat']
      exact Nat.mod_le _ _
    · have hzero : c.2.toNat ≤ 0 := not_lt.mp fun h => hpos (UInt32.lt_iff_toNat_lt.mpr h)
      exact hzero.trans (Nat.zero_le _)
  · have hm := meetsDemand_iff.mp (hmet d hd (by rw [hmandatory, hreq, Bool.or_true]))
    rw [hcls] at hm
    exact hm.1

/-- **A feasible combination satisfies the request.** -/
theorem Combines.satisfies (hkeyed : s.ResourcesKeyed) {selections : List (Selection D)}
    (hdemands : ∀ d ∈ computeDemands req, d.mandatory = true → ∃ sel ∈ selections, sel.demand = d)
    {combo : List ResourceId} (hcombo : s.Combines req combo)
    (h : s.feasible req selections s.paths (combo.filterMap s.resources.lookup) = true) :
    s.Satisfies req (combo.filterMap s.resources.lookup) := by
  obtain ⟨-, -, hmem⟩ := hcombo.lookups hkeyed
  generalize combo.filterMap s.resources.lookup = members at h hmem
  unfold feasible at h
  simp only [Bool.and_eq_true] at h
  obtain ⟨⟨⟨hmeets, hgraph⟩, -⟩, hcoherent⟩ := h
  -- every mandatory demand has its selection, and that is met
  have hmet : ∀ d ∈ computeDemands req, d.mandatory = true →
      meetsDemand (ofClass members d.cls) d = true := by
    intro d hd hmandatory
    obtain ⟨sel, hsel, rfl⟩ := hdemands d hd hmandatory
    exact List.all_eq_true.mp hmeets sel hsel
  -- members of different classes are different, so their edges are in the graph
  have hpath : ∀ {a b kind}, a ∈ members → b ∈ members → a.nodeId ≠ b.nodeId →
      requiredEdge req a b kind ∈ (buildGraph req members).edges →
      ∃ p, UsablePath s.paths a.nodeId b.nodeId p ∧
        (kind = .bandwidthBound → MeetsBandwidth req p) ∧
        (kind = .latencyBound → MeetsLatency req p) := by
    intro a b kind ha hb hnode he
    exact usablePath_of_validateEdge (hmem a ha).1 (hmem b hb).1 hnode
      (isOk_validateEdge hgraph _ he)
  have hne : ∀ {a b}, a ∈ members → b ∈ members → a.nodeId ≠ b.nodeId → a.id ≠ b.id := by
    intro a b ha hb hnode hid
    have hsame := (hmem a ha).1
    rw [hid, (hmem b hb).1] at hsame
    cases hsame
    exact hnode rfl
  refine ⟨fun r hr => (hmem r hr).2, fun a ha => amounts_of_meetsDemand hmet ha,
    fun c hc => counts_of_meetsDemand hmet hc, ?_, ?_, ?_, ?_, ?_⟩
  · intro a ha b hb hca hcb hnode
    have hedge := (requiredEdge_mem req ha hb (hne ha hb hnode)).1 hca hcb .reachability (by decide)
    obtain ⟨p, hp, -⟩ := hpath ha hb hnode hedge
    exact ⟨p, hp⟩
  · intro a ha b hb hca hcb hnode
    have hedges := (requiredEdge_mem req ha hb (hne ha hb hnode)).2.1 hca hcb
    obtain ⟨p, hp, hbw, -⟩ := hpath ha hb hnode (hedges .bandwidthBound (by decide))
    obtain ⟨p', hp', -, hlat⟩ := hpath ha hb hnode (hedges .latencyBound (by decide))
    -- both edges found the one entry of the table
    obtain rfl : p = p' := Option.some.inj (hp.found.symm.trans hp'.found)
    exact ⟨p, hp, hbw rfl, hlat rfl⟩
  · intro a ha b hb hca hcb hnode
    have hedges := (requiredEdge_mem req ha hb (hne ha hb hnode)).2.2.1 hca hcb
    obtain ⟨p, hp, hbw, -⟩ := hpath ha hb hnode (hedges .bandwidthBound (by decide))
    exact ⟨p, hp, hbw rfl⟩
  · intro a ha b hb hca hcb hnode
    have hedges := (requiredEdge_mem req ha hb (hne ha hb hnode)).2.2.2 hca hcb
    obtain ⟨p, hp, hbw, -⟩ := hpath ha hb hnode (hedges .bandwidthBound (by decide))
    exact ⟨p, hp, hbw rfl⟩
  · intro hreq r hr
    rw [hreq, Bool.not_true, Bool.false_or] at hcoherent
    exact List.all_eq_true.mp hcoherent r hr

/-! ### Evidence that is alike -/

/-- The two pieces of evidence are the same in all that a validation reads of them. -/
structure Alike (p q : PathEvidence D) : Prop where
  verified : p.verified = q.verified
  available : p.available = q.available
  current : p.evidence.isCurrent = q.evidence.isCurrent
  bandwidth : p.bandwidthMbps = q.bandwidthMbps
  latency : p.latencyUs = q.latencyUs

omit [Double D] in
theorem Alike.refl (p : PathEvidence D) : Alike p p := ⟨rfl, rfl, rfl, rfl, rfl⟩

/-- The two tables have entries for the same pairs, and for each pair they are alike. -/
def TablesAlike (paths paths' : OrdMap Str (PathEvidence D)) : Prop :=
  ∀ a b, Option.Rel Alike (paths.find? (pathKey a b)) (paths'.find? (pathKey a b))

omit [Double D] in
theorem TablesAlike.refl (paths : OrdMap Str (PathEvidence D)) : TablesAlike paths paths := by
  intro a b
  cases paths.find? (pathKey a b) with
  | none => exact .none
  | some p => exact .some (.refl p)

/-- A validation does not tell such tables apart. -/
theorem TablesAlike.isOk_validateEdge {paths paths' : OrdMap Str (PathEvidence D)}
    (h : TablesAlike paths paths') (resources : UMap ResourceId (Resource D)) (e : GraphEdge D) :
    (validateEdge resources paths e).isOk = (validateEdge resources paths' e).isOk := by
  unfold validateEdge
  split
  swap
  · rfl
  next source target _ _ =>
  dsimp only
  -- within one node neither table is looked at
  by_cases hnode : source.nodeId = target.nodeId
  · rw [if_pos hnode, if_pos hnode]
  rw [if_neg hnode, if_neg hnode]
  have hentries := h source.nodeId target.nodeId
  revert hentries
  cases paths.find? (pathKey source.nodeId target.nodeId) <;>
    cases paths'.find? (pathKey source.nodeId target.nodeId)
  · exact fun _ => rfl
  · exact fun hentries => by cases hentries
  · exact fun hentries => by cases hentries
  next p q =>
  rintro (halike | _)
  dsimp only
  rw [halike.verified, halike.available, halike.bandwidth, halike.latency]
  -- a stale entry is not current, so both tests of the age come down to the second one
  have hage : ∀ e : Evidence D, (e.state = .stale ∨ (!e.isCurrent) = true) ↔ e.isCurrent = false := by
    intro e
    rw [Bool.not_eq_true', or_iff_right_iff_imp]
    intro hstale
    rw [Evidence.isCurrent, hstale]
    rfl
  have hsame : (p.evidence.state = .stale ∨ (!p.evidence.isCurrent) = true) ↔
      (q.evidence.state = .stale ∨ (!q.evidence.isCurrent) = true) := by
    rw [hage, hage, halike.current]
  simp only [hsame]

theorem TablesAlike.isOk_validateGraph {paths paths' : OrdMap Str (PathEvidence D)}
    (h : TablesAlike paths paths') (g : ResourceGraph D)
    (resources : UMap ResourceId (Resource D)) :
    (validateGraph g resources paths).isOk = (validateGraph g resources paths').isOk := by
  unfold validateGraph
  generalize g.edges = edges
  induction edges with
  | nil => rfl
  | cons e edges ih =>
    have hedge := h.isOk_validateEdge resources e
    unfold firstFailure
    revert hedge
    -- the first edge decides for both tables, or for neither
    rcases validateEdge resources paths e with err | ⟨⟨⟩⟩ <;>
      rcases validateEdge resources paths' e with err' | ⟨⟨⟩⟩
    · exact fun _ => rfl
    · exact fun hedge => by cases hedge
    · exact fun hedge => by cases hedge
    · exact fun _ => ih

/-- Nor does the evaluation of a combination. -/
theorem TablesAlike.feasible {paths paths' : OrdMap Str (PathEvidence D)}
    (h : TablesAlike paths paths') (s : Engine D) (req : CompositionRequest D)
    (selections : List (Selection D)) (set : List (Resource D)) :
    s.feasible req selections paths set = s.feasible req selections paths' set := by
  rw [Engine.feasible, Engine.feasible, h.isOk_validateGraph]

/-- **The backends agree with the table**: what they answer when `Compose` asks for the path
between two nodes is alike with the entry that the table has for them, if it has one. -/
def Agrees (s : Engine D) (req : CompositionRequest D) : Prop :=
  ∀ a b, a ≠ b → ∀ pe p, s.resolvePath (edgeRequirement req a b) = some pe →
    s.paths.find? (pathKey a b) = some p → Alike pe p

omit [Double D] in
/-- Edges between pairs that have an entry leave an alike table. -/
theorem TablesAlike.foldl_resolveEdge (hagrees : s.Agrees req) {edges : List (GraphEdge D)}
    (hedges : ∀ e ∈ edges, ∀ a b, s.Crosses e a b → ∃ p, s.paths.find? (pathKey a b) = some p)
    {acc : OrdMap Str (PathEvidence D) × List (PathEvidence D)} (h : TablesAlike acc.1 s.paths) :
    TablesAlike (edges.foldl (s.resolveEdge req) acc).1 s.paths := by
  induction edges generalizing acc with
  | nil => exact h
  | cons e edges ih =>
    rw [List.forall_mem_cons] at hedges
    refine ih hedges.2 fun a b => ?_
    rcases s.resolveEdge_cases req acc e with ⟨heq, -⟩ | ⟨a', b', pe, hcross, hpe, heq⟩
    · rw [heq]
      exact h a b
    rw [heq, OrdMap.find?_insert]
    split
    swap
    · exact h a b
    -- the pair of the edge has an entry, and the answer that replaces it is alike
    next hkey =>
    obtain ⟨rfl, rfl⟩ := pathKey_injective hkey
    obtain ⟨p, hp⟩ := hedges.1 _ _ hcross
    obtain ⟨-, -, -, -, -, -, hne⟩ := hcross
    rw [hp]
    exact .some (hagrees _ _ hne pe p hpe hp)

/-! ### The best combination -/

/-- The evaluation passes the combination, the table being as it is before the call. -/
def Passes (s : Engine D) (req : CompositionRequest D) (selections : List (Selection D))
    (combo : List ResourceId) : Prop :=
  combo.all (fun rid => (s.resources.lookup rid).isSome) = true ∧
    s.feasible req selections s.paths (combo.filterMap s.resources.lookup) = true

/-- **The best one of the combinations evaluated so far.** -/
structure BestOf (s : Engine D) (req : CompositionRequest D) (selections : List (Selection D))
    (seen : List (List ResourceId))
    (best : OrdMap Str (PathEvidence D) × Result (CompositionPlan D)) : Prop where
  paths : TablesAlike best.1 s.paths
  made : best.2.ok = true → ∃ combo ∈ seen, s.Passes req selections combo ∧
    best.2.payload.graph = buildGraph req (combo.filterMap s.resources.lookup) ∧
    best.2.payload.rank = rank (combo.filterMap s.resources.lookup)
  top : ∀ combo ∈ seen, s.Passes req selections combo →
    Double.lt best.2.payload.rank.total
      (rank (combo.filterMap s.resources.lookup)).total = false

variable [LawfulDoubleOrder D] {selections : List (Selection D)}

/-- One more combination. -/
theorem BestOf.considerCombo (hagrees : s.Agrees req) {seen : List (List ResourceId)}
    {best : OrdMap Str (PathEvidence D) × Result (CompositionPlan D)}
    (h : s.BestOf req selections seen best) (combo : List ResourceId) :
    s.BestOf req selections (seen ++ [combo]) (s.considerCombo req selections best combo) := by
  have hcases := s.considerCombo_cases req selections best combo
  dsimp only at hcases
  -- the combination is evaluated as it would be against the table before the call
  rw [h.paths.feasible] at hcases
  rcases hcases with ⟨hfalse, heq⟩ | ⟨htrue, hwins⟩
  · -- it is not better than the best one so far
    rw [heq]
    refine ⟨h.paths, fun hok => ?_, List.forall_mem_append.mpr ⟨h.top, ?_⟩⟩
    · obtain ⟨c, hc, hmade⟩ := h.made hok
      exact ⟨c, List.mem_append_left _ hc, hmade⟩
    · refine List.forall_mem_singleton.mpr fun hpasses => ?_
      rw [hpasses.1, hpasses.2, Bool.and_self, Bool.true_and] at hfalse
      exact hfalse
  · -- it is better than the best one so far, and so than all before
    rw [Bool.and_eq_true, Bool.and_eq_true] at htrue
    have hrank : (s.considerCombo req selections best combo).2.payload.rank =
        rank (combo.filterMap s.resources.lookup) := by
      rw [hwins]
      rfl
    refine ⟨?_, fun _ => ⟨combo, List.mem_append_right _ List.mem_cons_self, htrue.1, ?_, hrank⟩,
      List.forall_mem_append.mpr ⟨?_, ?_⟩⟩
    · rw [hwins]
      have hbefore : TablesAlike (best.1, ([] : List (PathEvidence D))).1 s.paths := h.paths
      refine hbefore.foldl_resolveEdge hagrees fun e he a b hcross => ?_
      -- its edges have been validated, so every pair they join has an entry
      have hfeasible := htrue.1.2
      unfold feasible at hfeasible
      simp only [Bool.and_eq_true] at hfeasible
      obtain ⟨source, target, hsource, htarget, rfl, rfl, hnode⟩ := hcross
      obtain ⟨p, hp, -⟩ := usablePath_of_isOk hsource htarget hnode
        (isOk_validateEdge hfeasible.1.1.2 e he)
      exact ⟨p, hp.found⟩
    · rw [hwins]
      rfl
    · intro c hc hpasses
      rw [hrank]
      refine Bool.eq_false_of_not_eq_true fun hlt => ?_
      have hbest := LawfulDoubleOrder.lt_trans _ _ _ htrue.2 hlt
      rw [h.top c hc hpasses] at hbest
      cases hbest
    · refine List.forall_mem_singleton.mpr fun _ => ?_
      rw [hrank]
      exact LawfulDoubleOrder.lt_irrefl _

theorem BestOf.foldl_considerCombo (hagrees : s.Agrees req) {seen combos : List (List ResourceId)}
    {best : OrdMap Str (PathEvidence D) × Result (CompositionPlan D)}
    (h : s.BestOf req selections seen best) :
    s.BestOf req selections (seen ++ combos)
      (combos.foldl (s.considerCombo req selections) best) := by
  induction combos generalizing seen best with
  | nil =>
    rw [List.append_nil]
    exact h
  | cons combo combos ih =>
    have hnext := ih (h.considerCombo hagrees combo)
    rw [List.append_assoc, List.singleton_append] at hnext
    exact hnext

/-- A returned plan is the best one of the combinations, finished. -/
theorem compose_bestOf (hagrees : s.Agrees req) (hok : (s.compose req).2.ok = true) :
    ∃ selections combos best, s.combosFor req = .ok (selections, combos) ∧
      s.BestOf req selections combos best ∧ best.2.ok = true ∧
      (s.compose req).1.paths = best.1 ∧
      (s.compose req).2.payload = s.finishPlan req best.1 best.2.payload := by
  revert hok
  unfold compose
  rcases s.combosFor req with ⟨reason, notes⟩ | ⟨selections, combos⟩
  · exact fun hok => by cases hok
  dsimp only
  -- before the loop nothing has been considered
  have hstart : s.BestOf req selections [] (s.paths, noPlan) :=
    ⟨.refl s.paths, (by intro hok; cases hok), List.forall_mem_nil _⟩
  have hbest : s.BestOf req selections ([] ++ combos)
      (combos.foldl (s.considerCombo req selections) (s.paths, noPlan)) :=
    hstart.foldl_considerCombo hagrees
  rw [List.nil_append] at hbest
  generalize combos.foldl (s.considerCombo req selections) (s.paths, noPlan) = best at hbest ⊢
  unfold finish
  by_cases hr : best.2.ok = true
  · rw [if_pos hr]
    exact fun _ => ⟨selections, combos, best, rfl, hbest, hr, rfl, rfl⟩
  · rw [if_neg hr]
    exact fun hok => by cases hok

/-- **Soundness and optimality of planning.** The vertices of a returned plan are pairwise
different and registered; their records satisfy the request, the authority records their
generations in vertex order, and the plan ranks as they do. They are one of the
combinations that were enumerated, and no combination that passes every check ranks
higher. The table that the call leaves is alike with the one before it. -/
theorem compose_sound (s : Engine D) (req : CompositionRequest D) (hkeyed : s.ResourcesKeyed)
    (hagrees : s.Agrees req) (hok : (s.compose req).2.ok = true) :
    let plan := (s.compose req).2.payload
    TablesAlike (s.compose req).1.paths s.paths ∧
    plan.graph.vertices.Nodup ∧
      ∃ members : List (Resource D),
        plan.graph.vertices.map s.resources.lookup = members.map some ∧
        s.Satisfies req members ∧
        plan.authority.resourceGenerations = members.map (·.generation) ∧
        plan.rank = rank members ∧
        ∃ selections combos, s.combosFor req = .ok (selections, combos) ∧
          plan.graph.vertices ∈ combos ∧
          ∀ combo ∈ combos,
            s.feasible req selections s.paths (combo.filterMap s.resources.lookup) = true →
            Double.lt plan.rank.total (rank (combo.filterMap s.resources.lookup)).total = false := by
  dsimp only
  obtain ⟨selections, combos, best, hcombos, hbest, hmade, htable, hpayload⟩ :=
    compose_bestOf hagrees hok
  obtain ⟨combo, hmem, hpasses, hgraph, hrank⟩ := hbest.made hmade
  obtain ⟨hdemands, hcombines⟩ := combosFor_combines hkeyed hcombos
  have hcombo := hcombines combo hmem
  obtain ⟨hids, hlookups, -⟩ := hcombo.lookups hkeyed
  -- the vertices of the graph are the combination itself
  have hvertices : (s.compose req).2.payload.graph.vertices = combo := by
    rw [hpayload]
    change best.2.payload.graph.vertices = combo
    rw [hgraph, vertices_buildGraph req (by rw [hids]; exact hcombo.1), hids]
  have hplanRank : (s.compose req).2.payload.rank =
      rank (combo.filterMap s.resources.lookup) := by
    rw [hpayload]
    exact hrank
  -- the authority looks the members up again, in the order of the vertices
  have hgenerations : (s.compose req).2.payload.authority.resourceGenerations =
      ((s.compose req).2.payload.graph.vertices.filterMap s.resources.lookup).map
        (·.generation) := by
    rw [hpayload]
    rfl
  rw [hgenerations, hvertices, htable]
  refine ⟨hbest.paths, hcombo.1, combo.filterMap s.resources.lookup, hlookups,
    hcombo.satisfies hkeyed hdemands hpasses.2, rfl, hplanRank, selections, combos, hcombos,
    hmem, ?_⟩
  intro c hc hfeasible
  rw [hplanRank, ← hrank]
  refine hbest.top c hc ⟨?_, hfeasible⟩
  -- the members of any other combination are registered too
  refine List.all_eq_true.mpr fun v hv => ?_
  obtain ⟨r, hr, -⟩ := (hcombines c hc).2 v hv
  rw [hr]
  rfl

/-! ### A discovered topology -/

/-- The synthetic backend, discovered: four nodes with seven resources. -/
def discovered : Engine ℚ :=
  (fresh sampleConfig).run [.addBackend (syntheticBackend ⟨1⟩), .discover]

/-- A compute unit and an accelerator with memory on another node, over paths of at least
1000 Mbps and at most 10 us. -/
def pathRequest : CompositionRequest ℚ :=
  { (default : CompositionRequest ℚ) with
    computeUnits := 1
    acceleratorCount := 1
    expandedMemoryBytes := 1
    minBandwidthMbps := 1000
    maxLatencyUs := 10 }

/-- The synthetic backend repeats the requirement in its answer, and `Discover` asks with
another one than `Compose`; what a validation reads of the two answers is the same. -/
theorem discovered_agrees (req : CompositionRequest ℚ) : discovered.Agrees req := by
  have hresolve : ∀ pr : PathRequirement ℚ,
      ((fresh sampleConfig).addBackend (syntheticBackend ⟨1⟩)).resolvePath pr =
        SyntheticBackend.resolvePath pr := by
    intro pr
    show (List.findSome? (fun b => b.resolvePath pr) [syntheticBackend ⟨1⟩]) = _
    rw [List.findSome?_singleton]
    rfl
  intro a b _ pe p hpe hp
  change ((fresh sampleConfig).addBackend (syntheticBackend ⟨1⟩)).discover.1.resolvePath _ =
    some pe at hpe
  change ((fresh sampleConfig).addBackend
    (syntheticBackend ⟨1⟩)).discover.1.paths.find? (pathKey a b) = some p at hp
  rw [resolvePath, backends_discover] at hpe
  obtain ⟨state, hstate, rfl⟩ := SyntheticBackend.resolvePath_eq_some ((hresolve _).symm.trans hpe)
  -- the entry of the table is an answer of the same backend
  rw [find?_discover, hresolve] at hp
  split at hp
  swap
  · cases hp
  rcases Option.or_eq_some_iff.mp hp with hanswer | ⟨-, hnone⟩
  swap
  · cases hnone
  obtain ⟨state', hstate', rfl⟩ := SyntheticBackend.resolvePath_eq_some hanswer
  have hsame := hstate.symm.trans hstate'
  cases hsame
  exact ⟨rfl, rfl, rfl, rfl, rfl⟩

/-- The plan of the discovered engine has members on three nodes, with two edges from the
compute unit to the accelerator and three on to the memory. -/
theorem discovered_sound :
    (discovered.compose pathRequest).2.payload.graph.vertices = [⟨101⟩, ⟨106⟩, ⟨103⟩] ∧
      (discovered.compose pathRequest).2.payload.paths.length = 5 ∧
      ∃ members, discovered.Satisfies pathRequest members ∧
        (discovered.compose pathRequest).2.payload.graph.vertices.map discovered.resources.lookup =
          members.map some := by
  refine ⟨by decide +kernel, by decide +kernel, ?_⟩
  obtain ⟨-, -, members, hmembers, hsat, -⟩ := compose_sound discovered pathRequest
    (resourcesKeyed_run _ _) (discovered_agrees pathRequest) (by decide +kernel)
  exact ⟨members, hsat, hmembers⟩

end Engine

end DFabric
