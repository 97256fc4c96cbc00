import DisaggregationFabric.Engine.Discovery
import DisaggregationFabric.Lib.Writes
import DisaggregationFabric.Safety.Authority

/-!
# Discovering again

`Discover` is called again and again, with backends that mostly report what they have reported
before. What a round of publications does is a round of writes (`Lib.Writes`): of the nodes, of
the resources with the labels of their nodes, and of the generations alone, whose changes sweep
the compositions (`lookup_compositions_publications`).

* `discovery_settles` — as long as the backends do not change their answers, everything is settled
  after two discoveries: any number of further ones changes nothing that can be looked up. One is
  not enough, since a resource may be labelled by a node that is reported behind it.
* `discovery_shakes_iff` — a settled registry does not mean peace for the compositions. Whatever
  is done in between, short of registering and of changing the backends, a further discovery takes
  the authority from a composition exactly when the backends report two generations of some node,
  or of one of its members.
-/

namespace DFabric

namespace Engine

variable {D : Type}

/-! ### What a publication writes -/

/-- The node under the id. -/
def nodeOf (s : Engine D) (a : NodeId) : Option (Node D) := s.nodes.lookup a

/-- The resource under the id. -/
def resourceOf (s : Engine D) (v : ResourceId) : Option (Resource D) := s.resources.lookup v

/-- The generation of the node under the id. -/
def nodeGen (s : Engine D) (a : NodeId) : Option NodeGeneration := (s.nodeOf a).map Node.generation

/-- The generation of the resource under the id. -/
def resourceGen (s : Engine D) (v : ResourceId) : Option ResourceGeneration :=
  (s.resourceOf v).map Resource.generation

/-- The node that a publication writes. -/
def nodeWrites : Publication D → List (NodeId × Node D)
  | .node n => if n.id.isValid then [(n.id, n)] else []
  | .resource _ => []

/-- The resource that a publication writes, with the label that its node has by then. -/
def resourceWrites (s : Engine D) : Publication D → List (ResourceId × Resource D)
  | .node _ => []
  | .resource r => if r.id.isValid then [(r.id, s.labelSynthetic r)] else []

/-- The generations that a publication writes. -/
def nodeGens (p : Publication D) : List (NodeId × NodeGeneration) :=
  (nodeWrites p).map fun w => (w.1, w.2.generation)

/-- The generations that a publication writes; the label does not matter. -/
def resourceGens : Publication D → List (ResourceId × ResourceGeneration)
  | .node _ => []
  | .resource r => if r.id.isValid then [(r.id, r.generation)] else []

theorem labelSynthetic_id (s : Engine D) (r : Resource D) : (s.labelSynthetic r).id = r.id := by
  unfold labelSynthetic
  split <;> rfl

theorem labelSynthetic_generation (s : Engine D) (r : Resource D) :
    (s.labelSynthetic r).generation = r.generation := by
  unfold labelSynthetic
  split <;> rfl

theorem resourceGens_eq (s : Engine D) (p : Publication D) :
    resourceGens p = (s.resourceWrites p).map fun w => (w.1, w.2.generation) := by
  cases p with
  | node n => rfl
  | resource r =>
    simp only [resourceGens, resourceWrites]
    split
    · rw [List.map_singleton, labelSynthetic_generation]
    · rfl

theorem resources_ingestResource (s : Engine D) (r : Resource D) :
    (s.ingestResource r).resources =
      if r.id.isValid then s.resources.insert r.id r else s.resources := by
  unfold ingestResource
  cases r.id.isValid with
  | false => rfl
  | true =>
    rw [if_neg (by decide), if_pos rfl]
    dsimp only
    split
    · split <;> rfl
    · rfl

theorem nodeOf_publish (s : Engine D) (p : Publication D) :
    (s.publish p).nodeOf = writes s.nodeOf (nodeWrites p) := by
  funext a
  cases p with
  | node n =>
    -- an invalid id is not ingested
    show (s.ingestNode n).nodes.lookup a = writes s.nodeOf (nodeWrites (.node n)) a
    rw [nodes_ingestNode, nodeWrites]
    split
    · rw [UMap.lookup_insert_eq_ite]
      show _ = (if a = n.id then some n else none).or (s.nodes.lookup a)
      split <;> rfl
    · rfl
  | resource r =>
    -- a resource writes no node
    obtain ⟨resources, compositions, heq⟩ := s.ingestResource_eq (s.labelSynthetic r)
    rw [publish, heq]
    rfl

theorem resourceOf_publish (s : Engine D) (p : Publication D) :
    (s.publish p).resourceOf = writes s.resourceOf (s.resourceWrites p) := by
  funext v
  cases p with
  | node n =>
    -- a node writes no resource
    obtain ⟨nodes, compositions, heq⟩ := s.ingestNode_eq n
    rw [publish, heq]
    rfl
  | resource r =>
    show (s.ingestResource (s.labelSynthetic r)).resources.lookup v =
      writes s.resourceOf (s.resourceWrites (.resource r)) v
    rw [resources_ingestResource, labelSynthetic_id, resourceWrites]
    split
    · rw [UMap.lookup_insert_eq_ite]
      show _ = (if v = r.id then some (s.labelSynthetic r) else none).or (s.resources.lookup v)
      split <;> rfl
    · rfl

theorem nodeGen_publish (s : Engine D) (p : Publication D) :
    (s.publish p).nodeGen = writes s.nodeGen (nodeGens p) := by
  funext a
  rw [nodeGen, nodeOf_publish, writes_map]
  rfl

theorem resourceGen_publish (s : Engine D) (p : Publication D) :
    (s.publish p).resourceGen = writes s.resourceGen (resourceGens p) := by
  funext v
  rw [resourceGen, resourceOf_publish, writes_map, resourceGens_eq s]
  rfl

/-! ### What it does to the compositions -/

/-- The composition after some nodes and some resources have changed their generation. -/
def shaken (ns : List NodeId) (vs : List ResourceId) (c : Composition D) : Composition D :=
  if ns ≠ [] ∨ ∃ v ∈ vs, v ∈ c.graph.vertices then
    { c with lifecycle := c.lifecycle.onGenerationChange }
  else c

/-- Two events are one. -/
theorem shaken_shaken (ns ns' : List NodeId) (vs vs' : List ResourceId) (c : Composition D) :
    shaken ns' vs' (shaken ns vs c) = shaken (ns ++ ns') (vs ++ vs') c := by
  -- a second change of generation finds the composition demoted already
  have hidem : c.lifecycle.onGenerationChange.onGenerationChange =
      c.lifecycle.onGenerationChange := by
    cases c.lifecycle <;> rfl
  have happend : (ns ++ ns' ≠ [] ∨ ∃ v ∈ vs ++ vs', v ∈ c.graph.vertices) ↔
      (ns ≠ [] ∨ ∃ v ∈ vs, v ∈ c.graph.vertices) ∨
        (ns' ≠ [] ∨ ∃ v ∈ vs', v ∈ c.graph.vertices) := by
    simp only [ne_eq, List.append_eq_nil_iff, not_and_or, List.mem_append, or_and_right, exists_or]
    exact or_or_or_comm
  -- shaken by the first round, by the second one alone, or by neither
  unfold shaken
  by_cases h : ns ≠ [] ∨ ∃ v ∈ vs, v ∈ c.graph.vertices
  · rw [if_pos h, if_pos (happend.mpr (Or.inl h))]
    split
    · rw [hidem]
    · rfl
  · rw [if_neg h]
    by_cases h' : ns' ≠ [] ∨ ∃ v ∈ vs', v ∈ c.graph.vertices
    · rw [if_pos h', if_pos (happend.mpr (Or.inr h'))]
    · rw [if_neg h', if_neg fun hall => (happend.mp hall).elim h h']

theorem shaken_self (ns : List NodeId) (vs : List ResourceId) (c : Composition D) :
    shaken ns vs (shaken ns vs c) = shaken ns vs c := by
  rw [shaken_shaken]
  simp only [shaken, ne_eq, List.append_eq_nil_iff, and_self, List.mem_append, or_self]

theorem shaken_nil (c : Composition D) : shaken [] [] c = c := by
  simp [shaken]

/-- A sweep over the compositions that are concerned. -/
theorem lookup_sweep {concerned : Composition D → Bool} {ns : List NodeId} {vs : List ResourceId}
    (h : ∀ c, concerned c = true ↔ ns ≠ [] ∨ ∃ v ∈ vs, v ∈ c.graph.vertices) (s : Engine D)
    (id : CompositionId) :
    (s.demoteWhere concerned CompositionLifecycle.onGenerationChange).compositions.lookup id =
      (s.compositions.lookup id).map (shaken ns vs) := by
  refine (UMap.lookup_mapVals _ s.compositions id).trans (congrArg (Option.map · _) ?_)
  funext c
  exact if_congr (h c) rfl rfl

/-- No composition is concerned. -/
theorem map_shaken_nil (o : Option (Composition D)) : o.map (shaken [] []) = o := by
  rw [funext shaken_nil, Option.map_id']

/-- A sweep for a generation that may have changed. -/
theorem lookup_sweep_of_ne {G : Type} [DecidableEq G] {concerned : Composition D → Bool}
    {ns : List NodeId} {vs : List ResourceId}
    (h : ∀ c, concerned c = true ↔ ns ≠ [] ∨ ∃ v ∈ vs, v ∈ c.graph.vertices) (s : Engine D)
    (old gen : G) (id : CompositionId) :
    (if old ≠ gen then s.demoteWhere concerned CompositionLifecycle.onGenerationChange
      else s).compositions.lookup id = (s.compositions.lookup id).map
        (if (some old).any (· ≠ gen) then shaken ns vs else shaken [] []) := by
  rw [Option.any_some]
  by_cases hne : old ≠ gen
  · rw [if_pos hne, if_pos (decide_eq_true hne)]
    exact lookup_sweep h s id
  · rw [if_neg hne, if_neg (by simpa using hne)]
    exact (map_shaken_nil _).symm

/-- A published node sweeps every composition, if its generation has changed. -/
theorem lookup_compositions_ingestNode (s : Engine D) (n : Node D) (id : CompositionId) :
    (s.ingestNode n).compositions.lookup id = (s.compositions.lookup id).map
      (shaken (overwritten s.nodeGen (nodeGens (.node n))) []) := by
  unfold ingestNode
  cases hvalid : n.id.isValid with
  | false =>
    have hwrites : nodeGens (Publication.node n) = [] := by
      simp [nodeGens, nodeWrites, hvalid]
    rw [hwrites]
    exact (map_shaken_nil _).symm
  | true =>
    have hwrites : nodeGens (Publication.node n) = [(n.id, n.generation)] := by
      simp [nodeGens, nodeWrites, hvalid]
    rw [hwrites, overwritten_singleton, apply_ite (shaken · []), if_neg (by decide)]
    -- an unknown node sweeps nothing
    rcases hold : s.nodes.lookup n.id with _ | old
    · have hgen : s.nodeGen n.id = none := by rw [nodeGen, nodeOf, hold]; rfl
      rw [hgen]
      exact (map_shaken_nil _).symm
    · have hgen : s.nodeGen n.id = some old.generation := by rw [nodeGen, nodeOf, hold]; rfl
      rw [hgen]
      exact lookup_sweep_of_ne (fun c => by simp) s old.generation n.generation id

/-- A published resource sweeps the compositions it is a member of, if its generation has
changed. -/
theorem lookup_compositions_ingestResource (s : Engine D) (r : Resource D) (id : CompositionId) :
    (s.ingestResource r).compositions.lookup id = (s.compositions.lookup id).map
      (shaken [] (overwritten s.resourceGen (resourceGens (.resource r)))) := by
  unfold ingestResource
  cases hvalid : r.id.isValid with
  | false =>
    have hwrites : resourceGens (Publication.resource r) = [] := by
      simp [resourceGens, hvalid]
    rw [hwrites]
    exact (map_shaken_nil _).symm
  | true =>
    have hwrites : resourceGens (Publication.resource r) = [(r.id, r.generation)] := by
      simp [resourceGens, hvalid]
    rw [hwrites, overwritten_singleton, apply_ite (shaken []), if_neg (by decide)]
    -- an unknown resource sweeps nothing
    rcases hold : s.resources.lookup r.id with _ | old
    · have hgen : s.resourceGen r.id = none := by rw [resourceGen, resourceOf, hold]; rfl
      rw [hgen]
      exact (map_shaken_nil _).symm
    · have hgen : s.resourceGen r.id = some old.generation := by
        rw [resourceGen, resourceOf, hold]; rfl
      rw [hgen]
      exact lookup_sweep_of_ne (fun c => by simp) s old.generation r.generation id

/-- One publication. -/
theorem lookup_compositions_publish (s : Engine D) (p : Publication D) (id : CompositionId) :
    (s.publish p).compositions.lookup id = (s.compositions.lookup id).map
      (shaken (overwritten s.nodeGen (nodeGens p))
        (overwritten s.resourceGen (resourceGens p))) := by
  cases p with
  | node n => exact s.lookup_compositions_ingestNode n id
  | resource r =>
    refine (s.lookup_compositions_ingestResource (s.labelSynthetic r) id).trans ?_
    -- the generation and the id are those of the unlabelled resource
    have hgens : resourceGens (.resource (s.labelSynthetic r)) = resourceGens (.resource r) := by
      simp only [resourceGens, labelSynthetic_id, labelSynthetic_generation]
    rw [hgens]
    rfl

/-! ### A round -/

/-- The generations that a round writes. -/
def roundNodeGens (ps : List (Publication D)) : List (NodeId × NodeGeneration) :=
  ps.flatMap nodeGens

/-- The generations that a round writes. -/
def roundResourceGens (ps : List (Publication D)) : List (ResourceId × ResourceGeneration) :=
  ps.flatMap resourceGens

/-- **What a round does to the compositions.** Only the generations before the round and those
that it publishes matter. -/
theorem lookup_compositions_publications (ps : List (Publication D)) (s : Engine D)
    (id : CompositionId) :
    (Machine.run publish s ps).compositions.lookup id = (s.compositions.lookup id).map
      (shaken (overwritten s.nodeGen (roundNodeGens ps))
        (overwritten s.resourceGen (roundResourceGens ps))) := by
  induction ps generalizing s with
  | nil => exact (map_shaken_nil (s.compositions.lookup id)).symm
  | cons p ps ih =>
    -- the first publication sweeps, and the others sweep what it has left
    have hsplit : ∀ c : Composition D, shaken (overwritten s.nodeGen (roundNodeGens (p :: ps)))
        (overwritten s.resourceGen (roundResourceGens (p :: ps))) c =
        shaken (overwritten (s.publish p).nodeGen (roundNodeGens ps))
          (overwritten (s.publish p).resourceGen (roundResourceGens ps))
          (shaken (overwritten s.nodeGen (nodeGens p))
            (overwritten s.resourceGen (resourceGens p)) c) := by
      intro c
      rw [shaken_shaken, nodeGen_publish, resourceGen_publish, ← overwritten_append,
        ← overwritten_append]
      rfl
    rw [Machine.run_cons, ih, lookup_compositions_publish, Option.map_map]
    exact congrArg (Option.map · _) (funext fun c => (hsplit c).symm)

/-- What a round does to the rest: nothing. -/
theorem run_publish_rest (ps : List (Publication D)) (s : Engine D) :
    ∃ nodes resources compositions, Machine.run publish s ps =
      { s with nodes := nodes, resources := resources, compositions := compositions } := by
  refine Machine.invariant_run
    (I := fun t : Engine D => ∃ nodes resources compositions,
      t = { s with nodes := nodes, resources := resources, compositions := compositions })
    ⟨s.nodes, s.resources, s.compositions, rfl⟩ ?_
  -- one publication writes a table, and sweeps the compositions
  rintro t p ⟨nodes, resources, compositions, rfl⟩
  cases p with
  | node n =>
    obtain ⟨nodes', compositions', heq⟩ := ingestNode_eq { s with
      nodes := nodes, resources := resources, compositions := compositions } n
    exact ⟨nodes', resources, compositions', heq⟩
  | resource r =>
    obtain ⟨resources', compositions', heq⟩ := ingestResource_eq { s with
      nodes := nodes, resources := resources, compositions := compositions } (labelSynthetic _ r)
    exact ⟨nodes, resources', compositions', heq⟩

/-- Rounds label alike when the nodes are the same. -/
theorem trace_resourceWrites_congr (ps : List (Publication D)) {s t : Engine D}
    (h : t.nodeOf = s.nodeOf) : Machine.trace publish resourceWrites t ps =
      Machine.trace publish resourceWrites s ps := by
  induction ps generalizing s t with
  | nil => rfl
  | cons p ps ih =>
    have hone : t.resourceWrites p = s.resourceWrites p := by
      cases p with
      | node n => rfl
      | resource r =>
        have hnode : t.nodes.lookup r.nodeId = s.nodes.lookup r.nodeId := congrFun h r.nodeId
        simp only [resourceWrites, labelSynthetic, hnode]
    -- the nodes stay the same from one publication to the next
    have hnext : (t.publish p).nodeOf = (s.publish p).nodeOf := by
      rw [nodeOf_publish, nodeOf_publish, h]
    show t.resourceWrites p ++ _ = s.resourceWrites p ++ _
    rw [hone, ih hnext]

/-! ### A discovery -/

section Discoveries

variable [Double D]

/-- The publications of a discovery. -/
def round (s : Engine D) : List (Publication D) := publications s.backends

theorem round_discover (s : Engine D) : s.discover.1.round = s.round :=
  congrArg publications s.backends_discover

theorem nodeOf_discover (s : Engine D) :
    s.discover.1.nodeOf = writes s.nodeOf (s.round.flatMap nodeWrites) := by
  obtain ⟨paths, heq⟩ := s.discover_eq
  rw [heq]
  exact (Machine.writes_run nodeOf_publish s s.round).trans (by rw [Machine.trace_const])

theorem resourceOf_discover (s : Engine D) : s.discover.1.resourceOf =
    writes s.resourceOf (Machine.trace publish resourceWrites s s.round) := by
  obtain ⟨paths, heq⟩ := s.discover_eq
  rw [heq]
  exact Machine.writes_run resourceOf_publish s s.round

theorem nodeGen_discover (s : Engine D) :
    s.discover.1.nodeGen = writes s.nodeGen (roundNodeGens s.round) := by
  obtain ⟨paths, heq⟩ := s.discover_eq
  rw [heq]
  exact (Machine.writes_run nodeGen_publish s s.round).trans (by rw [Machine.trace_const]; rfl)

theorem resourceGen_discover (s : Engine D) :
    s.discover.1.resourceGen = writes s.resourceGen (roundResourceGens s.round) := by
  obtain ⟨paths, heq⟩ := s.discover_eq
  rw [heq]
  exact (Machine.writes_run resourceGen_publish s s.round).trans (by rw [Machine.trace_const]; rfl)

theorem lookup_compositions_discover (s : Engine D) (id : CompositionId) :
    s.discover.1.compositions.lookup id = (s.compositions.lookup id).map
      (shaken (overwritten s.nodeGen (roundNodeGens s.round))
        (overwritten s.resourceGen (roundResourceGens s.round))) := by
  obtain ⟨paths, heq⟩ := s.discover_eq
  rw [heq]
  exact lookup_compositions_publications s.round s id

/-- The same can be looked up, and the rest is the same. -/
structure SameView (s t : Engine D) : Prop where
  nodes : ∀ a, t.nodes.lookup a = s.nodes.lookup a
  resources : ∀ v, t.resources.lookup v = s.resources.lookup v
  compositions : ∀ id, t.compositions.lookup id = s.compositions.lookup id
  paths : ∀ a b, t.paths.find? (pathKey a b) = s.paths.find? (pathKey a b)
  rest : ∃ nodes resources compositions paths, t = { s with
    nodes := nodes, resources := resources, compositions := compositions, paths := paths }

omit [Double D] in
theorem SameView.refl (s : Engine D) : SameView s s :=
  ⟨fun _ => rfl, fun _ => rfl, fun _ => rfl, fun _ _ => rfl, ⟨_, _, _, _, rfl⟩⟩

omit [Double D] in
theorem SameView.trans {s t u : Engine D} (h : SameView s t) (h' : SameView t u) :
    SameView s u where
  nodes a := (h'.nodes a).trans (h.nodes a)
  resources v := (h'.resources v).trans (h.resources v)
  compositions id := (h'.compositions id).trans (h.compositions id)
  paths a b := (h'.paths a b).trans (h.paths a b)
  rest := by
    obtain ⟨n, r, c, p, rfl⟩ := h.rest
    obtain ⟨n', r', c', p', rfl⟩ := h'.rest
    exact ⟨n', r', c', p', rfl⟩

/-- The nodes are settled after one discovery. -/
theorem nodeOf_discover_discover (s : Engine D) :
    s.discover.1.discover.1.nodeOf = s.discover.1.nodeOf := by
  rw [nodeOf_discover s.discover.1, round_discover, nodeOf_discover, writes_writes_self]

theorem reported_discover (s : Engine D) (a : NodeId) :
    s.discover.1.Reported a ↔ s.Reported a := by
  rw [Reported, known_discover, backends_discover]
  exact or_iff_left_of_imp Or.inr

/-- Asking for the paths again gives the same answers. -/
theorem paths_discover_discover (s : Engine D) (a b : NodeId) :
    s.discover.1.discover.1.paths.find? (pathKey a b) =
      s.discover.1.paths.find? (pathKey a b) := by
  have hresolve : s.discover.1.resolvePath = s.resolvePath := by
    funext pr
    rw [resolvePath, resolvePath, backends_discover]
  rw [find?_discover s.discover.1, find?_discover s, hresolve]
  simp only [reported_discover]
  split
  · rw [← Option.or_assoc, Option.or_self]
  · rfl

/-- **A third discovery changes nothing.** -/
theorem sameView_discover (s : Engine D) :
    SameView s.discover.1.discover.1 s.discover.1.discover.1.discover.1 := by
  -- the backends report the same again
  have hround : s.discover.1.discover.1.round = s.discover.1.round := s.discover.1.round_discover
  refine ⟨?_, ?_, ?_, s.discover.1.paths_discover_discover, ?_⟩
  · exact congrFun s.discover.1.nodeOf_discover_discover
  · -- the nodes that give the labels are the same in the two rounds
    have hsame : s.discover.1.discover.1.discover.1.resourceOf =
        s.discover.1.discover.1.resourceOf := by
      rw [resourceOf_discover s.discover.1.discover.1, hround,
        trace_resourceWrites_congr _ s.nodeOf_discover_discover, resourceOf_discover s.discover.1,
        writes_writes_self]
    exact congrFun hsame
  · -- the two rounds sweep for the same changes
    intro id
    have hnodes : s.discover.1.discover.1.nodeGen = s.discover.1.nodeGen := by
      rw [nodeGen_discover s.discover.1, round_discover, nodeGen_discover, writes_writes_self]
    have hresources : s.discover.1.discover.1.resourceGen = s.discover.1.resourceGen := by
      rw [resourceGen_discover s.discover.1, round_discover, resourceGen_discover,
        writes_writes_self]
    rw [lookup_compositions_discover s.discover.1.discover.1, hround, hnodes, hresources,
      lookup_compositions_discover s.discover.1, Option.map_map]
    exact congrArg (Option.map · _) (funext fun c => shaken_self _ _ c)
  · -- all other fields are those of the state before
    obtain ⟨paths, heq⟩ := s.discover.1.discover.1.discover_eq
    obtain ⟨nodes, resources, compositions, hrest⟩ :=
      run_publish_rest (publications s.discover.1.discover.1.backends) s.discover.1.discover.1
    rw [heq, hrest]
    exact ⟨nodes, resources, compositions, paths, rfl⟩

/-- A number of discoveries. -/
def rediscover (n : ℕ) (s : Engine D) : Engine D := (fun s => s.discover.1)^[n] s

/-- **Discovery settles.** From any state, as long as the backends answer as they do, two
discoveries bring about what any further number of them leaves. -/
theorem discovery_settles (s : Engine D) (n : ℕ) :
    SameView (rediscover 2 s) (rediscover (n + 2) s) := by
  induction n with
  | zero => exact .refl _
  | succ n ih =>
    -- from the second discovery on, one more shows nothing new
    refine ih.trans ?_
    have htwo : rediscover (n + 2) s = (rediscover n s).discover.1.discover.1 := by
      rw [rediscover, Function.iterate_succ_apply', Function.iterate_succ_apply']
      rfl
    have hthree : rediscover (n + 1 + 2) s =
        (rediscover n s).discover.1.discover.1.discover.1 := by
      rw [← htwo, rediscover, Nat.add_right_comm, Function.iterate_succ_apply']
      rfl
    rw [htwo, hthree]
    exact sameView_discover _

/-! ### Compositions across discoveries -/

omit [Double D] in
theorem mem_roundNodeGens {ps : List (Publication D)} {a : NodeId} {g : NodeGeneration} :
    (a, g) ∈ roundNodeGens ps ↔
      ∃ n, .node n ∈ ps ∧ n.id.isValid = true ∧ n.id = a ∧ n.generation = g := by
  rw [roundNodeGens, List.mem_flatMap]
  constructor
  · -- only a node with a valid id writes a generation
    rintro ⟨p, hp, hw⟩
    cases p with
    | resource r => cases hw
    | node n =>
      obtain ⟨w, hw, heq⟩ := List.mem_map.mp hw
      rw [nodeWrites] at hw
      split at hw
      · next hvalid =>
        cases List.mem_singleton.mp hw
        cases heq
        exact ⟨n, hp, hvalid, rfl, rfl⟩
      · cases hw
  · rintro ⟨n, hp, hvalid, rfl, rfl⟩
    refine ⟨.node n, hp, List.mem_map.mpr ⟨(n.id, n), ?_, rfl⟩⟩
    rw [nodeWrites, if_pos hvalid]
    exact List.mem_singleton_self _

omit [Double D] in
theorem mem_roundResourceGens {ps : List (Publication D)} {v : ResourceId}
    {g : ResourceGeneration} : (v, g) ∈ roundResourceGens ps ↔
      ∃ r, .resource r ∈ ps ∧ r.id.isValid = true ∧ r.id = v ∧ r.generation = g := by
  rw [roundResourceGens, List.mem_flatMap]
  constructor
  · -- only a resource with a valid id writes a generation
    rintro ⟨p, hp, hw⟩
    cases p with
    | node n => cases hw
    | resource r =>
      rw [resourceGens] at hw
      split at hw
      · next hvalid =>
        cases List.mem_singleton.mp hw
        exact ⟨r, hp, hvalid, rfl, rfl⟩
      · cases hw
  · rintro ⟨r, hp, hvalid, rfl, rfl⟩
    refine ⟨.resource r, hp, ?_⟩
    rw [resourceGens, if_pos hvalid]
    exact List.mem_singleton_self _

/-- The backends report two generations of a node, or of a member of the composition. -/
def Disputed (s : Engine D) (c : Composition D) : Prop :=
  (∃ n n', .node n ∈ s.round ∧ .node n' ∈ s.round ∧ n.id.isValid = true ∧ n.id = n'.id ∧
    n.generation ≠ n'.generation) ∨
  ∃ r r', .resource r ∈ s.round ∧ .resource r' ∈ s.round ∧ r.id.isValid = true ∧ r.id = r'.id ∧
    r.generation ≠ r'.generation ∧ r.id ∈ c.graph.vertices

/-- The generations are those that a discovery leaves. -/
structure Refreshed (s : Engine D) : Prop where
  nodes : writes s.nodeGen (roundNodeGens s.round) = s.nodeGen
  resources : writes s.resourceGen (roundResourceGens s.round) = s.resourceGen

/-- A discovery settles the generations. -/
theorem refreshed_discover (s : Engine D) : s.discover.1.Refreshed where
  nodes := by rw [round_discover, nodeGen_discover, writes_writes_self]
  resources := by rw [round_discover, resourceGen_discover, writes_writes_self]

omit [Double D] in
/-- What a discovery changes when the generations are settled. -/
theorem Refreshed.disputed_iff {s : Engine D} (h : s.Refreshed) (c : Composition D) :
    (overwritten s.nodeGen (roundNodeGens s.round) ≠ [] ∨
      ∃ v ∈ overwritten s.resourceGen (roundResourceGens s.round), v ∈ c.graph.vertices) ↔
      s.Disputed c := by
  -- a generation is overwritten where two reports of one id differ
  refine or_congr ?_ ?_
  · rw [ne_eq, List.eq_nil_iff_forall_not_mem, not_forall_not]
    simp only [mem_overwritten_iff_conflict h.nodes, mem_roundNodeGens]
    constructor
    · rintro ⟨a, g, g', ⟨n, hn, hvalid, rfl, rfl⟩, ⟨n', hn', -, hid, rfl⟩, hne⟩
      exact ⟨n, n', hn, hn', hvalid, hid.symm, hne⟩
    · rintro ⟨n, n', hn, hn', hvalid, hid, hne⟩
      exact ⟨n.id, _, _, ⟨n, hn, hvalid, rfl, rfl⟩, ⟨n', hn', hid ▸ hvalid, hid.symm, rfl⟩, hne⟩
  · simp only [mem_overwritten_iff_conflict h.resources, mem_roundResourceGens]
    constructor
    · rintro ⟨v, ⟨g, g', ⟨r, hr, hvalid, rfl, rfl⟩, ⟨r', hr', -, hid, rfl⟩, hne⟩, hv⟩
      exact ⟨r, r', hr, hr', hvalid, hid.symm, hne, hv⟩
    · rintro ⟨r, r', hr, hr', hvalid, hid, hne, hv⟩
      exact ⟨r.id, ⟨_, _, ⟨r, hr, hvalid, rfl, rfl⟩, ⟨r', hr', hid ▸ hvalid, hid.symm, rfl⟩, hne⟩,
        hv⟩

variable [DoubleBits D]

/-- The operation registers something, or changes what the backends answer. -/
def registering : Op D → Bool
  | .addBackend _ | .backendsAnswer _ | .registerNode _ | .registerResource _ | .onNodeUpdate _
  | .onResourceUpdate _ | .load _ => true
  | _ => false

/-- The backends answer as before. -/
theorem backends_step (s : Engine D) {op : Op D} (h : registering op = false) :
    (s.step op).backends = s.backends := by
  -- first the operations that register, which are excluded
  cases op with
  | addBackend b => cases h
  | backendsAnswer bs => cases h
  | registerNode n => cases h
  | registerResource r => cases h
  | onNodeUpdate n => cases h
  | onResourceUpdate r => cases h
  | load file => cases h
  | discover => exact s.backends_discover
  -- then the events, which write resources or compositions
  | invalidateNode rid =>
    show (s.invalidateNode rid).backends = s.backends
    unfold invalidateNode updateResource
    split <;> rfl
  | withdrawResource rid =>
    show (s.withdrawResource rid).backends = s.backends
    unfold withdrawResource updateResource
    split
    · rfl
    · split <;> rfl
  | onResourceFailure rid =>
    show (s.onResourceFailure rid).backends = s.backends
    unfold onResourceFailure updateResource
    split <;> rfl
  | advanceEpoch next =>
    show (s.advanceEpoch next).backends = s.backends
    unfold advanceEpoch
    split <;> rfl
  | markEvidenceRevalidationRequired owner => rfl
  | onPolicyUpdate policy gen => rfl
  | onPathUpdate pe => rfl
  | _ => exact (s.transaction_tables rfl).1.backends

/-- What is done between two discoveries leaves the generations settled. -/
theorem Refreshed.step {s : Engine D} (h : s.Refreshed) {op : Op D}
    (hop : registering op = false) : (s.step op).Refreshed := by
  by_cases hdiscover : op.isDiscover = true
  · cases op with
    | discover => exact s.refreshed_discover
    | _ => cases hdiscover
  -- the backends report what they did, and no generation has changed
  have hround : (s.step op).round = s.round := congrArg publications (s.backends_step hop)
  have hgens : (s.step op).nodeGen = s.nodeGen ∧ (s.step op).resourceGen = s.resourceGen := by
    cases s.step_tables (Bool.not_eq_true _ ▸ hdiscover) with
    | same hr hn _ _ =>
      refine ⟨funext fun a => ?_, funext fun v => ?_⟩
      · rw [nodeGen, nodeGen, nodeOf, nodeOf, hn]
      · rw [resourceGen, resourceGen, resourceOf, resourceOf, hr]
    | node n hnode _ _ _ _ _ => cases op <;> cases hnode <;> cases hop
    | resource r hresource _ _ _ _ _ => cases op <;> cases hresource <;> cases hop
    | status f hf _ hr hn _ _ =>
      refine ⟨funext fun a => ?_, funext fun v => ?_⟩
      · rw [nodeGen, nodeGen, nodeOf, nodeOf, hn]
      · -- an event changes the status of a resource and not its generation
        rw [resourceGen, resourceGen, resourceOf, resourceOf, hr, Option.map_map]
        refine congrArg (Option.map · _) (funext fun r => ?_)
        show (f v r).generation = r.generation
        rw [hf v r]
    | policy policy gen _ hr hn _ _ _ =>
      refine ⟨funext fun a => ?_, funext fun v => ?_⟩
      · rw [nodeGen, nodeGen, nodeOf, nodeOf, hn]
      · rw [resourceGen, resourceGen, resourceOf, resourceOf, hr]
    | loaded file d hload _ _ => rw [hload] at hop; cases hop
  exact ⟨by rw [hround, hgens.1, h.nodes], by rw [hround, hgens.2, h.resources]⟩

/-- **When a discovery takes the authority from a composition.** Some time after a discovery,
when nothing has been registered since and the backends answer as they did, a further one leaves
a composition that is reserved, committed or active as it is, unless the backends report two
generations of some node, or of one of the members of the composition; and then it does not. -/
theorem discovery_shakes_iff (s₀ : Engine D) (ops : List (Op D))
    (hops : ∀ op ∈ ops, registering op = false) (id : CompositionId) (c : Composition D) :
    let s := s₀.discover.1.run ops
    s.compositions.lookup id = some c → c.lifecycle.IsAuthoritative →
      (s.discover.1.lifecycleOf id ≠ some c.lifecycle ↔ s.Disputed c) := by
  intro s hc hl
  -- nothing that was done since has written a generation
  have hrefreshed : s.Refreshed := by
    refine Machine.invariant_of_along (I := fun s : Engine D => s.Refreshed)
      (C := fun _ op => registering op = false) s₀.refreshed_discover
      (fun _ _ h hop => h.step hop) ?_
    rw [Machine.along_iff]
    rintro pre op post rfl
    exact hops op (List.mem_append_right pre List.mem_cons_self)
  rw [← hrefreshed.disputed_iff c, lifecycleOf, lookup_compositions_discover, hc, Option.map_some,
    Option.map_some, ne_eq, Option.some.injEq, shaken]
  by_cases h : overwritten s.nodeGen (roundNodeGens s.round) ≠ [] ∨
      ∃ v ∈ overwritten s.resourceGen (roundResourceGens s.round), v ∈ c.graph.vertices
  · rw [if_pos h]
    exact iff_of_true (onGenerationChange_ne hl c.lifecycle) h
  · rw [if_neg h]
    exact iff_of_false (not_not.mpr rfl) h

/-- The first node under a generation. -/
def reportedNode (gen : NodeGeneration) : Node ℚ :=
  { (default : Node ℚ) with id := ⟨1⟩, generation := gen }

/-- A backend that reports it, and a resource on it. -/
def reporter (gen : NodeGeneration) : Backend ℚ where
  discoverNodes := [reportedNode gen]
  discoverResources := [sampleMemory ⟨1⟩ 64]
  resolvePath _ := none

/-- An engine with two backends that do not agree. -/
def quarrel : Engine ℚ :=
  (fresh sampleConfig).run [.addBackend (reporter ⟨1⟩), .addBackend (reporter ⟨2⟩)]

/-- Whatever is reserved after a discovery is lost by the next. -/
theorem quarrel_shakes :
    (quarrel.discover.1.run [.reserve samplePlan]).discover.1.lifecycleOf ⟨1⟩ ≠ some .reserved := by
  -- `Reserve` has stored the composition
  have hstored : (quarrel.discover.1.run [.reserve samplePlan]).lifecycleOf ⟨1⟩ =
      some .reserved := by decide +kernel
  obtain ⟨c, hc, hl⟩ := lifecycleOf_eq_some.mp hstored
  have hround : (quarrel.discover.1.run [.reserve samplePlan]).round = quarrel.round := by
    show publications (quarrel.discover.1.step (.reserve samplePlan)).backends = _
    rw [backends_step _ rfl, backends_discover]
    rfl
  rw [← hl]
  refine (discovery_shakes_iff quarrel [.reserve samplePlan] (by decide) ⟨1⟩ c hc
    (by rw [hl]; decide)).mpr ?_
  -- the two reports of the node differ in the generation
  refine Or.inl ⟨reportedNode ⟨1⟩, reportedNode ⟨2⟩, ?_, ?_, rfl, rfl, by decide⟩
  · rw [hround]
    exact List.mem_cons_self
  · rw [hround]
    exact List.mem_cons_of_mem _ (List.mem_cons_of_mem _ List.mem_cons_self)

end Discoveries

end Engine

end DFabric
