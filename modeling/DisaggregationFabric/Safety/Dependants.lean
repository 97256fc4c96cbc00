import DisaggregationFabric.Engine.Tables
import DisaggregationFabric.Safety.Authority

/-!
# Whom an event concerns

An event changes one entity: a policy, a node, a resource, a path or a worker. `DependsOn`
says which compositions depend on it, and `Confined` that the lifecycle of every other
composition stays. Each event has a sweep over the compositions with a membership test of
its own.

Those of the resources, the paths and the workers are confined in every state. Two are
not. `OnPolicyUpdate` compares generations and does not look at which policy a composition
was requested under, and a node with another generation sweeps over every composition,
with a member on it or not (`node_update_sweeps_all`). `confined_iff` says for each event
in which states it is confined all the same.
-/

namespace DFabric

open CompositionLifecycle

namespace Engine

variable {D : Type}

/-! ### Sweeps -/

/-- The compositions that do not depend on the event keep their lifecycle. -/
def Keeps (s s' : Engine D) (depends : Composition D → Prop) : Prop :=
  ∀ id c, s.compositions.lookup id = some c → ¬ depends c → s'.lifecycleOf id = some c.lifecycle

theorem lifecycleOf_of_lookup {s : Engine D} {id : CompositionId} {c : Composition D}
    (h : s.compositions.lookup id = some c) : s.lifecycleOf id = some c.lifecycle :=
  lifecycleOf_eq_some.mpr ⟨c, h, rfl⟩

/-- Where no composition is written, all of them are kept. -/
theorem keeps_of_eq {s s' : Engine D} (h : s'.compositions = s.compositions)
    (depends : Composition D → Prop) : s.Keeps s' depends := by
  intro id c hc _
  refine lifecycleOf_of_lookup ?_
  rw [h, hc]

/-- **A sweep keeps the others** exactly when it changes none of those it looks at beyond
the dependants. -/
theorem keeps_demoteWhere_iff {s s₀ : Engine D} (h : s₀.compositions = s.compositions)
    {concerned : Composition D → Bool} {f : CompositionLifecycle → CompositionLifecycle}
    {depends : Composition D → Prop} :
    s.Keeps (s₀.demoteWhere concerned f) depends ↔
      ∀ c ∈ s.compositions.values, concerned c = true → ¬ depends c → f c.lifecycle = c.lifecycle := by
  -- what becomes of one composition
  have hlife : ∀ id c, s.compositions.lookup id = some c →
      (s₀.demoteWhere concerned f).lifecycleOf id =
        some (if concerned c then f c.lifecycle else c.lifecycle) := by
    intro id c hc
    change ((UMap.mapVals _ s₀.compositions).lookup id).map Composition.lifecycle = _
    rw [UMap.lookup_mapVals, h, hc]
    by_cases hcon : concerned c
    · simp [hcon]
    · simp [hcon]
  constructor
  · -- a composition that is demoted without need is not kept
    intro hkeeps c hmem hcon hdep
    obtain ⟨id, hc⟩ := UMap.exists_lookup_of_mem_values hmem
    have hsame := hkeeps id c hc hdep
    rw [hlife id c hc, if_pos hcon, Option.some.injEq] at hsame
    exact hsame
  · intro hsame id c hc hdep
    rw [hlife id c hc]
    by_cases hcon : concerned c
    · rw [if_pos hcon, hsame c (UMap.mem_values_of_lookup hc) hcon hdep]
    · rw [if_neg hcon]

/-- A sweep over dependants only keeps the others. -/
theorem keeps_demoteWhere {s s₀ : Engine D} (h : s₀.compositions = s.compositions)
    {concerned : Composition D → Bool} {f : CompositionLifecycle → CompositionLifecycle}
    {depends : Composition D → Prop} (hcon : ∀ c, concerned c = true → depends c) :
    s.Keeps (s₀.demoteWhere concerned f) depends :=
  (keeps_demoteWhere_iff h).mpr fun c _ hc hdep => absurd (hcon c hc) hdep

/-! ### Events and their dependants -/

/-- The composition has a member on the node. -/
def HasMemberOn (s : Engine D) (c : Composition D) (n : NodeId) : Prop :=
  ∃ v ∈ c.graph.vertices, ∃ r ∈ s.resources.lookup v, r.nodeId = n

/-- The composition depends on the entity that the event changes. Operations that are no
events may change any composition. -/
def DependsOn (s : Engine D) (c : Composition D) : Op D → Prop
  | .onPolicyUpdate policy _ => c.request.policy = policy
  | .registerNode n => s.HasMemberOn c n.id
  | .onNodeUpdate n => s.HasMemberOn c n.id
  | .registerResource r => r.id ∈ c.graph.vertices
  | .onResourceUpdate r => r.id ∈ c.graph.vertices
  | .withdrawResource rid => rid ∈ c.graph.vertices
  | .onResourceFailure rid => rid ∈ c.graph.vertices
  | .onPathUpdate pe => ∃ p ∈ c.paths,
      p.requirement.source = pe.requirement.source ∧ p.requirement.target = pe.requirement.target
  | .markEvidenceRevalidationRequired owner =>
      ∃ v ∈ c.graph.vertices, ∃ r ∈ s.resources.lookup v, ownedBy owner r = true
  | _ => True

/-- What a publication of the node asks of the state: if the node is known with another
generation, every composition with authority has a member on it. -/
def NodeConfinedWhen (s : Engine D) (n : Node D) : Prop :=
  n.id.isValid = true → ∀ old ∈ s.nodes.lookup n.id, old.generation ≠ n.generation →
    ∀ c ∈ s.compositions.values, c.lifecycle.IsAuthoritative → s.HasMemberOn c n.id

/-- The states in which an event is confined. -/
def ConfinedWhen (s : Engine D) : Op D → Prop
  | .onPolicyUpdate policy gen => ∀ c ∈ s.compositions.values,
      c.lifecycle = .committed ∨ c.lifecycle = .active → c.request.policy ≠ policy →
        c.authority.policyGeneration = gen
  | .registerNode n => s.NodeConfinedWhen n
  | .onNodeUpdate n => s.NodeConfinedWhen n
  | _ => True

/-! ### The sweep of each event -/

theorem onGenerationChange_eq_self_iff (l : CompositionLifecycle) :
    l.onGenerationChange = l ↔ ¬ l.IsAuthoritative := by
  cases l <;> decide

theorem onFailure_eq_self_iff (l : CompositionLifecycle) :
    l.onFailure = l ↔ ¬ (l = .committed ∨ l = .active) := by
  cases l <;> decide

/-- Publishing a node. -/
theorem keeps_ingestNode_iff (s : Engine D) (n : Node D) :
    s.Keeps (s.ingestNode n) (s.HasMemberOn · n.id) ↔ s.NodeConfinedWhen n := by
  unfold NodeConfinedWhen
  by_cases hvalid : n.id.isValid = true
  swap
  · -- a node without an id is not taken in
    have hsame : s.ingestNode n = s := by simp [ingestNode, hvalid]
    rw [hsame]
    exact iff_of_true (keeps_of_eq rfl _) fun h => absurd h hvalid
  -- a node that was not known, or is known with this generation, causes no sweep
  rcases hold : s.nodes.lookup n.id with _ | old
  · have hcomps : (s.ingestNode n).compositions = s.compositions := by
      simp [ingestNode, hvalid, hold]
    exact iff_of_true (keeps_of_eq hcomps _) fun _ old h => by cases h
  by_cases hgen : old.generation = n.generation
  · have hcomps : (s.ingestNode n).compositions = s.compositions := by
      simp [ingestNode, hvalid, hold, hgen]
    refine iff_of_true (keeps_of_eq hcomps _) ?_
    intro _ old' h hne
    cases h
    exact absurd hgen hne
  -- another generation: the sweep looks at every composition
  have hcomps : (s.ingestNode n).compositions =
      (s.demoteWhere (fun _ => true) onGenerationChange).compositions := by
    simp [ingestNode, hvalid, hold, hgen]
  have hlife : s.Keeps (s.ingestNode n) (s.HasMemberOn · n.id) ↔
      s.Keeps (s.demoteWhere (fun _ => true) onGenerationChange) (s.HasMemberOn · n.id) := by
    unfold Keeps lifecycleOf
    rw [hcomps]
  rw [hlife, keeps_demoteWhere_iff rfl]
  constructor
  · intro h _ old' hold' _ c hc hauth
    by_contra hmember
    exact (onGenerationChange_eq_self_iff c.lifecycle).mp (h c hc rfl hmember) hauth
  · intro h c hc _ hmember
    rw [onGenerationChange_eq_self_iff]
    intro hauth
    exact hmember (h hvalid old rfl hgen c hc hauth)

/-- Publishing a resource. -/
theorem keeps_ingestResource (s : Engine D) (r : Resource D) :
    s.Keeps (s.ingestResource r) (fun c => r.id ∈ c.graph.vertices) := by
  unfold ingestResource
  split
  · exact keeps_of_eq rfl _
  dsimp only
  split
  · split
    -- unlike that of a node, this sweep asks for the member
    · have hsweep : s.Keeps
          (s.demoteWhere (fun c => c.graph.vertices.contains r.id) onGenerationChange)
          (fun c => r.id ∈ c.graph.vertices) :=
        keeps_demoteWhere rfl fun c hc => by simpa using hc
      exact hsweep
    · exact keeps_of_eq rfl _
  · exact keeps_of_eq rfl _

/-- A change of one record, and the sweep over the compositions with this member. -/
theorem keeps_updateResource (s : Engine D) (rid : ResourceId) (g : Resource D → Resource D)
    (f : CompositionLifecycle → CompositionLifecycle) :
    s.Keeps ((s.updateResource rid g).demoteWhere (fun c => c.graph.vertices.contains rid) f)
      (fun c => rid ∈ c.graph.vertices) := by
  refine keeps_demoteWhere ?_ fun c hc => by simpa using hc
  obtain ⟨resources, heq⟩ := s.updateResource_eq rid g
  rw [heq]

/-- A policy. -/
theorem keeps_onPolicyUpdate_iff (s : Engine D) (policy : PolicyId) (gen : PolicyGeneration) :
    s.Keeps (s.onPolicyUpdate policy gen) (fun c => c.request.policy = policy) ↔
      ∀ c ∈ s.compositions.values, c.lifecycle = .committed ∨ c.lifecycle = .active →
        c.request.policy ≠ policy → c.authority.policyGeneration = gen := by
  unfold onPolicyUpdate
  refine (keeps_demoteWhere_iff rfl).trans ?_
  -- the sweep compares the generation of every composition, and no policy
  constructor
  · intro h c hc hl hpolicy
    by_contra hgen
    exact (onFailure_eq_self_iff c.lifecycle).mp (h c hc (by simpa using hgen) hpolicy) hl
  · intro h c hc hcon hpolicy
    rw [onFailure_eq_self_iff]
    intro hl
    exact absurd (h c hc hl hpolicy) (by simpa using hcon)

/-- A worker. The first loop changes no owner. -/
theorem keeps_markEvidence (s : Engine D) (owner : WorkerBootId) :
    s.Keeps (s.markEvidenceRevalidationRequired owner)
      (fun c => ∃ v ∈ c.graph.vertices, ∃ r ∈ s.resources.lookup v, ownedBy owner r = true) := by
  refine keeps_demoteWhere rfl ?_
  intro c hc
  obtain ⟨v, hv, hany⟩ := List.any_eq_true.mp hc
  obtain ⟨r', hr', howned⟩ := (Option.any_eq_true _ _).mp hany
  rw [UMap.lookup_mapVals] at hr'
  obtain ⟨r, hr, rfl⟩ := Option.map_eq_some_iff.mp hr'
  refine ⟨v, hv, r, hr, ?_⟩
  by_cases ho : ownedBy owner r
  · exact ho
  · rwa [if_neg ho] at howned

/-! ### The result -/

variable [Double D] [DoubleBits D]

/-- The event changes the lifecycle of dependants only. -/
def Confined (s : Engine D) (op : Op D) : Prop := s.Keeps (s.step op) (s.DependsOn · op)

/-- **An event is confined to its dependants** exactly when, for a policy, every committed
or active composition under another policy has the new generation, and for a known node
with another generation, every composition with authority has a member on it; the other
events always are. -/
theorem confined_iff (s : Engine D) (op : Op D) : s.Confined op ↔ s.ConfinedWhen op := by
  cases op with
  | onPolicyUpdate policy gen => exact s.keeps_onPolicyUpdate_iff policy gen
  | onNodeUpdate n => exact s.keeps_ingestNode_iff n
  | registerNode n =>
    change s.Keeps (s.registerNode n).1 _ ↔ _
    have hsame : (s.registerNode n).1 = s.ingestNode n := by
      unfold registerNode ingestNode
      split <;> rfl
    rw [hsame]
    exact s.keeps_ingestNode_iff n
  | onResourceUpdate r => exact iff_of_true (s.keeps_ingestResource r) trivial
  | registerResource r =>
    refine iff_of_true ?_ trivial
    change s.Keeps (s.registerResource r).1 _
    unfold registerResource
    split
    · exact keeps_of_eq rfl _
    · exact s.keeps_ingestResource r
  | withdrawResource rid =>
    refine iff_of_true ?_ trivial
    change s.Keeps (s.withdrawResource rid) _
    unfold withdrawResource
    split
    · exact keeps_of_eq rfl _
    · exact s.keeps_updateResource rid _ _
  | onResourceFailure rid => exact iff_of_true (s.keeps_updateResource rid _ _) trivial
  | onPathUpdate pe =>
    -- the test also asks for another generation, which only narrows it
    refine iff_of_true (keeps_demoteWhere rfl ?_) trivial
    intro c hc
    obtain ⟨p, hp, hsame⟩ := List.any_eq_true.mp hc
    exact ⟨p, hp, by simpa using (of_decide_eq_true hsame).1, by
      simpa using (of_decide_eq_true hsame).2.1⟩
  | markEvidenceRevalidationRequired owner => exact iff_of_true (s.keeps_markEvidence owner) trivial
  | _ => exact iff_of_true (fun _ _ _ hdep => absurd trivial hdep) trivial

/-- A node of the given generation. -/
def strangerNode (id : NodeId) (gen : NodeGeneration) : Node ℚ :=
  { (default : Node ℚ) with id := id, generation := gen }

/-- The sample engine, its composition active, with a node that no resource is on. -/
def strangerNodeOps : List (Op ℚ) :=
  sampleOps ++ sampleTransaction ++ [.registerNode (strangerNode ⟨9⟩ ⟨1⟩)]

/-- **A node update sweeps over every composition.** Node 9 is published with another
generation; the one member of the sample composition is on node 1, and the composition
loses its activity. -/
theorem node_update_sweeps_all :
    ¬ ∀ (cfg : EngineConfig) (ops : List (Op ℚ)) (op : Op ℚ),
      ((fresh cfg).run ops).Confined op := by
  intro h
  have hconf := h sampleConfig strangerNodeOps (.onNodeUpdate (strangerNode ⟨9⟩ ⟨2⟩))
  generalize hs : (fresh sampleConfig).run strangerNodeOps = s at hconf
  have hactive : s.lifecycleOf ⟨1⟩ = some .active := by rw [← hs]; decide +kernel
  have hafter : (s.step (.onNodeUpdate (strangerNode ⟨9⟩ ⟨2⟩))).lifecycleOf ⟨1⟩ =
      some .recompositionRequired := by rw [← hs]; decide +kernel
  -- no resource is on node 9, so no composition has a member there
  have hnone : ∀ r ∈ s.resources.values, r.nodeId ≠ ⟨9⟩ := by rw [← hs]; decide +kernel
  obtain ⟨c, hc, hl⟩ := lifecycleOf_eq_some.mp hactive
  have hkept := hconf ⟨1⟩ c hc (by
    rintro ⟨v, -, r, hr, hnode⟩
    exact hnone r (UMap.mem_values_of_lookup hr) hnode)
  rw [hafter, hl] at hkept
  cases hkept

end Engine

end DFabric
