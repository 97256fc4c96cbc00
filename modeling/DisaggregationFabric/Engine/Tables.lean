import DisaggregationFabric.Engine.Effects

/-!
# What a step does to the tables

`Effect` says how an operation changes compositions and reservations. The results
about what compositions are bound to also need the other side: how it changes the
tables of resources, nodes and policies and the epoch. `TableStep s op s'` lists the
changes, each together with what it implies for a composition that is authoritative
afterwards; `step_tables` says that the list is complete for every operation but
`Discover`. The operations on reservations and compositions write none of them
(`transaction_tables`).

`Discover` takes in a list of publications and then asks for paths. Every publication
is an operation of the list (`Publication.op`), so what the operations preserve is
preserved by a `Discover` (`discover_invariant`).
-/

namespace DFabric

variable {D : Type}

/-- The record changed in the fields that events set: its health, readiness,
reachability, and the state and age of its evidence. -/
def StatusOnly (r r' : Resource D) : Prop :=
  r' = { r with
    health := r'.health
    readiness := r'.readiness
    reachability := r'.reachability
    evidence := { r.evidence with state := r'.evidence.state, maxAgeMs := r'.evidence.maxAgeMs } }

theorem StatusOnly.refl (r : Resource D) : StatusOnly r r := rfl

namespace Op

/-- The node an operation publishes. -/
def node? : Op D → Option (Node D)
  | .registerNode n => some n
  | .onNodeUpdate n => some n
  | _ => none

/-- The resource an operation publishes. -/
def resource? : Op D → Option (Resource D)
  | .registerResource r => some r
  | .onResourceUpdate r => some r
  | _ => none

/-- The policy generation an operation records. -/
def policy? : Op D → Option (PolicyId × PolicyGeneration)
  | .onPolicyUpdate policy gen => some (policy, gen)
  | _ => none

/-- The operation plans, or is about reservations and compositions. -/
def isTransaction : Op D → Bool
  | .compose _ | .reserve _ | .commit _ | .activate _ => true
  | .beginDrain _ | .endDrain _ | .release _ | .recomputeRelease _ => true
  | _ => false

/-- The operation is a `Discover`. -/
def isDiscover : Op D → Bool
  | .discover => true
  | _ => false

/-- The operation is an `OnPathUpdate`. -/
def isPathUpdate : Op D → Bool
  | .onPathUpdate _ => true
  | _ => false

end Op

/-- The values events set: a resource goes offline, not ready or unreachable, its
evidence requires revalidation, and a worker's death makes its health unknown. -/
structure SetsStatus (op : Op D) (r r' : Resource D) : Prop where
  health : r'.health = r.health ∨ r'.health = .offline ∨
    ∃ owner, op = .markEvidenceRevalidationRequired owner ∧ Engine.ownedBy owner r = true
  readiness : r'.readiness = r.readiness ∨ r'.readiness = .notReady
  reachability : r'.reachability = r.reachability ∨ r'.reachability = .unreachable
  evidence : r'.evidence.state = r.evidence.state ∨ r'.evidence.state = .revalidationRequired

theorem SetsStatus.refl (op : Op D) (r : Resource D) : SetsStatus op r r :=
  ⟨Or.inl rfl, Or.inl rfl, Or.inl rfl, Or.inl rfl⟩

namespace Engine

/-! ### Demotion, seen from a composition that survives it -/

/-- A composition whose lifecycle the demotion never leads to was not concerned. -/
theorem not_concerned_of_demoteWhere {s : Engine D} {concerned : Composition D → Bool}
    {f : CompositionLifecycle → CompositionLifecycle} {id : CompositionId} {c : Composition D}
    (hc : (s.demoteWhere concerned f).compositions.lookup id = some c)
    (hf : ∀ l, f l ≠ c.lifecycle) : concerned c = false := by
  change (UMap.mapVals _ s.compositions).lookup id = some c at hc
  rw [UMap.lookup_mapVals] at hc
  obtain ⟨c₀, -, heq⟩ := Option.map_eq_some_iff.mp hc
  -- had it been concerned, its lifecycle would be a value of `f`
  by_cases hcon : concerned c₀
  · rw [if_pos hcon] at heq
    exact absurd (congrArg Composition.lifecycle heq) (hf c₀.lifecycle)
  · rw [if_neg hcon] at heq
    rw [← heq]
    simpa using hcon

theorem onGenerationChange_ne {l : CompositionLifecycle} (h : l.IsAuthoritative)
    (l' : CompositionLifecycle) : l'.onGenerationChange ≠ l := by
  rcases h with rfl | rfl | rfl <;> cases l' <;> decide

theorem onFailure_ne {l : CompositionLifecycle} (h : l = .committed ∨ l = .active)
    (l' : CompositionLifecycle) : l'.onFailure ≠ l := by
  rcases h with rfl | rfl <;> cases l' <;> decide

theorem onWithdrawal_ne (l : CompositionLifecycle) : l.onWithdrawal ≠ .active := by
  cases l <;> decide

theorem onEpoch_ne (l : CompositionLifecycle) : l.onEpoch ≠ .active := by
  cases l <;> decide

/-! ### Publications -/

/-- A published node concerns the nodes and the compositions. -/
theorem ingestNode_eq (s : Engine D) (n : Node D) :
    ∃ nodes compositions,
      s.ingestNode n = { s with nodes := nodes, compositions := compositions } := by
  unfold ingestNode
  repeat' split
  all_goals exact ⟨_, _, rfl⟩

/-- A published resource concerns the resources and the compositions. -/
theorem ingestResource_eq (s : Engine D) (r : Resource D) :
    ∃ resources compositions,
      s.ingestResource r = { s with resources := resources, compositions := compositions } := by
  unfold ingestResource
  repeat' split
  all_goals exact ⟨_, _, rfl⟩

/-! ### Changes of the tables -/

variable [Double D] [DoubleBits D]

/-- The ways in which an operation changes the tables, and what each says about a
composition that is authoritative afterwards. -/
inductive TableStep (s : Engine D) (op : Op D) (s' : Engine D) : Prop where
  /-- Nothing changes. -/
  | same (hr : s'.resources = s.resources) (hn : s'.nodes = s.nodes)
      (hp : s'.policies = s.policies) (he : s'.epoch = s.epoch)
  /-- A node is published; nothing authoritative survives another generation. -/
  | node (n : Node D) (hop : op.node? = some n) (hr : s'.resources = s.resources)
      (hn : s'.nodes = s.nodes.insert n.id n) (hp : s'.policies = s.policies)
      (he : s'.epoch = s.epoch)
      (hkept : ∀ id c, s'.compositions.lookup id = some c → c.lifecycle.IsAuthoritative →
        ∀ old ∈ s.nodes.lookup n.id, old.generation = n.generation)
  /-- A resource is published; nothing authoritative survives another generation of a
  member. -/
  | resource (r : Resource D) (hop : op.resource? = some r)
      (hr : s'.resources = s.resources.insert r.id r) (hn : s'.nodes = s.nodes)
      (hp : s'.policies = s.policies) (he : s'.epoch = s.epoch)
      (hkept : ∀ id c, s'.compositions.lookup id = some c → c.lifecycle.IsAuthoritative →
        r.id ∈ c.graph.vertices → ∀ old ∈ s.resources.lookup r.id, old.generation = r.generation)
  /-- Resources change in status. Apart from `InvalidateNode`, nothing active survives
  a change of a member or of the epoch. -/
  | status (f : ResourceId → Resource D → Resource D) (hf : ∀ v r, StatusOnly r (f v r))
      (hset : ∀ v r, SetsStatus op r (f v r))
      (hr : ∀ v, s'.resources.lookup v = (s.resources.lookup v).map (f v))
      (hn : s'.nodes = s.nodes) (hp : s'.policies = s.policies)
      (hkept : ∀ id c, s'.compositions.lookup id = some c → c.lifecycle = .active →
        s'.epoch = s.epoch ∧ ∀ v ∈ c.graph.vertices,
          op = .invalidateNode v ∨ ∀ r ∈ s.resources.lookup v, f v r = r)
  /-- A policy generation is recorded; only a reserved composition survives another
  generation than its own. -/
  | policy (policy : PolicyId) (gen : PolicyGeneration) (hop : op.policy? = some (policy, gen))
      (hr : s'.resources = s.resources) (hn : s'.nodes = s.nodes)
      (hp : s'.policies = s.policies.insert policy gen) (he : s'.epoch = s.epoch)
      (hkept : ∀ id c, s'.compositions.lookup id = some c → c.lifecycle.IsAuthoritative →
        c.lifecycle = .reserved ∨ c.authority.policyGeneration = gen)
  /-- Everything is replaced. -/
  | loaded (file : List UInt8) (d : DurableState D) (hop : op = .load file)
      (hd : loadImpl file = .ok d) (hs : s' = s.importState d)

theorem ingestNode_tables (s : Engine D) {n : Node D} {op : Op D} (hop : op.node? = some n) :
    TableStep s op (s.ingestNode n) := by
  unfold ingestNode
  -- an invalid id is ignored
  split
  · exact .same rfl rfl rfl rfl
  · dsimp only
    split
    · next old hold =>
      split
      · -- another generation: no composition stays authoritative
        refine .node n hop rfl rfl rfl rfl ?_
        intro id c hc hl
        exact absurd (not_concerned_of_demoteWhere hc (onGenerationChange_ne hl)) (by simp)
      · next hgen =>
        refine .node n hop rfl rfl rfl rfl ?_
        intro _ _ _ _ old' hold'
        rw [hold] at hold'
        cases hold'
        exact not_not.mp hgen
    · next hnone =>
      -- a node that was not there has no generation to change
      refine .node n hop rfl rfl rfl rfl ?_
      intro _ _ _ _ old' hold'
      rw [hnone] at hold'
      cases hold'

theorem ingestResource_tables (s : Engine D) {r : Resource D} {op : Op D}
    (hop : op.resource? = some r) : TableStep s op (s.ingestResource r) := by
  unfold ingestResource
  -- an invalid id is ignored
  split
  · exact .same rfl rfl rfl rfl
  · dsimp only
    split
    · next old hold =>
      split
      · -- another generation: no composition with this member stays authoritative
        refine .resource r hop rfl rfl rfl rfl ?_
        intro id c hc hl hmem
        have hnot := not_concerned_of_demoteWhere hc (onGenerationChange_ne hl)
        exact absurd hmem (by simpa using hnot)
      · next hgen =>
        refine .resource r hop rfl rfl rfl rfl ?_
        intro _ _ _ _ _ old' hold'
        rw [hold] at hold'
        cases hold'
        exact not_not.mp hgen
    · next hnone =>
      -- a resource that was not there has no generation to change
      refine .resource r hop rfl rfl rfl rfl ?_
      intro _ _ _ _ _ old' hold'
      rw [hnone] at hold'
      cases hold'

omit [Double D] [DoubleBits D] in
/-- Changing the record of one resource, as a change of the whole table. -/
theorem lookup_updateResource (s : Engine D) (rid : ResourceId) (g : Resource D → Resource D)
    (v : ResourceId) :
    (s.updateResource rid g).resources.lookup v =
      (s.resources.lookup v).map fun r => if v = rid then g r else r := by
  unfold updateResource
  -- the resource is there, or nothing is written
  split
  · next r hr =>
    change (s.resources.insert rid (g r)).lookup v = _
    rw [UMap.lookup_insert_eq_ite]
    split
    · next hv => rw [hv, hr]; simp
    · simp
  · next hnone =>
    by_cases hv : v = rid
    · rw [hv, hnone]; rfl
    · simp [hv]

omit [Double D] [DoubleBits D] in
theorem updateResource_eq (s : Engine D) (rid : ResourceId) (g : Resource D → Resource D) :
    ∃ resources, s.updateResource rid g = { s with resources := resources } := by
  unfold updateResource
  split
  · exact ⟨_, rfl⟩
  · exact ⟨s.resources, rfl⟩

/-- One resource changes in status, and the compositions of which it is a member are
demoted. -/
theorem updateResource_tables (s : Engine D) {op : Op D} (rid : ResourceId)
    {g : Resource D → Resource D} (hg : ∀ r, StatusOnly r (g r)) (hset : ∀ r, SetsStatus op r (g r))
    {f : CompositionLifecycle → CompositionLifecycle} (hf : ∀ l, f l ≠ .active) :
    TableStep s op ((s.updateResource rid g).demoteWhere
      (fun c => c.graph.vertices.contains rid) f) := by
  -- read through the table: the record at `rid` changes, every other one stays
  obtain ⟨resources, heq⟩ := s.updateResource_eq rid g
  have hlookup := s.lookup_updateResource rid g
  rw [heq] at hlookup ⊢
  refine .status (fun v r => if v = rid then g r else r) (fun v r => ?_) (fun v r => ?_) hlookup
    rfl rfl fun id c hc hl => ⟨rfl, fun v hv => Or.inr fun r _ => if_neg fun hrid => ?_⟩
  · by_cases hv : v = rid
    · rw [if_pos hv]; exact hg r
    · rw [if_neg hv]; exact .refl r
  · by_cases hv : v = rid
    · rw [if_pos hv]; exact hset r
    · rw [if_neg hv]; exact .refl op r
  · have hnot := not_concerned_of_demoteWhere hc (fun l => hl ▸ hf l)
    exact absurd (hrid ▸ hv) (by simpa using hnot)

theorem invalidateNode_tables (s : Engine D) (rid : ResourceId) :
    TableStep s (.invalidateNode rid) (s.invalidateNode rid) := by
  unfold invalidateNode
  obtain ⟨resources, heq⟩ := s.updateResource_eq rid fun r =>
    { r with evidence := { r.evidence with state := .revalidationRequired, maxAgeMs := 0 } }
  have hlookup := s.lookup_updateResource rid fun r =>
    { r with evidence := { r.evidence with state := .revalidationRequired, maxAgeMs := 0 } }
  rw [heq] at hlookup ⊢
  refine .status _ (fun v r => ?_) (fun v r => ?_) hlookup rfl rfl
    fun id c _ _ => ⟨rfl, fun v _ => ?_⟩
  -- no composition is swept, so the exception of `status` is taken
  · by_cases hv : v = rid
    · rw [if_pos hv]; rfl
    · rw [if_neg hv]; exact .refl r
  · by_cases hv : v = rid
    · rw [if_pos hv]; exact ⟨Or.inl rfl, Or.inl rfl, Or.inl rfl, Or.inr rfl⟩
    · rw [if_neg hv]; exact .refl _ r
  · by_cases hv : v = rid
    · exact Or.inl (by rw [hv])
    · exact Or.inr fun r _ => if_neg hv

theorem withdrawResource_tables (s : Engine D) (rid : ResourceId) :
    TableStep s (.withdrawResource rid) (s.withdrawResource rid) := by
  unfold withdrawResource
  split
  · exact .same rfl rfl rfl rfl
  · refine s.updateResource_tables rid ?_ ?_ onWithdrawal_ne
    · intro r
      rfl
    · intro r
      exact ⟨Or.inr (Or.inl rfl), Or.inr rfl, Or.inr rfl, Or.inr rfl⟩

theorem onResourceFailure_tables (s : Engine D) (rid : ResourceId) :
    TableStep s (.onResourceFailure rid) (s.onResourceFailure rid) := by
  refine s.updateResource_tables rid ?_ ?_ (onFailure_ne (Or.inr rfl))
  · intro r
    rfl
  · intro r
    exact ⟨Or.inr (Or.inl rfl), Or.inr rfl, Or.inl rfl, Or.inr rfl⟩

theorem markEvidence_tables (s : Engine D) (owner : WorkerBootId) :
    TableStep s (.markEvidenceRevalidationRequired owner)
      (s.markEvidenceRevalidationRequired owner) := by
  unfold markEvidenceRevalidationRequired
  refine .status _ (fun _ r => ?_) (fun _ r => ?_) (fun v => UMap.lookup_mapVals _ s.resources v)
    rfl rfl fun id c hc hl => ⟨rfl, fun v hv => Or.inr fun r hr => ?_⟩
  · -- what is written into a resource: the evidence, where the owner is the dead worker
    by_cases ho : ownedBy owner r
    · rw [if_pos ho]; rfl
    · rw [if_neg ho]; exact .refl r
  · by_cases ho : ownedBy owner r
    · rw [if_pos ho]
      exact ⟨Or.inr (Or.inr ⟨owner, rfl, ho⟩), Or.inl rfl, Or.inl rfl, Or.inr rfl⟩
    · rw [if_neg ho]; exact .refl _ r
  · -- a composition that stays active has no member of the dead worker
    have hnot := not_concerned_of_demoteWhere hc (fun l => hl ▸ onWithdrawal_ne l)
    have hv' := List.any_eq_false.mp hnot v hv
    by_cases ho : ownedBy owner r
    · refine absurd ?_ hv'
      rw [UMap.lookup_mapVals, hr, Option.map_some, Option.any_some, if_pos ho]
      exact ho
    · exact if_neg ho

theorem advanceEpoch_tables (s : Engine D) (next : CoordinatorEpoch) :
    TableStep s (.advanceEpoch next) (s.advanceEpoch next) := by
  unfold advanceEpoch
  split
  · exact .same rfl rfl rfl rfl
  · refine .status _ (fun _ r => ?_) (fun _ r => ?_) (fun v => UMap.lookup_mapVals _ s.resources v)
      rfl rfl fun id c hc hl => ?_
    · by_cases hd : !r.evidence.durable
      · rw [if_pos hd]; rfl
      · rw [if_neg hd]; exact .refl r
    · by_cases hd : !r.evidence.durable
      · rw [if_pos hd]; exact ⟨Or.inl rfl, Or.inl rfl, Or.inl rfl, Or.inr rfl⟩
      · rw [if_neg hd]; exact .refl _ r
    · -- nothing stays active
      exact absurd (not_concerned_of_demoteWhere hc (fun l => hl ▸ onEpoch_ne l)) (by simp)

theorem onPolicyUpdate_tables (s : Engine D) (policy : PolicyId) (gen : PolicyGeneration) :
    TableStep s (.onPolicyUpdate policy gen) (s.onPolicyUpdate policy gen) := by
  -- the sweep passes over reserved compositions
  refine .policy policy gen rfl rfl rfl rfl rfl ?_
  intro id c hc hl
  rcases hl with hres | hl
  · exact Or.inl hres
  · have hnot := not_concerned_of_demoteWhere hc (onFailure_ne hl)
    exact Or.inr (by simpa using hnot)

/-! ### What transactions leave alone -/

/-- The tables that a transaction reads and does not write. -/
structure SameTables (s s' : Engine D) : Prop where
  backends : s'.backends = s.backends
  resources : s'.resources = s.resources
  nodes : s'.nodes = s.nodes
  policies : s'.policies = s.policies
  epoch : s'.epoch = s.epoch

omit [DoubleBits D] in
theorem sameTables_endComposition (s : Engine D) (id : CompositionId) (c : Composition D)
    (fenced draining : Finset CompositionId) :
    SameTables s { s.endComposition id c with fenced := fenced, draining := draining } ∧
      (s.endComposition id c).paths = s.paths := by
  obtain ⟨held, resvs, heq⟩ := s.endReservation_eq c.reservation
  unfold endComposition
  rw [heq]
  exact ⟨⟨rfl, rfl, rfl, rfl, rfl⟩, rfl⟩

/-- **A transaction writes none of these tables**, and only planning writes the path
table. -/
theorem transaction_tables (s : Engine D) {op : Op D} (hop : op.isTransaction = true) :
    SameTables s (s.step op) ∧ ((s.step op).paths = s.paths ∨ ∃ req, op = .compose req) := by
  cases op with
  | compose req =>
    refine ⟨?_, Or.inr ⟨req, rfl⟩⟩
    change SameTables s (s.compose req).1
    obtain ⟨paths, ⟨-, heq⟩ | ⟨-, heq, -⟩⟩ := s.compose_cases req
    · rw [heq]; exact ⟨rfl, rfl, rfl, rfl, rfl⟩
    · rw [heq]; exact ⟨rfl, rfl, rfl, rfl, rfl⟩
  | reserve plan =>
    -- on every way out the tables are as they were, with the amounts given back or not
    change SameTables s (s.reserve plan).1 ∧ ((s.reserve plan).1.paths = s.paths ∨ _)
    unfold reserve
    repeat' split
    all_goals exact ⟨⟨rfl, rfl, rfl, rfl, rfl⟩, Or.inl rfl⟩
  | commit resIn =>
    change SameTables s (s.commit resIn).1 ∧ ((s.commit resIn).1.paths = s.paths ∨ _)
    unfold commit
    repeat' split
    all_goals exact ⟨⟨rfl, rfl, rfl, rfl, rfl⟩, Or.inl rfl⟩
  | activate id =>
    change SameTables s (s.activate id).1 ∧ ((s.activate id).1.paths = s.paths ∨ _)
    unfold activate
    repeat' split
    all_goals exact ⟨⟨rfl, rfl, rfl, rfl, rfl⟩, Or.inl rfl⟩
  | beginDrain id =>
    change SameTables s (s.beginDrain id).1 ∧ ((s.beginDrain id).1.paths = s.paths ∨ _)
    unfold beginDrain
    repeat' split
    all_goals exact ⟨⟨rfl, rfl, rfl, rfl, rfl⟩, Or.inl rfl⟩
  | endDrain id =>
    -- a drain that ends gives the holds back
    change SameTables s (s.endDrain id).1 ∧ ((s.endDrain id).1.paths = s.paths ∨ _)
    unfold endDrain
    repeat' split
    · exact ⟨⟨rfl, rfl, rfl, rfl, rfl⟩, Or.inl rfl⟩
    · exact ⟨⟨rfl, rfl, rfl, rfl, rfl⟩, Or.inl rfl⟩
    · exact (s.sameTables_endComposition id _ _ _).imp_right Or.inl
  | release id =>
    change SameTables s (s.release id).1 ∧ ((s.release id).1.paths = s.paths ∨ _)
    unfold release
    repeat' split
    · exact ⟨⟨rfl, rfl, rfl, rfl, rfl⟩, Or.inl rfl⟩
    · exact ⟨⟨rfl, rfl, rfl, rfl, rfl⟩, Or.inl rfl⟩
    · exact (s.sameTables_endComposition id _ _ _).imp_right Or.inl
  | recomputeRelease id =>
    change SameTables s (s.recomputeRelease id) ∧ ((s.recomputeRelease id).paths = s.paths ∨ _)
    unfold recomputeRelease
    split
    · exact ⟨⟨rfl, rfl, rfl, rfl, rfl⟩, Or.inl rfl⟩
    · exact (s.sameTables_endComposition id _ _ _).imp_right Or.inl
  | _ => cases hop

/-! ### Every operation -/

/-- **Every change of the tables is accounted for.** -/
theorem step_tables (s : Engine D) {op : Op D} (hop : op.isDiscover = false) :
    TableStep s op (s.step op) := by
  -- the calls of a transaction write none of these tables
  have htransaction : op.isTransaction = true → TableStep s op (s.step op) := by
    intro h
    have hsame := (s.transaction_tables h).1
    exact .same hsame.resources hsame.nodes hsame.policies hsame.epoch
  cases op with
  | addBackend b => exact .same rfl rfl rfl rfl
  | backendsAnswer bs => exact .same rfl rfl rfl rfl
  | discover => cases hop
  | registerNode n =>
    change TableStep s _ (s.registerNode n).1
    unfold registerNode
    -- without a valid id the call is refused
    split
    · exact .same rfl rfl rfl rfl
    · exact s.ingestNode_tables rfl
  | registerResource r =>
    change TableStep s _ (s.registerResource r).1
    unfold registerResource
    split
    · exact .same rfl rfl rfl rfl
    · exact s.ingestResource_tables rfl
  | invalidateNode rid => exact s.invalidateNode_tables rid
  | withdrawResource rid => exact s.withdrawResource_tables rid
  | markEvidenceRevalidationRequired owner => exact s.markEvidence_tables owner
  | advanceEpoch next => exact s.advanceEpoch_tables next
  | onResourceUpdate r => exact s.ingestResource_tables rfl
  | onNodeUpdate n => exact s.ingestNode_tables rfl
  | onPolicyUpdate policy gen => exact s.onPolicyUpdate_tables policy gen
  | onPathUpdate pe => exact .same rfl rfl rfl rfl
  | onResourceFailure rid => exact s.onResourceFailure_tables rid
  | load file =>
    change TableStep s _ (s.load file).1
    unfold load
    -- a file that is refused changes nothing
    split
    · next d hd => exact .loaded file d rfl hd rfl
    · exact .same rfl rfl rfl rfl
  | _ => exact htransaction rfl

/-- Only three operations write the path table. -/
theorem step_paths (s : Engine D) {op : Op D} (hdiscover : op.isDiscover = false)
    (hupdate : op.isPathUpdate = false) :
    (s.step op).paths = s.paths ∨ ∃ req, op = .compose req := by
  cases op with
  | discover => cases hdiscover
  | onPathUpdate pe => cases hupdate
  | registerNode n =>
    -- a publication that is refused changes nothing, and one that is not has no path
    refine Or.inl ?_
    change (s.registerNode n).1.paths = s.paths
    obtain ⟨nodes, compositions, heq⟩ := s.ingestNode_eq n
    unfold registerNode
    rw [heq]
    split <;> rfl
  | onNodeUpdate n =>
    refine Or.inl ?_
    change (s.ingestNode n).paths = s.paths
    obtain ⟨nodes, compositions, heq⟩ := s.ingestNode_eq n
    rw [heq]
  | registerResource r =>
    refine Or.inl ?_
    change (s.registerResource r).1.paths = s.paths
    obtain ⟨resources, compositions, heq⟩ := s.ingestResource_eq r
    unfold registerResource
    rw [heq]
    split <;> rfl
  | onResourceUpdate r =>
    refine Or.inl ?_
    change (s.ingestResource r).paths = s.paths
    obtain ⟨resources, compositions, heq⟩ := s.ingestResource_eq r
    rw [heq]
  | invalidateNode rid =>
    refine Or.inl ?_
    change (s.invalidateNode rid).paths = s.paths
    unfold invalidateNode updateResource
    split <;> rfl
  | withdrawResource rid =>
    refine Or.inl ?_
    change (s.withdrawResource rid).paths = s.paths
    unfold withdrawResource updateResource
    split
    · rfl
    · split <;> rfl
  | onResourceFailure rid =>
    refine Or.inl ?_
    change (s.onResourceFailure rid).paths = s.paths
    unfold onResourceFailure updateResource
    split <;> rfl
  | advanceEpoch next =>
    refine Or.inl ?_
    change (s.advanceEpoch next).paths = s.paths
    unfold advanceEpoch
    split <;> rfl
  | load file =>
    -- paths are not in the file, and those of the engine stay
    refine Or.inl ?_
    change (s.load file).1.paths = s.paths
    unfold load
    split <;> rfl
  | addBackend b => exact Or.inl rfl
  | backendsAnswer bs => exact Or.inl rfl
  | markEvidenceRevalidationRequired owner => exact Or.inl rfl
  | onPolicyUpdate policy gen => exact Or.inl rfl
  | _ => exact (s.transaction_tables rfl).2

/-! ### Discover as a run of publications -/

omit [Double D] [DoubleBits D] in
/-- The operation that takes in a publication. -/
def Publication.op (s : Engine D) : Publication D → Op D
  | .node n => .onNodeUpdate n
  | .resource r => .onResourceUpdate (s.labelSynthetic r)

theorem publish_eq_step (s : Engine D) (p : Publication D) :
    s.publish p = s.step (Publication.op s p) := by
  cases p <;> rfl

omit [DoubleBits D] in
theorem discoverPath_eq (s : Engine D) (a b : NodeId) :
    ∃ paths, s.discoverPath a b = { s with paths := paths } := by
  unfold discoverPath
  split
  · exact ⟨s.paths, rfl⟩
  · split
    · exact ⟨_, rfl⟩
    · exact ⟨s.paths, rfl⟩

omit [Double D] [DoubleBits D] in
/-- A fold of steps that write the path table only writes the path table only. -/
theorem foldl_paths {A : Type} {f : Engine D → A → Engine D}
    (hf : ∀ s a, ∃ paths, f s a = { s with paths := paths }) (l : List A) (s : Engine D) :
    ∃ paths, l.foldl f s = { s with paths := paths } := by
  induction l generalizing s with
  | nil => exact ⟨s.paths, rfl⟩
  | cons a l ih =>
    obtain ⟨paths, ha⟩ := hf s a
    obtain ⟨paths', hl⟩ := ih (f s a)
    refine ⟨paths', ?_⟩
    rw [List.foldl_cons, hl, ha]

omit [DoubleBits D] in
/-- After the publications, `Discover` writes the path table only. -/
theorem discover_eq (s : Engine D) :
    ∃ paths, s.discover.1 =
      { Machine.run publish s (publications s.backends) with paths := paths } := by
  rw [discover_fst]
  exact foldl_paths (fun s a => foldl_paths (fun s b => s.discoverPath_eq a b) _ s) _ _

/-- **Invariants of a `Discover`.** What every publication that meets `C` preserves,
and what does not depend on the path table, is preserved by a `Discover` whose
publications all meet `C`. -/
theorem discover_invariant {I : Engine D → Prop} {C : Engine D → Op D → Prop} {s : Engine D}
    (hI : I s) (hpaths : ∀ s paths, I s → I { s with paths := paths })
    (hstep : ∀ s op, op.isDiscover = false → I s → C s op → I (s.step op))
    (h : Machine.Along publish (fun s p => C s (Publication.op s p)) s
      (publications s.backends)) : I s.discover.1 := by
  obtain ⟨paths, heq⟩ := s.discover_eq
  rw [heq]
  -- the paths do not matter, and each publication is a step
  refine hpaths _ paths (Machine.invariant_of_along hI ?_ h)
  intro s p hs hC
  rw [publish_eq_step]
  refine hstep s _ ?_ hs hC
  cases p <;> rfl

/-- A condition on operations, read at a `Discover` as a condition on each of its
publications. -/
def ThroughDiscover (C : Engine D → Op D → Prop) (s : Engine D) (op : Op D) : Prop :=
  (op.isDiscover = true → Machine.Along publish (fun s p => C s (Publication.op s p)) s
    (publications s.backends)) ∧ (op.isDiscover = false → C s op)

instance (C : Engine D → Op D → Prop) [∀ s op, Decidable (C s op)] (s : Engine D) (op : Op D) :
    Decidable (ThroughDiscover C s op) :=
  inferInstanceAs (Decidable (_ ∧ _))

omit [Double D] [DoubleBits D] in
theorem ThroughDiscover.of_not_discover {C : Engine D → Op D → Prop} {s : Engine D} {op : Op D}
    (hop : op.isDiscover = false) (h : C s op) : ThroughDiscover C s op := by
  refine ⟨?_, fun _ => h⟩
  intro hd
  rw [hop] at hd
  cases hd

/-- **Invariants of a step**, from those of the operations other than `Discover`. -/
theorem step_invariant {I : Engine D → Prop} {C : Engine D → Op D → Prop}
    (hpaths : ∀ s paths, I s → I { s with paths := paths })
    (hstep : ∀ s op, op.isDiscover = false → I s → C s op → I (s.step op)) {s : Engine D}
    {op : Op D} (hI : I s) (h : ThroughDiscover C s op) : I (s.step op) := by
  cases op with
  | discover => exact discover_invariant hI hpaths hstep (h.1 rfl)
  | _ => exact hstep s _ rfl hI (h.2 rfl)

/-! ### Where resources are stored -/

/-- **What holds of every stored resource.** It is kept by a step when it holds of what is
published and loaded, and every change of status that the step makes keeps it. -/
theorem forall_resources_step {s : Engine D} {op : Op D} {P : ResourceId → Resource D → Prop}
    (hop : op.isDiscover = false) (hpub : ∀ r ∈ op.resource?, P r.id r)
    (hstatus : ∀ v r r', StatusOnly r r' → SetsStatus op r r' → r ∈ s.resources.values →
      P v r → P v r')
    (hload : ∀ file ∈ op.file?, ∀ d, loadImpl file = .ok d → ∀ r ∈ d.resources,
      P (importResource r).id (importResource r))
    (h : ∀ v r, s.resources.lookup v = some r → P v r) :
    ∀ v r, (s.step op).resources.lookup v = some r → P v r := by
  have htab := s.step_tables hop
  generalize s.step op = s' at htab ⊢
  cases htab with
  | same hr _ _ _ => rwa [hr]
  | node n _ hr _ _ _ _ => rwa [hr]
  | resource r₁ hop₁ hr _ _ _ _ =>
    rw [hr]
    exact UMap.forall_lookup_insert h (hpub r₁ hop₁)
  | status f hf hset hr _ _ _ =>
    intro v r' hr'
    rw [hr] at hr'
    obtain ⟨r, hlook, rfl⟩ := Option.map_eq_some_iff.mp hr'
    exact hstatus v r _ (hf v r) (hset v r) (UMap.mem_values_of_lookup hlook) (h v r hlook)
  | policy policy gen _ hr _ _ _ _ => rwa [hr]
  | loaded file d hop₁ hd hs =>
    -- the table is made anew from the file
    intro v r hr
    rw [hs] at hr
    obtain ⟨hmem, rfl⟩ := UMap.lookup_ofValues hr
    obtain ⟨r₀, hr₀, rfl⟩ := List.mem_map.mp hmem
    exact hload file (by rw [hop₁]; rfl) d hd r₀ hr₀

/-- Every resource is stored under its own id. -/
def ResourcesKeyed (s : Engine D) : Prop :=
  ∀ v r, s.resources.lookup v = some r → r.id = v

theorem ResourcesKeyed.step {s : Engine D} (h : s.ResourcesKeyed) {op : Op D}
    (hop : op.isDiscover = false) : (s.step op).ResourcesKeyed := by
  refine forall_resources_step hop ?_ ?_ ?_ h
  -- a publication is stored under its own id, and a change of status keeps the id
  · exact fun r _ => rfl
  · intro v r r' hs _ _ hid
    rw [hs]
    exact hid
  · exact fun _ _ _ _ _ _ => rfl

theorem resourcesKeyed_run (cfg : EngineConfig) (ops : List (Op D)) :
    ((fresh cfg).run ops).ResourcesKeyed := by
  refine Machine.invariant_run ?_ ?_
  · intro v r hr
    simp [fresh] at hr
  · intro s op hs
    refine step_invariant (C := fun _ _ => True) (fun _ _ hs => hs)
      (fun s op hop hs _ => hs.step hop) hs ⟨fun _ => ?_, fun _ => trivial⟩
    exact Machine.along_of_forall (fun _ _ => trivial) _ _

/-! ### Active compositions -/

omit [Double D] [DoubleBits D] in
/-- A composition found in another lifecycle than the one that was stored had been
there before. -/
theorem lookup_of_insert {m : UMap CompositionId (Composition D)} {k id : CompositionId}
    {c c' : Composition D} (h : (m.insert k c).lookup id = some c')
    (hne : c.lifecycle ≠ c'.lifecycle) : m.lookup id = some c' := by
  refine UMap.lookup_of_insert_ne h ?_
  rintro rfl
  exact hne rfl

/-- **Where an active composition comes from.** It was activated by this step, after
a revalidation against tables that the step leaves alone, or it was active before
and is bound to the same members. -/
theorem active_step {s : Engine D} {op : Op D} {id : CompositionId} {c' : Composition D}
    (hc' : (s.step op).compositions.lookup id = some c') (hl : c'.lifecycle = .active) :
    (∃ c, op = .activate id ∧ s.compositions.lookup id = some c ∧ c.lifecycle = .committed ∧
        c.id ∉ s.fenced ∧ revalidationHolds c s.resources s.epoch = .ok () ∧
        c' = { c with lifecycle := .active, outcome := .success } ∧
        (s.step op).resources = s.resources ∧ (s.step op).epoch = s.epoch) ∨
      ∃ c, s.compositions.lookup id = some c ∧ c.lifecycle = .active ∧ c'.graph = c.graph ∧
        c'.authority = c.authority ∧ c'.request = c.request := by
  have heff := s.step_effect op
  generalize s.step op = s' at heff hc' ⊢
  cases heff with
  -- nothing becomes active by a demotion
  | quiet hq =>
    obtain ⟨c, hc, hd⟩ := hq.compositions.back hc'
    have hsame := hd.of_authoritative (Or.inr (Or.inr hl))
    exact Or.inr ⟨c, hc, hsame.trans hl, hd.graph, hd.authority, hd.request⟩
  | composed req paths _ => exact Or.inr ⟨c', hc', hl, rfl, rfl, rfl⟩
  | reserveFailed plan held items e _ => exact Or.inr ⟨c', hc', hl, rfl, rfl, rfl⟩
  -- the records that `Reserve` and `Commit` store are not active
  | reserved plan held items _ _ _ =>
    have hold := lookup_of_insert hc' (by rw [hl]; exact fun h => by cases h)
    exact Or.inr ⟨c', hold, hl, rfl, rfl, rfl⟩
  | rolledBack resIn resv comp held reason _ _ _ _ _ =>
    have hold := lookup_of_insert hc' (by rw [hl]; exact fun h => by cases h)
    exact Or.inr ⟨c', hold, hl, rfl, rfl, rfl⟩
  | committed resIn resv comp held _ _ _ _ _ _ =>
    have hold := lookup_of_insert hc' (by rw [hl]; exact fun h => by cases h)
    exact Or.inr ⟨c', hold, hl, rfl, rfl, rfl⟩
  | activated id' comp hc hcl hf _ hv =>
    rcases UMap.lookup_insert_inv hc' with ⟨rfl, rfl⟩ | ⟨-, hc'⟩
    · exact Or.inl ⟨comp, rfl, hc, hcl, hf, hv, rfl, rfl, rfl⟩
    · exact Or.inr ⟨c', hc', hl, rfl, rfl, rfl⟩
  | ended id' comp fenced draining _ _ _ _ _ =>
    change (s.endComposition id' comp).compositions.lookup id = _ at hc'
    rw [compositions_endComposition] at hc'
    have hold := lookup_of_insert hc' (by rw [hl]; exact fun h => by cases h)
    exact Or.inr ⟨c', hold, hl, rfl, rfl, rfl⟩
  | loaded file d _ =>
    have hlife := lifecycleOf_importState (lifecycleOf_eq_some.mpr ⟨c', hc', hl⟩)
    exact absurd rfl hlife.2

end Engine

end DFabric
