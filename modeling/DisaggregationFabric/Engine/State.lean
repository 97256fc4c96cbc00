import DisaggregationFabric.Engine.Planner
import Mathlib.Data.Finset.Basic

/-!
# The engine: state, discovery and invalidation

`Engine` is `FabricEngine::Impl`. Every public call runs under the engine's one
lock, so an operation is a function from the state to the state and a result.

The operations here publish nodes and resources and react to events. They share
one shape: they change the tables of resources, nodes, paths or policies, and
they *demote* compositions, that is, move some of them out of `reserved`,
`committed` or `active`. `demoteWhere` is that loop, with the membership test and
the lifecycle change of each operation as parameters.
-/

namespace DFabric

/-- What a backend currently answers. -/
structure Backend (D : Type) where
  discoverNodes : List (Node D)
  discoverResources : List (Resource D)
  resolvePath : PathRequirement D → Option (PathEvidence D)

/-- The engine's configuration. -/
structure EngineConfig where
  coordinator : CoordinatorId
  epoch : CoordinatorEpoch

/-- The state of the engine. -/
structure Engine (D : Type) where
  config : EngineConfig
  resources : UMap ResourceId (Resource D)
  nodes : UMap NodeId (Node D)
  backends : List (Backend D)
  /-- Path evidence, under `pathKey`. -/
  paths : OrdMap Str (PathEvidence D)
  compositions : UMap CompositionId (Composition D)
  reservations : UMap ReservationId (Reservation D)
  /-- The amount held of each resource; absent means zero. -/
  reservedAmount : OrdMap ResourceId D
  policies : OrdMap PolicyId PolicyGeneration
  draining : Finset CompositionId
  /-- Compositions that may never be activated again. -/
  fenced : Finset CompositionId
  nextComp : UInt64
  nextRes : UInt64
  nextRs : UInt64
  nextResv : UInt64

namespace Engine

variable {D : Type}

/-- The constructor: a fresh engine. -/
def fresh (cfg : EngineConfig) : Engine D where
  -- a zero coordinator or epoch is replaced by one
  config :=
    { coordinator := if cfg.coordinator.isValid then cfg.coordinator else ⟨1⟩
      epoch := if cfg.epoch.isValid then cfg.epoch else ⟨1⟩ }
  resources := ∅
  nodes := ∅
  backends := []
  paths := default
  compositions := ∅
  reservations := ∅
  reservedAmount := default
  policies := default
  draining := ∅
  fenced := ∅
  nextComp := 1
  nextRes := 1
  nextRs := 1
  nextResv := 1

/-- The current coordinator epoch. -/
def epoch (s : Engine D) : CoordinatorEpoch := s.config.epoch

/-! ### Demotion -/

end Engine

namespace CompositionLifecycle

/-- The lifecycles in which a composition holds, or is about to hold, its
resources. -/
def IsAuthoritative (l : CompositionLifecycle) : Prop :=
  l = .reserved ∨ l = .committed ∨ l = .active

instance (l : CompositionLifecycle) : Decidable l.IsAuthoritative :=
  inferInstanceAs (Decidable (_ ∨ _ ∨ _))

/-- The lifecycles of a composition that has ended. -/
def IsOver (l : CompositionLifecycle) : Prop := l = .released ∨ l = .retired

instance (l : CompositionLifecycle) : Decidable l.IsOver :=
  inferInstanceAs (Decidable (_ ∨ _))

/-- A node or a member was published with another generation. -/
def onGenerationChange : CompositionLifecycle → CompositionLifecycle
  | .active => .recompositionRequired
  | .committed => .revalidationRequired
  | .reserved => .revalidationRequired
  | l => l

/-- A member failed, or a policy changed. -/
def onFailure : CompositionLifecycle → CompositionLifecycle
  | .active => .recompositionRequired
  | .committed => .revalidationRequired
  | l => l

/-- A member was withdrawn, its worker died, or a path changed. -/
def onWithdrawal : CompositionLifecycle → CompositionLifecycle
  | .active => .recompositionRequired
  | l => l

/-- The coordinator moved to another epoch. -/
def onEpoch : CompositionLifecycle → CompositionLifecycle
  | .active => .revalidationRequired
  | l => l

/-- A lifecycle change that moves nothing into the authoritative lifecycles, and ends
nothing. -/
def Demotes (f : CompositionLifecycle → CompositionLifecycle) : Prop :=
  ∀ l, f l = l ∨ ¬ (f l).IsAuthoritative ∧ ¬ (f l).IsOver

theorem demotes_onGenerationChange : Demotes onGenerationChange := by
  intro l; cases l <;> decide

theorem demotes_onFailure : Demotes onFailure := by
  intro l; cases l <;> decide

theorem demotes_onWithdrawal : Demotes onWithdrawal := by
  intro l; cases l <;> decide

theorem demotes_onEpoch : Demotes onEpoch := by
  intro l; cases l <;> decide

end CompositionLifecycle

namespace Engine

variable {D : Type}

/-- Change the lifecycle of the compositions that the event concerns. -/
def demoteWhere (concerned : Composition D → Bool)
    (f : CompositionLifecycle → CompositionLifecycle) (s : Engine D) : Engine D :=
  { s with
    compositions := UMap.mapVals
      (fun c => if concerned c then { c with lifecycle := f c.lifecycle } else c)
      s.compositions }

/-! ### Discovery and ingestion -/

/-- `IngestNodeLocked`: another generation of a known node demotes every
composition. -/
def ingestNode (s : Engine D) (n : Node D) : Engine D :=
  if !n.id.isValid then s
  else
    -- every composition is swept, whether or not it has a member on the node
    let s := match s.nodes.lookup n.id with
      | some old =>
        if old.generation ≠ n.generation then
          s.demoteWhere (fun _ => true) CompositionLifecycle.onGenerationChange
        else s
      | none => s
    { s with nodes := s.nodes.insert n.id n }

/-- `IngestResourceLocked`: another generation of a known resource demotes the
compositions it is a member of. -/
def ingestResource (s : Engine D) (r : Resource D) : Engine D :=
  if !r.id.isValid then s
  else
    let s := match s.resources.lookup r.id with
      | some old =>
        if old.generation ≠ r.generation then
          s.demoteWhere (fun c => c.graph.vertices.contains r.id)
            CompositionLifecycle.onGenerationChange
        else s
      | none => s
    { s with resources := s.resources.insert r.id r }

/-- `AddBackend`. -/
def addBackend (s : Engine D) (b : Backend D) : Engine D :=
  { s with backends := s.backends ++ [b] }

/-- The nodes and resources `Discover` took in. -/
structure DiscoveryResult (D : Type) where
  nodes : List (Node D)
  resources : List (Resource D)

/-- A discovered resource takes the synthetic label of its node. -/
def labelSynthetic (s : Engine D) (r : Resource D) : Resource D :=
  match s.nodes.lookup r.nodeId with
  | some n => { r with synthetic := n.synthetic }
  | none => r

/-- Take in what one backend discovers. -/
def discoverBackend (acc : Engine D × DiscoveryResult D) (b : Backend D) :
    Engine D × DiscoveryResult D :=
  -- the nodes come first, so that the resources see the labels of this backend's nodes
  let s := b.discoverNodes.foldl ingestNode acc.1
  b.discoverResources.foldl (fun acc r =>
      let rr := acc.1.labelSynthetic r
      (acc.1.ingestResource rr, { acc.2 with resources := acc.2.resources ++ [rr] }))
    (s, { acc.2 with nodes := acc.2.nodes ++ b.discoverNodes })

/-- The first answer among the backends. -/
def resolvePath (s : Engine D) (pr : PathRequirement D) : Option (PathEvidence D) :=
  s.backends.findSome? fun b => b.resolvePath pr

/-- Ask the backends for the path of one ordered node pair. -/
def discoverPath [Double D] (s : Engine D) (a b : NodeId) : Engine D :=
  if a = b then s
  else
    match s.resolvePath { (default : PathRequirement D) with
        source := a, target := b, required := true } with
    | some pe => { s with paths := s.paths.insert (pathKey a b) pe }
    | none => s

/-- `Discover`. -/
def discover [Double D] (s : Engine D) : Engine D × DiscoveryResult D :=
  let acc := s.backends.foldl discoverBackend (s, ⟨[], []⟩)
  -- paths are asked for over every ordered pair of registered nodes
  let ids := acc.1.nodes.keys
  (ids.foldl (fun s a => ids.foldl (fun s b => s.discoverPath a b) s) acc.1, acc.2)

/-- What a backend publishes in a `Discover`. -/
inductive Publication (D : Type) where
  | node (n : Node D)
  | resource (r : Resource D)

/-- Take in one publication of a `Discover`. -/
def publish (s : Engine D) : Publication D → Engine D
  | .node n => s.ingestNode n
  | .resource r => s.ingestResource (s.labelSynthetic r)

/-- What a list of backends publishes, in order. -/
def publications (bs : List (Backend D)) : List (Publication D) :=
  bs.flatMap fun b => b.discoverNodes.map .node ++ b.discoverResources.map .resource

/-- `Discover` takes in every publication, then asks for the paths. -/
theorem discover_fst [Double D] (s : Engine D) :
    s.discover.1 =
      let t := (publications s.backends).foldl publish s
      t.nodes.keys.foldl (fun s a => t.nodes.keys.foldl (fun s b => s.discoverPath a b) s) t := by
  -- the resource loop of one backend, its result list being left aside
  have hres : ∀ (l : List (Resource D)) (acc : Engine D × DiscoveryResult D),
      (l.foldl (fun acc r => (acc.1.ingestResource (acc.1.labelSynthetic r),
        { acc.2 with resources := acc.2.resources ++ [acc.1.labelSynthetic r] })) acc).1 =
      l.foldl (fun s r => s.publish (.resource r)) acc.1 := by
    intro l
    induction l with
    | nil => intro acc; rfl
    | cons r l ih => intro acc; exact ih _
  -- then all backends, by induction on the list of them
  have hall : ∀ (bs : List (Backend D)) (acc : Engine D × DiscoveryResult D),
      (bs.foldl discoverBackend acc).1 = (publications bs).foldl publish acc.1 := by
    intro bs
    induction bs with
    | nil => intro acc; rfl
    | cons b bs ih =>
      intro acc
      have hb : (discoverBackend acc b).1 =
          (b.discoverNodes.map Publication.node ++
            b.discoverResources.map Publication.resource).foldl publish acc.1 := by
        rw [List.foldl_append, List.foldl_map, List.foldl_map]
        exact hres b.discoverResources _
      rw [List.foldl_cons, ih, hb, ← List.foldl_append]
      rfl
  rw [discover]
  dsimp only
  rw [hall]

/-- `RegisterNode`. -/
def registerNode (s : Engine D) (n : Node D) : Engine D × Bool :=
  if !n.id.isValid then (s, false) else (s.ingestNode n, true)

/-- `RegisterResource`. -/
def registerResource (s : Engine D) (r : Resource D) : Engine D × Bool :=
  if !r.id.isValid then (s, false) else (s.ingestResource r, true)

/-! ### Invalidation -/

/-- Change the record of a registered resource. -/
def updateResource (s : Engine D) (rid : ResourceId) (f : Resource D → Resource D) : Engine D :=
  match s.resources.lookup rid with
  | some r => { s with resources := s.resources.insert rid (f r) }
  | none => s

/-- `InvalidateNode`: the evidence of a resource must be revalidated. No
composition is touched. -/
def invalidateNode (s : Engine D) (rid : ResourceId) : Engine D :=
  s.updateResource rid fun r =>
    { r with evidence := { r.evidence with state := .revalidationRequired, maxAgeMs := 0 } }

/-- `WithdrawResource`. -/
def withdrawResource (s : Engine D) (rid : ResourceId) : Engine D :=
  match s.resources.lookup rid with
  | none => s
  | some _ =>
    -- the age limit of the evidence is left as it was
    (s.updateResource rid fun r =>
      { r with
        health := .offline
        readiness := .notReady
        reachability := .unreachable
        evidence := { r.evidence with state := .revalidationRequired } }).demoteWhere
      (fun c => c.graph.vertices.contains rid) CompositionLifecycle.onWithdrawal

/-- The evidence of the resource belongs to a worker boot. -/
def ownedBy (owner : WorkerBootId) (r : Resource D) : Bool :=
  r.evidence.owner = owner.toStr || r.evidence.provenance = owner.toStr

/-- `MarkEvidenceRevalidationRequired`: a worker died. -/
def markEvidenceRevalidationRequired (s : Engine D) (owner : WorkerBootId) : Engine D :=
  let s := { s with
    resources := UMap.mapVals (fun r =>
      if ownedBy owner r then
        { r with
          evidence := { r.evidence with state := .revalidationRequired, maxAgeMs := 0 }
          health := .unknown }
      else r) s.resources }
  -- the sweep reads the table as the first loop left it; ownership was not changed there
  s.demoteWhere
    (fun c => c.graph.vertices.any fun v => (s.resources.lookup v).any (ownedBy owner))
    CompositionLifecycle.onWithdrawal

/-- `AdvanceEpoch`. -/
def advanceEpoch (s : Engine D) (next : CoordinatorEpoch) : Engine D :=
  if !next.isValid then s
  else
    { s with
      config := { s.config with epoch := next }
      -- durable evidence survives the change of epoch
      resources := UMap.mapVals (fun r =>
        if !r.evidence.durable then
          { r with evidence := { r.evidence with state := .revalidationRequired, maxAgeMs := 0 } }
        else r) s.resources }.demoteWhere (fun _ => true) CompositionLifecycle.onEpoch

/-- `OnPolicyUpdate`. -/
def onPolicyUpdate (s : Engine D) (policy : PolicyId) (gen : PolicyGeneration) : Engine D :=
  -- the generation of the composition is compared, not its policy id
  { s with policies := s.policies.insert policy gen }.demoteWhere
    (fun c => c.authority.policyGeneration ≠ gen) CompositionLifecycle.onFailure

/-- `OnPathUpdate`. -/
def onPathUpdate (s : Engine D) (pe : PathEvidence D) : Engine D :=
  { s with
    paths := s.paths.insert (pathKey pe.requirement.source pe.requirement.target) pe }.demoteWhere
    (fun c => c.paths.any fun p =>
      p.requirement.source = pe.requirement.source ∧
        p.requirement.target = pe.requirement.target ∧ p.generation ≠ pe.generation)
    CompositionLifecycle.onWithdrawal

/-- `OnResourceFailure`. -/
def onResourceFailure (s : Engine D) (rid : ResourceId) : Engine D :=
  -- the sweep runs for an unregistered id as well
  (s.updateResource rid fun r =>
    { r with
      health := .offline
      readiness := .notReady
      evidence := { r.evidence with state := .revalidationRequired } }).demoteWhere
    (fun c => c.graph.vertices.contains rid) CompositionLifecycle.onFailure

end Engine

end DFabric
