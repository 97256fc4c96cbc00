import DisaggregationFabric.Codec.Compositions
import DisaggregationFabric.Engine.Transaction
import DisaggregationFabric.Lib.Run

/-!
# The engine as a system

`Save` and `Load`, and the engine as a state machine. `Op` lists the critical
sections of the engine that change its state, each of which runs under the
engine's lock; `step` performs one. What several clients do, in whatever order
their calls get the lock, is a run (`Machine.run`) over a list of operations.

* A call of `Recompute` is not one critical section but the list `recomputeOps`
  (`recompute_eq_run`); its releasing section is an operation of its own.
* `Load` is an operation on the contents of the file. A coordinator that restarts
  is a fresh engine that loads a file: `Event.restart`.
* The backends belong to the environment: `Op.backendsAnswer` lets them answer
  differently from then on.
-/

namespace DFabric

namespace Engine

variable {D : Type}

/-! ### Save and Load -/

/-- What `Save` collects under the lock. -/
def snapshot (s : Engine D) : DurableState D where
  epoch := s.epoch
  nodes := s.nodes.values
  resources := s.resources.values
  policies := s.policies
  compositions := s.compositions.values

/-- `Save`: the bytes of the file, or why there are none. The files themselves are
assumed to take them. -/
def save [DoubleBits D] (s : Engine D) : Except Str (List UInt8) := saveImpl s.snapshot

/-- Live evidence is not trusted after a load. -/
def importResource (r : Resource D) : Resource D :=
  if !r.evidence.durable then
    { r with evidence := { r.evidence with state := .revalidationRequired, maxAgeMs := 0 } }
  else r

/-- No composition regains authority by a load. -/
def importComposition (c : Composition D) : Composition D :=
  { c with
    -- `reserved` is left as it was saved, although its reservation is not
    lifecycle :=
      if c.lifecycle = .active ∨ c.lifecycle = .committed then .recompositionRequired
      else c.lifecycle
    outcome := .outcomeUnknown }

/-- The loops that restore a counter: move it past every key it does not exceed. -/
def restoreCounter (next : UInt64) (keys : List UInt64) : UInt64 :=
  keys.foldl (fun next k => if next ≤ k then k + 1 else next) next

/-- `Load`, once the file was accepted. The counter of resource sets is restored
from the ids of the nodes, the counter of reservations not at all; the ledger, the
fences, the drains and the paths stay as they are. -/
def importState (s : Engine D) (d : DurableState D) : Engine D :=
  -- of two records with one id the later one stays, as with `operator[]`
  let nodes := UMap.ofValues Node.id d.nodes
  let resources := UMap.ofValues Resource.id (d.resources.map importResource)
  let compositions := UMap.ofValues Composition.id (d.compositions.map importComposition)
  { s with
    config := { s.config with epoch := d.epoch }
    nodes := nodes
    resources := resources
    policies := d.policies
    compositions := compositions
    reservations := ∅
    nextComp := restoreCounter s.nextComp (compositions.keys.map StrongId.value)
    nextRes := restoreCounter s.nextRes (resources.keys.map StrongId.value)
    nextRs := restoreCounter s.nextRs (nodes.keys.map StrongId.value) }

variable [Double D] [DoubleBits D]

/-- `Load` of a file with the given contents; on an error nothing is touched. -/
def load (s : Engine D) (file : List UInt8) : Engine D × Except Str Unit :=
  match loadImpl file with
  | .ok d => (s.importState d, .ok ())
  | .error text => (s, .error text)

end Engine

/-! ### Operations -/

/-- The critical sections that change the engine. -/
inductive Op (D : Type) where
  | addBackend (b : Backend D)
  /-- The environment: from now on the backends answer like this. -/
  | backendsAnswer (bs : List (Backend D))
  | discover
  | registerNode (n : Node D)
  | registerResource (r : Resource D)
  | invalidateNode (rid : ResourceId)
  | withdrawResource (rid : ResourceId)
  | markEvidenceRevalidationRequired (owner : WorkerBootId)
  | advanceEpoch (next : CoordinatorEpoch)
  | compose (req : CompositionRequest D)
  | reserve (plan : CompositionPlan D)
  | commit (resIn : Reservation D)
  | activate (id : CompositionId)
  | onResourceUpdate (r : Resource D)
  | onNodeUpdate (n : Node D)
  | onPolicyUpdate (policy : PolicyId) (gen : PolicyGeneration)
  | onPathUpdate (pe : PathEvidence D)
  | onResourceFailure (rid : ResourceId)
  | beginDrain (id : CompositionId)
  | endDrain (id : CompositionId)
  | release (id : CompositionId)
  /-- The releasing section of `Recompute`. -/
  | recomputeRelease (id : CompositionId)
  | load (file : List UInt8)

namespace Op

variable {D : Type}

/-- The operation is a `Load`. -/
def isLoad : Op D → Bool
  | .load _ => true
  | _ => false

/-- The plan a `Reserve` is called with. -/
def plan? : Op D → Option (CompositionPlan D)
  | .reserve plan => some plan
  | _ => none

/-- The file a `Load` is called with. -/
def file? : Op D → Option (List UInt8)
  | .load file => some file
  | _ => none

/-- The composition whose reservation an operation is to end. -/
def ends? : Op D → Option CompositionId
  | .endDrain id => some id
  | .release id => some id
  | .recomputeRelease id => some id
  | _ => none

end Op

namespace Engine

variable {D : Type} [Double D] [DoubleBits D]

/-- Perform one operation. -/
def step (s : Engine D) : Op D → Engine D
  | .addBackend b => s.addBackend b
  | .backendsAnswer bs => { s with backends := bs }
  | .discover => s.discover.1
  | .registerNode n => (s.registerNode n).1
  | .registerResource r => (s.registerResource r).1
  | .invalidateNode rid => s.invalidateNode rid
  | .withdrawResource rid => s.withdrawResource rid
  | .markEvidenceRevalidationRequired owner => s.markEvidenceRevalidationRequired owner
  | .advanceEpoch next => s.advanceEpoch next
  | .compose req => (s.compose req).1
  | .reserve plan => (s.reserve plan).1
  | .commit resIn => (s.commit resIn).1
  | .activate id => (s.activate id).1
  | .onResourceUpdate r => s.ingestResource r
  | .onNodeUpdate n => s.ingestNode n
  | .onPolicyUpdate policy gen => s.onPolicyUpdate policy gen
  | .onPathUpdate pe => s.onPathUpdate pe
  | .onResourceFailure rid => s.onResourceFailure rid
  | .beginDrain id => (s.beginDrain id).1
  | .endDrain id => (s.endDrain id).1
  | .release id => (s.release id).1
  | .recomputeRelease id => s.recomputeRelease id
  | .load file => (s.load file).1

/-- The composition whose reservation an operation ends, when its guard lets it
through. -/
def ending (s : Engine D) : Op D → Option (Composition D)
  | .endDrain id => (s.compositions.lookup id).filter fun c => c.lifecycle = .draining
  | .release id =>
    (s.compositions.lookup id).filter fun c => ¬ (c.lifecycle = .released ∨ c.lifecycle = .retired)
  -- `Recompute` has no guard on the lifecycle
  | .recomputeRelease id => s.compositions.lookup id
  | _ => none

/-- The state a list of operations leads to. -/
abbrev run (s : Engine D) (ops : List (Op D)) : Engine D := Machine.run step s ops

/-- Every operation of the run meets the condition, read at the state in which it
is performed. -/
abbrev Along (C : Engine D → Op D → Prop) (s : Engine D) (ops : List (Op D)) : Prop :=
  Machine.Along step C s ops

/-! ### Recompute as a run -/

/-- The operations an uninterrupted `Recompute` performs. Each part is entered only
when the one before it succeeded. -/
def recomputeOps (s : Engine D) (id : CompositionId) : List (Op D) :=
  match s.compositions.lookup id with
  | none => []
  | some c =>
    let cr := s.compose c.request
    if !cr.2.ok then [.compose c.request]
    else
      let rr := (cr.1.recomputeRelease id).reserve cr.2.payload
      if !rr.2.ok then [.compose c.request, .recomputeRelease id, .reserve cr.2.payload]
      else
        let cc := rr.1.commit rr.2.payload
        [.compose c.request, .recomputeRelease id, .reserve cr.2.payload, .commit rr.2.payload] ++
          if cc.2.ok then [.activate cc.2.payload.id] else []

/-- An uninterrupted `Recompute` is a run of operations. -/
theorem recompute_eq_run (s : Engine D) (id : CompositionId) :
    (s.recompute id).1 = s.run (s.recomputeOps id) := by
  unfold recompute recomputeOps
  cases s.compositions.lookup id with
  | none => rfl
  | some c =>
    dsimp only
    -- the parts fail in turn: compose, reserve, commit, activate
    split
    · rfl
    · split
      · rfl
      · split
        · next hcc => simp only [Bool.not_eq_true'] at hcc; simp [hcc, step]
        · next hcc =>
          simp only [Bool.not_eq_true', Bool.not_eq_false] at hcc
          simp only [hcc, if_true]
          split <;> rfl

end Engine

/-! ### Restarts -/

/-- What happens to a coordinator: an operation, or a restart, after which a fresh
engine loads a file. -/
inductive Event (D : Type) where
  | call (op : Op D)
  | restart (cfg : EngineConfig) (file : List UInt8)

namespace Engine

variable {D : Type} [Double D] [DoubleBits D]

/-- The engine after an event. -/
def happen (s : Engine D) : Event D → Engine D
  | .call op => s.step op
  -- a file that is refused leaves the fresh engine
  | .restart cfg file => ((fresh cfg).load file).1

/-- The plans an engine has returned, after one more event; a restarted engine has
returned none. -/
def returned (known : List (CompositionPlan D)) (s : Engine D) :
    Event D → List (CompositionPlan D)
  | .call (.compose req) =>
    if (s.compose req).2.ok then known ++ [(s.compose req).2.payload] else known
  | .call _ => known
  | .restart _ _ => []

/-- Every plan passed to `Reserve` is one that `Compose` of the same engine has
returned. -/
def PlansReturned : List (CompositionPlan D) → Engine D → List (Event D) → Prop
  | _, _, [] => True
  | known, s, ev :: evs =>
    (∀ plan, ev = .call (.reserve plan) → plan ∈ known) ∧
      PlansReturned (returned known s ev) (s.happen ev) evs

/-- A restarted engine loads what its predecessor has saved. -/
def RestartsFromSave (s : Engine D) : Event D → Prop
  | .call _ => True
  | .restart _ file => s.save = .ok file

/-- An operation that is no `Reserve` needs no plan. -/
theorem PlansReturned.call {known : List (CompositionPlan D)} {s : Engine D} {op : Op D}
    {evs : List (Event D)} (hop : op.plan? = none)
    (h : PlansReturned (returned known s (.call op)) (s.step op) evs) :
    PlansReturned known s (.call op :: evs) := by
  refine ⟨?_, h⟩
  intro plan heq
  cases heq
  cases hop

/-- A plan that was returned may be reserved. -/
theorem PlansReturned.reserve {known : List (CompositionPlan D)} {s : Engine D}
    {plan : CompositionPlan D} {evs : List (Event D)} (hmem : plan ∈ known)
    (h : PlansReturned known (s.step (.reserve plan)) evs) :
    PlansReturned known s (.call (.reserve plan) :: evs) := by
  refine ⟨?_, h⟩
  intro plan' heq
  cases heq
  exact hmem

/-- A restart forgets the plans returned so far. -/
theorem PlansReturned.restart {known : List (CompositionPlan D)} {s : Engine D}
    {cfg : EngineConfig} {file : List UInt8} {evs : List (Event D)}
    (h : PlansReturned [] ((fresh cfg).load file).1 evs) :
    PlansReturned known s (.restart cfg file :: evs) := by
  refine ⟨?_, h⟩
  intro plan heq
  cases heq

omit [DoubleBits D] in
/-- A plan that `Compose` returns may be reserved from then on. -/
theorem mem_returned_compose {known : List (CompositionPlan D)} {s : Engine D}
    {req : CompositionRequest D} (hok : (s.compose req).2.ok = true) :
    (s.compose req).2.payload ∈ returned known s (.call (.compose req)) := by
  simp [returned, hok]

/-- The bytes a successful `Save` writes. -/
def savedFile (s : Engine D) : List UInt8 :=
  match s.save with
  | .ok file => file
  | .error _ => []

omit [Double D] in
theorem save_eq_savedFile {s : Engine D} (h : s.save.isOk = true) : s.save = .ok s.savedFile := by
  unfold savedFile
  rcases hs : s.save with e | file
  · rw [hs] at h; cases h
  · rfl

end Engine

end DFabric
