import DisaggregationFabric.Codec.Accepted
import DisaggregationFabric.Engine.Effects
import DisaggregationFabric.Safety.Authority
import Mathlib.Logic.Relation

/-!
# The life of a composition

A stored composition only moves forward. `successors` lists where each lifecycle leads, over
all operations of the engine, and `MovesTo` is any number of such moves. No lifecycle comes
back: every move lowers `ahead`, the number of moves that can still follow, which is four
behind a `Reserve`.

What makes this a statement about runs is that the moves are made in many places: the three
calls of a transaction, the ways out, and four sweeps over the whole table that events cause.
`Moved` is what each of them does to one composition, `Moved.step` puts them together, and
`lifecycle_moves_forward` is the result over a run. Only a `Reserve` under the id of the
composition starts a new life, and only a `Load` replaces the table.

Of the seventeen lifecycles, the ones that a composition can ever be in are seven, also when
engines restart from the files of others (`lived_used`).
-/

namespace DFabric

namespace CompositionLifecycle

/-- The lifecycles that a stored composition can move to. -/
def successors : CompositionLifecycle → List CompositionLifecycle
  | .reserved => [.committed, .revalidationRequired, .released]
  | .committed => [.active, .draining, .revalidationRequired, .released]
  | .active => [.draining, .recompositionRequired, .revalidationRequired, .released]
  | .degraded => [.draining, .released]
  | .released => []
  | _ => [.released]

/-- How many moves can follow. -/
def ahead : CompositionLifecycle → ℕ
  | .reserved => 4
  | .committed => 3
  | .active => 2
  | .degraded => 2
  | .released => 0
  | _ => 1

theorem ahead_lt_of_mem_successors {l l' : CompositionLifecycle} (h : l' ∈ l.successors) :
    l'.ahead < l.ahead := by
  revert l'
  cases l <;> decide

/-- Any number of moves. -/
abbrev MovesTo : CompositionLifecycle → CompositionLifecycle → Prop :=
  Relation.ReflTransGen fun l l' => l' ∈ l.successors

/-- Moves are forward. -/
theorem MovesTo.ahead_lt {l l' : CompositionLifecycle} (h : l.MovesTo l') :
    l' = l ∨ l'.ahead < l.ahead := by
  induction h with
  | refl => exact Or.inl rfl
  | tail _ hmove ih =>
    have hlt := ahead_lt_of_mem_successors hmove
    rcases ih with rfl | ih
    · exact Or.inr hlt
    · exact Or.inr (hlt.trans ih)

theorem movesTo_released (l : CompositionLifecycle) : l.MovesTo .released := by
  by_cases h : l = .released
  · rw [h]
  · refine .single ?_
    revert h
    cases l <;> decide

/-- A change of lifecycle that leads where moves do. -/
theorem movesTo_of_mem {f : CompositionLifecycle → CompositionLifecycle}
    (hf : ∀ l, f l = l ∨ f l ∈ l.successors) (l : CompositionLifecycle) : l.MovesTo (f l) := by
  rcases hf l with h | h
  · rw [h]
  · exact .single h

theorem movesTo_onGenerationChange (l : CompositionLifecycle) : l.MovesTo l.onGenerationChange :=
  movesTo_of_mem (by intro l; cases l <;> decide) l

theorem movesTo_onFailure (l : CompositionLifecycle) : l.MovesTo l.onFailure :=
  movesTo_of_mem (by intro l; cases l <;> decide) l

theorem movesTo_onWithdrawal (l : CompositionLifecycle) : l.MovesTo l.onWithdrawal :=
  movesTo_of_mem (by intro l; cases l <;> decide) l

theorem movesTo_onEpoch (l : CompositionLifecycle) : l.MovesTo l.onEpoch :=
  movesTo_of_mem (by intro l; cases l <;> decide) l

end CompositionLifecycle

open CompositionLifecycle

namespace Engine

variable {D : Type} {id : CompositionId} {s s' s'' : Engine D}

/-! ### What happens to one composition -/

/-- The composition under the id has moved, if there is one; else there is none. -/
def Moved (id : CompositionId) (s s' : Engine D) : Prop :=
  Option.Rel MovesTo (s.lifecycleOf id) (s'.lifecycleOf id)

namespace Moved

theorem of_eq (h : s'.lifecycleOf id = s.lifecycleOf id) : Moved id s s' := by
  rw [Moved, h]
  cases s.lifecycleOf id with
  | none => exact .none
  | some l => exact .some .refl

theorem refl (id : CompositionId) (s : Engine D) : Moved id s s := of_eq rfl

theorem of_compositions (h : s'.compositions = s.compositions) : Moved id s s' :=
  of_eq (by rw [lifecycleOf, lifecycleOf, h])

theorem trans (h : Moved id s s') (h' : Moved id s' s'') : Moved id s s'' := by
  unfold Moved at h h' ⊢
  generalize s.lifecycleOf id = o, s'.lifecycleOf id = o', s''.lifecycleOf id = o'' at h h' ⊢
  cases h with
  | none => exact h'
  | some hl =>
    cases h' with
    | some hl' => exact .some (hl.trans hl')

/-- Other tables may be written behind. -/
theorem congr (h : Moved id s s') (hc : s''.compositions = s'.compositions) : Moved id s s'' :=
  h.trans (of_compositions hc)

/-- A loop of operations that move. -/
theorem foldl {A : Type} {f : Engine D → A → Engine D} (h : ∀ s a, Moved id s (f s a))
    (l : List A) (s : Engine D) : Moved id s (l.foldl f s) := by
  induction l generalizing s with
  | nil => exact refl id s
  | cons a l ih => exact (h s a).trans (ih (f s a))

/-- What the composition is now, once it is known what it was. -/
theorem some_of (h : Moved id s s') {l : CompositionLifecycle} (hl : s.lifecycleOf id = some l) :
    ∃ l', s'.lifecycleOf id = some l' ∧ l.MovesTo l' := by
  rw [Moved, hl] at h
  generalize s'.lifecycleOf id = o at h
  cases h with
  | some hlead => exact ⟨_, rfl, hlead⟩

/-- One composition is stored again with another lifecycle. -/
theorem insert {k : CompositionId} {c c' : Composition D}
    (hc : s.compositions.lookup k = some c)
    (hs : s'.compositions = s.compositions.insert k c') (h : c.lifecycle.MovesTo c'.lifecycle) :
    Moved id s s' := by
  rw [Moved, lifecycleOf_insert hs rfl]
  by_cases hid : id = k
  · rw [if_pos hid, hid, lifecycleOf, hc]
    exact .some h
  · rw [if_neg hid]
    exact refl id s

/-- One move of one composition. -/
theorem store {k : CompositionId} {c c' : Composition D} {l : CompositionLifecycle}
    (l' : CompositionLifecycle) (hc : s.compositions.lookup k = some c) (hl : c.lifecycle = l)
    (hs : s'.compositions = s.compositions.insert k c')
    (hl' : c'.lifecycle = l') (h : l' ∈ l.successors) : Moved id s s' := by
  refine insert hc hs (.single ?_)
  rw [hl, hl']
  exact h

/-! ### The sweeps -/

theorem demoteWhere {f : CompositionLifecycle → CompositionLifecycle} (hf : ∀ l, MovesTo l (f l))
    (concerned : Composition D → Bool) (s : Engine D) : Moved id s (s.demoteWhere concerned f) := by
  show Option.Rel MovesTo (s.lifecycleOf id)
    (((UMap.mapVals _ s.compositions).lookup id).map Composition.lifecycle)
  rw [UMap.lookup_mapVals, lifecycleOf]
  rcases s.compositions.lookup id with _ | c
  · exact .none
  · refine .some ?_
    dsimp only
    split
    · exact hf c.lifecycle
    · exact .refl

theorem ingestNode (s : Engine D) (n : Node D) : Moved id s (s.ingestNode n) := by
  unfold Engine.ingestNode
  split
  · exact refl id s
  -- another generation sweeps before it writes the table of nodes
  split
  · split
    · exact (demoteWhere movesTo_onGenerationChange (fun _ => true) s).congr rfl
    · exact of_compositions rfl
  · exact of_compositions rfl

theorem ingestResource (s : Engine D) (r : Resource D) : Moved id s (s.ingestResource r) := by
  unfold Engine.ingestResource
  split
  · exact refl id s
  split
  · split
    · exact (demoteWhere movesTo_onGenerationChange
        (fun c => c.graph.vertices.contains r.id) s).congr rfl
    · exact of_compositions rfl
  · exact of_compositions rfl

theorem updateResource (s : Engine D) (rid : ResourceId) (f : Resource D → Resource D) :
    Moved id s (s.updateResource rid f) := by
  unfold Engine.updateResource
  split
  · exact of_compositions rfl
  · exact refl id s

theorem discoverPath [Double D] (s : Engine D) (a b : NodeId) :
    Moved id s (s.discoverPath a b) := by
  unfold Engine.discoverPath
  split
  · exact refl id s
  split
  · exact of_compositions rfl
  · exact refl id s

theorem publish (s : Engine D) (p : Publication D) : Moved id s (s.publish p) := by
  cases p with
  | node n => exact ingestNode s n
  | resource r => exact ingestResource s _

theorem discover [Double D] (s : Engine D) : Moved id s s.discover.1 := by
  rw [discover_fst]
  exact trans (foldl publish _ s)
    (foldl (fun s a => foldl (fun s b => discoverPath s a b) _ s) _ _)

/-! ### One operation -/

section Operations

variable [Double D]

/-- `Commit` confirms a reserved composition or rolls it back. -/
theorem commit (s : Engine D) (resIn : Reservation D) : Moved id s (s.commit resIn).1 := by
  by_cases hguards : ∃ resv ∈ s.reservations.lookup resIn.id, resv.state = .provisional ∧
    ∃ comp ∈ s.compositions.lookup resv.composition, comp.lifecycle = .reserved
  -- a guard that fails leaves everything as it is
  swap
  · rw [commit_of_guard hguards]
    exact refl id s
  obtain ⟨resv, hr, hp, comp, hc, hl⟩ := hguards
  obtain ⟨held, reason, -, heq⟩ | ⟨held, -, heq⟩ := commit_cases hr hp hc hl
  · rw [heq]
    exact store .revalidationRequired hc hl rfl rfl (by decide)
  · rw [heq]
    exact store .committed hc hl rfl rfl (by decide)

/-- `Activate` activates a committed composition, or demotes it when its revalidation
fails. -/
theorem activate (s : Engine D) (k : CompositionId) : Moved id s (s.activate k).1 := by
  unfold Engine.activate
  rcases hc : s.compositions.lookup k with _ | comp
  · exact refl id s
  dsimp only
  -- not committed, fenced, demoted or activated
  split
  · exact refl id s
  next hl =>
  split
  · exact refl id s
  split
  · exact store .revalidationRequired hc (not_not.mp hl) rfl rfl (by decide)
  · exact store .active hc (not_not.mp hl) rfl rfl (by decide)

omit [Double D] in
theorem beginDrain (s : Engine D) (k : CompositionId) : Moved id s (s.beginDrain k).1 := by
  unfold Engine.beginDrain
  rcases hc : s.compositions.lookup k with _ | c
  · exact refl id s
  dsimp only
  split
  · exact refl id s
  next hl =>
  -- the guard lets three lifecycles through
  have hopen : c.lifecycle = .active ∨ c.lifecycle = .committed ∨ c.lifecycle = .degraded := by
    tauto
  rcases hopen with h | h | h
  · exact store .draining hc h rfl rfl (by decide)
  · exact store .draining hc h rfl rfl (by decide)
  · exact store .draining hc h rfl rfl (by decide)

/-- Ending a composition releases it, from wherever it is. -/
theorem endComposition {k : CompositionId} {c : Composition D}
    (hc : s.compositions.lookup k = some c) : Moved id s (s.endComposition k c) :=
  insert hc (s.compositions_endComposition k c) (movesTo_released c.lifecycle)

theorem endDrain (s : Engine D) (k : CompositionId) : Moved id s (s.endDrain k).1 := by
  unfold Engine.endDrain
  rcases hc : s.compositions.lookup k with _ | c
  · exact refl id s
  dsimp only
  split
  · exact refl id s
  · exact (endComposition hc).congr rfl

theorem release (s : Engine D) (k : CompositionId) : Moved id s (s.release k).1 := by
  unfold Engine.release
  rcases hc : s.compositions.lookup k with _ | c
  · exact refl id s
  dsimp only
  split
  · exact refl id s
  · exact (endComposition hc).congr rfl

theorem recomputeRelease (s : Engine D) (k : CompositionId) :
    Moved id s (s.recomputeRelease k) := by
  unfold Engine.recomputeRelease
  rcases hc : s.compositions.lookup k with _ | c
  · exact refl id s
  · exact (endComposition hc).congr rfl

/-- `Reserve` stores a composition under the id of its plan, or touches none. -/
theorem reserve (s : Engine D) (plan : CompositionPlan D) :
    Moved id s (s.reserve plan).1 ∨
      id = plan.id ∧ (s.reserve plan).1.lifecycleOf id = some .reserved := by
  rcases hok : (s.reserve plan).2.ok with _ | _
  · -- a rejected call touches no composition
    refine Or.inl (of_compositions ?_)
    unfold Engine.reserve at hok ⊢
    split
    · rfl
    next hl =>
    split
    · rfl
    next hv =>
    rw [if_neg hl, if_neg hv] at hok
    rcases hm : s.reserveMembers plan.request plan.graph.vertices s.reservedAmount with
      ⟨held, items, _ | e⟩
    · rw [hm] at hok
      cases hok
    · rfl
  · obtain ⟨held, items, -, heq⟩ := reserve_ok hok
    -- the plan is stored under its own id
    rw [heq]
    have hlife := s.lifecycleOf_storeReservation plan held items id
    by_cases hid : id = plan.id
    · rw [if_pos hid] at hlife
      exact Or.inr ⟨hid, hlife⟩
    · rw [if_neg hid] at hlife
      exact Or.inl (of_eq hlife)

theorem compose (s : Engine D) (req : CompositionRequest D) : Moved id s (s.compose req).1 := by
  obtain ⟨paths, ⟨-, heq⟩ | ⟨-, heq, -⟩⟩ := s.compose_cases req
  · rw [heq]
    exact of_compositions rfl
  · rw [heq]
    exact of_compositions rfl

variable [DoubleBits D]

/-- **One operation** moves the composition, unless it loads a file or reserves under its
id. -/
theorem step (s : Engine D) {op : Op D} (hload : op.isLoad = false) :
    Moved id s (s.step op) ∨
      (∃ plan ∈ op.plan?, plan.id = id) ∧ (s.step op).lifecycleOf id = some .reserved := by
  -- the events that sweep are the ones with a demotion, the rest writes one composition
  cases op with
  | addBackend b => exact Or.inl (of_compositions rfl)
  | backendsAnswer bs => exact Or.inl (of_compositions rfl)
  | discover => exact Or.inl (discover s)
  | registerNode n =>
    refine Or.inl ?_
    show Moved id s (s.registerNode n).1
    unfold registerNode
    split
    · exact refl id s
    · exact ingestNode s n
  | registerResource r =>
    refine Or.inl ?_
    show Moved id s (s.registerResource r).1
    unfold registerResource
    split
    · exact refl id s
    · exact ingestResource s r
  | invalidateNode rid => exact Or.inl (updateResource s rid _)
  | withdrawResource rid =>
    refine Or.inl ?_
    show Moved id s (s.withdrawResource rid)
    unfold withdrawResource
    split
    · exact refl id s
    · exact (updateResource s rid _).trans (demoteWhere movesTo_onWithdrawal _ _)
  | markEvidenceRevalidationRequired owner =>
    exact Or.inl (trans (of_compositions rfl) (demoteWhere movesTo_onWithdrawal _ _))
  | advanceEpoch next =>
    refine Or.inl ?_
    show Moved id s (s.advanceEpoch next)
    unfold advanceEpoch
    split
    · exact refl id s
    · exact trans (of_compositions rfl) (demoteWhere movesTo_onEpoch _ _)
  | compose req => exact Or.inl (compose s req)
  | reserve plan => exact (reserve s plan).imp_right fun h => ⟨⟨plan, rfl, h.1.symm⟩, h.2⟩
  | commit resIn => exact Or.inl (commit s resIn)
  | activate k => exact Or.inl (activate s k)
  | onResourceUpdate r => exact Or.inl (ingestResource s r)
  | onNodeUpdate n => exact Or.inl (ingestNode s n)
  | onPolicyUpdate policy gen =>
    exact Or.inl (trans (of_compositions rfl) (demoteWhere movesTo_onFailure _ _))
  | onPathUpdate pe =>
    exact Or.inl (trans (of_compositions rfl) (demoteWhere movesTo_onWithdrawal _ _))
  | onResourceFailure rid =>
    exact Or.inl ((updateResource s rid _).trans (demoteWhere movesTo_onFailure _ _))
  | beginDrain k => exact Or.inl (beginDrain s k)
  | endDrain k => exact Or.inl (endDrain s k)
  | release k => exact Or.inl (release s k)
  | recomputeRelease k => exact Or.inl (recomputeRelease s k)
  | load file => cases hload

end Operations

end Moved

/-! ### Runs -/

section Runs

variable [Double D] [DoubleBits D]

/-- The operation neither loads a file nor reserves under the id. -/
def KeepsLife (id : CompositionId) (_ : Engine D) (op : Op D) : Prop :=
  op.isLoad = false ∧ ∀ plan ∈ op.plan?, plan.id ≠ id

instance (id : CompositionId) (s : Engine D) (op : Op D) : Decidable (KeepsLife id s op) :=
  inferInstanceAs (Decidable (_ ∧ ∀ plan ∈ op.plan?, _))

/-- The operation changes the lifecycle of the composition under the id. -/
def changesLife (id : CompositionId) (s : Engine D) (op : Op D) : Bool :=
  (s.step op).lifecycleOf id ≠ s.lifecycleOf id

/-- How many moves the composition under the id can still make. -/
def movesAhead (id : CompositionId) (s : Engine D) : ℕ := (s.lifecycleOf id).elim 0 ahead

theorem Moved.of_keepsLife {op : Op D} (h : KeepsLife id s op) : Moved id s (s.step op) := by
  rcases Moved.step s h.1 with hmoved | ⟨⟨plan, hplan, hid⟩, -⟩
  · exact hmoved
  · exact absurd hid (h.2 plan hplan)

/-- A change uses up a move. -/
theorem Moved.movesAhead_le {op : Op D} (h : Moved id s (s.step op)) :
    (s.step op).movesAhead id + (s.changesLife id op).toNat ≤ s.movesAhead id := by
  rw [changesLife, movesAhead, movesAhead]
  unfold Moved at h
  generalize s.lifecycleOf id = o, (s.step op).lifecycleOf id = o' at h ⊢
  cases h with
  | none => simp
  | @some l l' hlead =>
    show l'.ahead + (decide (some l' ≠ some l)).toNat ≤ l.ahead
    -- a change has lowered `ahead` by one at least
    rcases hlead.ahead_lt with rfl | hlt
    · simp
    · have hone := Bool.toNat_le (decide (some l' ≠ some l))
      omega

/-- **A composition only moves forward.** In every run without a `Load` and without a
`Reserve` under its id, whatever else happens, a composition moves along `successors`; and
the lifecycle it is in now and the number of times it has changed are bounded by the
lifecycle it was in. -/
theorem lifecycle_moves_forward (s : Engine D) (id : CompositionId) (ops : List (Op D))
    (h : Along (KeepsLife id) s ops) {l : CompositionLifecycle}
    (hl : s.lifecycleOf id = some l) :
    ∃ l', (s.run ops).lifecycleOf id = some l' ∧ l.MovesTo l' ∧
      l'.ahead + Machine.count Engine.step (changesLife id) s ops ≤ l.ahead := by
  have hmoved : Moved id s (s.run ops) :=
    Machine.invariant_of_along (I := fun t => Moved id s t) (.refl id s)
      (fun t op ht hop => ht.trans (.of_keepsLife hop)) h
  -- each change uses up a move, so they are as many as there are moves
  have hcount := Machine.count_of_along (I := fun _ : Engine D => True) (φ := movesAhead id)
    (w := changesLife id) trivial (fun _ _ _ _ => trivial)
    (fun t op _ hop => (Moved.of_keepsLife hop).movesAhead_le) h
  obtain ⟨l', hl', hlead⟩ := hmoved.some_of hl
  refine ⟨l', hl', hlead, ?_⟩
  rw [movesAhead, movesAhead, hl, show Machine.run Engine.step s ops = s.run ops from rfl, hl']
    at hcount
  exact hcount

/-- What the sample engine goes through once it has reserved. -/
def sampleLife : List (Op ℚ) :=
  [.commit (sampleReservation ⟨1⟩), .activate ⟨1⟩, .discover, .release ⟨1⟩]

/-- From its reservation on, the composition of the sample engine cannot change a fifth time. -/
theorem sample_moves_forward :
    ∃ l', (((fresh sampleConfig).run (sampleOps ++ sampleTransaction.take 2)).run
        sampleLife).lifecycleOf ⟨1⟩ = some l' ∧ MovesTo .reserved l' ∧
      l'.ahead + Machine.count Engine.step (changesLife ⟨1⟩)
        ((fresh sampleConfig).run (sampleOps ++ sampleTransaction.take 2)) sampleLife ≤ 4 :=
  lifecycle_moves_forward _ ⟨1⟩ sampleLife (by decide +kernel) (l := .reserved) (by decide +kernel)

/-! ### Lifecycles in use -/

/-- The lifecycles a composition can be in. -/
def usedLifecycles : List CompositionLifecycle :=
  [.reserved, .committed, .active, .draining, .recompositionRequired, .revalidationRequired,
    .released]

theorem mem_used_of_movesTo {l l' : CompositionLifecycle} (h : l.MovesTo l')
    (hl : l ∈ usedLifecycles) : l' ∈ usedLifecycles := by
  -- the list is closed under moves
  have hmove : ∀ l ∈ usedLifecycles, ∀ l' ∈ l.successors, l' ∈ usedLifecycles := by decide
  induction h with
  | refl => exact hl
  | tail _ hstep ih => exact hmove _ ih _ hstep

/-- The engines there are: fresh ones, run in any way, that load the files of each other. -/
inductive Lived : Engine D → Prop
  | fresh (cfg : EngineConfig) : Lived (fresh cfg)
  | call {s : Engine D} (op : Op D) (h : Lived s) (hload : op.isLoad = false) : Lived (s.step op)
  | load {s s' : Engine D} (file : List UInt8) (h : Lived s) (hsaver : Lived s')
      (hfile : s'.save = .ok file) (hsize : file.length < 2 ^ 32) :
      Lived (s.step (.load file))

theorem Lived.run {s : Engine D} (h : Lived s) (ops : List (Op D))
    (hops : ∀ op ∈ ops, op.isLoad = false) : Lived (s.run ops) := by
  induction ops generalizing s with
  | nil => exact h
  | cons op ops ih =>
    rw [List.forall_mem_cons] at hops
    exact ih (h.call op hops.1) hops.2

omit [Double D] [DoubleBits D] in
/-- A load changes the lifecycles that it imports to one in use, if they were in use. -/
theorem importComposition_used {c : Composition D} (h : c.lifecycle ∈ usedLifecycles) :
    (importComposition c).lifecycle ∈ usedLifecycles := by
  show (if c.lifecycle = .active ∨ c.lifecycle = .committed then
    CompositionLifecycle.recompositionRequired else c.lifecycle) ∈ usedLifecycles
  split
  · decide
  · exact h

/-- **Seven lifecycles are in use.** In every engine there is, however often it and its
predecessors were restarted, a stored composition is in one of them. -/
theorem lived_used (h : Lived s) (id : CompositionId) (l : CompositionLifecycle)
    (hl : s.lifecycleOf id = some l) : l ∈ usedLifecycles := by
  induction h generalizing id l with
  | fresh cfg => cases hl
  | @call s op _ hload ih =>
    rcases Moved.step s hload with hmoved | ⟨-, hreserved⟩
    · rw [Moved, hl] at hmoved
      generalize ho : s.lifecycleOf id = o at hmoved
      cases hmoved with
      | some hlead => exact mem_used_of_movesTo hlead (ih id _ ho)
    · rw [hreserved] at hl
      cases hl
      decide
  | @load s s' file _ _ hfile hsize ih ih' =>
    rcases hd : (loadImpl file : Except Str (DurableState D)) with text | d
    · rw [show s.step (.load file) = s by
        show (s.load file).1 = s
        rw [Engine.load, hd]] at hl
      exact ih id l hl
    · rw [show s.step (.load file) = s.importState d by
        show (s.load file).1 = _
        rw [Engine.load, hd]] at hl
      -- what is stored was in the file, and was stored by the saver
      obtain ⟨c, hc, rfl⟩ := lifecycleOf_eq_some.mp hl
      obtain ⟨c₁, hc₁, rfl⟩ := List.mem_map.mp (UMap.lookup_ofValues hc).1
      obtain ⟨c₀, hc₀, -, -, hlife⟩ := compositions_of_loadImpl hfile hsize hd c₁ hc₁
      obtain ⟨k, hk⟩ := UMap.exists_lookup_of_mem_values hc₀
      refine importComposition_used ?_
      rw [hlife]
      exact ih' k c₀.lifecycle (lifecycleOf_eq_some.mpr ⟨c₀, hk, rfl⟩)

/-- An engine that starts from the file of the sample engine. -/
def successor : Engine ℚ :=
  (fresh sampleConfig).step
    (.load ((fresh sampleConfig).run (sampleOps ++ sampleTransaction)).savedFile)

/-- The composition that was active has to be recomposed there. -/
theorem successor_used : successor.lifecycleOf ⟨1⟩ = some .recompositionRequired ∧
    CompositionLifecycle.recompositionRequired ∈ usedLifecycles := by
  have hsaver : Lived ((fresh sampleConfig : Engine ℚ).run (sampleOps ++ sampleTransaction)) :=
    Lived.run (.fresh sampleConfig) _ (by decide)
  have hlived : Lived successor :=
    (Lived.fresh sampleConfig).load _ hsaver (save_eq_savedFile (by decide +kernel))
      (by decide +kernel)
  have hlife : successor.lifecycleOf ⟨1⟩ = some .recompositionRequired := by decide +kernel
  exact ⟨hlife, lived_used hlived ⟨1⟩ .recompositionRequired hlife⟩

end Runs

end Engine

/-! ### The life of a reservation -/

namespace ReservationState

/-- The states that a stored reservation can move to. -/
def successors : ReservationState → List ReservationState
  | .provisional => [.committed, .rolledBack, .released]
  | .released => []
  | _ => [.released]

/-- Any number of moves. -/
abbrev MovesTo : ReservationState → ReservationState → Prop :=
  Relation.ReflTransGen fun l l' => l' ∈ l.successors

theorem movesTo_released (l : ReservationState) : l.MovesTo .released := by
  by_cases h : l = .released
  · rw [h]
  · refine .single ?_
    revert h
    cases l <;> decide

end ReservationState

/-- The reservation `v'` is `v` at a later time: for the same composition, with the same
members and amounts. -/
structure Reservation.Continues {D : Type} (v v' : Reservation D) : Prop where
  id : v'.id = v.id
  generation : v'.generation = v.generation
  composition : v'.composition = v.composition
  holds : v'.holds = v.holds
  state : v.state.MovesTo v'.state

namespace Reservation.Continues

variable {D : Type} {v v' v'' : Reservation D}

theorem refl (v : Reservation D) : v.Continues v := ⟨rfl, rfl, rfl, rfl, .refl⟩

theorem trans (h : v.Continues v') (h' : v'.Continues v'') : v.Continues v'' where
  id := h'.id.trans h.id
  generation := h'.generation.trans h.generation
  composition := h'.composition.trans h.composition
  holds := h'.holds.trans h.holds
  state := h.state.trans h'.state

/-- The state is all that is written, most of the time. -/
theorem of_state {l : ReservationState} (h : v.state.MovesTo l) :
    v.Continues { v with state := l } := ⟨rfl, rfl, rfl, rfl, h⟩

/-- A commit also writes the states of the items. -/
theorem committed (h : v.state = .provisional) : v.Continues v.committed := by
  refine ⟨rfl, rfl, rfl, ?_, ?_⟩
  · show (v.items.map _).map _ = v.items.map _
    rw [List.map_map]
    rfl
  · show v.state.MovesTo .committed
    rw [h]
    exact .single (by decide)

end Reservation.Continues

namespace Engine

section Reservations

variable {D : Type} [Double D] [DoubleBits D] {rid : ReservationId}

/-- The operation neither loads a file nor makes a reservation with the id. -/
def KeepsReservation (rid : ReservationId) (s : Engine D) (op : Op D) : Prop :=
  op.isLoad = false ∧ (op.plan?.isSome = true → s.nextResv ≠ rid.value)

instance (rid : ReservationId) (s : Engine D) (op : Op D) : Decidable (KeepsReservation rid s op) :=
  inferInstanceAs (Decidable (_ ∧ (_ → _)))

/-- One operation. -/
theorem continues_step {s : Engine D} {op : Op D} (h : KeepsReservation rid s op)
    {v : Reservation D} (hv : s.reservations.lookup rid = some v) :
    ∃ v', (s.step op).reservations.lookup rid = some v' ∧ v.Continues v' := by
  have heff := s.step_effect op
  generalize s.step op = s' at heff ⊢
  -- what is stored under an id that the operation has looked up
  have hstore : ∀ (k : ReservationId) (v₀ v₁ : Reservation D),
      s.reservations.lookup k = some v₀ → v₀.Continues v₁ →
      ∃ v', (s.reservations.insert k v₁).lookup rid = some v' ∧ v.Continues v' := by
    intro k v₀ v₁ hk hcont
    rw [UMap.lookup_insert_eq_ite]
    by_cases hid : rid = k
    · subst hid
      rw [hv] at hk
      cases hk
      rw [if_pos rfl]
      exact ⟨v₁, rfl, hcont⟩
    · rw [if_neg hid]
      exact ⟨v, hv, .refl v⟩
  cases heff with
  | quiet hq => exact ⟨v, by rw [hq.reservations, hv], .refl v⟩
  | composed req paths _ => exact ⟨v, hv, .refl v⟩
  | reserveFailed plan held items e _ => exact ⟨v, hv, .refl v⟩
  | reserved plan held items _ _ _ =>
    have hid : rid ≠ ⟨s.nextResv⟩ := by
      rintro rfl
      exact h.2 rfl rfl
    refine ⟨v, ?_, .refl v⟩
    show (s.reservations.insert _ _).lookup rid = some v
    rw [UMap.lookup_insert_eq_ite, if_neg hid, hv]
  | rolledBack resIn resv comp held reason hr hp _ _ _ =>
    refine hstore resIn.id resv _ hr (.of_state ?_)
    rw [hp]
    exact .single (by decide)
  | committed resIn resv comp held hr hp _ _ _ _ =>
    exact hstore resIn.id resv _ hr (.committed hp)
  | activated id comp _ _ _ _ _ => exact ⟨v, hv, .refl v⟩
  | ended id comp fenced draining _ _ _ _ _ =>
    show ∃ v', (s.endComposition id comp).reservations.lookup rid = some v' ∧ _
    rw [reservations_endComposition]
    rcases hr : s.reservations.lookup comp.reservation with _ | resv
    · exact ⟨v, hv, .refl v⟩
    · exact hstore comp.reservation resv _ hr (.of_state (ReservationState.movesTo_released _))
  | loaded file d _ => cases h.1

/-- **A reservation is never altered.** In every run without a `Load`, as long as its id is
not issued again, a reservation stays stored, for the same composition and with the same
members and amounts, and its state only moves forward: one that was rolled back or released
never holds anything again. -/
theorem reservation_moves_forward (s : Engine D) (rid : ReservationId) (ops : List (Op D))
    (h : Along (KeepsReservation rid) s ops) {v : Reservation D}
    (hv : s.reservations.lookup rid = some v) :
    ∃ v', (s.run ops).reservations.lookup rid = some v' ∧ v.Continues v' := by
  refine Machine.invariant_of_along
    (I := fun t : Engine D => ∃ v', t.reservations.lookup rid = some v' ∧ v.Continues v')
    ⟨v, hv, .refl v⟩ ?_ h
  rintro t op ⟨v', hv', hcont⟩ hop
  obtain ⟨v'', hv'', hcont'⟩ := continues_step hop hv'
  exact ⟨v'', hv'', hcont.trans hcont'⟩

/-- The reservation that the sample engine makes. -/
def sampleHeld : Reservation ℚ :=
  (((fresh sampleConfig).run (sampleOps ++ sampleTransaction.take 2)).reservations.lookup
    ⟨1⟩).get (by decide +kernel)

/-- It stays what it is while the composition is committed, activated and released. -/
theorem sample_reservation_moves_forward :
    ∃ v', (((fresh sampleConfig).run (sampleOps ++ sampleTransaction.take 2)).run
      sampleLife).reservations.lookup ⟨1⟩ = some v' ∧ sampleHeld.Continues v' :=
  reservation_moves_forward _ ⟨1⟩ sampleLife (by decide +kernel) (Option.some_get _).symm

end Reservations

end Engine

end DFabric
