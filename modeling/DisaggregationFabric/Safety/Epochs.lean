import DisaggregationFabric.Safety.Binding

/-!
# Epochs

`Activate` compares the epoch a composition is bound to with the epoch of the moment, so
that authority of an earlier epoch stays out rests on the epoch never going back. Two
operations assign it. `AdvanceEpoch` takes any valid epoch, and `Load` takes the one of
the file; neither compares it with the epoch the engine is in. A committed composition
survives both directions of such a change, and becomes active when the engine is back in
its epoch (`old_epoch_activated`).

Where every epoch that is assigned is at least the present one, an epoch that was passed
is over: no composition bound to it is activated any more
(`activated_after_passed_epoch`).
-/

namespace DFabric

variable {D : Type}

/-- The epoch that an operation moves the engine to. -/
def Op.epoch? [Double D] [DoubleBits D] : Op D → Option CoordinatorEpoch
  | .advanceEpoch next => if next.isValid then some next else none
  | .load file => (loadImpl file : Except Str (DurableState D)).toOption.map DurableState.epoch
  | _ => none

namespace Engine

/-! ### What changes the epoch -/

theorem epoch_ingestNode (s : Engine D) (n : Node D) : (s.ingestNode n).epoch = s.epoch := by
  obtain ⟨nodes, compositions, heq⟩ := s.ingestNode_eq n
  rw [heq]
  rfl

theorem epoch_ingestResource (s : Engine D) (r : Resource D) :
    (s.ingestResource r).epoch = s.epoch := by
  obtain ⟨resources, compositions, heq⟩ := s.ingestResource_eq r
  rw [heq]
  rfl

theorem epoch_updateResource (s : Engine D) (rid : ResourceId) (f : Resource D → Resource D) :
    (s.updateResource rid f).epoch = s.epoch := by
  obtain ⟨resources, heq⟩ := s.updateResource_eq rid f
  rw [heq]
  rfl

variable [Double D] [DoubleBits D]

omit [DoubleBits D] in
theorem epoch_discover (s : Engine D) : s.discover.1.epoch = s.epoch := by
  obtain ⟨paths, heq⟩ := s.discover_eq
  rw [heq]
  -- the publications, one by one
  refine Machine.invariant_run (I := fun t : Engine D => t.epoch = s.epoch) rfl ?_
  intro t p ht
  cases p with
  | node n => exact (t.epoch_ingestNode n).trans ht
  | resource r => exact (t.epoch_ingestResource _).trans ht

/-- **Who assigns the epoch.** -/
theorem epoch_step (s : Engine D) (op : Op D) : (s.step op).epoch = op.epoch?.getD s.epoch := by
  have htransaction : op.isTransaction = true → (s.step op).epoch = s.epoch := fun h =>
    (s.transaction_tables h).1.epoch
  cases op with
  | discover => exact s.epoch_discover
  | registerNode n =>
    change (s.registerNode n).1.epoch = s.epoch
    unfold registerNode
    split
    · rfl
    · exact s.epoch_ingestNode n
  | registerResource r =>
    change (s.registerResource r).1.epoch = s.epoch
    unfold registerResource
    split
    · rfl
    · exact s.epoch_ingestResource r
  | onNodeUpdate n => exact s.epoch_ingestNode n
  | onResourceUpdate r => exact s.epoch_ingestResource r
  | invalidateNode rid => exact s.epoch_updateResource rid _
  | withdrawResource rid =>
    -- a resource that is not registered is not withdrawn
    change (s.withdrawResource rid).epoch = s.epoch
    unfold withdrawResource
    split
    · rfl
    · exact s.epoch_updateResource rid _
  | onResourceFailure rid => exact s.epoch_updateResource rid _
  | advanceEpoch next =>
    change (s.advanceEpoch next).epoch = (if next.isValid then some next else none).getD s.epoch
    unfold advanceEpoch
    cases next.isValid <;> rfl
  | load file =>
    change (s.load file).1.epoch =
      ((loadImpl file : Except Str (DurableState D)).toOption.map DurableState.epoch).getD s.epoch
    unfold load
    cases (loadImpl file : Except Str (DurableState D)) <;> rfl
  | addBackend b => rfl
  | backendsAnswer bs => rfl
  | markEvidenceRevalidationRequired owner => rfl
  | onPolicyUpdate policy gen => rfl
  | onPathUpdate pe => rfl
  | _ => exact htransaction rfl

/-! ### Forward runs -/

/-- The operation moves the engine to no smaller epoch. -/
def EpochForward (s : Engine D) (op : Op D) : Prop :=
  ∀ next ∈ op.epoch?, s.epoch.value ≤ next.value

instance (s : Engine D) (op : Op D) : Decidable (s.EpochForward op) :=
  inferInstanceAs (Decidable (∀ next ∈ op.epoch?, _))

theorem EpochForward.le_epoch {s : Engine D} {op : Op D} (h : s.EpochForward op) :
    s.epoch.value ≤ (s.step op).epoch.value := by
  rw [epoch_step]
  rcases hnext : op.epoch? with _ | next
  · exact le_rfl
  · exact h next hnext

/-- **An epoch that was passed is over.** Once the engine has been in an epoch greater than
`e`, in every further run in which no smaller epoch is assigned, a composition that is
active after an `Activate` is bound to an epoch greater than `e`. -/
theorem activated_after_passed_epoch (cfg : EngineConfig) (ops ops' : List (Op D)) (e : UInt64)
    (hpassed : e < ((fresh cfg).run ops).epoch.value)
    (hforward : Along EpochForward ((fresh cfg).run ops) ops') (id : CompositionId)
    (c : Composition D)
    (hc : (((fresh cfg).run (ops ++ ops')).step (.activate id)).compositions.lookup id = some c)
    (hactive : c.lifecycle = .active) : e < c.authority.coordinatorEpoch.value := by
  -- the epoch only grows from there on
  have hgrown : e < ((fresh cfg).run (ops ++ ops')).epoch.value := by
    unfold run
    rw [Machine.run_append]
    refine Machine.invariant_of_along (I := fun s : Engine D => e < s.epoch.value) hpassed ?_
      hforward
    intro s op hs hop
    exact hs.trans_le hop.le_epoch
  -- what is active is bound to the epoch of the moment
  have hbound := (activeBound_run cfg (ops ++ ops' ++ [.activate id])) id c
  rw [run, Machine.run_append] at hbound
  have hepoch := (hbound hc hactive).epoch
  change _ = (((fresh cfg).run (ops ++ ops')).step (.activate id)).epoch at hepoch
  rw [epoch_step] at hepoch
  rw [hepoch]
  exact hgrown

/-- The sample engine moves to epoch 2. -/
def epochTwoOps : List (Op ℚ) := sampleOps ++ [.advanceEpoch ⟨2⟩] ++ sampleOps

/-- The plan it returns there. -/
def epochTwoPlan : CompositionPlan ℚ :=
  (((fresh sampleConfig).run epochTwoOps).compose (sampleRequest 32)).2.payload

/-- Once the sample engine has passed epoch 1, what it activates is bound to a later one. -/
theorem sample_activated_after_passed_epoch :
    ∃ c, (((fresh sampleConfig).run (epochTwoOps ++ [.compose (sampleRequest 32),
        .reserve epochTwoPlan, .commit (sampleReservation ⟨1⟩)])).step
          (.activate ⟨1⟩)).compositions.lookup ⟨1⟩ = some c ∧
      c.lifecycle = .active ∧ 1 < c.authority.coordinatorEpoch.value := by
  have hactive : (((fresh sampleConfig).run (epochTwoOps ++ [.compose (sampleRequest 32),
      .reserve epochTwoPlan, .commit (sampleReservation ⟨1⟩)])).step (.activate ⟨1⟩)).lifecycleOf
        ⟨1⟩ = some .active := by
    decide +kernel
  obtain ⟨c, hc, hl⟩ := lifecycleOf_eq_some.mp hactive
  exact ⟨c, hc, hl, activated_after_passed_epoch sampleConfig epochTwoOps _ 1 (by decide +kernel)
    (by decide +kernel) ⟨1⟩ c hc hl⟩

/-- The sample composition is committed in epoch 1, and the engine moves to epoch 2. -/
def committedThenPassedOps : List (Op ℚ) :=
  sampleOps ++ [.compose (sampleRequest 32), .reserve samplePlan, .commit (sampleReservation ⟨1⟩),
    .advanceEpoch ⟨2⟩]

/-- **Authority of an old epoch can come back.** From epoch 2 the engine moves to epoch 1
again, the resource is published again, and the composition of epoch 1 is activated. -/
theorem old_epoch_activated :
    ¬ ∀ (cfg : EngineConfig) (ops ops' : List (Op ℚ)) (e : UInt64),
      e < ((fresh cfg).run ops).epoch.value → ∀ id c,
      (((fresh cfg).run (ops ++ ops')).step (.activate id)).compositions.lookup id = some c →
      c.lifecycle = .active → e < c.authority.coordinatorEpoch.value := by
  intro h
  have hback := h sampleConfig committedThenPassedOps (.advanceEpoch ⟨1⟩ :: sampleOps) 1
    (by decide +kernel) ⟨1⟩
  generalize hs : ((fresh sampleConfig).run
    (committedThenPassedOps ++ .advanceEpoch ⟨1⟩ :: sampleOps)).step (.activate ⟨1⟩) = s at hback
  -- the composition is active, with the tuple of the epoch that was passed
  have hactive : s.lifecycleOf ⟨1⟩ = some .active := by rw [← hs]; decide +kernel
  have hold : ∀ c ∈ s.compositions.values, ¬ 1 < c.authority.coordinatorEpoch.value := by
    rw [← hs]
    decide +kernel
  obtain ⟨c, hc, hl⟩ := lifecycleOf_eq_some.mp hactive
  exact hold c (UMap.mem_values_of_lookup hc) (hback c hc hl)

end Engine

end DFabric
