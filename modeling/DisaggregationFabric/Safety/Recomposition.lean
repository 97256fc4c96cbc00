import DisaggregationFabric.Safety.Holds
import DisaggregationFabric.Safety.Backing
import DisaggregationFabric.Engine.Soundness

/-!
# Two recompositions of one composition

`Recompute` takes the engine's lock six times. `Phase` is where a call stands between two
critical sections, with what it carries along, and a `Race` is an engine with two calls on
the same composition; a schedule says which of them moves next. Alone, a call does what
`recompute` does (`run_alone`).

The releasing section ends the reservation of the old composition in whatever state it is.
When the other call has ended it before, and its replacement has taken the resources again,
the holds that are given back are those of the replacement, and the second replacement is
composed of the same resources (`recompute_twice_shares`). While every releasing section
finds the reservation live, or nothing of it held, the account stays right, and with it
every resource has one active composition at most (`active_exclusive_of_accounted`).
-/

namespace DFabric

/-- Where a call of `Recompute` stands. -/
inductive Phase (D : Type) where
  | request
  | compose (req : CompositionRequest D)
  | release (plan : CompositionPlan D)
  | reserve (plan : CompositionPlan D)
  | commit (resv : Reservation D)
  | activate (id : CompositionId)
  | done (ok : Bool)

namespace Phase

variable {D : Type} [Double D] [DoubleBits D]

/-- The operation the next critical section performs, if it changes the engine. -/
def op? (id : CompositionId) : Phase D → Option (Op D)
  | .request => none
  | .compose req => some (.compose req)
  | .release _ => some (.recomputeRelease id)
  | .reserve plan => some (.reserve plan)
  | .commit resv => some (.commit resv)
  | .activate id => some (.activate id)
  | .done _ => none

/-- Where the call stands after its next critical section in the state `s`. -/
def next (s : Engine D) (id : CompositionId) : Phase D → Phase D
  | .request =>
    match s.compositions.lookup id with
    | none => .done false
    | some c => .compose c.request
  | .compose req => if (s.compose req).2.ok then .release (s.compose req).2.payload else .done false
  | .release plan => .reserve plan
  | .reserve plan =>
    if (s.reserve plan).2.ok then .commit (s.reserve plan).2.payload else .done false
  | .commit resv =>
    -- `Activate` is called with the id in the record that `Commit` returns
    if (s.commit resv).2.ok then .activate (s.commit resv).2.payload.id else .done false
  | .activate id => .done (s.activate id).2.ok
  | .done ok => .done ok

end Phase

/-- An engine with two calls of `Recompute`. -/
structure Race (D : Type) where
  engine : Engine D
  first : Phase D
  second : Phase D

namespace Race

variable {D : Type} [Double D] [DoubleBits D]

/-- Two calls before their first step. -/
def start (s : Engine D) : Race D := ⟨s, .request, .request⟩

/-- The phase of the call that moves. -/
def phase (σ : Race D) (isFirst : Bool) : Phase D := if isFirst then σ.first else σ.second

/-- The engine after a critical section. -/
def perform (s : Engine D) (id : CompositionId) (p : Phase D) : Engine D :=
  match p.op? id with
  | none => s
  | some op => s.step op

/-- One of the calls on the composition runs its next critical section. -/
def step (id : CompositionId) (σ : Race D) : Bool → Race D
  | true => ⟨perform σ.engine id σ.first, σ.first.next σ.engine id, σ.second⟩
  | false => ⟨perform σ.engine id σ.second, σ.first, σ.second.next σ.engine id⟩

/-- A call that has returned does nothing more. -/
theorem run_done (s : Engine D) (id : CompositionId) (ok : Bool) (p : Phase D) (n : ℕ) :
    Machine.run (step id) ⟨s, .done ok, p⟩ (List.replicate n true) = ⟨s, .done ok, p⟩ := by
  induction n with
  | zero => rfl
  | succ n ih => exact ih

/-- The last sections of a call: commit and activate. -/
theorem run_commit (s : Engine D) (id : CompositionId) (resv : Reservation D) (p : Phase D) :
    Machine.run (step id) ⟨s, .commit resv, p⟩ (List.replicate 2 true) =
      if (s.commit resv).2.ok then
        ⟨((s.commit resv).1.activate (s.commit resv).2.payload.id).1,
          .done ((s.commit resv).1.activate (s.commit resv).2.payload.id).2.ok, p⟩
      else ⟨(s.commit resv).1, .done false, p⟩ := by
  have hstep : Machine.run (step id) ⟨s, .commit resv, p⟩ (List.replicate 2 true) =
      Machine.run (step id) ⟨(s.commit resv).1, Phase.next s id (.commit resv), p⟩ [true] := rfl
  rw [hstep, Phase.next]
  split
  · rfl
  · exact run_done _ id false p 1

/-- The sections after the release: reserve, then commit and activate. -/
theorem run_reserve (s : Engine D) (id : CompositionId) (plan : CompositionPlan D) (p : Phase D) :
    Machine.run (step id) ⟨s, .reserve plan, p⟩ (List.replicate 3 true) =
      if (s.reserve plan).2.ok then
        Machine.run (step id) ⟨(s.reserve plan).1, .commit (s.reserve plan).2.payload, p⟩
          (List.replicate 2 true)
      else ⟨(s.reserve plan).1, .done false, p⟩ := by
  have hstep : Machine.run (step id) ⟨s, .reserve plan, p⟩ (List.replicate 3 true) =
      Machine.run (step id) ⟨(s.reserve plan).1, Phase.next s id (.reserve plan), p⟩
        (List.replicate 2 true) := rfl
  rw [hstep, Phase.next]
  split
  · rfl
  · exact run_done _ id false p 2

/-- **A call on its own is `recompute`.** -/
theorem run_alone (s : Engine D) (id : CompositionId) (p : Phase D) :
    Machine.run (step id) ⟨s, .request, p⟩ (List.replicate 6 true) =
      ⟨(s.recompute id).1, .done (s.recompute id).2, p⟩ := by
  have hrequest : Machine.run (step id) ⟨s, .request, p⟩ (List.replicate 6 true) =
      Machine.run (step id) ⟨s, Phase.next s id .request, p⟩ (List.replicate 5 true) := rfl
  rw [hrequest, Phase.next]
  unfold Engine.recompute
  rcases s.compositions.lookup id with _ | c
  · exact run_done s id false p 5
  dsimp only
  have hcompose : Machine.run (step id) ⟨s, .compose c.request, p⟩ (List.replicate 5 true) =
      Machine.run (step id) ⟨(s.compose c.request).1, Phase.next s id (.compose c.request), p⟩
        (List.replicate 4 true) := rfl
  rw [hcompose, Phase.next]
  -- each section is entered when the one before it succeeded
  by_cases hcr : (s.compose c.request).2.ok = true
  swap
  · rw [if_neg hcr, run_done]
    simp [hcr]
  have hrelease : Machine.run (step id)
      ⟨(s.compose c.request).1, .release (s.compose c.request).2.payload, p⟩
        (List.replicate 4 true) =
      Machine.run (step id) ⟨(s.compose c.request).1.recomputeRelease id,
        .reserve (s.compose c.request).2.payload, p⟩ (List.replicate 3 true) := rfl
  rw [if_pos hcr, hrelease, run_reserve]
  simp only [hcr, Bool.not_true, Bool.false_eq_true, if_false]
  split
  · next hrr =>
    rw [run_commit]
    simp only [hrr, Bool.not_true, Bool.false_eq_true, if_false]
    split
    · next hcc =>
      simp only [hcc, Bool.not_true, Bool.false_eq_true, if_false]
      split
      · next har => simp_all
      · next har => simp_all
    · next hcc => simp [hcc]
  · next hrr => simp [hrr]

end Race

namespace Engine

/-! ### The account -/

/-- No resource is a member of two active compositions. -/
def ActiveExclusive {D : Type} (s : Engine D) : Prop :=
  ∀ id id' c c' v, s.compositions.lookup id = some c → s.compositions.lookup id' = some c' →
    c.lifecycle = .active → c'.lifecycle = .active → v ∈ c.graph.vertices →
    v ∈ c'.graph.vertices → id = id'

/-- Whatever is held, or would be held, is a positive amount. -/
def PositiveHolds (s : Engine ℚ) : Prop :=
  (∀ v r, s.resources.lookup v = some r → ∀ req, 0 < holdAmountForResource r req) ∧
    ∀ v ∈ s.reservations.values, v.Amounts (0 < ·)

/-- What is held of host memory is its capacity. -/
theorem holdAmountForResource_hostMemory {r : Resource ℚ} (h : r.resourceClass = .hostMemory)
    (req : CompositionRequest ℚ) : holdAmountForResource r req = r.capacity.hostMemoryBytes := by
  unfold holdAmountForResource
  rw [h]
  exact (capacityForDimension_amounts r).2.1

/-- The account is right: the ledger records what the live reservations hold, no resource is
held by two of them, and authority refers to the reservation that backs it. -/
structure Account (s : Engine ℚ) : Prop where
  conserved : Conserved (0 < ·) s
  exclusive : s.Exclusive
  backing : s.Backing

/-- The operation keeps the account. -/
def KeepsAccount (s : Engine ℚ) (op : Op ℚ) : Prop :=
  Accounted (0 < ·) s op ∧ s.ReservesFresh op

instance (s : Engine ℚ) (op : Op ℚ) : Decidable (s.KeepsAccount op) :=
  inferInstanceAs (Decidable (_ ∧ _))

theorem Account.step {s : Engine ℚ} (h : s.Account) {op : Op ℚ} (hop : s.KeepsAccount op) :
    (s.step op).Account where
  conserved := h.conserved.step (fun _ hx => hx.le) hop.1
  exclusive := h.exclusive.step h.conserved hop.1
  backing := h.backing.step hop.2

/-- A run of such operations gets the account right. -/
theorem account_run (cfg : EngineConfig) {ops : List (Op ℚ)}
    (h : Along KeepsAccount (fresh cfg) ops) : ((fresh cfg).run ops).Account := by
  refine Machine.invariant_of_along ⟨conserved_fresh cfg, ?_, backing_fresh cfg⟩
    (fun s op hs hop => hs.step hop) h
  intro rid rid' v v' i i' hv
  simp [fresh] at hv

/-- **With a right account every resource has one active composition at most**: two of them
would refer to reservations that both hold the resource. -/
theorem Account.activeExclusive {s : Engine ℚ} (h : s.Account) : s.ActiveExclusive := by
  intro id id' c c' v hc hc' hl hl' hv hv'
  obtain ⟨r, hr, hrc, hstate, hitems⟩ := h.backing.backed id c hc (Or.inr hl)
  obtain ⟨r', hr', hrc', hstate', hitems'⟩ := h.backing.backed id' c' hc' (Or.inr hl')
  rw [← hitems] at hv
  rw [← hitems'] at hv'
  obtain ⟨i, hi, hiv⟩ := List.mem_map.mp hv
  obtain ⟨i', hi', hiv'⟩ := List.mem_map.mp hv'
  have hsame : c.reservation = c'.reservation :=
    h.exclusive _ _ r r' i i' hr hr' (Or.inr hstate) (Or.inr hstate') hi hi' (hiv.trans hiv'.symm)
  -- one reservation is for one composition
  rw [hsame, hr', Option.some.injEq] at hr
  rw [← h.backing.keyed id c hc, ← h.backing.keyed id' c' hc', ← hrc, ← hrc', hr]

end Engine

namespace Race

open Engine

/-! ### The race -/

/-- The next critical section of a call keeps the account. -/
def KeepsAccount (id : CompositionId) (σ : Race ℚ) (isFirst : Bool) : Prop :=
  ∀ op ∈ (σ.phase isFirst).op? id, σ.engine.KeepsAccount op

instance (id : CompositionId) (σ : Race ℚ) (isFirst : Bool) :
    Decidable (KeepsAccount id σ isFirst) :=
  inferInstanceAs (Decidable (∀ op ∈ (σ.phase isFirst).op? id, σ.engine.KeepsAccount op))

/-- The engine after a move, whichever call moves. -/
theorem engine_step (id : CompositionId) (σ : Race ℚ) (isFirst : Bool) :
    (step id σ isFirst).engine = perform σ.engine id (σ.phase isFirst) := by
  cases isFirst <;> rfl

/-- **Exclusivity of recomposition.** From a state in which the account is right, in every
interleaving of two calls on one composition, as long as each critical section keeps the
account, no resource is a member of two active compositions. -/
theorem active_exclusive_of_accounted (s : Engine ℚ) (hs : s.Account) (id : CompositionId)
    (schedule : List Bool) (h : Machine.Along (step id) (KeepsAccount id) (start s) schedule) :
    (Machine.run (step id) (start s) schedule).engine.ActiveExclusive := by
  refine Account.activeExclusive ?_
  refine Machine.invariant_of_along (I := fun σ : Race ℚ => σ.engine.Account) hs ?_ h
  intro σ isFirst hσ hkeeps
  rw [engine_step]
  unfold perform
  split
  · exact hσ
  · next op hop => exact hσ.step (hkeeps op hop)

/-- The sample engine, its composition active. -/
def sampleActive : Engine ℚ := (fresh sampleConfig).run (sampleOps ++ sampleTransaction)

/-- Both calls release before the first of them reserves. -/
def releasedFirst : List Bool :=
  [true, false, true, false, true, false, true, false, true, true]

/-- The first call replaces the sample composition, and the second one finds its resource
taken. -/
theorem sample_active_exclusive :
    let σ := Machine.run (step ⟨1⟩) (start sampleActive) releasedFirst
    σ.engine.lifecycleOf ⟨2⟩ = some .active ∧ σ.engine.ActiveExclusive := by
  intro σ
  refine ⟨by decide +kernel, ?_⟩
  exact active_exclusive_of_accounted sampleActive (account_run sampleConfig (by decide +kernel))
    ⟨1⟩ releasedFirst (by decide +kernel)

/-- **A second recomposition shares the resources of the first.** One call after the other:
the first one replaces the sample composition on the same resource; the second one ends the
same old reservation again, which frees the resource, and takes it too. -/
theorem recompute_twice_shares :
    ¬ ∀ (cfg : EngineConfig) (ops : List (Op ℚ)) (id : CompositionId) (schedule : List Bool),
      ((fresh cfg).run ops).ActiveExclusive → ((fresh cfg).run ops).PositiveHolds →
      (Machine.run (step id) (start ((fresh cfg).run ops)) schedule).engine.ActiveExclusive := by
  intro h
  have haccount : sampleActive.Account := account_run sampleConfig (by decide +kernel)
  have hpositive : sampleActive.PositiveHolds := by
    refine ⟨?_, haccount.conserved.amounts⟩
    intro v r hr req
    have hall : ∀ r ∈ sampleActive.resources.values,
        r.resourceClass = .hostMemory ∧ 0 < r.capacity.hostMemoryBytes := by decide +kernel
    obtain ⟨hclass, hpos⟩ := hall r (UMap.mem_values_of_lookup hr)
    rw [holdAmountForResource_hostMemory hclass]
    exact hpos
  have hexcl := h sampleConfig (sampleOps ++ sampleTransaction) ⟨1⟩
    (List.replicate 6 true ++ List.replicate 6 false) haccount.activeExclusive hpositive
  change (Machine.run (step ⟨1⟩) (start sampleActive) _).engine.ActiveExclusive at hexcl
  generalize hs : (Machine.run (step ⟨1⟩) (start sampleActive)
    (List.replicate 6 true ++ List.replicate 6 false)).engine = s at hexcl
  -- both replacements are active on resource 1
  obtain ⟨c, hc, hl⟩ : ∃ c, s.compositions.lookup ⟨2⟩ = some c ∧ c.lifecycle = .active :=
    lifecycleOf_eq_some.mp (by rw [← hs]; decide +kernel)
  obtain ⟨c', hc', hl'⟩ : ∃ c, s.compositions.lookup ⟨3⟩ = some c ∧ c.lifecycle = .active :=
    lifecycleOf_eq_some.mp (by rw [← hs]; decide +kernel)
  have hmember : ∀ c ∈ s.compositions.values, (⟨1⟩ : ResourceId) ∈ c.graph.vertices := by
    rw [← hs]
    decide +kernel
  have hsame := hexcl ⟨2⟩ ⟨3⟩ c c' ⟨1⟩ hc hc' hl hl'
    (hmember c (UMap.mem_values_of_lookup hc)) (hmember c' (UMap.mem_values_of_lookup hc'))
  cases hsame

end Race

end DFabric
