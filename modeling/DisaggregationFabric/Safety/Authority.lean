import DisaggregationFabric.Engine.Effects

/-!
# Authority over time

Two results about whole runs of the engine.

**Authority is only regained by a transaction.** Once a composition is absent or
outside `reserved`, `committed` and `active`, or right after a `Load`, it is found
`committed` again only after a successful `Reserve` and a successful `Commit`, in
that order, and `active` only after a successful `Activate` behind these. The
successes of a run are its *milestones* (`milestones`), and the invariant
`Regained` relates the milestones so far to the lifecycle of the one composition:
a reserved composition owes its provisional reservation to a `reserved` milestone,
a committed one to `reserved` and `committed`, an active one to all three.

**Released compositions stay out of `active`.** `Release` and `Recompute` put the
composition they end into the fence set, which never shrinks and which `Activate`
consults. `EndDrain` does not, so a composition whose drain is ended can be
activated again from its old plan (`endDrain_then_replay`); where every drain that
is ended is of a fenced composition, no released composition becomes active again.
-/

namespace DFabric

namespace Engine

variable {D : Type} [Double D] [DoubleBits D]

/-! ### A small fabric

The runs that witness or refute a statement below are over one host-memory
resource and a request for half of it. -/

/-- A healthy host-memory resource. -/
def sampleMemory (id : ResourceId) (bytes : ℚ) : Resource ℚ :=
  { (default : Resource ℚ) with
    id := id
    generation := ⟨1⟩
    resourceClass := .hostMemory
    nodeId := ⟨1⟩
    capacity := { (default : Capacity ℚ) with hostMemoryBytes := bytes }
    health := .healthy
    readiness := .ready
    reachability := .reachable
    failureDomain := { (default : FailureDomain ℚ) with type := .host }
    evidence := { (default : Evidence ℚ) with
      generation := ⟨1⟩
      source := .worker
      state := .fresh
      maxAgeMs := 1000 } }

/-- A request for an amount of host memory. -/
def sampleRequest (bytes : ℚ) : CompositionRequest ℚ :=
  { (default : CompositionRequest ℚ) with hostMemoryBytes := bytes }

/-- The configuration of the sample engine. -/
def sampleConfig : EngineConfig := ⟨⟨1⟩, ⟨1⟩⟩

/-- The sample engine: one resource of 64 bytes is registered. -/
def sampleOps : List (Op ℚ) := [.registerResource (sampleMemory ⟨1⟩ 64)]

/-- The plan the sample engine returns for 32 bytes. -/
def samplePlan : CompositionPlan ℚ :=
  (((fresh sampleConfig).run sampleOps).compose (sampleRequest 32)).2.payload

/-- What a client passes to `Commit` to name a reservation. -/
def sampleReservation (id : ReservationId) : Reservation ℚ :=
  { (default : Reservation ℚ) with id := id }

/-- Compose, reserve, commit and activate, under the ids a fresh engine gives. -/
def sampleTransaction : List (Op ℚ) := [
  .compose (sampleRequest 32), .reserve samplePlan, .commit (sampleReservation ⟨1⟩),
  .activate ⟨1⟩]

/-! ### Milestones -/

/-- A successful step of a transaction for a composition. -/
inductive Milestone where
  | reserved (id : CompositionId)
  | committed (id : CompositionId)
  | activated (id : CompositionId)
deriving DecidableEq

/-- The milestones an operation reaches. -/
def milestones (s : Engine D) : Op D → List Milestone
  | .reserve plan => if (s.reserve plan).2.ok then [.reserved plan.id] else []
  -- the milestone belongs to the composition of the stored reservation
  | .commit resIn =>
    if (s.commit resIn).2.ok then
      match s.reservations.lookup resIn.id with
      | some resv => [.committed resv.composition]
      | none => []
    else []
  | .activate id => if (s.activate id).2.ok then [.activated id] else []
  | _ => []

/-- The milestones of a run, in order. -/
abbrev history (s : Engine D) (ops : List (Op D)) : List Milestone :=
  Machine.trace step milestones s ops

/-- What the milestones so far say about a composition. -/
structure Regained (id : CompositionId) (es : List Milestone) (s : Engine D) : Prop where
  /-- A reserved composition with an open reservation was reserved. -/
  reserved : s.lifecycleOf id = some .reserved →
    (∃ rid r, s.reservations.lookup rid = some r ∧ r.composition = id ∧ r.state = .provisional) →
    [Milestone.reserved id].Sublist es
  /-- A committed composition was reserved, then committed. -/
  committed : s.lifecycleOf id = some .committed →
    [Milestone.reserved id, .committed id].Sublist es
  /-- An active composition was reserved, then committed, then activated. -/
  active : s.lifecycleOf id = some .active →
    [Milestone.reserved id, .committed id, .activated id].Sublist es

omit [Double D] [DoubleBits D] in
/-- A composition without authority has nothing to account for. -/
theorem Regained.of_not_authoritative {id : CompositionId} {s : Engine D}
    (h : ∀ l, s.lifecycleOf id = some l → ¬ l.IsAuthoritative) : Regained id [] s where
  reserved hl := absurd (Or.inl rfl) (h _ hl)
  committed hl := absurd (Or.inr (Or.inl rfl)) (h _ hl)
  active hl := absurd (Or.inr (Or.inr rfl)) (h _ hl)

omit [Double D] [DoubleBits D] in
/-- A step that neither gives the composition an authoritative lifecycle nor opens
a reservation for it. -/
theorem Regained.weaken {id : CompositionId} {es : List Milestone} {s s' : Engine D}
    (h : Regained id es s)
    (hlife : ∀ l : CompositionLifecycle, l.IsAuthoritative → s'.lifecycleOf id = some l →
      s.lifecycleOf id = some l)
    (hopen : ∀ rid r, s'.reservations.lookup rid = some r → r.composition = id →
      r.state = .provisional → s.reservations.lookup rid = some r)
    (more : List Milestone) : Regained id (es ++ more) s' where
  reserved hl := by
    rintro ⟨rid, r, hr, hcomp, hstate⟩
    have hsub := h.reserved (hlife _ (Or.inl rfl) hl)
      ⟨rid, r, hopen rid r hr hcomp hstate, hcomp, hstate⟩
    exact hsub.trans (List.sublist_append_left es more)
  committed hl :=
    (h.committed (hlife _ (Or.inr (Or.inl rfl)) hl)).trans (List.sublist_append_left es more)
  active hl :=
    (h.active (hlife _ (Or.inr (Or.inr rfl)) hl)).trans (List.sublist_append_left es more)

omit [Double D] [DoubleBits D] in
/-- Right after a load there is nothing to account for: nothing is committed or
active, and no reservation is left. -/
theorem Regained.importState {id : CompositionId} (s : Engine D) (d : DurableState D)
    (es : List Milestone) : Regained id es (s.importState d) where
  reserved _ := by
    rintro ⟨rid, r, hr, -⟩
    exact absurd hr (by simp [Engine.importState])
  committed hl := absurd rfl (lifecycleOf_importState hl).1
  active hl := absurd rfl (lifecycleOf_importState hl).2

section Account

variable {id : CompositionId} {es : List Milestone} {s : Engine D}

omit [Double D] [DoubleBits D] in
/-- The composition that is reserved by this very step has its first milestone; of the
others nothing is said. -/
theorem Regained.storeReservation (h : Regained id es s) (plan : CompositionPlan D)
    (held : OrdMap ResourceId D) (items : List (ReservationItem D)) :
    Regained id (es ++ [.reserved plan.id]) (s.storeReservation plan held items) := by
  have hlife := s.lifecycleOf_storeReservation plan held items
  -- a new life of this composition begins, or of another one
  by_cases hid : id = plan.id
  · subst hid
    have hl : (s.storeReservation plan held items).lifecycleOf plan.id = some .reserved := by
      rw [hlife, if_pos rfl]
    exact
      { reserved := fun _ _ => List.sublist_append_right es _
        committed := fun hc => by rw [hl] at hc; cases hc
        active := fun ha => by rw [hl] at ha; cases ha }
  · refine h.weaken ?_ ?_ _
    · intro l _ hl
      rwa [hlife, if_neg hid] at hl
    · intro rid r hr hcomp _
      rcases UMap.lookup_insert_inv hr with ⟨-, rfl⟩ | ⟨-, hr⟩
      · exact absurd hcomp.symm hid
      · exact hr

omit [DoubleBits D] in
/-- A rollback closes the reservation and leaves the composition to be revalidated. -/
theorem Regained.rollback (h : Regained id es s) (resvId : ReservationId) (resv : Reservation D)
    (comp : Composition D) (held : OrdMap ResourceId D) (es' : List Milestone) :
    Regained id (es ++ es') (s.rollback resvId resv comp held) := by
  have hlife := s.lifecycleOf_rollback resvId resv comp held
  refine h.weaken ?_ ?_ _
  · intro l hauth hl
    rw [hlife] at hl
    split at hl
    · cases hl; exact absurd hauth (by decide)
    · exact hl
  · intro rid r hr' _ hstate
    exact UMap.lookup_of_insert_ne hr' (by rintro rfl; cases hstate)

omit [Double D] [DoubleBits D] in
/-- The open reservation accounts for the reserve of the composition that is committed. -/
theorem Regained.confirm (h : Regained id es s) {resvId : ReservationId} {resv : Reservation D}
    {comp : Composition D} (held : OrdMap ResourceId D)
    (hr : s.reservations.lookup resvId = some resv) (hp : resv.state = .provisional)
    (hc : s.compositions.lookup resv.composition = some comp) (hl : comp.lifecycle = .reserved) :
    Regained id (es ++ [.committed resv.composition]) (s.confirm resvId resv comp held) := by
  have hlife := s.lifecycleOf_confirm resvId resv comp held
  -- the composition was reserved, so its `Reserve` is in the history already
  by_cases hid : id = resv.composition
  · subst hid
    have hlc : (s.confirm resvId resv comp held).lifecycleOf resv.composition =
        some .committed := by rw [hlife, if_pos rfl]
    have hsub := h.reserved (lifecycleOf_eq_some.mpr ⟨comp, hc, hl⟩) ⟨resvId, resv, hr, rfl, hp⟩
    exact
      { reserved := fun hr => by rw [hlc] at hr; cases hr
        committed := fun _ => hsub.append (List.Sublist.refl _)
        active := fun ha => by rw [hlc] at ha; cases ha }
  · refine h.weaken ?_ ?_ _
    · intro l _ hl
      rwa [hlife, if_neg hid] at hl
    · intro rid r hr' _ hstate
      exact UMap.lookup_of_insert_ne hr' (by rintro rfl; cases hstate)

omit [Double D] [DoubleBits D] in
/-- The composition that is activated was committed until this step. -/
theorem Regained.setActive (h : Regained id es s) {id' : CompositionId} {comp : Composition D}
    (hc : s.compositions.lookup id' = some comp) (hl : comp.lifecycle = .committed) :
    Regained id (es ++ [.activated id'])
      (s.setComposition id' { comp with lifecycle := .active, outcome := .success }) := by
  have hlife := s.lifecycleOf_setActive id' comp
  -- the composition was committed, so two events of it are in the history already
  by_cases hid : id = id'
  · subst hid
    have hla : (s.setComposition id { comp with lifecycle := .active, outcome := .success }
        ).lifecycleOf id = some .active := by rw [hlife, if_pos rfl]
    have hsub := h.committed (lifecycleOf_eq_some.mpr ⟨comp, hc, hl⟩)
    exact
      { reserved := fun hr => by rw [hla] at hr; cases hr
        committed := fun hc => by rw [hla] at hc; cases hc
        active := fun _ => hsub.append (List.Sublist.refl _) }
  · refine h.weaken ?_ ?_ _
    · intro l _ hl
      rwa [hlife, if_neg hid] at hl
    · exact fun _ _ hr _ _ => hr

/-- **One step keeps the account.** -/
theorem Regained.step (h : Regained id es s) (op : Op D) :
    Regained id (es ++ s.milestones op) (s.step op) := by
  have heff := s.step_effect op
  generalize s.step op = s' at heff ⊢
  -- only the three milestones say something new; all else takes authority away at most
  cases heff with
  | quiet hq =>
    exact h.weaken (fun l hauth hl => hq.lifecycleOf hauth hl)
      (fun rid r hr _ _ => hq.reservations ▸ hr) _
  | composed req paths _ =>
    refine h.weaken ?_ ?_ _
    · exact fun _ _ hl => hl
    · exact fun _ _ hr _ _ => hr
  | reserveFailed plan held items e _ =>
    refine h.weaken ?_ ?_ _
    · exact fun _ _ hl => hl
    · exact fun _ _ hr _ _ => hr
  | reserved plan held items _ hok hm =>
    have hes : s.milestones (.reserve plan) = [.reserved plan.id] := if_pos hok
    rw [hes]
    exact h.storeReservation plan held items
  | rolledBack resIn resv comp held reason hr hp hc hl hv => exact h.rollback _ resv comp held _
  | committed resIn resv comp held hr hp hc hl hok hv =>
    have hes : s.milestones (.commit resIn) = [.committed resv.composition] := by
      rw [milestones, if_pos hok, hr]
    rw [hes]
    exact h.confirm held hr hp hc hl
  | activated id' comp hc hl hf hok hv =>
    have hes : s.milestones (.activate id') = [.activated id'] := if_pos hok
    rw [hes]
    exact h.setActive hc hl
  | ended id' comp fenced draining _ hc _ _ =>
    have hlife := s.lifecycleOf_endComposition id' comp
    refine h.weaken ?_ ?_ _
    · intro l hauth hl
      change (s.endComposition id' comp).lifecycleOf id = some l at hl
      rw [hlife] at hl
      split at hl
      · cases hl; exact absurd hauth (by decide)
      · exact hl
    · intro rid r hr' _ hstate
      rcases lookup_reservations_endComposition id' hr' with ⟨hr, -⟩ | ⟨-, r₀, -, rfl⟩
      · exact hr
      · cases hstate
  | loaded file d hd => exact .importState s d _

end Account

/-- The account of a whole run. -/
theorem Regained.run {id : CompositionId} {s : Engine D} (h : Regained id [] s)
    (ops : List (Op D)) : Regained id (s.history ops) (s.run ops) := by
  have hrun : Regained id ([] ++ s.history ops) (s.run ops) :=
    Machine.history_run h fun es s op hs => hs.step op
  rwa [List.nil_append] at hrun

/-- **Lost authority is only regained through a fresh transaction.** In every run,
take a point at which the composition is absent or outside `reserved`, `committed`
and `active`, or a point right after a completed `Load`. Wherever it is `committed`
later on, a successful `Reserve` of a plan with its id and then a successful
`Commit` of a reservation for it came in between; wherever it is `active`, a
successful `Activate` came behind these. -/
theorem committed_or_active_after_transaction (cfg : EngineConfig) (ops ops' : List (Op D))
    (id : CompositionId)
    (hlost : (∀ l, ((fresh cfg).run ops).lifecycleOf id = some l → ¬ l.IsAuthoritative) ∨
      ∃ before file, ops = before ++ [.load file] ∧
        (((fresh cfg).run before).load file).2 = .ok ()) :
    let s := (fresh cfg).run ops
    ((s.run ops').lifecycleOf id = some .committed →
      [Milestone.reserved id, .committed id].Sublist (s.history ops')) ∧
    ((s.run ops').lifecycleOf id = some .active →
      [Milestone.reserved id, .committed id, .activated id].Sublist (s.history ops')) := by
  intro s
  -- at the given point the account is empty
  have hstart : Regained id [] s := by
    rcases hlost with hnot | ⟨before, file, rfl, hload⟩
    · exact .of_not_authoritative hnot
    · have hs : s = (((fresh cfg).run before).load file).1 := by
        simp only [s, run, Machine.run_append]
        rfl
      rw [hs]
      unfold load at hload ⊢
      split
      · exact .importState _ _ []
      · next heq => rw [heq] at hload; cases hload
  exact ⟨(hstart.run ops').committed, (hstart.run ops').active⟩

/-- A transaction on the sample engine makes the absent composition active. -/
theorem sampleTransaction_history :
    [Milestone.reserved ⟨1⟩, .committed ⟨1⟩, .activated ⟨1⟩].Sublist
      (((fresh sampleConfig).run sampleOps).history sampleTransaction) := by
  have habsent : ((fresh sampleConfig).run sampleOps).lifecycleOf ⟨1⟩ = none := by
    decide +kernel
  refine (committed_or_active_after_transaction sampleConfig sampleOps sampleTransaction ⟨1⟩
    (Or.inl fun l hl => ?_)).2 (by decide +kernel)
  rw [habsent] at hl
  cases hl

/-! ### The fence -/

/-- The operation ends the composition: `Release` or `EndDrain` accepts it, or
`Recompute` releases it. -/
def Releases (s : Engine D) (op : Op D) (id : CompositionId) : Prop :=
  match op with
  | .release id' => id' = id ∧ (s.release id).2 = true
  | .endDrain id' => id' = id ∧ (s.endDrain id).2 = true
  | .recomputeRelease id' => id' = id ∧ (s.compositions.lookup id).isSome = true
  | _ => False

/-- The composition whose drain an operation ends. -/
def drainEnded? : Op D → Option CompositionId
  | .endDrain id => some id
  | _ => none

/-- The drain of the composition is ended only when the composition is fenced
already. -/
def DrainFenced (id : CompositionId) (s : Engine D) (op : Op D) : Prop :=
  drainEnded? op = some id → s.lifecycleOf id = some .draining → id ∈ s.fenced

instance (id : CompositionId) (s : Engine D) (op : Op D) : Decidable (DrainFenced id s op) :=
  inferInstanceAs (Decidable (_ → _ → _))

/-- The composition is fenced and not active. -/
structure Shut (id : CompositionId) (s : Engine D) : Prop where
  fenced : id ∈ s.fenced
  not_active : s.lifecycleOf id ≠ some .active

/-- No operation opens what is shut. -/
theorem Shut.step {id : CompositionId} {s : Engine D} (hk : s.Keyed) (h : Shut id s) (op : Op D) :
    Shut id (s.step op) := by
  have heff := s.step_effect op
  generalize s.step op = s' at heff ⊢
  cases heff with
  | quiet hq =>
    refine ⟨hq.fenced ▸ h.fenced, fun hl => h.not_active ?_⟩
    exact hq.lifecycleOf (Or.inr (Or.inr rfl)) hl
  | composed req paths _ => exact ⟨h.fenced, h.not_active⟩
  | reserveFailed plan held items e _ => exact ⟨h.fenced, h.not_active⟩
  -- a replayed plan gets as far as `committed`
  | reserved plan held items _ _ _ =>
    refine ⟨h.fenced, ?_⟩
    rw [lifecycleOf_storeReservation]
    split
    · simp
    · exact h.not_active
  | rolledBack resIn resv comp held reason _ _ _ _ _ =>
    refine ⟨h.fenced, ?_⟩
    rw [lifecycleOf_rollback]
    split
    · simp
    · exact h.not_active
  | committed resIn resv comp held _ _ _ _ _ _ =>
    refine ⟨h.fenced, ?_⟩
    rw [lifecycleOf_confirm]
    split
    · simp
    · exact h.not_active
  | activated id' comp hc _ hf _ _ =>
    refine ⟨h.fenced, ?_⟩
    rw [lifecycleOf_setActive]
    split
    · next hid =>
      -- the fence stands in the way
      rw [hk id' comp hc, ← hid] at hf
      exact absurd h.fenced hf
    · exact h.not_active
  | ended id' comp fenced draining _ _ hsub _ =>
    refine ⟨hsub h.fenced, ?_⟩
    change (s.endComposition id' comp).lifecycleOf id ≠ some .active
    rw [lifecycleOf_endComposition]
    split
    · simp
    · exact h.not_active
  | loaded file d _ =>
    exact ⟨h.fenced, fun hl => (lifecycleOf_importState hl).2 rfl⟩

/-- What is shut stays shut. -/
theorem Shut.run {id : CompositionId} {s : Engine D} (hk : s.Keyed) (h : Shut id s)
    (ops : List (Op D)) : Shut id (s.run ops) := by
  have hinv : (s.run ops).Keyed ∧ Shut id (s.run ops) :=
    Machine.invariant_run (I := fun s : Engine D => s.Keyed ∧ Shut id s) ⟨hk, h⟩
      fun s op hs => ⟨hs.1.step op, hs.2.step hs.1 op⟩
  exact hinv.2

/-- A composition that is released while the condition on drains is met is shut. -/
theorem shut_of_releases {id : CompositionId} {s : Engine D} (hk : s.Keyed) {op : Op D}
    (hr : s.Releases op id) (hd : DrainFenced id s op) : Shut id (s.step op) := by
  cases op with
  | release id' =>
    obtain ⟨rfl, hacc⟩ := hr
    rcases hc : s.compositions.lookup id' with _ | c
    · simp [release, hc] at hacc
    by_cases hl : c.lifecycle = .released ∨ c.lifecycle = .retired
    · simp [release, hc, hl] at hacc
    have hs : s.step (.release id') = { s.endComposition id' c with
        draining := s.draining.erase id', fenced := insert id' s.fenced } := by
      simp [Engine.step, release, hc, hl]
    rw [hs]
    refine ⟨Finset.mem_insert_self _ _, ?_⟩
    change (s.endComposition id' c).lifecycleOf id' ≠ some .active
    rw [lifecycleOf_endComposition, if_pos rfl]
    simp
  | endDrain id' =>
    obtain ⟨rfl, hacc⟩ := hr
    rcases hc : s.compositions.lookup id' with _ | c
    · simp [endDrain, hc] at hacc
    by_cases hl : c.lifecycle ≠ .draining
    · simp [endDrain, hc, hl] at hacc
    have hs : s.step (.endDrain id') = { s.endComposition id' c with
        draining := s.draining.erase id' } := by
      simp [Engine.step, endDrain, hc, not_not.mp hl]
    rw [hs]
    -- this way out does not fence; the condition on the drain does
    refine ⟨?_, ?_⟩
    · change id' ∈ (s.endComposition id' c).fenced
      rw [fenced_endComposition]
      exact hd rfl (lifecycleOf_eq_some.mpr ⟨c, hc, not_not.mp hl⟩)
    · change (s.endComposition id' c).lifecycleOf id' ≠ some .active
      rw [lifecycleOf_endComposition, if_pos rfl]
      simp
  | recomputeRelease id' =>
    obtain ⟨rfl, hacc⟩ := hr
    obtain ⟨c, hc⟩ := Option.isSome_iff_exists.mp hacc
    have hs : s.step (.recomputeRelease id') = { s.endComposition id' c with
        fenced := insert c.id s.fenced } := by
      simp [Engine.step, recomputeRelease, hc]
    rw [hs]
    -- fenced is the id in the record, which is the key
    refine ⟨?_, ?_⟩
    · rw [hk id' c hc]
      exact Finset.mem_insert_self _ _
    · change (s.endComposition id' c).lifecycleOf id' ≠ some .active
      rw [lifecycleOf_endComposition, if_pos rfl]
      simp
  | _ => exact hr.elim

/-- **Released compositions stay out of `active`** in every run that ends a drain
only of a fenced composition: once the composition is released, by `Release`,
`EndDrain` or `Recompute`, no later state has it `active`. -/
theorem not_active_after_release (cfg : EngineConfig) (id : CompositionId)
    (ops ops' : List (Op D)) (op : Op D)
    (hdrain : Along (DrainFenced id) (fresh cfg) (ops ++ op :: ops'))
    (hrel : ((fresh cfg).run ops).Releases op id) :
    ((fresh cfg).run (ops ++ op :: ops')).lifecycleOf id ≠ some .active := by
  have hk : ((fresh cfg : Engine D).run ops).Keyed := keyed_run (keyed_fresh cfg) ops
  obtain ⟨-, hstep, -⟩ := Machine.along_append.mp hdrain
  have hshut := shut_of_releases hk hrel hstep
  have hrun : (fresh cfg : Engine D).run (ops ++ op :: ops') =
      (((fresh cfg).run ops).step op).run ops' := by
    simp only [run, Machine.run_append, Machine.run_cons]
  rw [hrun]
  exact (hshut.run (hk.step op) ops').not_active

/-- Released while it was active, the sample composition is not active after its
plan was replayed. -/
theorem sample_not_active_after_release :
    ((fresh sampleConfig).run ((sampleOps ++ sampleTransaction) ++ .release ⟨1⟩ ::
      [.reserve samplePlan, .commit (sampleReservation ⟨2⟩), .activate ⟨1⟩])).lifecycleOf ⟨1⟩ ≠
      some .active :=
  not_active_after_release sampleConfig ⟨1⟩ _ _ _ (by decide +kernel) ⟨rfl, by decide +kernel⟩

/-- **A drained composition can come back.** The sample composition is drained,
and its plan is replayed: it is active again. -/
theorem endDrain_then_replay :
    ¬ ∀ (cfg : EngineConfig) (id : CompositionId) (ops ops' : List (Op ℚ)) (op : Op ℚ),
      ((fresh cfg).run ops).Releases op id →
      ((fresh cfg).run (ops ++ op :: ops')).lifecycleOf id ≠ some .active := by
  intro h
  refine h sampleConfig ⟨1⟩ (sampleOps ++ sampleTransaction ++ [.beginDrain ⟨1⟩])
    [.reserve samplePlan, .commit (sampleReservation ⟨2⟩), .activate ⟨1⟩] (.endDrain ⟨1⟩)
    ⟨rfl, ?_⟩ ?_
  · decide +kernel
  · decide +kernel

end Engine

end DFabric
