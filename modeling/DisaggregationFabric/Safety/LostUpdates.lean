import DisaggregationFabric.Safety.Durability

/-!
# Two threads that save

`Save` collects its snapshot under the engine's lock and replaces the file after the lock is
released, so nothing orders the replacements of two threads as their snapshots are ordered.
`Savers` is an engine, a file and two connection threads, each of which reserves a plan,
takes its snapshot and replaces the file; a schedule says which of them moves next.

Replacing the file is one step here. Even so a composition that was reserved and saved with
success can be missing from the file: the other thread has taken its snapshot before, and
replaces the file after (`update_lost`). As long as a thread that replaces a file of the other
one has taken its snapshot after the other's `Reserve`, the file has both
(`both_compositions_saved`).
-/

namespace DFabric

/-- Where a thread that reserves and saves stands. -/
inductive SaverPhase (D : Type) where
  | reserve
  /-- The plan was refused, so nothing is saved. -/
  | refused
  | snapshot
  /-- The snapshot to write, and whether the other thread had reserved when it was taken. -/
  | write (state : DurableState D) (sawOther : Bool)
  | returned (ok : Bool)

/-- The thread has reserved its plan. -/
def SaverPhase.hasReserved {D : Type} : SaverPhase D → Bool
  | .reserve => false
  | .refused => false
  | _ => true

/-- The save has returned `true`. -/
def SaverPhase.isSaved {D : Type} : SaverPhase D → Bool
  | .returned ok => ok
  | _ => false

theorem SaverPhase.isSaved_iff {D : Type} {p : SaverPhase D} :
    p.isSaved = true ↔ p = .returned true := by
  cases p <;> simp [isSaved]

/-- An engine, its file, and two threads. -/
structure Savers (D : Type) where
  engine : Engine D
  file : Option (List UInt8)
  phase : Bool → SaverPhase D

namespace Savers

variable {D : Type} [Double D] [DoubleBits D]

/-- Both threads before their `Reserve`. -/
def start (s : Engine D) (file : Option (List UInt8)) : Savers D := ⟨s, file, fun _ => .reserve⟩

/-- One of the threads moves; `plan b` is the plan of thread `b`. -/
def step (plan : Bool → CompositionPlan D) (σ : Savers D) (b : Bool) : Savers D :=
  let moveTo (p : SaverPhase D) : Bool → SaverPhase D := Function.update σ.phase b p
  match σ.phase b with
  | .reserve =>
    let r := σ.engine.reserve (plan b)
    { σ with engine := r.1, phase := moveTo (if r.2.ok then .snapshot else .refused) }
  -- the lock is held for the snapshot only
  | .snapshot =>
    { σ with phase := moveTo (.write σ.engine.snapshot (σ.phase !b).hasReserved) }
  | .write d _ =>
    match saveImpl d with
    | .ok bytes => { σ with file := some bytes, phase := moveTo (.returned true) }
    | .error _ => { σ with phase := moveTo (.returned false) }
  | .refused => σ
  | .returned _ => σ

/-- The state has the composition of the plan. -/
def Has (d : DurableState D) (plan : CompositionPlan D) : Prop :=
  ∃ c ∈ d.compositions, c.id = plan.id

/-- The condition on a move: what is saved can be read back, and a thread that replaces the
file of the other one has taken its snapshot after the other's `Reserve`. -/
structure InOrder (σ : Savers D) (b : Bool) : Prop where
  storable : σ.phase b = .snapshot → σ.engine.snapshot.Storable
  saw_other : ∀ d saw, σ.phase b = .write d saw → σ.phase (!b) = .returned true → saw = true

/-- The composition is stored under its id. -/
def Stored (s : Engine D) (id : CompositionId) : Prop :=
  ∃ c, s.compositions.lookup id = some c ∧ c.id = id

/-- The file is the encoding of a state with the composition of the plan. -/
def SavedIn (file : Option (List UInt8)) (plan : CompositionPlan D) : Prop :=
  ∃ bytes d, file = some bytes ∧ saveImpl d = .ok bytes ∧ d.Storable ∧ Has d plan

/-- What holds between the moves. -/
structure Kept (plan : Bool → CompositionPlan D) (σ : Savers D) : Prop where
  /-- What was reserved is stored. -/
  stored : ∀ b, (σ.phase b).hasReserved = true → Stored σ.engine (plan b).id
  /-- A snapshot has what was reserved when it was taken. -/
  taken : ∀ b d saw, σ.phase b = .write d saw →
    d.Storable ∧ Has d (plan b) ∧ (saw = true → Has d (plan !b))
  /-- The file has what was saved. -/
  saved : ∀ b, σ.phase b = .returned true → SavedIn σ.file (plan b)

variable {plan : Bool → CompositionPlan D} {σ : Savers D} {b : Bool}

omit [DoubleBits D] in
/-- A composition that is stored stays stored under its id when another plan is reserved. -/
theorem Stored.reserve {s : Engine D} {p : CompositionPlan D} {id : CompositionId}
    (h : Stored s id) : Stored (s.reserve p).1 id := by
  obtain ⟨c, hc, hid⟩ := h
  unfold Engine.reserve
  -- two guards and a failed loop leave the table alone
  split
  · exact ⟨c, hc, hid⟩
  split
  · exact ⟨c, hc, hid⟩
  split
  · exact ⟨c, hc, hid⟩
  · change ∃ c, (s.compositions.insert p.id (s.newComposition p)).lookup id = some c ∧ c.id = id
    rw [UMap.lookup_insert_eq_ite]
    split
    · next hp => exact ⟨_, rfl, hp.symm⟩
    · exact ⟨c, hc, hid⟩

omit [Double D] [DoubleBits D] in
/-- The phases after a move: the new one of the thread that moves, and the other one. -/
theorem update_cases {p : SaverPhase D} {b' : Bool} (P : SaverPhase D → Prop)
    (h : P (Function.update σ.phase b p b')) : b' = b ∧ P p ∨ b' = !b ∧ P (σ.phase !b) := by
  by_cases hb : b' = b
  · subst hb
    rw [Function.update_self] at h
    exact Or.inl ⟨rfl, h⟩
  · rw [Function.update_of_ne hb] at h
    obtain rfl : b' = !b := Bool.eq_not.mpr hb
    exact Or.inr ⟨rfl, h⟩

omit [Double D] in
/-- A move of one thread, in terms of what it leaves. -/
theorem Kept.move (h : Kept plan σ) {s : Engine D} {file : Option (List UInt8)} {p : SaverPhase D}
    (hstored : ∀ id, Stored σ.engine id → Stored s id)
    (hown : p.hasReserved = true → Stored s (plan b).id)
    (htaken : ∀ d saw, p = .write d saw →
      d.Storable ∧ Has d (plan b) ∧ (saw = true → Has d (plan !b)))
    (hsaved : p = .returned true → SavedIn file (plan b))
    (hother : σ.phase (!b) = .returned true → SavedIn file (plan !b)) :
    Kept plan ⟨s, file, Function.update σ.phase b p⟩ where
  stored b' hb' := by
    -- the client that acts, or the other one
    rcases update_cases (fun q => q.hasReserved = true) hb' with ⟨rfl, hp⟩ | ⟨rfl, hp⟩
    · exact hown hp
    · exact hstored _ (h.stored _ hp)
  taken b' d saw hb' := by
    rcases update_cases (fun q => q = .write d saw) hb' with ⟨rfl, hp⟩ | ⟨rfl, hp⟩
    · exact htaken d saw hp
    · exact h.taken _ d saw hp
  saved b' hb' := by
    rcases update_cases (fun q => q = .returned true) hb' with ⟨rfl, hp⟩ | ⟨rfl, hp⟩
    · exact hsaved hp
    · exact hother hp

omit [Double D] [DoubleBits D] in
/-- What is stored is in the snapshot. -/
theorem Stored.has_snapshot {s : Engine D} {p : CompositionPlan D} (h : Stored s p.id) :
    Has s.snapshot p := by
  obtain ⟨c, hc, hid⟩ := h
  exact ⟨c, UMap.mem_values_of_lookup hc, hid⟩

/-- **One move.** -/
theorem Kept.step (h : Kept plan σ) (hb : InOrder σ b) : Kept plan (σ.step plan b) := by
  unfold Savers.step
  dsimp only
  split
  · -- the plan is reserved, or refused
    refine h.move (fun _ hid => hid.reserve) ?_ ?_ ?_ (h.saved _)
    · intro hres
      by_cases hok : (σ.engine.reserve (plan b)).2.ok = true
      · obtain ⟨held, items, -, heq⟩ := Engine.reserve_ok hok
        rw [heq]
        exact ⟨σ.engine.newComposition (plan b), AList.lookup_insert _, rfl⟩
      · rw [if_neg hok] at hres
        cases hres
    · intro d saw hp
      split at hp <;> cases hp
    · intro hp
      split at hp <;> cases hp
  · -- the snapshot has what both have reserved by now
    next hphase =>
    have hstored : Stored σ.engine (plan b).id := h.stored b (by rw [hphase]; rfl)
    refine h.move (fun _ hid => hid) (fun _ => hstored) ?_ (fun hp => by cases hp) (h.saved _)
    intro d saw hp
    cases hp
    exact ⟨hb.storable hphase, hstored.has_snapshot, fun hsaw => (h.stored _ hsaw).has_snapshot⟩
  · -- the file is replaced, or the writer has thrown
    next d saw hphase =>
    obtain ⟨hd, hhas, hsaw⟩ := h.taken b d saw hphase
    have hstored : Stored σ.engine (plan b).id := h.stored b (by rw [hphase]; rfl)
    split
    · next bytes hbytes =>
      refine h.move (fun _ hid => hid) (fun _ => hstored) (fun _ _ hp => by cases hp) ?_ ?_
      · exact fun _ => ⟨bytes, d, rfl, hbytes, hd, hhas⟩
      · intro hret
        exact ⟨bytes, d, rfl, hbytes, hd, hsaw (hb.saw_other d saw hphase hret)⟩
    · exact h.move (fun _ hid => hid) (fun _ => hstored) (fun _ _ hp => by cases hp)
        (fun hp => by cases hp) (h.saved _)
  · exact h
  · exact h

omit [Double D] in
theorem Has.persisted {d : DurableState D} {p : CompositionPlan D} (h : Has d p) :
    Has d.persisted p := by
  obtain ⟨c, hc, hid⟩ := h
  exact ⟨c.persisted, List.mem_map_of_mem hc, hid⟩

/-- **Both compositions are saved.** In every interleaving of two threads that reserve and
save, each of whose moves is in order: once both saves have returned `true`, the file loads,
and the state it holds has both compositions. -/
theorem both_compositions_saved (s : Engine D) (file : Option (List UInt8))
    (plan : Bool → CompositionPlan D) (schedule : List Bool)
    (horder : Machine.Along (step plan) InOrder (start s file) schedule)
    (hdone : ∀ b, (Machine.run (step plan) (start s file) schedule).phase b = .returned true) :
    ∃ bytes d, (Machine.run (step plan) (start s file) schedule).file = some bytes ∧
      loadImpl bytes = .ok d ∧ ∀ b, Has d (plan b) := by
  have hkept : Kept plan (Machine.run (step plan) (start s file) schedule) := by
    refine Machine.invariant_of_along ⟨?_, ?_, ?_⟩ (fun σ b hσ hb => hσ.step hb) horder
    · exact fun b hb => by cases hb
    · exact fun b d saw hb => by cases hb
    · exact fun b hb => by cases hb
  obtain ⟨bytes, d, hfile, hsave, hd, hhas⟩ := hkept.saved true (hdone true)
  obtain ⟨bytes', d', hfile', hsave', hd', hhas'⟩ := hkept.saved false (hdone false)
  have hload : loadImpl bytes = .ok d.persisted := loadImpl_saveImpl hd hsave
  -- there is one file, so both are in what it loads to
  obtain rfl : bytes = bytes' := Option.some.inj (hfile.symm.trans hfile')
  have hsame : d'.persisted = d.persisted :=
    Except.ok.inj ((loadImpl_saveImpl hd' hsave').symm.trans hload)
  refine ⟨bytes, d.persisted, hfile, hload, ?_⟩
  intro b
  cases b with
  | true => exact hhas.persisted
  | false => exact hsame ▸ hhas'.persisted

/-! ### Schedules -/

/-- The condition on a move, as a test. -/
def inOrder (σ : Savers D) (b : Bool) : Bool :=
  match σ.phase b, σ.phase !b with
  | .snapshot, _ => decide σ.engine.snapshot.Storable
  | .write _ saw, .returned true => saw
  | _, _ => true

omit [Double D] [DoubleBits D] in
theorem inOrder_iff : σ.inOrder b = true ↔ InOrder σ b := by
  unfold inOrder
  constructor
  · -- the test of the code, branch by branch
    intro h
    refine ⟨fun hb => ?_, fun d saw hb hother => ?_⟩
    · rw [hb] at h
      exact of_decide_eq_true h
    · rw [hb, hother] at h
      exact h
  · intro h
    split
    · next hb => exact decide_eq_true (h.storable hb)
    · next hb hother => exact h.saw_other _ _ hb hother
    · rfl

instance (σ : Savers D) (b : Bool) : Decidable (InOrder σ b) := decidable_of_iff _ inOrder_iff

/-- Storage of the given size on node 1. -/
def sampleStorage (id : ResourceId) (bytes : ℚ) : Resource ℚ :=
  { Engine.sampleMemory id 0 with
    resourceClass := .storage
    capacity := { (default : Capacity ℚ) with storageBytes := bytes } }

/-- A request for storage. -/
def storageRequest (bytes : ℚ) : CompositionRequest ℚ :=
  { (default : CompositionRequest ℚ) with storageBytes := bytes }

/-- The sample engine with storage, and a plan for the memory. -/
def plannedOps : List (Op ℚ) := Engine.sampleOps ++
  [.registerResource (sampleStorage ⟨2⟩ 64), .compose (Engine.sampleRequest 32)]

/-- The engine with a plan for the memory and one for the storage. -/
def plannedEngine : Engine ℚ :=
  (Engine.fresh Engine.sampleConfig).run (plannedOps ++ [.compose (storageRequest 32)])

/-- The two plans the engine has returned. -/
def samplePlans : Bool → CompositionPlan ℚ
  | true => Engine.samplePlan
  | false =>
    (((Engine.fresh Engine.sampleConfig).run plannedOps).compose (storageRequest 32)).2.payload

/-- Both threads reserve before either of them takes its snapshot, and both compositions
are in the file. -/
theorem sample_compositions_saved :
    ∃ bytes d, (Machine.run (step samplePlans) (start plannedEngine none)
        [true, false, true, false, false, true]).file = some bytes ∧
      loadImpl bytes = .ok d ∧ ∀ b, Has d (samplePlans b) := by
  refine both_compositions_saved plannedEngine none samplePlans _ (by decide +kernel) ?_
  intro b
  refine SaverPhase.isSaved_iff.mp ?_
  cases b <;> decide +kernel

/-- **An update is lost.** The first thread reserves and takes its snapshot; the second one
reserves, takes its snapshot and replaces the file; then the first one replaces it. Both
saves return `true`, and the second composition is not in the file. -/
theorem update_lost :
    ¬ ∀ (cfg : EngineConfig) (ops : List (Op ℚ)) (file : Option (List UInt8))
      (plan : Bool → CompositionPlan ℚ) (schedule : List Bool),
      (∀ b, (Machine.run (step plan) (start ((Engine.fresh cfg).run ops) file) schedule).phase b =
        .returned true) →
      ∃ bytes d, (Machine.run (step plan) (start ((Engine.fresh cfg).run ops) file)
          schedule).file = some bytes ∧
        loadImpl bytes = .ok d ∧ ∀ b, Has d (plan b) := by
  intro h
  have hsaved := h Engine.sampleConfig (plannedOps ++ [.compose (storageRequest 32)]) none
    samplePlans [true, true, false, false, false, true]
  change (∀ b, (Machine.run (step samplePlans) (start plannedEngine none) _).phase b = _) → _
    at hsaved
  obtain ⟨bytes, d, hfile, hload, hhas⟩ := hsaved (by
    intro b
    refine SaverPhase.isSaved_iff.mp ?_
    cases b <;> decide +kernel)
  change (Machine.run (step samplePlans) (start plannedEngine none) _).file = _ at hfile
  -- the file holds the first composition only
  have hids : ((Machine.run (step samplePlans) (start plannedEngine none)
      [true, true, false, false, false, true]).file.bind fun bytes =>
        (loadImpl bytes : Except Str (DurableState ℚ)).toOption).map
          (fun d => d.compositions.map (·.id)) = some [⟨1⟩] := by decide +kernel
  rw [hfile, Option.bind_some, hload] at hids
  have hone : d.compositions.map (·.id) = [⟨1⟩] := Option.some.inj hids
  obtain ⟨c, hc, hid⟩ := hhas false
  have hmem : c.id ∈ d.compositions.map (·.id) := List.mem_map_of_mem hc
  rw [hone, hid, List.mem_singleton] at hmem
  have htwo : (samplePlans false).id ≠ ⟨1⟩ := by decide +kernel
  exact htwo hmem

end Savers

end DFabric
