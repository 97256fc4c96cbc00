import DisaggregationFabric.Codec.Accepted
import DisaggregationFabric.Safety.Identities

/-!
# Recompute hands over to a fresh authority

An uninterrupted `Recompute` that returns true ends one composition for good and makes
exactly one new one active (`HandedOver`). That the replacement is newer than everything
the engine has stored rests on the counter of compositions, which no single operation
states: `Compose` issues the counter as the id *and* as the generation of its plan,
`Reserve` stores a plan under its id, and `Load` moves the counter past what it has loaded.

`Reached known s` collects the states this is about: every plan that is reserved was
returned by the engine itself, and every file that is loaded was saved by an engine that
was run in the same way. The invariant along them is `Issued`: each plan that was returned
and each composition that is stored has its id as its generation, and is behind the
counter.

That the old composition stays out of `active` is the fence (`Shut`), which lasts in every
later state whatever the operations are.
-/

namespace DFabric

namespace Engine

variable {D : Type} [Double D] [DoubleBits D]

/-! ### Engines that reserve their own plans -/

/-- The engine can be in state `s` after its `Compose` has returned the plans `known`. -/
inductive Reached : List (CompositionPlan D) → Engine D → Prop
  | fresh (cfg : EngineConfig) : Reached [] (fresh cfg)
  /-- Any operation but a load. A plan that is reserved is one that was returned, and no
  plan is returned with the last 64-bit id. -/
  | call {known : List (CompositionPlan D)} {s : Engine D} (op : Op D) (h : Reached known s)
      (hload : op.isLoad = false) (hplan : ∀ plan ∈ op.plan?, plan ∈ known)
      (hids : ∀ plan ∈ returned known s (.call op), plan.id.value + 1 ≠ 0) :
      Reached (returned known s (.call op)) (s.step op)
  /-- A load of a file that was saved by an engine run in the same way. The tables of the
  file are counted in 32 bits. -/
  | load {known known' : List (CompositionPlan D)} {s s' : Engine D} (file : List UInt8)
      (h : Reached known s) (hsaver : Reached known' s') (hfile : s'.save = .ok file)
      (hsize : file.length < 2 ^ 32) : Reached known (s.step (.load file))

theorem Reached.keyed {known : List (CompositionPlan D)} {s : Engine D} (h : Reached known s) :
    s.Keyed := by
  induction h with
  | fresh cfg => exact keyed_fresh cfg
  | call op _ _ _ _ ih => exact ih.step op
  | load file _ _ _ _ ih _ => exact ih.step (.load file)

/-! ### Ids are generations, and behind the counter -/

/-- What was returned and what is stored has its id as its generation, and an id behind the
counter. -/
structure Issued (known : List (CompositionPlan D)) (s : Engine D) : Prop where
  plans : ∀ plan ∈ known, plan.generation.value = plan.id.value ∧ plan.id.value < s.nextComp
  stored : ∀ id c, s.compositions.lookup id = some c →
    c.generation.value = id.value ∧ id.value < s.nextComp

/-- Only `Compose` and `Load` use the counter of compositions. -/
theorem nextComp_step {s : Engine D} {op : Op D} (hload : op.isLoad = false)
    (hcompose : op.isCompose = false) : (s.step op).nextComp = s.nextComp := by
  have heff := s.step_effect op
  generalize s.step op = s' at heff ⊢
  -- the counter moves in `Compose` and in `Load` only
  cases heff with
  | quiet hq => exact hq.nextComp
  | composed req paths _ => cases hcompose
  | reserveFailed plan held items e _ => rfl
  | reserved plan held items _ _ _ => rfl
  | rolledBack resIn resv comp held reason _ _ _ _ _ => rfl
  | committed resIn resv comp held _ _ _ _ _ _ => rfl
  | activated id comp _ _ _ _ _ => rfl
  | ended id comp fenced draining _ _ _ _ _ => exact (s.counters_endComposition id comp).1
  | loaded file d _ => cases hload

omit [DoubleBits D] in
/-- Only `Compose` returns a plan. -/
theorem returned_of_not_compose {known : List (CompositionPlan D)} {s : Engine D} {op : Op D}
    (hcompose : op.isCompose = false) : returned known s (.call op) = known := by
  cases op with
  | compose req => cases hcompose
  | _ => rfl

omit [DoubleBits D] in
/-- A returned plan has the counter as its id and as its generation. -/
theorem compose_generation {s : Engine D} {req : CompositionRequest D}
    (hok : (s.compose req).2.ok = true) :
    (s.compose req).2.payload.generation = ⟨s.nextComp⟩ := by
  obtain ⟨paths, ⟨hfail, -⟩ | ⟨-, -, plan, hplan⟩⟩ := s.compose_cases req
  · rw [hfail] at hok
    cases hok
  · rw [hplan]
    rfl

section Steps

variable {known known' : List (CompositionPlan D)} {s s' : Engine D}

omit [DoubleBits D] in
theorem Issued.compose (h : Issued known s) (req : CompositionRequest D)
    (hids : ∀ plan ∈ returned known s (.call (.compose req)), plan.id.value + 1 ≠ 0) :
    Issued (returned known s (.call (.compose req))) (s.compose req).1 := by
  obtain ⟨paths, ⟨hfail, hs⟩ | ⟨hok, hs, -⟩⟩ := s.compose_cases req
  · have hret : returned known s (.call (.compose req)) = known := by
      rw [returned, hfail]
      rfl
    rw [hret, hs]
    exact ⟨h.plans, h.stored⟩
  · have hret : returned known s (.call (.compose req)) = known ++ [(s.compose req).2.payload] :=
      if_pos hok
    rw [hret] at hids ⊢
    -- the new plan has the counter as its id, so counting up does not wrap around
    have hup : s.nextComp < s.nextComp + 1 := by
      have hlast := hids _ (List.mem_append_right _ List.mem_cons_self)
      rw [compose_id hok] at hlast
      exact UInt64.lt_succ_of_ne_zero hlast
    rw [hs]
    refine ⟨?_, ?_⟩
    · intro plan hplan
      rcases List.mem_append.mp hplan with hplan | hplan
      · exact ⟨(h.plans plan hplan).1, (h.plans plan hplan).2.trans hup⟩
      · rw [List.mem_singleton.mp hplan, compose_id hok, compose_generation hok]
        exact ⟨rfl, hup⟩
    · intro id c hc
      exact ⟨(h.stored id c hc).1, (h.stored id c hc).2.trans hup⟩

/-- An operation that neither composes nor loads stores at most a plan that was returned. -/
theorem Issued.other (h : Issued known s) {op : Op D} (hload : op.isLoad = false)
    (hcompose : op.isCompose = false) (hplan : ∀ plan ∈ op.plan?, plan ∈ known) :
    Issued known (s.step op) := by
  have hnext := nextComp_step (s := s) hload hcompose
  refine ⟨?_, ?_⟩
  · rw [hnext]
    exact h.plans
  · rw [hnext]
    refine forall_compositions_step
      (P := fun id c => c.generation.value = id.value ∧ id.value < s.nextComp) ?_ ?_ ?_ h.stored
    · exact fun _ _ _ _ hc => hc
    · exact fun plan hop => h.plans plan (hplan plan hop)
    · -- nothing is loaded
      intro file hfile
      cases op with
      | load file' => cases hload
      | _ => cases hfile

/-- The compositions of a file that is accepted were stored by its saver. -/
theorem Issued.of_saved (h : Issued known' s') (hk : s'.Keyed) {file : List UInt8}
    (hfile : s'.save = .ok file) (hsize : file.length < 2 ^ 32) {d : DurableState D}
    (hd : loadImpl file = .ok d) :
    ∀ c ∈ d.compositions, c.generation.value = c.id.value ∧ c.id.value + 1 ≠ 0 := by
  intro c hc
  obtain ⟨c₀, hc₀, hid, hgen, -⟩ := compositions_of_loadImpl hfile hsize hd c hc
  obtain ⟨k, hk₀⟩ := UMap.exists_lookup_of_mem_values hc₀
  obtain ⟨hsame, hlt⟩ := h.stored k c₀ hk₀
  rw [hid, hgen, hk k c₀ hk₀]
  refine ⟨hsame, fun hzero => ?_⟩
  -- what is behind a counter is not the last value
  have hle := UInt64.lt_iff_toNat_lt.mp hlt
  have hbound := UInt64.toNat_lt s'.nextComp
  have hnat : (k.value + 1).toNat = 0 := by rw [hzero]; rfl
  rw [UInt64.toNat_add, UInt64.toNat_one] at hnat
  omega

theorem Issued.load (h : Issued known s) (h' : Issued known' s') (hk' : s'.Keyed)
    {file : List UInt8} (hfile : s'.save = .ok file) (hsize : file.length < 2 ^ 32) :
    Issued known (s.step (.load file)) := by
  change Issued known (s.load file).1
  unfold Engine.load
  split
  · next d hd =>
    have hsaved := h'.of_saved hk' hfile hsize hd
    -- what is stored now is what the file holds, but for the lifecycle and the outcome
    have himported : ∀ c ∈ (UMap.ofValues Composition.id
        (d.compositions.map importComposition)).values,
        c.generation.value = c.id.value ∧ c.id.value + 1 ≠ 0 := by
      intro c hc
      obtain ⟨k, hk⟩ := UMap.exists_lookup_of_mem_values hc
      obtain ⟨c₀, hc₀, rfl⟩ := List.mem_map.mp (UMap.lookup_ofValues hk).1
      exact hsaved c₀ hc₀
    have hlast := fun c hc => (himported c hc).2
    refine ⟨?_, ?_⟩
    · intro plan hplan
      have hle := le_restoreCounter_ids hlast s.nextComp
      exact ⟨(h.plans plan hplan).1, lt_of_lt_of_le (h.plans plan hplan).2 hle⟩
    · intro id c hc
      have hmem := UMap.mem_values_of_lookup hc
      have hid : c.id = id := (UMap.lookup_ofValues hc).2
      rw [← hid]
      exact ⟨(himported c hmem).1, lt_restoreCounter_ids hlast s.nextComp hmem⟩
  · exact h

/-- **The counter is ahead in every state that is reached.** -/
theorem Reached.issued (h : Reached known s) : Issued known s := by
  -- over the calls and the files: a plan is known once `Compose` has returned it
  induction h with
  | fresh cfg =>
    refine ⟨List.forall_mem_nil _, ?_⟩
    intro id c hc
    exact absurd hc (by simp [Engine.fresh])
  | @call known s op hs hload hplan hids ih =>
    rcases hcompose : op.isCompose with _ | _
    · rw [returned_of_not_compose hcompose]
      exact ih.other hload hcompose hplan
    · cases op with
      | compose req => exact ih.compose req hids
      | _ => cases hcompose
  | load file _ hsaver hfile hsize ih ih' => exact ih.load ih' hsaver.keyed hfile hsize

end Steps

/-! ### The handover -/

omit [DoubleBits D] in
/-- What a `Recompute` that returns true has done: each of its parts succeeded. -/
theorem recompute_done {s : Engine D} {id : CompositionId} (h : (s.recompute id).2 = true) :
    ∃ c s₁ plan s₂ resv s₃ comp, s.compositions.lookup id = some c ∧
      (s.compose c.request).2.ok = true ∧ s₁ = (s.compose c.request).1 ∧
      plan = (s.compose c.request).2.payload ∧
      ((s₁.recomputeRelease id).reserve plan).2.ok = true ∧
      s₂ = ((s₁.recomputeRelease id).reserve plan).1 ∧
      resv = ((s₁.recomputeRelease id).reserve plan).2.payload ∧
      (s₂.commit resv).2.ok = true ∧ s₃ = (s₂.commit resv).1 ∧
      comp = (s₂.commit resv).2.payload ∧
      (s₃.activate comp.id).2.ok = true ∧ (s.recompute id).1 = (s₃.activate comp.id).1 := by
  unfold recompute at h ⊢
  rcases hc : s.compositions.lookup id with _ | c
  · rw [hc] at h
    cases h
  rw [hc] at h
  dsimp only at h ⊢
  -- the parts in turn: a failed one would have been returned
  split at h
  · cases h
  next hcompose =>
  split at h
  · cases h
  next hreserve =>
  split at h
  · cases h
  next hcommit =>
  split at h
  · cases h
  next hactivate =>
  rw [if_neg hcompose, if_neg hreserve, if_neg hcommit, if_neg hactivate]
  rw [Bool.not_eq_true', Bool.not_eq_false] at hcompose hreserve hcommit hactivate
  exact ⟨c, _, _, _, _, _, _, rfl, hcompose, rfl, rfl, hreserve, rfl, rfl, hcommit, rfl, rfl,
    hactivate, rfl⟩

/-- From `s` to `s'` the composition `id` was replaced for good. -/
structure HandedOver (s : Engine D) (id : CompositionId) (s' : Engine D) : Prop where
  released : s'.lifecycleOf id = some .released
  fenced : id ∈ s'.fenced
  /-- Whatever the engine performs later. -/
  never_active : ∀ ops, (s'.run ops).lifecycleOf id ≠ some .active
  /-- One composition was added: it is active, newer than all that were stored, and bound to
  the current epoch. The others are stored as before. -/
  replaced : ∃ new c, s.compositions.lookup new = none ∧
    s'.compositions.lookup new = some c ∧ c.id = new ∧ c.lifecycle = .active ∧
    (∀ k c₀, s.compositions.lookup k = some c₀ →
      c₀.id.value < c.id.value ∧ c₀.generation.value < c.generation.value) ∧
    c.authority.coordinatorEpoch = s'.epoch ∧
    ∀ k, k ≠ id → k ≠ new → s'.compositions.lookup k = s.compositions.lookup k

section Parts

variable {s : Engine D} {id : CompositionId}

/-- The composition a `Recompute` adds. -/
def replacement (s : Engine D) (plan : CompositionPlan D) : Composition D :=
  { s.newComposition plan with lifecycle := .active, outcome := .success }

omit [DoubleBits D] in
/-- The last three parts of a `Recompute`: the plan is stored and becomes active, nothing
else changes in the table, and the authority is of the current epoch. -/
theorem transaction_done {plan : CompositionPlan D} {resv : Reservation D} {comp : Composition D}
    {s₂ s₃ : Engine D} (hreserve : (s.reserve plan).2.ok = true) (hs₂ : s₂ = (s.reserve plan).1)
    (hresv : resv = (s.reserve plan).2.payload) (hcommit : (s₂.commit resv).2.ok = true)
    (hs₃ : s₃ = (s₂.commit resv).1) (hcomp : comp = (s₂.commit resv).2.payload)
    (hactivate : (s₃.activate comp.id).2.ok = true) :
    (∀ k, (s₃.activate comp.id).1.compositions.lookup k =
      if k = plan.id then some (s.replacement plan) else s.compositions.lookup k) ∧
    (s₃.activate comp.id).1.fenced = s.fenced ∧
    (s₃.activate comp.id).1.epoch = s.epoch ∧ plan.authority.coordinatorEpoch = s.epoch := by
  obtain ⟨held, items, -, heq⟩ := reserve_ok hreserve
  rw [heq] at hs₂ hresv
  subst hs₂ hresv
  -- what is committed is the reservation just made, for the composition just stored
  obtain ⟨r, c, held', hr, -, hc, -, -, heq₂⟩ := commit_ok hcommit
  have hr' : r = s.newReservation plan items :=
    Option.some.inj (hr.symm.trans (AList.lookup_insert _))
  subst hr'
  have hc' : c = s.newComposition plan := Option.some.inj (hc.symm.trans (AList.lookup_insert _))
  subst hc'
  rw [heq₂] at hs₃ hcomp
  subst hs₃ hcomp
  obtain ⟨c, hc₃, -, hv, heq₃⟩ := activate_done hactivate
  have hc₃' : c = { s.newComposition plan with lifecycle := .committed } :=
    Option.some.inj (hc₃.symm.trans (AList.lookup_insert _))
  subst hc₃'
  rw [heq₃]
  refine ⟨?_, rfl, rfl, ?_⟩
  · intro k
    change AList.lookup k (((s.compositions.insert plan.id _).insert plan.id _).insert plan.id _) = _
    by_cases hk : k = plan.id
    · rw [hk, if_pos rfl, AList.lookup_insert]
      rfl
    · rw [if_neg hk, UMap.lookup_insert_eq_ite, if_neg hk, UMap.lookup_insert_eq_ite, if_neg hk,
        UMap.lookup_insert_eq_ite, if_neg hk]
  · -- the revalidation has compared the epochs
    unfold revalidationHolds at hv
    split at hv
    · cases hv
    · next hepoch => exact not_not.mp hepoch

end Parts

/-- **Recompute hands over to a fresh authority.** In every state an engine reaches with
plans of its own and files saved by such engines, an uninterrupted `Recompute` that returns
true leaves the composition released and fenced and never active again, and has added
exactly one composition, which is active, has a greater id and generation than every
composition stored before, and carries the current epoch; every other composition is
as it was. -/
theorem recompute_hands_over {known : List (CompositionPlan D)} {s : Engine D}
    (h : Reached known s) (id : CompositionId) (hok : (s.recompute id).2 = true) :
    HandedOver s id (s.recompute id).1 := by
  have hkeyed := h.keyed
  have hissued := h.issued
  have hkeyed' : (s.recompute id).1.Keyed := by
    rw [recompute_eq_run]
    exact keyed_run hkeyed _
  obtain ⟨c, s₁, plan, s₂, resv, s₃, comp, hc, hcompose, hs₁, hplan, hreserve, hs₂, hresv, hcommit,
    hs₃, hcomp, hactivate, heq⟩ := recompute_done hok
  obtain ⟨hlookup, hfenced, hepoch, hauth⟩ :=
    transaction_done hreserve hs₂ hresv hcommit hs₃ hcomp hactivate
  rw [← heq] at hlookup hfenced hepoch
  generalize (s.recompute id).1 = s' at hkeyed' hlookup hfenced hepoch ⊢
  -- composing does not touch the table; then the old composition is ended and fenced
  have hcomps : s₁.compositions = s.compositions := by
    obtain ⟨paths, ⟨-, hs⟩ | ⟨-, hs, -⟩⟩ := s.compose_cases c.request <;> rw [hs₁, hs]
  have hc₁ : s₁.compositions.lookup id = some c := by rw [hcomps, hc]
  have hrel : s₁.recomputeRelease id =
      { s₁.endComposition id c with fenced := insert c.id s₁.fenced } := by
    rw [recomputeRelease, hc₁]
  have hended : ∀ k, (s₁.recomputeRelease id).compositions.lookup k =
      if k = id then some { c with lifecycle := .released } else s.compositions.lookup k := by
    intro k
    rw [hrel]
    change (s₁.endComposition id c).compositions.lookup k = _
    rw [compositions_endComposition, UMap.lookup_insert_eq_ite, hcomps]
  have hnew : plan.id = ⟨s.nextComp⟩ := by rw [hplan, compose_id hcompose]
  have hgen : plan.generation = ⟨s.nextComp⟩ := by rw [hplan, compose_generation hcompose]
  have hbehind : ∀ k c₀, s.compositions.lookup k = some c₀ → k.value < plan.id.value := by
    intro k c₀ hc₀
    rw [hnew]
    exact (hissued.stored k c₀ hc₀).2
  have hne : id ≠ plan.id := by
    intro heq
    have hlt := hbehind id c hc
    rw [← heq] at hlt
    exact lt_irrefl _ hlt
  have hreleased : s'.lifecycleOf id = some .released := by
    rw [lifecycleOf, hlookup, if_neg hne, hended, if_pos rfl]
    rfl
  have hid : id ∈ s'.fenced := by
    rw [hfenced, hrel, hkeyed id c hc]
    exact Finset.mem_insert_self _ _
  have hshut : Shut id s' := ⟨hid, by rw [hreleased]; simp⟩
  refine ⟨hreleased, hid, fun ops => (hshut.run hkeyed' ops).not_active, ?_⟩
  refine ⟨plan.id, _, ?_, by rw [hlookup, if_pos rfl], rfl, rfl, ?_, ?_, ?_⟩
  · -- an id that is stored is behind the counter
    rcases hold : s.compositions.lookup plan.id with _ | c₀
    · rfl
    · exact absurd (hbehind plan.id c₀ hold) (lt_irrefl _)
  · intro k c₀ hc₀
    obtain ⟨hsame, hlt⟩ := hissued.stored k c₀ hc₀
    rw [hkeyed k c₀ hc₀, hsame]
    refine ⟨hbehind k c₀ hc₀, ?_⟩
    change k.value < plan.generation.value
    rw [hgen]
    exact hlt
  · exact hauth.trans hepoch.symm
  · intro k hk hk'
    rw [hlookup, if_neg hk', hended, if_neg hk]

/-- The sample engine is reached by its transaction. -/
theorem sample_reached : ∃ known : List (CompositionPlan ℚ),
    Reached known ((fresh sampleConfig).run (sampleOps ++ sampleTransaction)) := by
  -- call by call; only `Reserve` has a plan to account for
  have h₀ : Reached [] (fresh sampleConfig : Engine ℚ) := .fresh sampleConfig
  have h₁ := h₀.call (.registerResource (sampleMemory ⟨1⟩ 64)) rfl (by simp [Op.plan?])
    (by decide +kernel)
  have h₂ := h₁.call (.compose (sampleRequest 32)) rfl (by simp [Op.plan?]) (by decide +kernel)
  have h₃ := h₂.call (.reserve samplePlan) rfl ?_ (by decide +kernel)
  · have h₄ := h₃.call (.commit (sampleReservation ⟨1⟩)) rfl (by simp [Op.plan?])
      (by decide +kernel)
    have h₅ := h₄.call (.activate ⟨1⟩) rfl (by simp [Op.plan?]) (by decide +kernel)
    exact ⟨_, h₅⟩
  · intro plan hplan
    cases hplan
    exact mem_returned_compose (by decide +kernel)

/-- A restarted engine recomputes the composition it has loaded. -/
theorem restarted_hands_over :
    (restarted.recompute ⟨1⟩).2 = true ∧ HandedOver restarted ⟨1⟩ (restarted.recompute ⟨1⟩).1 := by
  obtain ⟨known, hsaver⟩ := sample_reached
  have hloaded : Reached [] ((fresh sampleConfig).step
      (.load ((fresh sampleConfig).run (sampleOps ++ sampleTransaction)).savedFile)) :=
    (Reached.fresh sampleConfig).load _ hsaver (save_eq_savedFile (by decide +kernel))
      (by decide +kernel)
  have hreached : Reached [] restarted :=
    hloaded.call (.registerResource (sampleMemory ⟨1⟩ 64)) rfl (by simp [Op.plan?])
      (by decide +kernel)
  have hok : (restarted.recompute ⟨1⟩).2 = true := by decide +kernel
  exact ⟨hok, recompute_hands_over hreached ⟨1⟩ hok⟩

end Engine

end DFabric
