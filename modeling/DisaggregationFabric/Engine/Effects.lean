import DisaggregationFabric.Engine.System

/-!
# What a step can do

Most operations publish tables and demote compositions: they leave the
reservations, the ledger, the fences and the counters alone, and no composition
becomes `reserved`, `committed` or `active` by them. Such a step is `Quiet`.

`Effect s op s'` lists the other ways in which an operation changes the engine,
with the guards that hold when it does, and `step_effect` says that the list is
complete. The invariants of the later modules are proved by cases on `Effect`, and
no operation is unfolded again for them.
-/

namespace DFabric

open CompositionLifecycle

/-! ### Demoted compositions -/

/-- The composition changed in lifecycle and outcome only; it did not become
authoritative, and it did not end. -/
structure Demoted {D : Type} (c c' : Composition D) : Prop where
  rest : c' = { c with lifecycle := c'.lifecycle, outcome := c'.outcome }
  lifecycle : c'.lifecycle = c.lifecycle ∨
    ¬ c'.lifecycle.IsAuthoritative ∧ ¬ c'.lifecycle.IsOver

namespace Demoted

variable {D : Type} {c c' c'' : Composition D}

theorem refl (c : Composition D) : Demoted c c := ⟨rfl, Or.inl rfl⟩

theorem trans (h : Demoted c c') (h' : Demoted c' c'') : Demoted c c'' := by
  constructor
  · rw [h'.rest, h.rest]
  · rcases h'.lifecycle with heq | hnot
    · rw [heq]; exact h.lifecycle
    · exact Or.inr hnot

theorem id (h : Demoted c c') : c'.id = c.id := by rw [h.rest]

theorem graph (h : Demoted c c') : c'.graph = c.graph := by rw [h.rest]

theorem request (h : Demoted c c') : c'.request = c.request := by rw [h.rest]

theorem authority (h : Demoted c c') : c'.authority = c.authority := by rw [h.rest]

theorem reservation (h : Demoted c c') : c'.reservation = c.reservation := by rw [h.rest]

/-- Leaving the authoritative lifecycles is a demotion. -/
theorem of_not {l : CompositionLifecycle} (o : CompositionOutcome)
    (h : ¬ l.IsAuthoritative ∧ ¬ l.IsOver) :
    Demoted c { c with lifecycle := l, outcome := o } := ⟨rfl, Or.inr h⟩

/-- A composition that is authoritative now had the same lifecycle before. -/
theorem of_authoritative (h : Demoted c c') (hl : c'.lifecycle.IsAuthoritative) :
    c.lifecycle = c'.lifecycle := by
  rcases h.lifecycle with heq | hnot
  · exact heq.symm
  · exact absurd hl hnot.1

/-- A composition that has not ended before has not ended. -/
theorem not_over (h : Demoted c c') (hl : ¬ c.lifecycle.IsOver) : ¬ c'.lifecycle.IsOver := by
  rcases h.lifecycle with heq | hnot
  · rwa [heq]
  · exact hnot.2

end Demoted

namespace Engine

variable {D : Type}

/-- The tables of compositions correspond, each composition demoted at most. -/
def DemotedAll (m m' : UMap CompositionId (Composition D)) : Prop :=
  ∀ id, Option.Rel Demoted (m.lookup id) (m'.lookup id)

theorem DemotedAll.refl (m : UMap CompositionId (Composition D)) : DemotedAll m m := by
  intro id
  cases m.lookup id with
  | none => exact .none
  | some c => exact .some (.refl c)

theorem DemotedAll.trans {m m' m'' : UMap CompositionId (Composition D)} (h : DemotedAll m m')
    (h' : DemotedAll m' m'') : DemotedAll m m'' := by
  intro id
  have h1 := h id
  have h2 := h' id
  revert h1 h2
  -- of the eight combinations only two relate: absent throughout, present throughout
  rcases m.lookup id with _ | c <;> rcases m'.lookup id with _ | c' <;>
    rcases m''.lookup id with _ | c'' <;> intro h1 h2 <;> cases h1 <;> cases h2
  · exact .none
  · next hc hc' => exact .some (hc.trans hc')

/-- A composition found after was found before, and was demoted at most. -/
theorem DemotedAll.back {m m' : UMap CompositionId (Composition D)} (h : DemotedAll m m')
    {id : CompositionId} {c' : Composition D} (hc : m'.lookup id = some c') :
    ∃ c, m.lookup id = some c ∧ Demoted c c' := by
  have hid := h id
  rw [hc] at hid
  revert hid
  rcases m.lookup id with _ | c
  · intro hid; cases hid
  · intro hid; cases hid with
    | some hd => exact ⟨c, rfl, hd⟩

/-- A composition found before is found after, and was demoted at most. -/
theorem DemotedAll.forth {m m' : UMap CompositionId (Composition D)} (h : DemotedAll m m')
    {id : CompositionId} {c : Composition D} (hc : m.lookup id = some c) :
    ∃ c', m'.lookup id = some c' ∧ Demoted c c' := by
  have hid := h id
  rw [hc] at hid
  revert hid
  rcases m'.lookup id with _ | c'
  · intro hid; cases hid
  · intro hid; cases hid with
    | some hd => exact ⟨c', rfl, hd⟩

/-- Replacing one composition by a demoted one. -/
theorem DemotedAll.insert {m : UMap CompositionId (Composition D)} {id : CompositionId}
    {c c' : Composition D} (hc : m.lookup id = some c) (hd : Demoted c c') :
    DemotedAll m (m.insert id c') := by
  intro id'
  rw [UMap.lookup_insert_eq_ite]
  split
  · next heq => rw [heq, hc]; exact .some hd
  · exact DemotedAll.refl m id'

/-! ### Quiet steps -/

/-- A step that touches neither reservations, ledger, fences nor counters, and
makes no composition authoritative. -/
structure Quiet (s s' : Engine D) : Prop where
  compositions : DemotedAll s.compositions s'.compositions
  reservations : s'.reservations = s.reservations
  reservedAmount : s'.reservedAmount = s.reservedAmount
  fenced : s'.fenced = s.fenced
  nextComp : s'.nextComp = s.nextComp
  nextRs : s'.nextRs = s.nextRs
  nextResv : s'.nextResv = s.nextResv

namespace Quiet

theorem refl (s : Engine D) : Quiet s s := ⟨.refl _, rfl, rfl, rfl, rfl, rfl, rfl⟩

theorem trans {s s' s'' : Engine D} (h : Quiet s s') (h' : Quiet s' s'') : Quiet s s'' where
  compositions := h.compositions.trans h'.compositions
  reservations := h'.reservations.trans h.reservations
  reservedAmount := h'.reservedAmount.trans h.reservedAmount
  fenced := h'.fenced.trans h.fenced
  nextComp := h'.nextComp.trans h.nextComp
  nextRs := h'.nextRs.trans h.nextRs
  nextResv := h'.nextResv.trans h.nextResv

/-- A loop of quiet steps is quiet. -/
theorem foldl {A : Type} {f : Engine D → A → Engine D} (h : ∀ s a, Quiet s (f s a)) (l : List A)
    (s : Engine D) : Quiet s (l.foldl f s) := by
  induction l generalizing s with
  | nil => exact refl s
  | cons a l ih => exact (h s a).trans (ih (f s a))

/-- A sweep over the compositions is quiet when its lifecycle change demotes. -/
theorem demoteWhere {f : CompositionLifecycle → CompositionLifecycle}
    (hf : CompositionLifecycle.Demotes f) (concerned : Composition D → Bool) (s : Engine D) :
    Quiet s (s.demoteWhere concerned f) := by
  refine ⟨?_, rfl, rfl, rfl, rfl, rfl, rfl⟩
  intro id
  change Option.Rel Demoted (s.compositions.lookup id) ((UMap.mapVals _ s.compositions).lookup id)
  rw [UMap.lookup_mapVals]
  -- a composition that is concerned is demoted
  cases s.compositions.lookup id with
  | none => exact .none
  | some c =>
    refine .some ?_
    dsimp only
    split
    · exact ⟨rfl, hf c.lifecycle⟩
    · exact .refl c

theorem ingestNode (s : Engine D) (n : Node D) : Quiet s (s.ingestNode n) := by
  unfold Engine.ingestNode
  split
  · exact refl s
  -- another generation sweeps before it writes; otherwise only the table is written
  · split
    · split
      · exact trans (demoteWhere demotes_onGenerationChange _ s)
          ⟨.refl _, rfl, rfl, rfl, rfl, rfl, rfl⟩
      · exact ⟨.refl _, rfl, rfl, rfl, rfl, rfl, rfl⟩
    · exact ⟨.refl _, rfl, rfl, rfl, rfl, rfl, rfl⟩

theorem ingestResource (s : Engine D) (r : Resource D) : Quiet s (s.ingestResource r) := by
  unfold Engine.ingestResource
  split
  · exact refl s
  · split
    · split
      · exact trans (demoteWhere demotes_onGenerationChange _ s)
          ⟨.refl _, rfl, rfl, rfl, rfl, rfl, rfl⟩
      · exact ⟨.refl _, rfl, rfl, rfl, rfl, rfl, rfl⟩
    · exact ⟨.refl _, rfl, rfl, rfl, rfl, rfl, rfl⟩

theorem updateResource (s : Engine D) (rid : ResourceId) (f : Resource D → Resource D) :
    Quiet s (s.updateResource rid f) := by
  unfold Engine.updateResource
  split
  · exact ⟨.refl _, rfl, rfl, rfl, rfl, rfl, rfl⟩
  · exact refl s

theorem discoverPath [Double D] (s : Engine D) (a b : NodeId) : Quiet s (s.discoverPath a b) := by
  unfold Engine.discoverPath
  split
  · exact refl s
  · split
    · exact ⟨.refl _, rfl, rfl, rfl, rfl, rfl, rfl⟩
    · exact refl s

theorem publish (s : Engine D) (p : Publication D) : Quiet s (s.publish p) := by
  cases p with
  | node n => exact ingestNode s n
  | resource r => exact ingestResource s _

theorem discover [Double D] (s : Engine D) : Quiet s s.discover.1 := by
  -- the publications first, then the double loop over the node pairs
  rw [discover_fst]
  exact trans (foldl publish _ s) (foldl (fun s a => foldl (fun s b => discoverPath s a b) _ s) _ _)

theorem withdrawResource (s : Engine D) (rid : ResourceId) : Quiet s (s.withdrawResource rid) := by
  unfold Engine.withdrawResource
  split
  · exact refl s
  · exact trans (updateResource s rid _) (demoteWhere demotes_onWithdrawal _ _)

theorem markEvidence (s : Engine D) (owner : WorkerBootId) :
    Quiet s (s.markEvidenceRevalidationRequired owner) := by
  refine trans ?_ (demoteWhere demotes_onWithdrawal _ _)
  exact ⟨.refl _, rfl, rfl, rfl, rfl, rfl, rfl⟩

theorem advanceEpoch (s : Engine D) (next : CoordinatorEpoch) : Quiet s (s.advanceEpoch next) := by
  unfold Engine.advanceEpoch
  split
  · exact refl s
  · refine trans ?_ (demoteWhere demotes_onEpoch _ _)
    exact ⟨.refl _, rfl, rfl, rfl, rfl, rfl, rfl⟩

theorem onPolicyUpdate (s : Engine D) (policy : PolicyId) (gen : PolicyGeneration) :
    Quiet s (s.onPolicyUpdate policy gen) := by
  refine trans ?_ (demoteWhere demotes_onFailure _ _)
  exact ⟨.refl _, rfl, rfl, rfl, rfl, rfl, rfl⟩

theorem onPathUpdate (s : Engine D) (pe : PathEvidence D) : Quiet s (s.onPathUpdate pe) := by
  refine trans ?_ (demoteWhere demotes_onWithdrawal _ _)
  exact ⟨.refl _, rfl, rfl, rfl, rfl, rfl, rfl⟩

theorem onResourceFailure (s : Engine D) (rid : ResourceId) : Quiet s (s.onResourceFailure rid) :=
  trans (updateResource s rid _) (demoteWhere demotes_onFailure _ _)

/-- Replacing one composition by a demoted one is quiet. -/
theorem setComposition [Double D] {s : Engine D} {id : CompositionId} {c c' : Composition D}
    (hc : s.compositions.lookup id = some c) (hd : Demoted c c') :
    Quiet s (s.setComposition id c') :=
  ⟨.insert hc hd, rfl, rfl, rfl, rfl, rfl, rfl⟩

theorem beginDrain [Double D] (s : Engine D) (id : CompositionId) :
    Quiet s (s.beginDrain id).1 := by
  unfold Engine.beginDrain
  split
  · exact refl s
  · next c hc =>
    split
    · exact refl s
    · exact trans (setComposition hc (.of_not (l := .draining) c.outcome (by decide)))
        ⟨.refl _, rfl, rfl, rfl, rfl, rfl, rfl⟩

end Quiet

/-! ### Ending a composition -/

section Ending

variable [Double D]

/-- Ending a reservation touches the ledger and the reservations only. -/
theorem endReservation_eq (s : Engine D) (rid : ReservationId) :
    ∃ held resvs, s.endReservation rid =
      { s with reservedAmount := held, reservations := resvs } := by
  unfold endReservation
  split
  · exact ⟨s.reservedAmount, s.reservations, rfl⟩
  · exact ⟨_, _, rfl⟩

theorem fenced_endComposition (s : Engine D) (id : CompositionId) (c : Composition D) :
    (s.endComposition id c).fenced = s.fenced := by
  obtain ⟨held, resvs, heq⟩ := s.endReservation_eq c.reservation
  rw [endComposition, heq]
  rfl

theorem compositions_endComposition (s : Engine D) (id : CompositionId) (c : Composition D) :
    (s.endComposition id c).compositions =
      s.compositions.insert id { c with lifecycle := .released } := by
  obtain ⟨held, resvs, heq⟩ := s.endReservation_eq c.reservation
  rw [endComposition, heq]
  rfl

theorem reservations_endComposition (s : Engine D) (id : CompositionId) (c : Composition D) :
    (s.endComposition id c).reservations =
      match s.reservations.lookup c.reservation with
      | none => s.reservations
      | some r => s.reservations.insert c.reservation { r with state := .released } := by
  change (s.endReservation c.reservation).reservations = _
  unfold endReservation
  split <;> simp only [*]

theorem reservedAmount_endComposition (s : Engine D) (id : CompositionId) (c : Composition D) :
    (s.endComposition id c).reservedAmount =
      match s.reservations.lookup c.reservation with
      | none => s.reservedAmount
      | some r => Ledger.releaseAll s.reservedAmount r.holds := by
  change (s.endReservation c.reservation).reservedAmount = _
  unfold endReservation
  split <;> simp only [*]

/-- A reservation found after a composition was ended was found before; only its
state may have become `released`. -/
theorem lookup_reservations_endComposition {s : Engine D} (id : CompositionId)
    {c : Composition D} {rid : ReservationId} {r : Reservation D}
    (h : (s.endComposition id c).reservations.lookup rid = some r) :
    s.reservations.lookup rid = some r ∧ rid ≠ c.reservation ∨
      rid = c.reservation ∧ ∃ r₀, s.reservations.lookup rid = some r₀ ∧
        r = { r₀ with state := .released } := by
  rw [reservations_endComposition] at h
  split at h
  -- no reservation to end: then the one that was found is another one
  · next hnone =>
    refine Or.inl ⟨h, ?_⟩
    rintro rfl
    rw [hnone] at h
    cases h
  · next r₀ hr₀ =>
    rcases UMap.lookup_insert_inv h with ⟨rfl, rfl⟩ | ⟨hne, h⟩
    · exact Or.inr ⟨rfl, r₀, hr₀, rfl⟩
    · exact Or.inl ⟨h, hne⟩

/-- Ending a composition touches no reservation but the one it refers to. -/
theorem lookup_reservations_endComposition_of_ne {s : Engine D} {id : CompositionId}
    {c : Composition D} {rid : ReservationId} (h : rid ≠ c.reservation) :
    (s.endComposition id c).reservations.lookup rid = s.reservations.lookup rid := by
  rw [reservations_endComposition]
  split
  · rfl
  · rw [UMap.lookup_insert_eq_ite, if_neg h]

end Ending

/-! ### Effects -/

variable [Double D] [DoubleBits D]

/-- The ways in which an operation changes the engine. -/
inductive Effect (s : Engine D) : Op D → Engine D → Prop where
  /-- No reservation, ledger, fence or counter changes; no authority is gained. -/
  | quiet {op : Op D} {s' : Engine D} (h : Quiet s s') : Effect s op s'
  /-- `Compose` returned a plan. -/
  | composed (req : CompositionRequest D) (paths : OrdMap Str (PathEvidence D))
      (hok : (s.compose req).2.ok = true) :
      Effect s (.compose req) { s with paths := paths, nextComp := s.nextComp + 1 }
  /-- `Reserve` failed at a member and gave the holds back. -/
  | reserveFailed (plan : CompositionPlan D) (held : OrdMap ResourceId D)
      (items : List (ReservationItem D)) (e : Rejection)
      (hm : s.reserveMembers plan.request plan.graph.vertices s.reservedAmount =
        (held, items, some e)) :
      Effect s (.reserve plan)
        { s with
          reservedAmount := Ledger.releaseAll held (s.newReservation plan items).holds
          nextResv := s.nextResv + 1 }
  /-- `Reserve` held every member. -/
  | reserved (plan : CompositionPlan D) (held : OrdMap ResourceId D)
      (items : List (ReservationItem D)) (hvalid : plan.id.isValid = true)
      (hok : (s.reserve plan).2.ok = true)
      (hm : s.reserveMembers plan.request plan.graph.vertices s.reservedAmount =
        (held, items, none)) :
      Effect s (.reserve plan) (s.storeReservation plan held items)
  /-- `Commit` rolled the reservation back. -/
  | rolledBack (resIn resv : Reservation D) (comp : Composition D) (held : OrdMap ResourceId D)
      (reason : RejectionReason) (hr : s.reservations.lookup resIn.id = some resv)
      (hp : resv.state = .provisional)
      (hc : s.compositions.lookup resv.composition = some comp)
      (hl : comp.lifecycle = .reserved)
      (hv : s.verifyItems comp.request resv.items s.reservedAmount = (held, some reason)) :
      Effect s (.commit resIn) (s.rollback resIn.id resv comp held)
  /-- `Commit` succeeded. -/
  | committed (resIn resv : Reservation D) (comp : Composition D) (held : OrdMap ResourceId D)
      (hr : s.reservations.lookup resIn.id = some resv)
      (hp : resv.state = .provisional)
      (hc : s.compositions.lookup resv.composition = some comp)
      (hl : comp.lifecycle = .reserved)
      (hok : (s.commit resIn).2.ok = true)
      (hv : s.verifyItems comp.request resv.items s.reservedAmount = (held, none)) :
      Effect s (.commit resIn) (s.confirm resIn.id resv comp held)
  /-- `Activate` succeeded. -/
  | activated (id : CompositionId) (comp : Composition D)
      (hc : s.compositions.lookup id = some comp) (hl : comp.lifecycle = .committed)
      (hf : comp.id ∉ s.fenced) (hok : (s.activate id).2.ok = true)
      (hv : revalidationHolds comp s.resources s.epoch = .ok ()) :
      Effect s (.activate id)
        (s.setComposition id { comp with lifecycle := .active, outcome := .success })
  /-- `EndDrain`, `Release` or the releasing section of `Recompute` ended the
  reservation of a composition; the latter two fenced it. -/
  | ended {op : Op D} (id : CompositionId) (comp : Composition D)
      (fenced draining : Finset CompositionId)
      (hop : op = .endDrain id ∨ op = .release id ∨ op = .recomputeRelease id)
      (hc : s.compositions.lookup id = some comp) (hsub : s.fenced ⊆ fenced)
      (hfence : op = .endDrain id ∧ comp.lifecycle = .draining ∨ id ∈ fenced ∨ comp.id ∈ fenced)
      (hend : s.ending op = some comp) :
      Effect s op { s.endComposition id comp with fenced := fenced, draining := draining }
  /-- `Load` accepted a file. -/
  | loaded (file : List UInt8) (d : DurableState D) (hd : loadImpl file = .ok d) :
      Effect s (.load file) (s.importState d)

theorem compose_effect (s : Engine D) (req : CompositionRequest D) :
    Effect s (.compose req) (s.compose req).1 := by
  obtain ⟨paths, ⟨-, heq⟩ | ⟨hok, heq, -⟩⟩ := s.compose_cases req
  · rw [heq]
    exact .quiet ⟨.refl _, rfl, rfl, rfl, rfl, rfl, rfl⟩
  · rw [heq]
    exact .composed req paths hok

theorem reserve_effect (s : Engine D) (plan : CompositionPlan D) :
    Effect s (.reserve plan) (s.reserve plan).1 := by
  -- the two guards leave the engine as it is; then the member loop decides
  by_cases hl : plan.lifecycle ≠ .planned
  · have heq : (s.reserve plan).1 = s := by rw [reserve, if_pos hl]
    rw [heq]; exact .quiet (.refl s)
  by_cases hv : !plan.id.isValid
  · have heq : (s.reserve plan).1 = s := by rw [reserve, if_neg hl, if_pos hv]
    rw [heq]; exact .quiet (.refl s)
  have hid : plan.id.isValid = true := by simpa using hv
  rcases hm : s.reserveMembers plan.request plan.graph.vertices s.reservedAmount
    with ⟨held, items, _ | e⟩
  · have heq : s.reserve plan =
        (s.storeReservation plan held items, ⟨.success, s.newReservation plan items, [], []⟩) := by
      rw [reserve, if_neg hl, if_neg hv, hm]
    rw [heq]
    exact .reserved plan held items hid (by rw [heq]; rfl) hm
  · rw [reserve, if_neg hl, if_neg hv, hm]
    exact .reserveFailed plan held items e hm

theorem commit_effect (s : Engine D) (resIn : Reservation D) :
    Effect s (.commit resIn) (s.commit resIn).1 := by
  -- four guards without an effect, then the check loop
  rcases hr : s.reservations.lookup resIn.id with _ | resv
  · rw [commit, hr]; exact .quiet (.refl s)
  by_cases hp : resv.state ≠ .provisional
  · rw [commit, hr]; simp only [if_pos hp]; exact .quiet (.refl s)
  rcases hc : s.compositions.lookup resv.composition with _ | comp
  · rw [commit, hr]; simp only [if_neg hp, hc]; exact .quiet (.refl s)
  by_cases hl : comp.lifecycle ≠ .reserved
  · rw [commit, hr]; simp only [if_neg hp, hc, if_pos hl]; exact .quiet (.refl s)
  rcases hv : s.verifyItems comp.request resv.items s.reservedAmount with ⟨held, _ | reason⟩
  · have heq : s.commit resIn = (s.confirm resIn.id resv comp held,
        ⟨.success, { comp with lifecycle := .committed }, [], []⟩) := by
      rw [commit, hr]; simp only [if_neg hp, hc, if_neg hl, hv]
    rw [heq]
    exact .committed resIn resv comp held hr (not_not.mp hp) hc (not_not.mp hl)
      (by rw [heq]; rfl) hv
  · rw [commit, hr]
    simp only [if_neg hp, hc, if_neg hl, hv]
    exact .rolledBack resIn resv comp held reason hr (not_not.mp hp) hc (not_not.mp hl) hv

theorem activate_effect (s : Engine D) (id : CompositionId) :
    Effect s (.activate id) (s.activate id).1 := by
  rcases hc : s.compositions.lookup id with _ | comp
  · rw [activate, hc]; exact .quiet (.refl s)
  by_cases hl : comp.lifecycle ≠ .committed
  · rw [activate, hc]; simp only [if_pos hl]; exact .quiet (.refl s)
  by_cases hf : comp.id ∈ s.fenced
  · rw [activate, hc]; simp only [if_neg hl, if_pos hf]; exact .quiet (.refl s)
  -- a failed revalidation is no rejection without effect: it demotes
  rcases hv : revalidationHolds comp s.resources s.epoch with e | ⟨⟨⟩⟩
  · rw [activate, hc]
    simp only [if_neg hl, if_neg hf, hv]
    exact .quiet (.setComposition hc (.of_not .rejected (by decide)))
  · have heq : s.activate id =
        (s.setComposition id { comp with lifecycle := .active, outcome := .success },
          ⟨.success, { comp with lifecycle := .active, outcome := .success }, [], []⟩) := by
      rw [activate, hc]; simp only [if_neg hl, if_neg hf, hv]
    rw [heq]
    exact .activated id comp hc (not_not.mp hl) hf (by rw [heq]; rfl) hv

theorem endDrain_effect (s : Engine D) (id : CompositionId) :
    Effect s (.endDrain id) (s.endDrain id).1 := by
  unfold endDrain
  split
  · exact .quiet (.refl s)
  · next comp hc =>
    split
    · exact .quiet (.refl s)
    · next hl =>
      -- the fences are those of before: this way out does not fence
      exact .ended id comp (s.endComposition id comp).fenced _ (Or.inl rfl) hc
        (s.fenced_endComposition id comp).ge (Or.inl ⟨rfl, not_not.mp hl⟩)
        (by simp [ending, hc, not_not.mp hl])

theorem release_effect (s : Engine D) (id : CompositionId) :
    Effect s (.release id) (s.release id).1 := by
  unfold release
  split
  · exact .quiet (.refl s)
  · next comp hc =>
    split
    · exact .quiet (.refl s)
    · next hl =>
      exact .ended id comp _ _ (Or.inr (Or.inl rfl)) hc (Finset.subset_insert _ _)
        (Or.inr (Or.inl (Finset.mem_insert_self _ _))) (by simpa [ending, hc] using hl)

theorem recomputeRelease_effect (s : Engine D) (id : CompositionId) :
    Effect s (.recomputeRelease id) (s.recomputeRelease id) := by
  unfold recomputeRelease
  split
  · exact .quiet (.refl s)
  · next comp hc =>
    exact .ended id comp _ _ (Or.inr (Or.inr rfl)) hc (Finset.subset_insert _ _)
      (Or.inr (Or.inr (Finset.mem_insert_self _ _))) hc

/-- **Every step is accounted for.** -/
theorem step_effect (s : Engine D) (op : Op D) : Effect s op (s.step op) := by
  -- everything but the calls of a transaction and `Load` is quiet
  cases op with
  | addBackend b => exact .quiet ⟨.refl _, rfl, rfl, rfl, rfl, rfl, rfl⟩
  | backendsAnswer bs => exact .quiet ⟨.refl _, rfl, rfl, rfl, rfl, rfl, rfl⟩
  | discover => exact .quiet (.discover s)
  | registerNode n =>
    refine .quiet ?_
    change Quiet s (s.registerNode n).1
    unfold registerNode
    -- without a valid id the call is refused
    split
    · exact .refl s
    · exact .ingestNode s n
  | registerResource r =>
    refine .quiet ?_
    change Quiet s (s.registerResource r).1
    unfold registerResource
    split
    · exact .refl s
    · exact .ingestResource s r
  | invalidateNode rid => exact .quiet (.updateResource s rid _)
  | withdrawResource rid => exact .quiet (.withdrawResource s rid)
  | markEvidenceRevalidationRequired owner => exact .quiet (.markEvidence s owner)
  | advanceEpoch next => exact .quiet (.advanceEpoch s next)
  | compose req => exact s.compose_effect req
  | reserve plan => exact s.reserve_effect plan
  | commit resIn => exact s.commit_effect resIn
  | activate id => exact s.activate_effect id
  | onResourceUpdate r => exact .quiet (.ingestResource s r)
  | onNodeUpdate n => exact .quiet (.ingestNode s n)
  | onPolicyUpdate policy gen => exact .quiet (.onPolicyUpdate s policy gen)
  | onPathUpdate pe => exact .quiet (.onPathUpdate s pe)
  | onResourceFailure rid => exact .quiet (.onResourceFailure s rid)
  | beginDrain id => exact .quiet (.beginDrain s id)
  | endDrain id => exact s.endDrain_effect id
  | release id => exact s.release_effect id
  | recomputeRelease id => exact s.recomputeRelease_effect id
  | load file =>
    change Effect s _ (s.load file).1
    unfold load
    -- a file that is refused changes nothing
    split
    · next d hd => exact .loaded file d hd
    · exact .quiet (.refl s)

/-! ### Where compositions are stored -/

/-- The lifecycle of the composition stored under an id. -/
def lifecycleOf (s : Engine D) (id : CompositionId) : Option CompositionLifecycle :=
  (s.compositions.lookup id).map Composition.lifecycle

omit [Double D] [DoubleBits D] in
theorem lifecycleOf_eq_some {s : Engine D} {id : CompositionId} {l : CompositionLifecycle} :
    s.lifecycleOf id = some l ↔ ∃ c, s.compositions.lookup id = some c ∧ c.lifecycle = l :=
  Option.map_eq_some_iff

omit [Double D] [DoubleBits D] in
/-- The lifecycles after storing one composition. -/
theorem lifecycleOf_insert {s s' : Engine D} {k : CompositionId} {c : Composition D}
    {l : CompositionLifecycle} (h : s'.compositions = s.compositions.insert k c)
    (hl : c.lifecycle = l) (id : CompositionId) :
    s'.lifecycleOf id = if id = k then some l else s.lifecycleOf id := by
  subst hl
  rw [lifecycleOf, h, UMap.lookup_insert_eq_ite]
  split <;> rfl

section

omit [DoubleBits D]

omit [Double D] in
theorem lifecycleOf_storeReservation (s : Engine D) (plan : CompositionPlan D)
    (held : OrdMap ResourceId D) (items : List (ReservationItem D)) (id : CompositionId) :
    (s.storeReservation plan held items).lifecycleOf id =
      if id = plan.id then some .reserved else s.lifecycleOf id :=
  lifecycleOf_insert (c := s.newComposition plan) (l := .reserved) rfl rfl id

theorem lifecycleOf_rollback (s : Engine D) (rid : ReservationId) (resv : Reservation D)
    (comp : Composition D) (held : OrdMap ResourceId D) (id : CompositionId) :
    (s.rollback rid resv comp held).lifecycleOf id =
      if id = resv.composition then some .revalidationRequired else s.lifecycleOf id :=
  lifecycleOf_insert (c := { comp with lifecycle := .revalidationRequired, outcome := .failed })
    rfl rfl id

omit [Double D] in
theorem lifecycleOf_confirm (s : Engine D) (rid : ReservationId) (resv : Reservation D)
    (comp : Composition D) (held : OrdMap ResourceId D) (id : CompositionId) :
    (s.confirm rid resv comp held).lifecycleOf id =
      if id = resv.composition then some .committed else s.lifecycleOf id :=
  lifecycleOf_insert (c := { comp with lifecycle := .committed }) rfl rfl id

omit [Double D] in
theorem lifecycleOf_setActive (s : Engine D) (k : CompositionId) (comp : Composition D)
    (id : CompositionId) :
    (s.setComposition k { comp with lifecycle := .active, outcome := .success }).lifecycleOf id =
      if id = k then some .active else s.lifecycleOf id :=
  lifecycleOf_insert (c := { comp with lifecycle := .active, outcome := .success }) rfl rfl id

theorem lifecycleOf_endComposition (s : Engine D) (k : CompositionId) (comp : Composition D)
    (id : CompositionId) :
    (s.endComposition k comp).lifecycleOf id =
      if id = k then some .released else s.lifecycleOf id :=
  lifecycleOf_insert (c := { comp with lifecycle := .released })
    (s.compositions_endComposition k comp) rfl id

end

omit [Double D] [DoubleBits D] in
/-- **A load gives no authority.** No loaded composition is committed or active. -/
theorem lifecycleOf_importState {s : Engine D} {d : DurableState D} {id : CompositionId}
    {l : CompositionLifecycle} (h : (s.importState d).lifecycleOf id = some l) :
    l ≠ .committed ∧ l ≠ .active := by
  obtain ⟨c, hc, rfl⟩ := lifecycleOf_eq_some.mp h
  -- what is stored under the id is an imported record
  obtain ⟨c₀, -, rfl⟩ := List.mem_map.mp (UMap.lookup_ofValues hc).1
  unfold importComposition
  dsimp only
  split
  · exact ⟨by decide, by decide⟩
  · next hl => exact ⟨fun h => hl (Or.inr h), fun h => hl (Or.inl h)⟩

omit [Double D] [DoubleBits D] in
/-- An authoritative lifecycle found after a quiet step was there before. -/
theorem Quiet.lifecycleOf {s s' : Engine D} (h : Quiet s s') {id : CompositionId}
    {l : CompositionLifecycle} (hauth : l.IsAuthoritative) (hl : s'.lifecycleOf id = some l) :
    s.lifecycleOf id = some l := by
  obtain ⟨c', hc', rfl⟩ := lifecycleOf_eq_some.mp hl
  obtain ⟨c, hc, hd⟩ := h.compositions.back hc'
  exact lifecycleOf_eq_some.mpr ⟨c, hc, hd.of_authoritative hauth⟩

/-- **What holds of every stored composition**, whatever its lifecycle and outcome. It is
kept by a step when it holds of the plan that is reserved and of the records that are
loaded. -/
theorem forall_compositions_step {s : Engine D} {op : Op D}
    {P : CompositionId → Composition D → Prop}
    (hupdate : ∀ id c l o, P id c → P id { c with lifecycle := l, outcome := o })
    (hplan : ∀ plan ∈ op.plan?, P plan.id (s.newComposition plan))
    (hload : ∀ file ∈ op.file?, ∀ d, loadImpl file = .ok d → ∀ c ∈ d.compositions, P c.id c)
    (h : ∀ id c, s.compositions.lookup id = some c → P id c) :
    ∀ id c, (s.step op).compositions.lookup id = some c → P id c := by
  have heff := s.step_effect op
  generalize s.step op = s' at heff ⊢
  cases heff with
  | quiet hq =>
    intro id c' hc'
    obtain ⟨c, hc, hd⟩ := hq.compositions.back hc'
    rw [hd.rest]
    exact hupdate id c _ _ (h id c hc)
  -- neither of these writes the table
  | composed req paths _ => exact h
  | reserveFailed plan held items e hm => exact h
  -- the others store under the id of the plan, or back under the key they read from
  | reserved plan held items _ _ hm => exact UMap.forall_lookup_insert h (hplan plan rfl)
  | rolledBack resIn resv comp held reason _ _ hc =>
    exact UMap.forall_lookup_insert h (hupdate _ comp _ _ (h _ comp hc))
  | committed resIn resv comp held _ _ hc =>
    exact UMap.forall_lookup_insert h (hupdate _ comp _ comp.outcome (h _ comp hc))
  | activated id comp hc =>
    exact UMap.forall_lookup_insert h (hupdate _ comp _ _ (h _ comp hc))
  | ended id comp fenced draining _ hc =>
    change ∀ id' c, (s.endComposition id comp).compositions.lookup id' = some c → P id' c
    rw [compositions_endComposition]
    exact UMap.forall_lookup_insert h (hupdate _ comp _ comp.outcome (h _ comp hc))
  | loaded file d hd =>
    intro id c hc
    obtain ⟨hmem, rfl⟩ := UMap.lookup_ofValues hc
    obtain ⟨c₀, hc₀, rfl⟩ := List.mem_map.mp hmem
    exact hupdate _ c₀ _ _ (hload file rfl d hd c₀ hc₀)

/-- Every composition is stored under its own id. -/
def Keyed (s : Engine D) : Prop :=
  ∀ id c, s.compositions.lookup id = some c → c.id = id

omit [Double D] [DoubleBits D] in
/-- Storing a composition under its own id. -/
theorem Keyed.insert {s s' : Engine D} (h : s.Keyed) {id : CompositionId} {c : Composition D}
    (heq : s'.compositions = s.compositions.insert id c) (hid : c.id = id) : s'.Keyed := by
  unfold Keyed
  rw [heq]
  exact UMap.forall_lookup_insert h hid

omit [Double D] [DoubleBits D] in
theorem keyed_importState (s : Engine D) (d : DurableState D) : (s.importState d).Keyed :=
  fun _ _ hc => (UMap.lookup_ofValues hc).2

omit [Double D] [DoubleBits D] in
theorem keyed_fresh (cfg : EngineConfig) : (fresh cfg : Engine D).Keyed := by
  intro id c hc
  exact absurd hc (by simp [fresh])

theorem Keyed.step {s : Engine D} (h : s.Keyed) (op : Op D) : (s.step op).Keyed :=
  forall_compositions_step (fun _ _ _ _ hid => hid) (fun _ _ => rfl) (fun _ _ _ _ _ _ => rfl) h

theorem keyed_run {s : Engine D} (h : s.Keyed) (ops : List (Op D)) : (s.run ops).Keyed :=
  Machine.invariant_run h fun _ op hs => hs.step op

end Engine

end DFabric
