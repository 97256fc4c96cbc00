import DisaggregationFabric.Engine.Admission
import DisaggregationFabric.Safety.Holds

/-!
# What is taken is given back

`Reserve` takes holds member by member, and three routines give holds back: its own undo
when a member is refused, and the loops of `Release` and `EndDrain`. They are written
separately; here they are shown to be inverse to each other, for every plan. A plan may
list a member twice or list one that is not registered, and a member may be held with
nothing or with a negative amount: all that matters is that no amount was negative before
(`amount_undo`).

* A rejected `Reserve` leaves the engine as it was, but for the counter of reservations
  (`rejected_reserve_changes_nothing`).
* After a `Reserve` that succeeds, every way out of the transaction brings the amounts
  back, and leaves the other compositions and reservations alone
  (`release_undoes_reserve`). Between the `Reserve` and the end of the way the engine is
  `Outstanding`: the members are held by one reservation and nothing else has moved.
-/

namespace DFabric

namespace Engine

/-! ### A rejected Reserve -/

/-- **A rejected `Reserve` changes nothing.** For every state without a negative amount and
every plan, a `Reserve` that does not succeed leaves every component of the engine as it
was, except the counter of reservations and the representation of the ledger; every
recorded amount is what it was. -/
theorem rejected_reserve_changes_nothing (s : Engine ℚ) (plan : CompositionPlan ℚ)
    (hnonneg : ∀ k, 0 ≤ Ledger.amount s.reservedAmount k)
    (hrejected : (s.reserve plan).2.ok = false) :
    ∃ held next, (s.reserve plan).1 = { s with reservedAmount := held, nextResv := next } ∧
      ∀ k, Ledger.amount held k = Ledger.amount s.reservedAmount k := by
  have hundo := amount_undo (s := s) plan.request plan plan.graph.vertices hnonneg fun _ => rfl
  unfold reserve at hrejected ⊢
  -- the two guards touch nothing
  split
  · exact ⟨s.reservedAmount, s.nextResv, rfl, fun _ => rfl⟩
  next hplanned =>
  split
  · exact ⟨s.reservedAmount, s.nextResv, rfl, fun _ => rfl⟩
  next hid =>
  rw [if_neg hplanned, if_neg hid] at hrejected
  rcases hm : s.reserveMembers plan.request plan.graph.vertices s.reservedAmount with
    ⟨held, items, _ | e⟩
  · rw [hm] at hrejected
    cases hrejected
  · rw [hm] at hundo
    exact ⟨_, _, rfl, hundo⟩

/-- A plan over the given members, as a client may write it. -/
def planOver (id : CompositionId) (members : List ResourceId) : CompositionPlan ℚ :=
  { samplePlan with id := id, graph := { samplePlan.graph with vertices := members } }

/-- The sample engine after its transaction, with a second resource registered. -/
def secondRegistered : Engine ℚ :=
  (fresh sampleConfig).run
    (sampleOps ++ sampleTransaction ++ [.registerResource (sampleMemory ⟨2⟩ 16)])

/-- The second resource is free and listed twice, the first is held by the transaction: the
plan is refused, and both amounts stay. -/
theorem secondRegistered_refuses :
    (secondRegistered.reserve (planOver ⟨7⟩ [⟨2⟩, ⟨2⟩, ⟨1⟩])).2.ok = false ∧
    ∃ held next, (secondRegistered.reserve (planOver ⟨7⟩ [⟨2⟩, ⟨2⟩, ⟨1⟩])).1 =
        { secondRegistered with reservedAmount := held, nextResv := next } ∧
      ∀ k, Ledger.amount held k = Ledger.amount secondRegistered.reservedAmount k := by
  have hheld : Conserved (0 ≤ ·) secondRegistered :=
    conserved_run (fun _ h => h) sampleConfig (by decide +kernel)
  have hrejected :
      (secondRegistered.reserve (planOver ⟨7⟩ [⟨2⟩, ⟨2⟩, ⟨1⟩])).2.ok = false := by
    decide +kernel
  exact ⟨hrejected, rejected_reserve_changes_nothing secondRegistered _
    (hheld.amount_nonneg fun _ h => h) hrejected⟩

/-! ### Between Reserve and the way out -/

/-- What `s'` has in common with `s` beside the composition of a plan and the reservation
made for it. -/
structure Elsewhere (s : Engine ℚ) (plan : CompositionPlan ℚ) (s' : Engine ℚ) : Prop where
  compositions : ∀ id, id ≠ plan.id → s'.compositions.lookup id = s.compositions.lookup id
  reservations : ∀ rid, rid ≠ ⟨s.nextResv⟩ →
    s'.reservations.lookup rid = s.reservations.lookup rid

/-- The plan reserved in `s` is still reserved in `s'`: its composition refers to the
reservation, which lists the holds that were taken, and the amounts are those `Reserve`
left. -/
structure Outstanding (s : Engine ℚ) (plan : CompositionPlan ℚ) (s' : Engine ℚ) : Prop
    extends Elsewhere s plan s' where
  composition : ∃ c, s'.compositions.lookup plan.id = some c ∧ c.reservation = ⟨s.nextResv⟩
  reservation : ∃ r, s'.reservations.lookup ⟨s.nextResv⟩ = some r ∧ r.composition = plan.id ∧
    r.holds = (s.reserve plan).2.payload.holds
  amounts : ∀ k, Ledger.amount s'.reservedAmount k =
    Ledger.amount (s.reserve plan).1.reservedAmount k

/-- The plan reserved in `s` is over in `s'`: its composition is released, and the amounts
are those of before. -/
structure Undone (s : Engine ℚ) (plan : CompositionPlan ℚ) (s' : Engine ℚ) : Prop
    extends Elsewhere s plan s' where
  composition : ∃ c, s'.compositions.lookup plan.id = some c ∧ c.lifecycle = .released
  amounts : ∀ k, Ledger.amount s'.reservedAmount k = Ledger.amount s.reservedAmount k

section WaysOut

variable {s s' : Engine ℚ} {plan : CompositionPlan ℚ}

/-- Storing the composition of the plan touches no other one. -/
theorem Elsewhere.insert (h : Elsewhere s plan s') {s'' : Engine ℚ} {c : Composition ℚ}
    (hc : s''.compositions = s'.compositions.insert plan.id c)
    (hr : ∀ rid, rid ≠ ⟨s.nextResv⟩ →
      s''.reservations.lookup rid = s'.reservations.lookup rid) : Elsewhere s plan s'' where
  compositions id hid := by
    rw [hc, UMap.lookup_insert_eq_ite, if_neg hid, h.compositions id hid]
  reservations rid hrid := by rw [hr rid hrid, h.reservations rid hrid]

/-- A step that only changes the lifecycle or the outcome of the composition. -/
theorem Outstanding.insert (h : Outstanding s plan s') {s'' : Engine ℚ} {c : Composition ℚ}
    (hc : s''.compositions = s'.compositions.insert plan.id c)
    (href : c.reservation = ⟨s.nextResv⟩) (hr : s''.reservations = s'.reservations)
    (ha : s''.reservedAmount = s'.reservedAmount) : Outstanding s plan s'' where
  toElsewhere := h.toElsewhere.insert hc fun _ _ => by rw [hr]
  composition := ⟨c, by rw [hc, UMap.lookup_insert_eq_ite, if_pos rfl], href⟩
  reservation := by rw [hr]; exact h.reservation
  amounts := by rw [ha]; exact h.amounts

/-- The reservation that is returned carries the counter as its id. -/
theorem reserve_payload_id (hok : (s.reserve plan).2.ok = true) :
    (s.reserve plan).2.payload.id = ⟨s.nextResv⟩ := by
  obtain ⟨held, items, -, heq⟩ := reserve_ok hok
  rw [heq]
  rfl

theorem outstanding_reserve (hok : (s.reserve plan).2.ok = true) :
    Outstanding s plan (s.reserve plan).1 := by
  obtain ⟨held, items, -, heq⟩ := reserve_ok hok
  -- `Reserve` writes under its two ids
  have hself : Elsewhere s plan s := ⟨fun _ _ => rfl, fun _ _ => rfl⟩
  rw [heq]
  exact
    { toElsewhere := hself.insert rfl fun rid hrid => by
        change (s.reservations.insert _ _).lookup rid = _
        rw [UMap.lookup_insert_eq_ite, if_neg hrid]
      composition := ⟨s.newComposition plan, AList.lookup_insert _, rfl⟩
      reservation := ⟨s.newReservation plan items, AList.lookup_insert _, rfl,
        by rw [heq]⟩
      amounts := fun _ => by rw [heq] }

/-- `Commit` keeps the holds. -/
theorem Outstanding.commit (h : Outstanding s plan s') {resIn : Reservation ℚ}
    (hid : resIn.id = ⟨s.nextResv⟩) (hok : (s'.commit resIn).2.ok = true) :
    Outstanding s plan (s'.commit resIn).1 := by
  obtain ⟨resv, comp, held, hr, -, hc, -, hv, heq⟩ := commit_ok hok
  rw [hid] at hr
  -- what is committed is the reservation that was made, and the composition it is for
  obtain ⟨r, hr', hplan, hholds⟩ := h.reservation
  obtain rfl : resv = r := Option.some.inj (hr.symm.trans hr')
  obtain ⟨c, hc', href⟩ := h.composition
  rw [hplan] at hc
  obtain rfl : comp = c := Option.some.inj (hc.symm.trans hc')
  rw [heq]
  refine
    { toElsewhere := h.toElsewhere.insert (c := { comp with lifecycle := .committed }) ?_ ?_
      composition := ⟨{ comp with lifecycle := .committed }, ?_, href⟩
      reservation := ⟨resv.committed, ?_, hplan, ?_⟩
      amounts := fun k => ?_ }
  · exact congrArg (s'.compositions.insert · _) hplan
  · intro rid hrid
    change (s'.reservations.insert resIn.id _).lookup rid = _
    rw [hid, UMap.lookup_insert_eq_ite, if_neg hrid]
  · change (s'.compositions.insert resv.composition _).lookup plan.id = _
    rw [hplan, UMap.lookup_insert_eq_ite, if_pos rfl]
  · change (s'.reservations.insert resIn.id _).lookup _ = _
    rw [hid, UMap.lookup_insert_eq_ite, if_pos rfl]
  · rw [resv.holds_committed, hholds]
  · exact (verifyItems_ledger hv k).trans (h.amounts k)

theorem Outstanding.activate (h : Outstanding s plan s')
    (hok : (s'.activate plan.id).2.ok = true) : Outstanding s plan (s'.activate plan.id).1 := by
  obtain ⟨comp, hc, -, -, heq⟩ := activate_done hok
  obtain ⟨c, hc', href⟩ := h.composition
  obtain rfl : comp = c := Option.some.inj (hc.symm.trans hc')
  rw [heq]
  exact h.insert rfl href rfl rfl

theorem Outstanding.beginDrain (h : Outstanding s plan s')
    (hok : (s'.beginDrain plan.id).2 = true) : Outstanding s plan (s'.beginDrain plan.id).1 := by
  obtain ⟨comp, hc, heq⟩ := beginDrain_done hok
  obtain ⟨c, hc', href⟩ := h.composition
  obtain rfl : comp = c := Option.some.inj (hc.symm.trans hc')
  rw [heq]
  exact h.insert rfl href rfl rfl

/-- **The end of the way.** Ending the composition gives back exactly what `Reserve`
took. -/
theorem Outstanding.endComposition (hnonneg : ∀ k, 0 ≤ Ledger.amount s.reservedAmount k)
    (hok : (s.reserve plan).2.ok = true) (h : Outstanding s plan s') {c : Composition ℚ}
    (hc : s'.compositions.lookup plan.id = some c) :
    Undone s plan (s'.endComposition plan.id c) := by
  obtain ⟨c', hc', href⟩ := h.composition
  obtain rfl : c = c' := Option.some.inj (hc.symm.trans hc')
  obtain ⟨r, hr, -, hholds⟩ := h.reservation
  obtain ⟨held, items, hm, heq⟩ := reserve_ok hok
  have hamounts := h.amounts
  rw [heq] at hholds hamounts
  refine
    { toElsewhere := h.toElsewhere.insert (s'.compositions_endComposition plan.id c) ?_
      composition := ⟨{ c with lifecycle := .released }, ?_, rfl⟩
      amounts := fun k => ?_ }
  · intro rid hrid
    rw [← href] at hrid
    exact lookup_reservations_endComposition_of_ne hrid
  · rw [compositions_endComposition, UMap.lookup_insert_eq_ite, if_pos rfl]
  · rw [reservedAmount_endComposition, href, hr]
    dsimp only
    rw [hholds]
    -- what is recorded now is what `Reserve` left, and the holds are its items
    have hundo := amount_undo (s := s) plan.request plan plan.graph.vertices hnonneg
      (m := s'.reservedAmount) (fun k => by rw [hm]; exact hamounts k) k
    rw [hm] at hundo
    exact hundo

/-! ### The ways out -/

/-- Whether an operation of a transaction, or of a way out of it, succeeds. -/
def succeeds (s : Engine ℚ) : Op ℚ → Bool
  | .reserve plan => (s.reserve plan).2.ok
  | .commit resIn => (s.commit resIn).2.ok
  | .activate id => (s.activate id).2.ok
  | .beginDrain id => (s.beginDrain id).2
  | .endDrain id => (s.endDrain id).2
  | .release id => (s.release id).2
  | _ => true

/-- The ways from a reservation to its end. -/
def waysOut (id : CompositionId) (resv : Reservation ℚ) : List (List (Op ℚ)) := [
  [.release id],
  [.commit resv, .release id],
  [.commit resv, .activate id, .release id],
  [.commit resv, .beginDrain id, .endDrain id],
  [.commit resv, .activate id, .beginDrain id, .endDrain id]]

theorem Outstanding.release (hnonneg : ∀ k, 0 ≤ Ledger.amount s.reservedAmount k)
    (hok : (s.reserve plan).2.ok = true) (h : Outstanding s plan s')
    (hrel : (s'.release plan.id).2 = true) : Undone s plan (s'.release plan.id).1 := by
  obtain ⟨c, hc, heq⟩ := release_done hrel
  obtain ⟨helse, hcomp, hamounts⟩ := h.endComposition hnonneg hok hc
  rw [heq]
  exact ⟨⟨helse.compositions, helse.reservations⟩, hcomp, hamounts⟩

theorem Outstanding.endDrain (hnonneg : ∀ k, 0 ≤ Ledger.amount s.reservedAmount k)
    (hok : (s.reserve plan).2.ok = true) (h : Outstanding s plan s')
    (hend : (s'.endDrain plan.id).2 = true) : Undone s plan (s'.endDrain plan.id).1 := by
  obtain ⟨c, hc, heq⟩ := endDrain_done hend
  obtain ⟨helse, hcomp, hamounts⟩ := h.endComposition hnonneg hok hc
  rw [heq]
  exact ⟨⟨helse.compositions, helse.reservations⟩, hcomp, hamounts⟩

/-- Every way out undoes the `Reserve`. -/
theorem undone_of_waysOut (hnonneg : ∀ k, 0 ≤ Ledger.amount s.reservedAmount k)
    (hok : (s.reserve plan).2.ok = true) {ops : List (Op ℚ)}
    (hway : ops ∈ waysOut plan.id (s.reserve plan).2.payload)
    (hsteps : Along (fun s op => s.succeeds op = true) (s.reserve plan).1 ops) :
    Undone s plan ((s.reserve plan).1.run ops) := by
  have hstart := outstanding_reserve hok
  have hpayload := reserve_payload_id hok
  simp only [waysOut, List.mem_cons, List.not_mem_nil, or_false] at hway
  -- each way is a sequence of steps that keep the plan outstanding, and one that ends it
  rcases hway with rfl | rfl | rfl | rfl | rfl
  · obtain ⟨h₁, -⟩ := hsteps
    exact hstart.release hnonneg hok h₁
  · obtain ⟨h₁, h₂, -⟩ := hsteps
    exact (hstart.commit hpayload h₁).release hnonneg hok h₂
  · obtain ⟨h₁, h₂, h₃, -⟩ := hsteps
    exact ((hstart.commit hpayload h₁).activate h₂).release hnonneg hok h₃
  · obtain ⟨h₁, h₂, h₃, -⟩ := hsteps
    exact ((hstart.commit hpayload h₁).beginDrain h₂).endDrain hnonneg hok h₃
  · obtain ⟨h₁, h₂, h₃, h₄, -⟩ := hsteps
    exact (((hstart.commit hpayload h₁).activate h₂).beginDrain h₃).endDrain hnonneg hok h₄

end WaysOut

/-- **Release undoes Reserve.** For every state without a negative amount and every plan that
is reserved, each way out whose steps all succeed brings every amount back to what it was
before the `Reserve`, leaves every other composition and reservation as it was, and a
further `Release` of the composition returns false and changes nothing. -/
theorem release_undoes_reserve (s : Engine ℚ) (plan : CompositionPlan ℚ)
    (hnonneg : ∀ k, 0 ≤ Ledger.amount s.reservedAmount k)
    (hok : (s.reserve plan).2.ok = true) (ops : List (Op ℚ))
    (hway : ops ∈ waysOut plan.id (s.reserve plan).2.payload)
    (hsteps : Along (fun s op => s.succeeds op = true) (s.reserve plan).1 ops) :
    let s' := (s.reserve plan).1.run ops
    (∀ k, Ledger.amount s'.reservedAmount k = Ledger.amount s.reservedAmount k) ∧
      (∀ id, id ≠ plan.id → s'.compositions.lookup id = s.compositions.lookup id) ∧
      (∀ rid, rid ≠ (s.reserve plan).2.payload.id →
        s'.reservations.lookup rid = s.reservations.lookup rid) ∧
      s'.release plan.id = (s', false) := by
  intro s'
  have hundone : Undone s plan s' := undone_of_waysOut hnonneg hok hway hsteps
  obtain ⟨c, hc, hreleased⟩ := hundone.composition
  rw [reserve_payload_id hok]
  exact ⟨hundone.amounts, hundone.compositions, hundone.reservations,
    release_of_released hc hreleased⟩

/-- The second resource is reserved, committed, activated and drained beside the first
transaction, whose 64 bytes stay. -/
theorem secondRegistered_drained :
    let s₁ := (secondRegistered.reserve (planOver ⟨7⟩ [⟨2⟩])).1
    let resv := (secondRegistered.reserve (planOver ⟨7⟩ [⟨2⟩])).2.payload
    let s₂ := s₁.run [.commit resv, .activate ⟨7⟩, .beginDrain ⟨7⟩, .endDrain ⟨7⟩]
    Ledger.amount s₁.reservedAmount ⟨2⟩ = 16 ∧ Ledger.amount s₂.reservedAmount ⟨2⟩ = 0 ∧
      Ledger.amount s₂.reservedAmount ⟨1⟩ = 64 ∧ s₂.release ⟨7⟩ = (s₂, false) := by
  intro s₁ resv s₂
  have hheld : Conserved (0 ≤ ·) secondRegistered :=
    conserved_run (fun _ h => h) sampleConfig (by decide +kernel)
  obtain ⟨hamounts, -, -, hagain⟩ := release_undoes_reserve secondRegistered (planOver ⟨7⟩ [⟨2⟩])
    (hheld.amount_nonneg fun _ h => h) (by decide +kernel)
    [.commit resv, .activate ⟨7⟩, .beginDrain ⟨7⟩, .endDrain ⟨7⟩]
    (List.mem_of_getElem? (i := 4) rfl) (by decide +kernel)
  refine ⟨by decide +kernel, (hamounts ⟨2⟩).trans (by decide +kernel),
    (hamounts ⟨1⟩).trans (by decide +kernel), hagain⟩

end Engine

end DFabric
