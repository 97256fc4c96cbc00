import DisaggregationFabric.Safety.Holds

/-!
# Orphaned holds

A hold is given back through the composition that refers to its reservation. So a
resource that is recorded as held should be listed by the reservation of a stored
composition that has not ended: then releasing that composition frees it (`Owns`).

Three maps take part, and each way of losing the connection is excluded by one clause
of `KeepsOwners`.

* `Load` drops the reservations and replaces the compositions, but leaves the ledger
  as it is (`load_orphans_hold`).
* `Reserve` overwrites the composition stored under the id of its plan, and after the
  counter has wrapped around also a reservation.
* A negative hold makes a release *add* to the ledger.

What a run keeps is more than the connection: the reservation of the owner accounts for
all that is recorded of the resource (`Owned`), so nothing is left after the release.
-/

namespace DFabric

/-- The reservation lists the resource. -/
def Reservation.Lists {D : Type} (v : Reservation D) (r : ResourceId) : Prop :=
  ∃ i ∈ v.items, i.resource = r

instance {D : Type} (v : Reservation D) (r : ResourceId) : Decidable (v.Lists r) :=
  inferInstanceAs (Decidable (∃ i ∈ v.items, _))

/-- A reservation that charges a resource lists it. -/
theorem Reservation.lists_of_charge_pos {v : Reservation ℚ} {r : ResourceId}
    (h : 0 < Ledger.charge v.holds r) : v.Lists r := by
  by_contra hnot
  refine absurd (Ledger.charge_eq_zero ?_) h.ne'
  intro e he her
  obtain ⟨i, hi, rfl⟩ := List.mem_map.mp he
  exact absurd ⟨i, hi, her⟩ hnot

namespace Engine

/-- The composition is stored and has not ended, and its reservation lists the
resource. -/
structure Owns (s : Engine ℚ) (c : Composition ℚ) (r : ResourceId) : Prop where
  stored : s.compositions.lookup c.id = some c
  not_over : ¬ c.lifecycle.IsOver
  lists : ∃ v ∈ s.reservations.lookup c.reservation, v.Lists r

/-- What is recorded of the resource is accounted for by the reservation of a
composition that has not ended. -/
def Owned (s : Engine ℚ) (r : ResourceId) : Prop :=
  ∃ id c v, s.compositions.lookup id = some c ∧ ¬ c.lifecycle.IsOver ∧
    s.reservations.lookup c.reservation = some v ∧
    Ledger.amount s.reservedAmount r ≤ Ledger.charge v.holds r

/-- Nothing is owed, and all that is held is owned. -/
structure Recoverable (s : Engine ℚ) : Prop where
  amount_nonneg : ∀ r, 0 ≤ Ledger.amount s.reservedAmount r
  amounts : ∀ rid v, s.reservations.lookup rid = some v → v.Amounts (0 ≤ ·)
  owned : ∀ r, 0 < Ledger.amount s.reservedAmount r → s.Owned r

/-! ### The condition on a step -/

/-- No resource outside the plan that is recorded as held is listed by a reservation
which a `Reserve` of the plan cuts off: the one of the open composition under the id of
the plan, or the one under the next reservation id. -/
def CutsOffNothing (s : Engine ℚ) (plan : CompositionPlan ℚ) : Prop :=
  (∀ c ∈ s.compositions.lookup plan.id, ¬ c.lifecycle.IsOver →
    ∀ v ∈ s.reservations.lookup c.reservation, ∀ i ∈ v.items,
      0 < Ledger.amount s.reservedAmount i.resource → i.resource ∈ plan.graph.vertices) ∧
  ∀ v ∈ s.reservations.lookup (⟨s.nextResv⟩ : ReservationId), ∀ i ∈ v.items,
    0 < Ledger.amount s.reservedAmount i.resource → i.resource ∈ plan.graph.vertices

/-- The operation keeps what is held connected with the compositions. -/
structure KeepsOwners (s : Engine ℚ) (op : Op ℚ) : Prop where
  /-- A file is loaded when nothing is held. -/
  load : ∀ file ∈ op.file?, (loadImpl file : Except Str (DurableState ℚ)).isOk = true →
    ∀ e ∈ s.reservedAmount.entries, e.2 ≤ 0
  /-- A plan is reserved when no registered member has a negative hold amount. -/
  takes : ∀ plan ∈ op.plan?, TakesAmounts (0 ≤ ·) s plan.request plan.graph.vertices
  /-- A plan is reserved when that cuts nothing off. -/
  cuts : ∀ plan ∈ op.plan?, s.CutsOffNothing plan

instance (s : Engine ℚ) (plan : CompositionPlan ℚ) : Decidable (s.CutsOffNothing plan) :=
  inferInstanceAs (Decidable ((∀ c ∈ s.compositions.lookup plan.id, _) ∧ ∀ v ∈ _, _))

instance (s : Engine ℚ) (op : Op ℚ) : Decidable (KeepsOwners s op) :=
  decidable_of_iff
    ((∀ file ∈ op.file?, (loadImpl file : Except Str (DurableState ℚ)).isOk = true →
        ∀ e ∈ s.reservedAmount.entries, e.2 ≤ 0) ∧
      (∀ plan ∈ op.plan?, TakesAmounts (0 ≤ ·) s plan.request plan.graph.vertices) ∧
      ∀ plan ∈ op.plan?, s.CutsOffNothing plan)
    ⟨fun h => ⟨h.1, h.2.1, h.2.2⟩, fun h => ⟨h.load, h.takes, h.cuts⟩⟩

/-! ### One step -/

/-- Every reservation is still stored, with the holds it had. -/
def HoldsKept (s s' : Engine ℚ) : Prop :=
  ∀ rid v, s.reservations.lookup rid = some v →
    ∃ v', s'.reservations.lookup rid = some v' ∧ v'.holds = v.holds

/-- Every composition that has not ended is still stored and has not ended, and refers
to the reservation it referred to. -/
def OwnersKept (s s' : Engine ℚ) : Prop :=
  ∀ id c, s.compositions.lookup id = some c → ¬ c.lifecycle.IsOver →
    ∃ c', s'.compositions.lookup id = some c' ∧ ¬ c'.lifecycle.IsOver ∧
      c'.reservation = c.reservation

section Kept

variable {s s' : Engine ℚ}

theorem HoldsKept.of_eq (h : s'.reservations = s.reservations) : HoldsKept s s' := by
  intro rid v hv
  exact ⟨v, by rw [h, hv], rfl⟩

theorem HoldsKept.insert {rid : ReservationId} {v v' : Reservation ℚ}
    (heq : s'.reservations = s.reservations.insert rid v')
    (hv : s.reservations.lookup rid = some v) (hholds : v'.holds = v.holds) : HoldsKept s s' := by
  intro rid' w hw
  rw [heq, UMap.lookup_insert_eq_ite]
  split
  · next hid =>
    rw [hid, hv] at hw
    cases hw
    exact ⟨v', rfl, hholds⟩
  · exact ⟨w, hw, rfl⟩

theorem OwnersKept.of_eq (h : s'.compositions = s.compositions) : OwnersKept s s' := by
  intro id c hc hover
  exact ⟨c, by rw [h, hc], hover, rfl⟩

theorem OwnersKept.insert {k : CompositionId} {c c' : Composition ℚ}
    (heq : s'.compositions = s.compositions.insert k c')
    (hc : s.compositions.lookup k = some c) (hresv : c'.reservation = c.reservation)
    (hover : ¬ c'.lifecycle.IsOver) : OwnersKept s s' := by
  intro id c₀ hc₀ hover₀
  rw [heq, UMap.lookup_insert_eq_ite]
  split
  · next hid =>
    rw [hid, hc] at hc₀
    cases hc₀
    exact ⟨c', rfl, hover, hresv⟩
  · exact ⟨c₀, hc₀, hover₀, rfl⟩

/-- A demotion ends nothing. -/
theorem Quiet.ownersKept (h : Quiet s s') : OwnersKept s s' := by
  intro id c hc hover
  obtain ⟨c', hc', hd⟩ := h.compositions.forth hc
  exact ⟨c', hc', hd.not_over hover, hd.reservation⟩

end Kept

namespace Recoverable

variable {s s' : Engine ℚ}

/-- What is held after was held before, and owners and holds are kept. -/
theorem mono (h : s.Recoverable) (hnonneg : ∀ r, 0 ≤ Ledger.amount s'.reservedAmount r)
    (hle : ∀ r, Ledger.amount s'.reservedAmount r ≤ Ledger.amount s.reservedAmount r)
    (hamounts : ∀ rid v, s'.reservations.lookup rid = some v → v.Amounts (0 ≤ ·))
    (howners : OwnersKept s s') (hholds : HoldsKept s s') : s'.Recoverable where
  amount_nonneg := hnonneg
  amounts := hamounts
  owned := by
    intro r hr
    -- the owner is there still, with the same reservation
    obtain ⟨id, c, v, hc, hover, hv, hcharge⟩ := h.owned r (hr.trans_le (hle r))
    obtain ⟨c', hc', hover', hresv⟩ := howners id c hc hover
    obtain ⟨v', hv', hsame⟩ := hholds c.reservation v hv
    refine ⟨id, c', v', hc', hover', ?_, ?_⟩
    · rw [hresv, hv']
    · rw [hsame]
      exact (hle r).trans hcharge

/-- No amount changes, and owners and holds are kept. -/
theorem congr (h : s.Recoverable)
    (ha : ∀ r, Ledger.amount s'.reservedAmount r = Ledger.amount s.reservedAmount r)
    (hamounts : ∀ rid v, s'.reservations.lookup rid = some v → v.Amounts (0 ≤ ·))
    (howners : OwnersKept s s') (hholds : HoldsKept s s') : s'.Recoverable :=
  h.mono (fun r => (h.amount_nonneg r).trans_eq (ha r).symm) (fun r => (ha r).le) hamounts howners
    hholds

theorem holds_nonneg (h : s.Recoverable) {rid : ReservationId} {v : Reservation ℚ}
    (hv : s.reservations.lookup rid = some v) : ∀ e ∈ v.holds, 0 ≤ e.2 :=
  (h.amounts rid v hv).holds_nonneg

/-- Giving the holds of a reservation back. -/
theorem amount_releaseAll (h : s.Recoverable) {rid : ReservationId} {v : Reservation ℚ}
    (hv : s.reservations.lookup rid = some v) {held : OrdMap ResourceId ℚ}
    (heq : ∀ k, Ledger.amount held k = Ledger.amount s.reservedAmount k) (k : ResourceId) :
    Ledger.amount (Ledger.releaseAll held v.holds) k =
      max 0 (Ledger.amount s.reservedAmount k - Ledger.charge v.holds k) := by
  have hnonneg : 0 ≤ Ledger.amount held k := by
    rw [heq]
    exact h.amount_nonneg k
  rw [Ledger.amount_releaseAll_max (h.holds_nonneg hv) held k hnonneg, heq]

/-- Then no more is recorded than before. -/
theorem releaseAll_le (h : s.Recoverable) {rid : ReservationId} {v : Reservation ℚ}
    (hv : s.reservations.lookup rid = some v) {held : OrdMap ResourceId ℚ}
    (heq : ∀ k, Ledger.amount held k = Ledger.amount s.reservedAmount k) (k : ResourceId) :
    Ledger.amount (Ledger.releaseAll held v.holds) k ≤ Ledger.amount s.reservedAmount k := by
  rw [h.amount_releaseAll hv heq]
  exact max_le (h.amount_nonneg k)
    (sub_le_self _ (Ledger.charge_nonneg (h.holds_nonneg hv) k))

/-- The amounts of the reservations after one was stored again with the holds it had. -/
theorem amounts_insert (h : s.Recoverable) {rid : ReservationId} {v v' : Reservation ℚ}
    (heq : s'.reservations = s.reservations.insert rid v')
    (hv : s.reservations.lookup rid = some v) (hholds : v'.holds = v.holds) :
    ∀ k w, s'.reservations.lookup k = some w → w.Amounts (0 ≤ ·) := by
  rw [heq]
  refine UMap.forall_lookup_insert h.amounts ?_
  intro i hi
  have hmem : (i.resource, i.reservedAmount) ∈ v'.holds := List.mem_map.mpr ⟨i, hi, rfl⟩
  rw [hholds] at hmem
  exact h.holds_nonneg hv _ hmem

/-- The composition that is reserved owns what its reservation accounts for. -/
theorem owned_of_taken {plan : CompositionPlan ℚ} {held : OrdMap ResourceId ℚ}
    {items : List (ReservationItem ℚ)} {r : ResourceId}
    (hle : Ledger.amount held r ≤ Ledger.charge (itemHolds items) r) :
    (s.storeReservation plan held items).Owned r := by
  refine ⟨plan.id, s.newComposition plan, s.newReservation plan items, ?_, ?_, ?_, hle⟩
  · change (s.compositions.insert _ _).lookup _ = _
    rw [UMap.lookup_insert_eq_ite, if_pos rfl]
  · rintro (hl | hl) <;> cases hl
  · change (s.reservations.insert _ _).lookup _ = _
    rw [UMap.lookup_insert_eq_ite]
    exact if_pos rfl

/-- The owner of a resource outside the plan stays its owner when nothing is cut off. -/
theorem owned_of_outside (h : s.Recoverable) {plan : CompositionPlan ℚ}
    {held : OrdMap ResourceId ℚ} {items : List (ReservationItem ℚ)} {r : ResourceId}
    (hcuts : s.CutsOffNothing plan) (hout : r ∉ plan.graph.vertices)
    (hpos : 0 < Ledger.amount s.reservedAmount r)
    (hsame : Ledger.amount held r = Ledger.amount s.reservedAmount r) :
    (s.storeReservation plan held items).Owned r := by
  obtain ⟨id, c, v, hc, hover, hv, hle⟩ := h.owned r hpos
  -- the owner lists `r`, so neither of its records is the one that is overwritten
  obtain ⟨i, hi, rfl⟩ := Reservation.lists_of_charge_pos (hpos.trans_le hle)
  have hid : id ≠ plan.id := by
    rintro rfl
    exact hout (hcuts.1 c hc hover v hv i hi hpos)
  have hrid : c.reservation ≠ ⟨s.nextResv⟩ := by
    intro heq
    rw [heq] at hv
    exact hout (hcuts.2 v hv i hi hpos)
  -- it is the owner still
  refine ⟨id, c, v, ?_, hover, ?_, ?_⟩
  · change (s.compositions.insert _ _).lookup id = _
    rw [UMap.lookup_insert_eq_ite, if_neg hid, hc]
  · change (s.reservations.insert _ _).lookup _ = _
    rw [UMap.lookup_insert_eq_ite, if_neg hrid, hv]
  · exact hsame.trans_le hle

/-- A successful `Reserve` owns what it took, and cuts nothing off. -/
theorem storeReservation (h : s.Recoverable) {plan : CompositionPlan ℚ}
    {held : OrdMap ResourceId ℚ} {items : List (ReservationItem ℚ)}
    (htakes : TakesAmounts (0 ≤ ·) s plan.request plan.graph.vertices)
    (hcuts : s.CutsOffNothing plan)
    (hm : s.reserveMembers plan.request plan.graph.vertices s.reservedAmount =
      (held, items, none)) :
    (s.storeReservation plan held items).Recoverable := by
  obtain ⟨hsum, hamounts, hfree⟩ := reserveMembers_ledger (fun _ hx => hx) htakes hm
  have hnew : (s.newReservation plan items).Amounts (0 ≤ ·) := hamounts
  refine ⟨?_, ?_, ?_⟩
  · intro r
    -- the plan adds to what was held
    have hcharge : 0 ≤ Ledger.charge (itemHolds items) r := Ledger.charge_nonneg hnew.holds_nonneg r
    have hbefore := h.amount_nonneg r
    change 0 ≤ Ledger.amount held r
    rw [hsum r]
    linarith
  · exact UMap.forall_lookup_insert h.amounts hnew
  · intro r hr
    by_cases hpos : 0 < Ledger.amount s.reservedAmount r
    · -- held before: then no member of the plan, since the members were free
      have hout : r ∉ items.map ReservationItem.resource := by
        intro hmem
        obtain ⟨i, hi, rfl⟩ := List.mem_map.mp hmem
        exact absurd hpos (not_lt.mpr (hfree i hi))
      have hcharge : Ledger.charge (itemHolds items) r = 0 := by
        refine Ledger.charge_eq_zero ?_
        intro e he her
        obtain ⟨i, hi, rfl⟩ := List.mem_map.mp he
        exact absurd (List.mem_map.mpr ⟨i, hi, her⟩) hout
      rw [reserveMembers_items hm] at hout
      exact h.owned_of_outside hcuts hout hpos (by rw [hsum, hcharge, add_zero])
    · -- nothing was held before: it is the new reservation that holds it
      refine owned_of_taken ?_
      rw [hsum r]
      linarith

/-- One composition goes, with nothing left of what it owned; the others stay. -/
theorem drop (h : s.Recoverable) {id : CompositionId} {comp comp' : Composition ℚ}
    (hc : s.compositions.lookup id = some comp)
    (hcomps : s'.compositions = s.compositions.insert id comp')
    (hnonneg : ∀ r, 0 ≤ Ledger.amount s'.reservedAmount r)
    (hle : ∀ r, Ledger.amount s'.reservedAmount r ≤ Ledger.amount s.reservedAmount r)
    (hfreed : ∀ v ∈ s.reservations.lookup comp.reservation, ∀ r,
      Ledger.amount s.reservedAmount r ≤ Ledger.charge v.holds r →
      Ledger.amount s'.reservedAmount r = 0)
    (hamounts : ∀ rid v, s'.reservations.lookup rid = some v → v.Amounts (0 ≤ ·))
    (hholds : HoldsKept s s') : s'.Recoverable := by
  refine ⟨hnonneg, hamounts, ?_⟩
  intro r hr
  obtain ⟨id₀, c, v, hc₀, hover, hv, hcharge⟩ := h.owned r (hr.trans_le (hle r))
  -- the owner is not the one that goes: of that one nothing is left
  have hid : id₀ ≠ id := by
    rintro rfl
    rw [hc] at hc₀
    cases hc₀
    exact absurd (hfreed v hv r hcharge) hr.ne'
  obtain ⟨v', hv', hsame⟩ := hholds c.reservation v hv
  refine ⟨id₀, c, v', ?_, hover, hv', ?_⟩
  · rw [hcomps, UMap.lookup_insert_eq_ite, if_neg hid, hc₀]
  · rw [hsame]
    exact (hle r).trans hcharge

/-- Ending a composition frees what it owned, and the other owners stay. -/
theorem endComposition (h : s.Recoverable) {id : CompositionId} {comp : Composition ℚ}
    (hc : s.compositions.lookup id = some comp) : (s.endComposition id comp).Recoverable := by
  have hresv := s.reservations_endComposition id comp
  have hamt := s.reservedAmount_endComposition id comp
  have hdrop := h.drop hc (s.compositions_endComposition id comp)
  -- without its reservation the composition gives nothing back
  rcases hr : s.reservations.lookup comp.reservation with _ | v
  · rw [hr] at hresv hamt
    refine hdrop ?_ ?_ (by simp [hr]) ?_ (.of_eq hresv)
    · intro r; rw [hamt]; exact h.amount_nonneg r
    · intro r; rw [hamt]
    · rw [hresv]; exact h.amounts
  · rw [hr] at hresv hamt
    refine hdrop ?_ ?_ ?_ (h.amounts_insert hresv hr rfl) (.insert hresv hr rfl)
    · -- what is given back is cut off at zero
      intro r
      rw [hamt, h.amount_releaseAll hr (fun _ => rfl)]
      exact le_max_left 0 _
    · intro r
      rw [hamt]
      exact h.releaseAll_le hr (fun _ => rfl) r
    · -- nothing is left of what this reservation alone accounted for
      intro v' hv' r hle
      rw [hr] at hv'
      cases hv'
      rw [hamt, h.amount_releaseAll hr (fun _ => rfl)]
      exact max_eq_left (sub_nonpos.mpr hle)

/-- **One step keeps what is held recoverable.** -/
theorem step {op : Op ℚ} (h : s.Recoverable) (hop : KeepsOwners s op) :
    (s.step op).Recoverable := by
  have heff := s.step_effect op
  generalize s.step op = s' at heff ⊢
  cases heff with
  | quiet hq =>
    refine h.congr ?_ ?_ hq.ownersKept (.of_eq hq.reservations)
    · intro r; rw [hq.reservedAmount]
    · rw [hq.reservations]; exact h.amounts
  | composed req paths _ => exact ⟨h.amount_nonneg, h.amounts, h.owned⟩
  | reserveFailed plan held items e hm =>
    refine h.congr ?_ h.amounts (.of_eq rfl) (.of_eq rfl)
    intro r
    exact amount_reserveFailed (fun _ hx => hx) (hop.takes plan rfl) hm (h.amount_nonneg r)
  | reserved plan held items _ _ hm =>
    exact h.storeReservation (hop.takes plan rfl) (hop.cuts plan rfl) hm
  | rolledBack resIn resv comp held reason hr _ hc _ hv =>
    refine h.mono ?_ (h.releaseAll_le hr (verifyItems_ledger hv)) (h.amounts_insert rfl hr rfl)
      (.insert rfl hc rfl ?_) (.insert rfl hr rfl)
    · intro r
      refine (le_max_left _ _).trans_eq (h.amount_releaseAll hr (verifyItems_ledger hv) r).symm
    · rintro (hl | hl) <;> cases hl
  | committed resIn resv comp held hr _ hc _ _ hv =>
    have hholds : resv.committed.holds = resv.holds := Reservation.holds_committed resv
    refine h.congr (verifyItems_ledger hv) (h.amounts_insert rfl hr hholds)
      (.insert rfl hc rfl ?_) (.insert rfl hr hholds)
    rintro (hl | hl) <;> cases hl
  | activated id comp hc _ _ _ _ =>
    refine h.congr (fun _ => rfl) h.amounts (.insert rfl hc rfl ?_) (.of_eq rfl)
    rintro (hl | hl) <;> cases hl
  | ended id comp fenced draining _ hc _ _ _ =>
    have hend := h.endComposition hc
    exact ⟨hend.amount_nonneg, hend.amounts, hend.owned⟩
  | loaded file d hd =>
    -- the ledger stays as it is, so nothing may be held
    have hzero := Ledger.amount_nonpos (hop.load file rfl (by rw [hd]; rfl))
    refine ⟨h.amount_nonneg, ?_, ?_⟩
    · intro rid v hv
      simp [importState] at hv
    · intro r hr
      exact absurd hr (not_lt.mpr (hzero r))

end Recoverable

theorem recoverable_fresh (cfg : EngineConfig) : (fresh cfg : Engine ℚ).Recoverable where
  amount_nonneg _ := le_rfl
  amounts rid v hv := by simp [fresh] at hv
  owned r hr := absurd hr (lt_irrefl 0)

/-! ### No orphaned holds -/

/-- Releasing an owner that accounts for all that is held leaves nothing. -/
theorem Recoverable.amount_release {s : Engine ℚ} (h : s.Recoverable) {c : Composition ℚ}
    {v : Reservation ℚ} (hc : s.compositions.lookup c.id = some c) (hover : ¬ c.lifecycle.IsOver)
    (hv : s.reservations.lookup c.reservation = some v) {r : ResourceId}
    (hle : Ledger.amount s.reservedAmount r ≤ Ledger.charge v.holds r) :
    Ledger.amount (s.release c.id).1.reservedAmount r = 0 := by
  have heq : (s.release c.id).1.reservedAmount = Ledger.releaseAll s.reservedAmount v.holds := by
    have hamt := s.reservedAmount_endComposition c.id c
    rw [hv] at hamt
    rw [release, hc]
    dsimp only
    rw [CompositionLifecycle.IsOver] at hover
    rw [if_neg hover]
    exact hamt
  rw [heq, h.amount_releaseAll hv (fun _ => rfl)]
  exact max_eq_left (sub_nonpos.mpr hle)

/-- **No orphaned holds.** In every run whose operations keep what is held connected
with the compositions, each resource recorded as held is listed by the reservation of a
stored composition that has not ended, and releasing that composition gives all of it
back. -/
theorem holds_owned (cfg : EngineConfig) (ops : List (Op ℚ))
    (hops : Along KeepsOwners (fresh cfg) ops) :
    let s := (fresh cfg).run ops
    ∀ r, 0 < Ledger.amount s.reservedAmount r →
      ∃ c, s.Owns c r ∧ Ledger.amount (s.release c.id).1.reservedAmount r = 0 := by
  intro s r hr
  have hinv : s.Recoverable :=
    Machine.invariant_of_along (recoverable_fresh cfg) (fun _ _ hs hop => hs.step hop) hops
  obtain ⟨id, c, v, hc, hover, hv, hle⟩ := hinv.owned r hr
  have hid : c.id = id := keyed_run (keyed_fresh cfg) ops id c hc
  rw [← hid] at hc
  have hlists : v.Lists r := Reservation.lists_of_charge_pos (hr.trans_le hle)
  exact ⟨c, ⟨hc, hover, v, hv, hlists⟩, hinv.amount_release hc hover hv hle⟩

/-- The 64 bytes the sample engine holds after its transaction are owned. -/
theorem sample_holds_owned :
    let s := (fresh sampleConfig).run (sampleOps ++ sampleTransaction)
    ∃ c, s.Owns c ⟨1⟩ ∧ Ledger.amount (s.release c.id).1.reservedAmount ⟨1⟩ = 0 :=
  holds_owned sampleConfig (sampleOps ++ sampleTransaction) (by decide +kernel) ⟨1⟩
    (by decide +kernel)

/-- The sample plan is reserved. -/
def reservedOps : List (Op ℚ) :=
  sampleOps ++ [.compose (sampleRequest 32), .reserve samplePlan]

/-- Then the engine loads the file it has just saved. -/
def reloadOps : List (Op ℚ) :=
  reservedOps ++ [.load ((fresh sampleConfig).run reservedOps).savedFile]

/-- **A load orphans what is held.** The 64 bytes stay recorded, and there is no
reservation any more. -/
theorem load_orphans_hold :
    ¬ ∀ (cfg : EngineConfig) (ops : List (Op ℚ)) (r : ResourceId),
      0 < Ledger.amount ((fresh cfg).run ops).reservedAmount r →
        ∃ c, ((fresh cfg).run ops).Owns c r := by
  intro h
  obtain ⟨c, hc⟩ := h sampleConfig reloadOps ⟨1⟩ (by decide +kernel)
  obtain ⟨v, hv, -⟩ := hc.lists
  have hnone : ((fresh sampleConfig).run reloadOps).reservations.values = [] := by decide +kernel
  have hmem := UMap.mem_values_of_lookup hv
  rw [hnone] at hmem
  exact absurd hmem List.not_mem_nil

end Engine

end DFabric
