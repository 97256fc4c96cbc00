import DisaggregationFabric.Safety.Authority

/-!
# The account of holds

The ledger `reservedAmount` is a summary of the reservations: what it records of a
resource should be what the provisional and committed reservations hold of it
(`Conserved`), and no resource should be held by two of them (`Exclusive`). Both are
read at `ℚ`, so that nothing is lost to rounding.

The account is kept by hand in five places, and there are two ways to lose it.

* Ending a composition gives the holds of its reservation back without looking at
  the reservation's own state. When they were given back before, by a rollback or
  an earlier release, and someone else holds a resource by now, it is that hold
  which is given back (`release_frees_another_hold`).
* A resource whose hold amounts to nothing is not protected by the ledger, so two
  reservations can take it (`zero_hold_taken_twice`).

`Accounted` excludes both, with the amounts that may be taken as a parameter: with
amounts from zero on the ledger is conserved (`holds_conserved`), with positive ones
the holds are exclusive too (`holds_exclusive`).
-/

namespace DFabric

/-- What a reservation holds of a resource: nothing unless it is live. -/
def Reservation.held (v : Reservation ℚ) (r : ResourceId) : ℚ :=
  if v.IsLive then Ledger.charge v.holds r else 0

/-- All amounts of the reservation satisfy `P`. -/
def Reservation.Amounts (P : ℚ → Prop) (v : Reservation ℚ) : Prop :=
  ∀ i ∈ v.items, P i.reservedAmount

namespace Reservation

variable {v : Reservation ℚ}

theorem held_of_live (h : v.IsLive) (r : ResourceId) : v.held r = Ledger.charge v.holds r :=
  if_pos h

theorem held_of_not_live (h : ¬ v.IsLive) (r : ResourceId) : v.held r = 0 := if_neg h

/-- The holds of a reservation with amounts from zero on. -/
theorem Amounts.holds_nonneg (h : v.Amounts (0 ≤ ·)) : ∀ e ∈ v.holds, 0 ≤ e.2 := by
  intro e he
  obtain ⟨i, hi, rfl⟩ := List.mem_map.mp he
  exact h i hi

theorem Amounts.held_nonneg (h : v.Amounts (0 ≤ ·)) (r : ResourceId) : 0 ≤ v.held r := by
  unfold held
  split
  · exact Ledger.charge_nonneg h.holds_nonneg r
  · exact le_rfl

/-- The holds of a reservation do not change when it is committed. -/
theorem holds_committed (v : Reservation ℚ) : v.committed.holds = v.holds := by
  simp [committed, holds, Function.comp_def]

/-- A live reservation with positive amounts holds something of its resources. -/
theorem Amounts.held_pos (h : v.Amounts (0 < ·)) (hl : v.IsLive) {i : ReservationItem ℚ}
    (hi : i ∈ v.items) : 0 < v.held i.resource := by
  have hnonneg : v.Amounts (0 ≤ ·) := fun i hi => (h i hi).le
  have hmem : (i.resource, i.reservedAmount) ∈ v.holds := List.mem_map.mpr ⟨i, hi, rfl⟩
  have hle := Ledger.le_charge_of_mem hnonneg.holds_nonneg hmem
  have hpos : 0 < i.reservedAmount := h i hi
  rw [held_of_live hl]
  exact hpos.trans_le hle

end Reservation

namespace Engine

/-! ### What the loops do to the ledger -/

section Loops

variable {P : ℚ → Prop} {s : Engine ℚ} {req : CompositionRequest ℚ}

/-- The holds of a list of items. -/
def itemHolds (items : List (ReservationItem ℚ)) : List (ResourceId × ℚ) :=
  items.map fun i => (i.resource, i.reservedAmount)

/-- The registered members have hold amounts that satisfy `P`. -/
def TakesAmounts (P : ℚ → Prop) (s : Engine ℚ) (req : CompositionRequest ℚ)
    (vertices : List ResourceId) : Prop :=
  ∀ v ∈ vertices, ∀ r ∈ s.resources.lookup v, P (holdAmountForResource r req)

/-- **The member loop of `Reserve`.** The ledger grows by exactly the items, their
amounts are as the members allow, and what was taken was free before. -/
theorem reserveMembers_ledger (hP : ∀ x, P x → 0 ≤ x) {vertices : List ResourceId}
    {held held' : OrdMap ResourceId ℚ} {items : List (ReservationItem ℚ)} {e : Option Rejection}
    (hv : TakesAmounts P s req vertices)
    (h : s.reserveMembers req vertices held = (held', items, e)) :
    (∀ k, Ledger.amount held' k = Ledger.amount held k + Ledger.charge (itemHolds items) k) ∧
      (∀ i ∈ items, P i.reservedAmount) ∧
      ∀ i ∈ items, Ledger.amount held i.resource ≤ 0 := by
  -- by induction on the vertices, for whatever the ledger is at that point of the loop
  induction vertices generalizing held held' items e with
  | nil =>
    cases h
    exact ⟨fun k => (add_zero _).symm, by simp, by simp⟩
  | cons rid rest ih =>
    obtain ⟨r, hr, hfree, hm⟩ | ⟨e', hm | hm⟩ := s.reserveMember_cases req held rid
    · -- the member is held, and the rest of the loop sees its amount
      rw [reserveMembers, hm] at h
      set amt := holdAmountForResource r req with hamt
      have hpos : P amt := hv rid List.mem_cons_self r hr
      have htail : TakesAmounts P s req rest := fun v hmem => hv v (List.mem_cons_of_mem rid hmem)
      rcases hrest : s.reserveMembers req rest
        (Ledger.add (Ledger.touch held rid) rid amt) with ⟨held₂, items₂, e₂⟩
      simp only [hrest] at h
      cases h
      obtain ⟨hsum, hamounts, hbefore⟩ := ih htail hrest
      have hone : ∀ k, Ledger.amount (Ledger.add (Ledger.touch held rid) rid amt) k =
          Ledger.amount held k + Ledger.charge [(rid, amt)] k := by
        intro k
        rw [Ledger.amount_add, Ledger.amount_touch]
      refine ⟨?_, ?_, ?_⟩
      · intro k
        have hcons := Ledger.charge_head_add (rid, amt) (itemHolds items₂) k
        rw [hsum k, hone k, add_assoc, ← hcons]
        rfl
      · intro i hi
        rcases List.mem_cons.mp hi with rfl | hi
        · exact hpos
        · exact hamounts i hi
      · intro i hi
        rcases List.mem_cons.mp hi with rfl | hi
        · rw [Ledger.amount_touch] at hfree
          simpa using hfree
        · -- later members were free even with the amount of this one added
          have hlater := hbefore i hi
          rw [hone] at hlater
          have hadd : 0 ≤ Ledger.charge [(rid, amt)] i.resource := by
            refine Ledger.charge_nonneg (fun e he => ?_) _
            rw [List.mem_singleton.mp he]
            exact hP amt hpos
          linarith
    · rw [reserveMembers, hm] at h
      cases h
      exact ⟨fun k => (add_zero _).symm, by simp, by simp⟩
    · -- stopped after the entry was created: its amount is still zero
      rw [reserveMembers, hm] at h
      cases h
      refine ⟨?_, by simp, by simp⟩
      intro k
      rw [Ledger.amount_touch]
      exact (add_zero _).symm

/-- The check loop of `Commit` changes no amount. -/
theorem verifyItems_ledger {items : List (ReservationItem ℚ)} {held held' : OrdMap ResourceId ℚ}
    {reason : Option RejectionReason} (h : s.verifyItems req items held = (held', reason))
    (k : ResourceId) : Ledger.amount held' k = Ledger.amount held k := by
  induction items generalizing held with
  | nil => cases h; rfl
  | cons i rest ih =>
    -- the test looks an entry up, which creates it with the amount zero
    unfold verifyItems at h
    split at h
    · cases h; rfl
    · split at h
      · cases h; rfl
      · dsimp only at h
        split at h
        · cases h
          exact Ledger.amount_touch held i.resource k
        · rw [ih h, Ledger.amount_touch]

end Loops

/-! ### Conservation -/

/-- What the live reservations hold of a resource. -/
def liveHolds (s : Engine ℚ) (r : ResourceId) : ℚ :=
  (s.reservations.values.map fun v => v.held r).sum

/-- What the reservation stored under an id holds of a resource. -/
def heldUnder (s : Engine ℚ) (rid : ReservationId) (r : ResourceId) : ℚ :=
  ((s.reservations.lookup rid).map fun v => v.held r).getD 0

theorem heldUnder_eq {s : Engine ℚ} {rid : ReservationId} {v : Reservation ℚ}
    (h : s.reservations.lookup rid = some v) (r : ResourceId) : s.heldUnder rid r = v.held r := by
  rw [heldUnder, h]
  rfl

/-- Storing one reservation replaces its share of the live holds. -/
theorem liveHolds_insert {s s' : Engine ℚ} {rid : ReservationId} {v : Reservation ℚ}
    (h : s'.reservations = s.reservations.insert rid v) (r : ResourceId) :
    s'.liveHolds r + s.heldUnder rid r = s.liveHolds r + v.held r := by
  have hnew : s'.liveHolds r =
      v.held r + ((UMap.values (s.reservations.erase rid)).map fun v => v.held r).sum := by
    rw [liveHolds, h]
    exact UMap.sum_values_insert _ _ _ _
  rw [hnew]
  -- what was stored under the id before, if anything, drops out
  rcases hold : s.reservations.lookup rid with _ | v₀
  · have hrest := UMap.sum_values_erase_of_lookup_none (fun v : Reservation ℚ => v.held r) hold
    rw [hrest, heldUnder, hold, liveHolds]
    exact (add_zero _).trans (add_comm _ _)
  · have hrest := UMap.sum_values_eq_of_lookup (fun v : Reservation ℚ => v.held r) hold
    rw [heldUnder_eq hold, liveHolds, hrest]
    ring

/-- The ledger covers what the live reservations hold, in amounts from zero on. -/
structure Covered (s : Engine ℚ) : Prop where
  /-- The live reservations hold no more than is recorded. -/
  live_le : ∀ r, s.liveHolds r ≤ Ledger.amount s.reservedAmount r
  /-- Nothing is held with a negative amount. -/
  amounts : ∀ v ∈ s.reservations.values, v.Amounts (0 ≤ ·)

namespace Covered

variable {s : Engine ℚ}

theorem held_nonneg (h : s.Covered) : ∀ r, ∀ x ∈ s.reservations.values.map fun v => v.held r,
    0 ≤ x := by
  intro r x hx
  obtain ⟨v, hv, rfl⟩ := List.mem_map.mp hx
  exact (h.amounts v hv).held_nonneg r

/-- The ledger covers every single reservation. -/
theorem held_le (h : s.Covered) {rid : ReservationId} {v : Reservation ℚ}
    (hv : s.reservations.lookup rid = some v) (r : ResourceId) :
    v.held r ≤ Ledger.amount s.reservedAmount r := by
  refine (List.single_le_sum (h.held_nonneg r) _ ?_).trans (h.live_le r)
  exact List.mem_map.mpr ⟨v, UMap.mem_values_of_lookup hv, rfl⟩

theorem amount_nonneg (h : s.Covered) (r : ResourceId) :
    0 ≤ Ledger.amount s.reservedAmount r :=
  (List.sum_nonneg (h.held_nonneg r)).trans (h.live_le r)

/-- **Giving a reservation back.** When the reservation is live, or what it lists
is not held any more, the ledger loses exactly what the reservation holds. -/
theorem amount_releaseAll (h : s.Covered) {rid : ReservationId} {v : Reservation ℚ}
    (hv : s.reservations.lookup rid = some v)
    (hlive : v.IsLive ∨ ∀ i ∈ v.items,
      i.reservedAmount = 0 ∨ Ledger.amount s.reservedAmount i.resource = 0)
    {held : OrdMap ResourceId ℚ}
    (heq : ∀ k, Ledger.amount held k = Ledger.amount s.reservedAmount k) (k : ResourceId) :
    Ledger.amount (Ledger.releaseAll held v.holds) k =
      Ledger.amount s.reservedAmount k - v.held k := by
  have hnonneg : ∀ e ∈ v.holds, 0 ≤ e.2 := (h.amounts v (UMap.mem_values_of_lookup hv)).holds_nonneg
  by_cases hl : v.IsLive
  · have hle := h.held_le hv k
    rw [Reservation.held_of_live hl] at hle ⊢
    rw [Ledger.amount_releaseAll hnonneg held k (by rw [heq]; exact hle), heq]
  · -- nothing of what the reservation lists is held, so there is nothing to lose
    have hnothing := hlive.resolve_left hl
    rw [Reservation.held_of_not_live hl, sub_zero]
    by_cases hk : Ledger.amount s.reservedAmount k = 0
    · rw [Ledger.amount_releaseAll_of_zero hnonneg held k (by rw [heq, hk]), hk]
    · -- something is held of `k`, so the reservation lists it with nothing
      have hcharge : Ledger.charge v.holds k = 0 := by
        refine Ledger.charge_eq_zero ?_
        intro e he hek
        obtain ⟨i, hi, rfl⟩ := List.mem_map.mp he
        rcases hnothing i hi with hz | hz
        · exact hz
        · rw [← hek] at hk
          exact absurd hz hk
      have hle : Ledger.charge v.holds k ≤ Ledger.amount held k := by
        rw [hcharge, heq]
        exact h.amount_nonneg k
      rw [Ledger.amount_releaseAll hnonneg held k hle, hcharge, sub_zero, heq]

end Covered

/-- The ledger records what the live reservations hold, in amounts that satisfy
`P`. -/
structure Conserved (P : ℚ → Prop) (s : Engine ℚ) : Prop where
  /-- The ledger is the sum over the live reservations. -/
  amount_eq : ∀ r, Ledger.amount s.reservedAmount r = s.liveHolds r
  /-- Every reservation holds amounts as allowed. -/
  amounts : ∀ v ∈ s.reservations.values, v.Amounts P

namespace Conserved

variable {P : ℚ → Prop} {s s' : Engine ℚ}

theorem congr (h : Conserved P s) (hr : s'.reservations = s.reservations)
    (ha : ∀ k, Ledger.amount s'.reservedAmount k = Ledger.amount s.reservedAmount k) :
    Conserved P s' where
  amount_eq r := by rw [ha, h.amount_eq, liveHolds, liveHolds, hr]
  amounts := by rw [hr]; exact h.amounts

/-- A ledger that records what is held covers it. -/
theorem covered (hP : ∀ x, P x → 0 ≤ x) (h : Conserved P s) : s.Covered where
  live_le r := (h.amount_eq r).ge
  amounts v hv i hi := hP _ (h.amounts v hv i hi)

/-- The ledger covers every single reservation. -/
theorem held_le (hP : ∀ x, P x → 0 ≤ x) (h : Conserved P s) {rid : ReservationId}
    {v : Reservation ℚ} (hv : s.reservations.lookup rid = some v) (r : ResourceId) :
    v.held r ≤ Ledger.amount s.reservedAmount r := (h.covered hP).held_le hv r

theorem amount_nonneg (hP : ∀ x, P x → 0 ≤ x) (h : Conserved P s) (r : ResourceId) :
    0 ≤ Ledger.amount s.reservedAmount r := (h.covered hP).amount_nonneg r

/-- A reservation that is stored again without a hold of its own. -/
theorem close (h : Conserved P s) {rid : ReservationId} {v v' : Reservation ℚ}
    (hv : s.reservations.lookup rid = some v)
    (heq : s'.reservations = s.reservations.insert rid v') (hitems : v'.items = v.items)
    (hclosed : ¬ v'.IsLive)
    (ha : ∀ k, Ledger.amount s'.reservedAmount k =
      Ledger.amount s.reservedAmount k - v.held k) : Conserved P s' where
  amount_eq r := by
    -- the reservation counted before and does not count now
    have hsum := liveHolds_insert heq r
    rw [heldUnder_eq hv, Reservation.held_of_not_live hclosed] at hsum
    rw [ha, h.amount_eq]
    linarith
  amounts := by
    rw [heq]
    refine UMap.forall_values_insert h.amounts ?_
    unfold Reservation.Amounts
    rw [hitems]
    exact h.amounts v (UMap.mem_values_of_lookup hv)

end Conserved

/-! ### The condition on a step -/

/-- The operation takes amounts that satisfy `P` under an id that is free, and gives
back what is still held. -/
structure Accounted (P : ℚ → Prop) (s : Engine ℚ) (op : Op ℚ) : Prop where
  /-- The reservations are not dropped by a `Load`. -/
  no_load : op.isLoad = false
  /-- A plan is reserved when its registered members have amounts as allowed. -/
  takes : ∀ plan ∈ op.plan?, TakesAmounts P s plan.request plan.graph.vertices
  /-- The id of the next reservation is not that of a live one. -/
  free_id : ∀ plan ∈ op.plan?, ∀ v ∈ s.reservations.lookup ⟨s.nextResv⟩, ¬ v.IsLive
  /-- A reservation is ended when it is live, or when no one holds what it lists. -/
  ends_own : ∀ c ∈ s.ending op, ∀ v ∈ s.reservations.lookup c.reservation,
    v.IsLive ∨ ∀ i ∈ v.items,
      i.reservedAmount = 0 ∨ Ledger.amount s.reservedAmount i.resource = 0

instance (P : ℚ → Prop) [DecidablePred P] (s : Engine ℚ) (req : CompositionRequest ℚ)
    (vertices : List ResourceId) : Decidable (TakesAmounts P s req vertices) :=
  inferInstanceAs (Decidable (∀ v ∈ vertices, ∀ r ∈ s.resources.lookup v, _))

instance (P : ℚ → Prop) [DecidablePred P] (s : Engine ℚ) (op : Op ℚ) :
    Decidable (Accounted P s op) :=
  decidable_of_iff
    (op.isLoad = false ∧
      (∀ plan ∈ op.plan?, TakesAmounts P s plan.request plan.graph.vertices) ∧
      (∀ plan ∈ op.plan?,
        ∀ v ∈ s.reservations.lookup (⟨s.nextResv⟩ : ReservationId), ¬ v.IsLive) ∧
      ∀ c ∈ s.ending op, ∀ v ∈ s.reservations.lookup c.reservation,
        v.IsLive ∨ ∀ i ∈ v.items,
          i.reservedAmount = 0 ∨ Ledger.amount s.reservedAmount i.resource = 0)
    ⟨fun h => ⟨h.1, h.2.1, h.2.2.1, h.2.2.2⟩,
      fun h => ⟨h.no_load, h.takes, h.free_id, h.ends_own⟩⟩

section Steps

variable {P : ℚ → Prop} {s : Engine ℚ} {op : Op ℚ}

theorem conserved_fresh (cfg : EngineConfig) : Conserved P (fresh cfg) where
  amount_eq _ := rfl
  amounts v hv := by simp [fresh, UMap.values] at hv

/-- A failed `Reserve` gives back exactly what it took. -/
theorem amount_reserveFailed (hP : ∀ x, P x → 0 ≤ x) {plan : CompositionPlan ℚ}
    {held : OrdMap ResourceId ℚ} {items : List (ReservationItem ℚ)} {e : Option Rejection}
    (htakes : TakesAmounts P s plan.request plan.graph.vertices)
    (hm : s.reserveMembers plan.request plan.graph.vertices s.reservedAmount = (held, items, e))
    {k : ResourceId} (hbefore : 0 ≤ Ledger.amount s.reservedAmount k) :
    Ledger.amount (Ledger.releaseAll held (s.newReservation plan items).holds) k =
      Ledger.amount s.reservedAmount k := by
  obtain ⟨hsum, hamounts, -⟩ := reserveMembers_ledger hP htakes hm
  have hnonneg : ∀ e ∈ (s.newReservation plan items).holds, 0 ≤ e.2 :=
    Reservation.Amounts.holds_nonneg fun i hi => hP _ (hamounts i hi)
  have hheld : Ledger.amount held k = Ledger.amount s.reservedAmount k +
      Ledger.charge (s.newReservation plan items).holds k := hsum k
  have hle : Ledger.charge (s.newReservation plan items).holds k ≤ Ledger.amount held k := by
    linarith
  rw [Ledger.amount_releaseAll hnonneg held k hle, hheld, add_sub_cancel_right]

/-- A successful `Reserve` adds the new reservation to both sides. -/
theorem Conserved.storeReservation (hP : ∀ x, P x → 0 ≤ x) (h : Conserved P s)
    {plan : CompositionPlan ℚ} {held : OrdMap ResourceId ℚ} {items : List (ReservationItem ℚ)}
    (htakes : TakesAmounts P s plan.request plan.graph.vertices)
    (hfree : ∀ v ∈ s.reservations.lookup ⟨s.nextResv⟩, ¬ v.IsLive)
    (hm : s.reserveMembers plan.request plan.graph.vertices s.reservedAmount =
      (held, items, none)) :
    Conserved P (s.storeReservation plan held items) := by
  obtain ⟨hsum, hamounts, -⟩ := reserveMembers_ledger hP htakes hm
  have hlive : (s.newReservation plan items).IsLive := Or.inl rfl
  refine ⟨?_, ?_⟩
  · intro r
    -- a reservation that is overwritten held nothing
    have hnone : s.heldUnder ⟨s.nextResv⟩ r = 0 := by
      rcases hold : s.reservations.lookup ⟨s.nextResv⟩ with _ | v₀
      · rw [heldUnder, hold]; rfl
      · rw [heldUnder_eq hold, Reservation.held_of_not_live (hfree v₀ hold)]
    have hstored : (s.storeReservation plan held items).liveHolds r + s.heldUnder ⟨s.nextResv⟩ r =
        s.liveHolds r + (s.newReservation plan items).held r := liveHolds_insert rfl r
    rw [hnone, add_zero, Reservation.held_of_live hlive] at hstored
    rw [hstored, ← h.amount_eq]
    exact hsum r
  · exact UMap.forall_values_insert h.amounts hamounts

theorem held_committed {v : Reservation ℚ} (h : v.IsLive) (r : ResourceId) :
    v.committed.held r = v.held r := by
  have hcommitted : v.committed.IsLive := Or.inr rfl
  rw [Reservation.held_of_live hcommitted, Reservation.held_of_live h, v.holds_committed]

/-- **One step conserves the holds.** -/
theorem Conserved.step (hP : ∀ x, P x → 0 ≤ x) (h : Conserved P s) (hacc : Accounted P s op) :
    Conserved P (s.step op) := by
  have heff := s.step_effect op
  generalize s.step op = s' at heff ⊢
  cases heff with
  | quiet hq => exact h.congr hq.reservations fun k => by rw [hq.reservedAmount]
  | composed req paths _ => exact h.congr rfl fun _ => rfl
  | reserveFailed plan held items e hm =>
    refine h.congr rfl ?_
    intro k
    exact amount_reserveFailed hP (hacc.takes plan rfl) hm (h.amount_nonneg hP k)
  | reserved plan held items _ _ hm =>
    exact h.storeReservation hP (hacc.takes plan rfl) (hacc.free_id plan rfl) hm
  -- a rollback ends an open reservation, so it gives back what is held
  | rolledBack resIn resv comp held reason hr hp _ _ hv =>
    refine h.close hr rfl rfl ?_ ?_
    · rintro (hs | hs) <;> cases hs
    · exact (h.covered hP).amount_releaseAll hr (Or.inl (Or.inl hp)) (verifyItems_ledger hv)
  | committed resIn resv comp held hr hp _ _ _ hv =>
    refine ⟨?_, ?_⟩
    · intro r
      -- the reservation counts as before: it was live and is live
      have hsum : (s.confirm resIn.id resv comp held).liveHolds r + s.heldUnder resIn.id r =
          s.liveHolds r + resv.committed.held r := liveHolds_insert rfl r
      rw [heldUnder_eq hr, held_committed (Or.inl hp), add_left_inj] at hsum
      rw [hsum, ← h.amount_eq]
      exact verifyItems_ledger hv r
    · refine UMap.forall_values_insert h.amounts ?_
      intro i hi
      obtain ⟨i₀, hi₀, rfl⟩ := List.mem_map.mp hi
      exact h.amounts resv (UMap.mem_values_of_lookup hr) i₀ hi₀
  | activated id comp _ _ _ _ _ => exact h.congr rfl fun _ => rfl
  | ended id comp fenced draining _ _ _ _ hend =>
    have hresv := s.reservations_endComposition id comp
    have hamt := s.reservedAmount_endComposition id comp
    -- without a reservation nothing changes; else the condition says what is lost
    rcases hr : s.reservations.lookup comp.reservation with _ | v
    · rw [hr] at hresv hamt
      refine h.congr hresv ?_
      intro k
      change Ledger.amount (s.endComposition id comp).reservedAmount k = _
      rw [hamt]
    · rw [hr] at hresv hamt
      refine h.close hr hresv rfl ?_ ?_
      · rintro (hs | hs) <;> cases hs
      · intro k
        change Ledger.amount (s.endComposition id comp).reservedAmount k = _
        rw [hamt]
        exact (h.covered hP).amount_releaseAll hr (hacc.ends_own comp hend v hr) (fun _ => rfl) k
  | loaded file d _ => exact absurd hacc.no_load (by simp [Op.isLoad])

/-- The account of a whole run. -/
theorem conserved_run (hP : ∀ x, P x → 0 ≤ x) (cfg : EngineConfig) {ops : List (Op ℚ)}
    (h : Along (Accounted P) (fresh cfg) ops) : Conserved P ((fresh cfg).run ops) :=
  Machine.invariant_of_along (conserved_fresh cfg) (fun _ _ hs hacc => hs.step hP hacc) h

end Steps

/-! ### Conservation over runs -/

/-- The reservation an operation may end: the one it names, or the one the
composition it names refers to. -/
def endsReservation (s : Engine ℚ) : Op ℚ → Option ReservationId
  | .commit resIn => some resIn.id
  | op => (s.ending op).map Composition.reservation

/-- A live reservation that the step does not end is stored as before. -/
theorem lookup_step_of_live {P : ℚ → Prop} {s : Engine ℚ} {op : Op ℚ} (hacc : Accounted P s op)
    {rid : ReservationId} {v : Reservation ℚ} (hv : s.reservations.lookup rid = some v)
    (hl : v.IsLive) (hne : s.endsReservation op ≠ some rid) :
    (s.step op).reservations.lookup rid = some v := by
  have heff := s.step_effect op
  generalize s.step op = s' at heff ⊢
  cases heff with
  | quiet hq => rw [hq.reservations, hv]
  | composed req paths _ => exact hv
  | reserveFailed plan held items e _ => exact hv
  | reserved plan held items _ _ _ =>
    -- the new reservation overwrites no live one
    have hid : rid ≠ ⟨s.nextResv⟩ := by
      rintro rfl
      exact hacc.free_id plan rfl v hv hl
    change (s.reservations.insert _ _).lookup _ = _
    rw [UMap.lookup_insert_eq_ite, if_neg hid, hv]
  | rolledBack resIn resv comp held reason _ _ _ _ _ =>
    have hid : rid ≠ resIn.id := fun h => hne (by rw [h]; rfl)
    change (s.reservations.insert _ _).lookup _ = _
    rw [UMap.lookup_insert_eq_ite, if_neg hid, hv]
  | committed resIn resv comp held _ _ _ _ _ _ =>
    have hid : rid ≠ resIn.id := fun h => hne (by rw [h]; rfl)
    change (s.reservations.insert _ _).lookup _ = _
    rw [UMap.lookup_insert_eq_ite, if_neg hid, hv]
  | activated id comp _ _ _ _ _ => exact hv
  | ended id comp fenced draining hop _ _ _ hend =>
    have hends : s.endsReservation op = some comp.reservation := by
      rcases hop with rfl | rfl | rfl <;> exact congrArg (Option.map Composition.reservation) hend
    have hid : rid ≠ comp.reservation := fun h => hne (by rw [hends, h])
    change (s.endComposition id comp).reservations.lookup rid = _
    rw [lookup_reservations_endComposition_of_ne hid, hv]
  | loaded file d _ => exact absurd hacc.no_load (by simp [Op.isLoad])

/-- **Conservation of holds.** In every run in which each operation is accounted
for, the ledger records of every resource what the provisional and committed
reservations hold of it; and an operation that ends a reservation leaves every
other live reservation stored, with its whole hold recorded. -/
theorem holds_conserved (cfg : EngineConfig) (ops : List (Op ℚ))
    (hacc : Along (Accounted (0 ≤ ·)) (fresh cfg) ops) :
    let s := (fresh cfg).run ops
    (∀ r, Ledger.amount s.reservedAmount r = s.liveHolds r) ∧
      ∀ op, Accounted (0 ≤ ·) s op → ∀ rid v, s.reservations.lookup rid = some v → v.IsLive →
        s.endsReservation op ≠ some rid →
        (s.step op).reservations.lookup rid = some v ∧
          ∀ r, Ledger.charge v.holds r ≤ Ledger.amount (s.step op).reservedAmount r := by
  intro s
  have hinv : Conserved (0 ≤ ·) s := conserved_run (fun _ h => h) cfg hacc
  refine ⟨hinv.amount_eq, ?_⟩
  intro op hop rid v hv hl hne
  have hafter : (s.step op).reservations.lookup rid = some v := lookup_step_of_live hop hv hl hne
  refine ⟨hafter, ?_⟩
  intro r
  have hle := (hinv.step (fun _ h => h) hop).held_le (fun _ h => h) hafter r
  rwa [Reservation.held_of_live hl] at hle

/-- After its transaction the sample engine records the 64 bytes it holds, and the
release of another composition leaves them alone. -/
theorem sample_holds_conserved :
    let s := (fresh sampleConfig).run (sampleOps ++ sampleTransaction)
    Ledger.amount s.reservedAmount ⟨1⟩ = s.liveHolds ⟨1⟩ ∧ s.liveHolds ⟨1⟩ = 64 ∧
      64 ≤ Ledger.amount (s.step (.release ⟨2⟩)).reservedAmount ⟨1⟩ := by
  intro s
  obtain ⟨hsum, hkeep⟩ :=
    holds_conserved sampleConfig (sampleOps ++ sampleTransaction) (by decide +kernel)
  obtain ⟨v, hv⟩ : ∃ v, s.reservations.lookup ⟨1⟩ = some v :=
    Option.isSome_iff_exists.mp (by decide +kernel)
  -- there is one reservation, and it holds 64 bytes
  have hall : ∀ v ∈ s.reservations.values, v.IsLive ∧ Ledger.charge v.holds ⟨1⟩ = 64 := by
    decide +kernel
  obtain ⟨hl, hcharge⟩ := hall v (UMap.mem_values_of_lookup hv)
  refine ⟨hsum ⟨1⟩, by decide +kernel, ?_⟩
  rw [← hcharge]
  exact (hkeep (.release ⟨2⟩) (by decide +kernel) ⟨1⟩ v hv hl (by decide +kernel)).2 ⟨1⟩

/-- The sample plan is reserved, its resource fails, the commit rolls the reservation
back, and the resource is published again. -/
def rolledBackOps : List (Op ℚ) :=
  sampleOps ++ [.compose (sampleRequest 32), .reserve samplePlan, .onResourceFailure ⟨1⟩,
    .commit (sampleReservation ⟨1⟩), .registerResource (sampleMemory ⟨1⟩ 64)]

/-- Then a second plan is reserved, and the first composition is released. -/
def doubleReleaseOps : List (Op ℚ) :=
  rolledBackOps ++ [.compose (sampleRequest 32),
    .reserve (((fresh sampleConfig).run rolledBackOps).compose (sampleRequest 32)).2.payload,
    .release ⟨1⟩]

/-- **A release can free another reservation's hold.** The first reservation was
rolled back; releasing its composition takes the 64 bytes of the second one out of
the ledger. -/
theorem release_frees_another_hold :
    ¬ ∀ (cfg : EngineConfig) (ops : List (Op ℚ)), (∀ op ∈ ops, op.isLoad = false) →
      Along (fun s op => ∀ plan ∈ op.plan?,
        TakesAmounts (0 ≤ ·) s plan.request plan.graph.vertices) (fresh cfg) ops →
      ∀ r, Ledger.amount ((fresh cfg).run ops).reservedAmount r =
        ((fresh cfg).run ops).liveHolds r := by
  intro h
  have hsum := h sampleConfig doubleReleaseOps (by decide +kernel) (by decide +kernel) ⟨1⟩
  revert hsum
  decide +kernel

/-! ### Exclusive holding -/

/-- No resource is an item of two different live reservations. -/
def Exclusive (s : Engine ℚ) : Prop :=
  ∀ rid rid' v v' i i', s.reservations.lookup rid = some v → s.reservations.lookup rid' = some v' →
    v.IsLive → v'.IsLive → i ∈ v.items → i' ∈ v'.items → i.resource = i'.resource → rid = rid'

/-- Live reservations are those of before, possibly with items in another state. -/
theorem Exclusive.mono {s s' : Engine ℚ} (h : s.Exclusive)
    (hold : ∀ rid v', s'.reservations.lookup rid = some v' → v'.IsLive → ∃ v,
      s.reservations.lookup rid = some v ∧ v.IsLive ∧
        ∀ i' ∈ v'.items, ∃ i ∈ v.items, i.resource = i'.resource) : s'.Exclusive := by
  intro rid₁ rid₂ v₁' v₂' i₁' i₂' h₁ h₂ hl₁ hl₂ hi₁ hi₂ heq
  obtain ⟨v₁, hv₁, hlive₁, hitems₁⟩ := hold rid₁ v₁' h₁ hl₁
  obtain ⟨v₂, hv₂, hlive₂, hitems₂⟩ := hold rid₂ v₂' h₂ hl₂
  obtain ⟨i₁, hmem₁, hr₁⟩ := hitems₁ i₁' hi₁
  obtain ⟨i₂, hmem₂, hr₂⟩ := hitems₂ i₂' hi₂
  exact h rid₁ rid₂ v₁ v₂ i₁ i₂ hv₁ hv₂ hlive₁ hlive₂ hmem₁ hmem₂ (by rw [hr₁, hr₂, heq])

/-- A new reservation takes nothing that is held: with positive holds, what is held
shows in the ledger. -/
theorem Exclusive.storeReservation {s : Engine ℚ} (hc : Conserved (0 < ·) s) (h : s.Exclusive)
    {plan : CompositionPlan ℚ} {held : OrdMap ResourceId ℚ} {items : List (ReservationItem ℚ)}
    (htakes : TakesAmounts (0 < ·) s plan.request plan.graph.vertices)
    (hm : s.reserveMembers plan.request plan.graph.vertices s.reservedAmount =
      (held, items, none)) :
    (s.storeReservation plan held items).Exclusive := by
  have hP : ∀ x : ℚ, 0 < x → 0 ≤ x := fun _ hx => hx.le
  obtain ⟨-, -, hfree⟩ := reserveMembers_ledger hP htakes hm
  -- what a live reservation lists has a positive amount, what was taken had none
  have hdisjoint : ∀ i ∈ items, ∀ rid v, s.reservations.lookup rid = some v → v.IsLive →
      ∀ i' ∈ v.items, i.resource ≠ i'.resource := by
    intro i hi rid v hv hl i' hi' heq
    have hpos := (hc.amounts v (UMap.mem_values_of_lookup hv)).held_pos hl hi'
    have hle := hc.held_le hP hv i'.resource
    have hzero := hfree i hi
    rw [heq] at hzero
    exact absurd (hpos.trans_le (hle.trans hzero)) (lt_irrefl 0)
  intro rid₁ rid₂ v₁ v₂ i₁ i₂ h₁ h₂ hl₁ hl₂ hi₁ hi₂ heq
  -- the new one against itself, against an old one either way round, and two old ones
  rcases UMap.lookup_insert_inv h₁ with ⟨hid₁, rfl⟩ | ⟨-, h₁⟩ <;>
    rcases UMap.lookup_insert_inv h₂ with ⟨hid₂, rfl⟩ | ⟨-, h₂⟩
  · rw [hid₁, hid₂]
  · exact absurd heq (hdisjoint i₁ hi₁ rid₂ v₂ h₂ hl₂ i₂ hi₂)
  · exact absurd heq.symm (hdisjoint i₂ hi₂ rid₁ v₁ h₁ hl₁ i₁ hi₁)
  · exact h rid₁ rid₂ v₁ v₂ i₁ i₂ h₁ h₂ hl₁ hl₂ hi₁ hi₂ heq

/-- **One step keeps the holds exclusive.** -/
theorem Exclusive.step {s : Engine ℚ} {op : Op ℚ} (hc : Conserved (0 < ·) s) (h : s.Exclusive)
    (hacc : Accounted (0 < ·) s op) : (s.step op).Exclusive := by
  have heff := s.step_effect op
  generalize s.step op = s' at heff ⊢
  cases heff with
  | quiet hq =>
    refine h.mono fun rid v' hv' hl => ⟨v', ?_, hl, fun i hi => ⟨i, hi, rfl⟩⟩
    rwa [hq.reservations] at hv'
  | composed req paths _ => exact h
  | reserveFailed plan held items e _ => exact h
  | reserved plan held items _ _ hm => exact h.storeReservation hc (hacc.takes plan rfl) hm
  | rolledBack resIn resv comp held reason _ _ _ _ _ =>
    refine h.mono ?_
    intro rid v' hv' hl
    rcases UMap.lookup_insert_inv hv' with ⟨-, rfl⟩ | ⟨-, hv'⟩
    · rcases hl with hs | hs <;> cases hs
    · exact ⟨v', hv', hl, fun i hi => ⟨i, hi, rfl⟩⟩
  | committed resIn resv comp held hr hp _ _ _ _ =>
    -- committing changes the states of the items, and what they are for stays
    refine h.mono ?_
    intro rid v' hv' hl
    rcases UMap.lookup_insert_inv hv' with ⟨rfl, rfl⟩ | ⟨-, hv'⟩
    · refine ⟨resv, hr, Or.inl hp, ?_⟩
      intro i' hi'
      obtain ⟨i, hi, rfl⟩ := List.mem_map.mp hi'
      exact ⟨i, hi, rfl⟩
    · exact ⟨v', hv', hl, fun i hi => ⟨i, hi, rfl⟩⟩
  | activated id comp _ _ _ _ _ => exact h
  | ended id comp fenced draining _ _ _ _ _ =>
    -- the reservation that ends is not live any more
    refine h.mono ?_
    intro rid v' hv' hl
    rcases lookup_reservations_endComposition id hv' with ⟨hv, -⟩ | ⟨-, v, -, rfl⟩
    · exact ⟨v', hv, hl, fun i hi => ⟨i, hi, rfl⟩⟩
    · rcases hl with hs | hs <;> cases hs
  | loaded file d _ => exact absurd hacc.no_load (by simp [Op.isLoad])

/-- **Exclusive holding.** In every run in which each operation is accounted for,
with positive amounts, no resource is an item of two different provisional or
committed reservations. -/
theorem holds_exclusive (cfg : EngineConfig) (ops : List (Op ℚ))
    (hacc : Along (Accounted (0 < ·)) (fresh cfg) ops) : ((fresh cfg).run ops).Exclusive := by
  have hP : ∀ x : ℚ, 0 < x → 0 ≤ x := fun _ hx => hx.le
  have hinv : Conserved (0 < ·) ((fresh cfg).run ops) ∧ ((fresh cfg).run ops).Exclusive := by
    refine Machine.invariant_of_along
      (I := fun s : Engine ℚ => Conserved (0 < ·) s ∧ s.Exclusive) ⟨conserved_fresh cfg, ?_⟩
      (fun s op hs hop => ⟨hs.1.step hP hop, hs.2.step hs.1 hop⟩) hacc
    intro rid rid' v v' i i' hv
    simp [fresh] at hv
  exact hinv.2

/-- The holds of the sample engine after its transaction are exclusive. -/
theorem sample_holds_exclusive :
    ((fresh sampleConfig).run (sampleOps ++ sampleTransaction)).Exclusive :=
  holds_exclusive sampleConfig _ (by decide +kernel)

/-- A request for host memory of any size. -/
def anyMemoryRequest : CompositionRequest ℚ :=
  { sampleRequest 0 with mandatoryClasses := OrdMap.insert default .hostMemory () }

/-- An engine with one empty resource. -/
def emptyMemory : Engine ℚ := (fresh sampleConfig).step (.registerResource (sampleMemory ⟨1⟩ 0))

/-- The empty resource is composed and reserved. -/
def emptyMemoryOps : List (Op ℚ) :=
  [.registerResource (sampleMemory ⟨1⟩ 0), .compose anyMemoryRequest,
    .reserve (emptyMemory.compose anyMemoryRequest).2.payload]

/-- It is composed and reserved a second time. -/
def twiceReservedOps : List (Op ℚ) :=
  emptyMemoryOps ++ [.compose anyMemoryRequest,
    .reserve (((fresh sampleConfig).run emptyMemoryOps).compose anyMemoryRequest).2.payload]

/-- Both plans were returned by the engine. -/
theorem twiceReservedOps_plansReturned :
    PlansReturned [] (fresh sampleConfig) (twiceReservedOps.map .call) := by
  refine .call rfl <| .call rfl <| .reserve ?_ <| .call rfl <| .reserve ?_ ?_
  · exact mem_returned_compose (by decide +kernel)
  · exact mem_returned_compose (by decide +kernel)
  · exact trivial

/-- **A hold of nothing can be taken twice.** Both reservations of the empty
resource are provisional. -/
theorem zero_hold_taken_twice :
    ¬ ∀ (cfg : EngineConfig) (ops : List (Op ℚ)), (∀ op ∈ ops, op.isLoad = false) →
      PlansReturned [] (fresh cfg) (ops.map .call) → ((fresh cfg).run ops).Exclusive := by
  intro h
  have hexcl := h sampleConfig twiceReservedOps (by decide +kernel) twiceReservedOps_plansReturned
  generalize hs : (fresh sampleConfig).run twiceReservedOps = s at hexcl
  obtain ⟨v₁, hv₁⟩ : ∃ v, s.reservations.lookup ⟨1⟩ = some v :=
    Option.isSome_iff_exists.mp (by rw [← hs]; decide +kernel)
  obtain ⟨v₂, hv₂⟩ : ∃ v, s.reservations.lookup ⟨2⟩ = some v :=
    Option.isSome_iff_exists.mp (by rw [← hs]; decide +kernel)
  -- both reservations are live and hold the resource
  have hall : ∀ v ∈ s.reservations.values, v.IsLive ∧ ∃ i ∈ v.items, i.resource = ⟨1⟩ := by
    rw [← hs]
    decide +kernel
  obtain ⟨hl₁, i₁, hi₁, hr₁⟩ := hall v₁ (UMap.mem_values_of_lookup hv₁)
  obtain ⟨hl₂, i₂, hi₂, hr₂⟩ := hall v₂ (UMap.mem_values_of_lookup hv₂)
  have hsame := hexcl ⟨1⟩ ⟨2⟩ v₁ v₂ i₁ i₂ hv₁ hv₂ hl₁ hl₂ hi₁ hi₂ (hr₁.trans hr₂.symm)
  cases hsame

end Engine

end DFabric
