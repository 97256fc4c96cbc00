import DisaggregationFabric.Engine.Transaction

/-!
# When a reservation is refused

`Reserve` holds the members of a plan in order and stops at the first one it cannot
hold. `Refused held pre v` says of a member, in terms of the tables as they are before the
call, that it cannot be held once the members `pre` before it are: it is missing, not
eligible, held already, or of negative capacity. `Reserve` fails exactly when its plan has
such a member (`reserveMembers_failed_iff`).

What a failed attempt leaves in the ledger is exact: a member it had held ends at zero,
whatever was recorded for it before, and every other amount is what it was
(`amount_reserveMembers_released`). So where no amount was negative, giving the holds back
restores the ledger (`amount_undo`).
-/

namespace DFabric

namespace Engine

variable {D : Type} [Double D]

/-- What a registered member is held with. -/
def holdOf (s : Engine D) (req : CompositionRequest D) (w : ResourceId) : D :=
  match s.resources.lookup w with
  | some r => holdAmountForResource r req
  | none => Double.zero

/-- The amount recorded for `v`, starting from `a`, once the members `pre` are held. -/
def heldAfter (s : Engine D) (req : CompositionRequest D) (v : ResourceId) (a : D)
    (pre : List ResourceId) : D :=
  pre.foldl (fun a w => if v = w then Double.add a (s.holdOf req w) else a) a

/-- The member `v` cannot be held once the members `pre` are. -/
def Refused (s : Engine D) (req : CompositionRequest D) (held : OrdMap ResourceId D)
    (pre : List ResourceId) (v : ResourceId) : Prop :=
  ∀ r, s.resources.lookup v = some r → ¬ Eligible r req ∨
    Double.lt Double.zero (s.heldAfter req v (Ledger.amount held v) pre) = true ∨
    Double.lt r.capacity.computeUnits Double.zero = true ∨
    Double.lt r.capacity.hostMemoryBytes Double.zero = true

/-- The ledger once one more member is held. -/
def hold (s : Engine D) (req : CompositionRequest D) (held : OrdMap ResourceId D)
    (w : ResourceId) : OrdMap ResourceId D :=
  Ledger.add (Ledger.touch held w) w (s.holdOf req w)

variable {s : Engine D} {req : CompositionRequest D} {held : OrdMap ResourceId D}

theorem amount_hold (w v : ResourceId) :
    Ledger.amount (s.hold req held w) v =
      if v = w then Double.add (Ledger.amount held v) (s.holdOf req w)
      else Ledger.amount held v := by
  rw [hold, Ledger.amount_add_eq_ite, Ledger.amount_touch]
  by_cases h : v = w
  · rw [if_pos h, if_pos h]
  · rw [if_neg h, if_neg h]

/-- Holding a member first, or counting it among those held. -/
theorem refused_cons {w v : ResourceId} {pre : List ResourceId} :
    Refused s req held (w :: pre) v ↔ Refused s req (s.hold req held w) pre v := by
  rw [Refused, Refused, amount_hold]
  rfl

/-- A refused member stops the loop, with the amounts as they were. -/
theorem reserveMember_of_refused {v : ResourceId} (h : Refused s req held [] v) :
    ∃ held' e, s.reserveMember req held v = (held', .error e) ∧
      ∀ k, Ledger.amount held' k = Ledger.amount held k := by
  unfold reserveMember
  rcases hr : s.resources.lookup v with _ | r
  · exact ⟨held, _, rfl, fun _ => rfl⟩
  dsimp only
  rcases he : resourceEligible r req with e | ⟨⟨⟩⟩
  · exact ⟨held, _, rfl, fun _ => rfl⟩
  dsimp only
  split
  · exact ⟨_, _, rfl, Ledger.amount_touch held v⟩
  next hfree =>
  split
  · exact ⟨_, _, rfl, Ledger.amount_touch held v⟩
  next hcap =>
  -- none of the four tests has failed
  rw [Bool.or_eq_true, not_or] at hcap
  rw [Ledger.amount_touch] at hfree
  have heligible : Eligible r req := by rw [Eligible, he]; rfl
  rcases h r hr with hc | hc | hc | hc
  · exact absurd heligible hc
  · exact absurd hc hfree
  · exact absurd hc hcap.1
  · exact absurd hc hcap.2

/-- Any other member is held. -/
theorem reserveMember_of_not_refused {v : ResourceId} (h : ¬ Refused s req held [] v) :
    s.reserveMember req held v =
      (s.hold req held v, .ok ⟨v, .provisional, s.holdOf req v⟩) := by
  simp only [Refused, not_forall, not_or, not_not] at h
  obtain ⟨r, hr, heligible, hfree, hunits, hmemory⟩ := h
  -- the four checks of a member pass
  have he : resourceEligible r req = .ok () := by
    rcases hv : resourceEligible r req with e | ⟨⟨⟩⟩
    · rw [Eligible, hv] at heligible
      cases heligible
    · rfl
  have hfree' : ¬ Double.lt Double.zero (Ledger.amount (Ledger.touch held v) v) = true := by
    rw [Ledger.amount_touch]
    exact hfree
  have hcap : ¬ (Double.lt r.capacity.computeUnits Double.zero ||
      Double.lt r.capacity.hostMemoryBytes Double.zero) = true := by
    rw [Bool.or_eq_true]
    exact not_or.mpr ⟨hunits, hmemory⟩
  have hamount : s.holdOf req v = holdAmountForResource r req := by rw [holdOf, hr]
  unfold reserveMember
  rw [hr]
  dsimp only
  rw [he]
  dsimp only
  rw [if_neg hfree', if_neg hcap, hold, hamount]

/-- The loop over a member that is held. -/
theorem reserveMembers_cons_of_not_refused {v : ResourceId} (h : ¬ Refused s req held [] v)
    (vs : List ResourceId) :
    s.reserveMembers req (v :: vs) held =
      ((s.reserveMembers req vs (s.hold req held v)).1,
        ⟨v, .provisional, s.holdOf req v⟩ :: (s.reserveMembers req vs (s.hold req held v)).2.1,
        (s.reserveMembers req vs (s.hold req held v)).2.2) := by
  rw [reserveMembers, reserveMember_of_not_refused h]

/-- The loop over a member that is refused. -/
theorem reserveMembers_cons_of_refused {v : ResourceId} (h : Refused s req held [] v)
    (vs : List ResourceId) :
    ∃ held' e, s.reserveMembers req (v :: vs) held = (held', [], some e) ∧
      ∀ k, Ledger.amount held' k = Ledger.amount held k := by
  obtain ⟨held', e, hm, hamount⟩ := reserveMember_of_refused h
  exact ⟨held', e, by rw [reserveMembers, hm], hamount⟩

/-- **Reserve fails at the first member that is refused**, having held the members
before it. -/
theorem reserveMembers_failed_iff (s : Engine D) (req : CompositionRequest D)
    (N : ResourceId → Prop) (vs : List ResourceId) (held : OrdMap ResourceId D) :
    ((s.reserveMembers req vs held).2.2.isSome = true ∧
      ∀ i ∈ (s.reserveMembers req vs held).2.1, N i.resource) ↔
    ∃ pre v post, vs = pre ++ v :: post ∧ Refused s req held pre v ∧ ∀ w ∈ pre, N w := by
  induction vs generalizing held with
  | nil =>
    constructor
    · rintro ⟨hsome, -⟩
      cases hsome
    · rintro ⟨pre, v, post, hsplit, -⟩
      exact absurd hsplit (by simp)
  | cons w vs ih =>
    -- the loop stops here, or the first member is held and the rest decides
    by_cases hw : Refused s req held [] w
    · obtain ⟨held', e, hm, -⟩ := reserveMembers_cons_of_refused hw vs
      rw [hm]
      constructor
      · exact fun _ => ⟨[], w, vs, rfl, hw, fun _ hw => absurd hw List.not_mem_nil⟩
      · exact fun _ => ⟨rfl, fun _ hi => absurd hi List.not_mem_nil⟩
    · rw [reserveMembers_cons_of_not_refused hw]
      dsimp only
      constructor
      · rintro ⟨hsome, hitems⟩
        rw [List.forall_mem_cons] at hitems
        obtain ⟨pre, v, post, rfl, hv, hpre⟩ := (ih _).mp ⟨hsome, hitems.2⟩
        exact ⟨w :: pre, v, post, rfl, refused_cons.mpr hv,
          List.forall_mem_cons.mpr ⟨hitems.1, hpre⟩⟩
      · rintro ⟨pre, v, post, hsplit, hv, hpre⟩
        rcases pre with _ | ⟨w', pre⟩
        · -- the first member is not the one that is refused
          cases hsplit
          exact absurd hv hw
        · cases hsplit
          rw [List.forall_mem_cons] at hpre
          obtain ⟨hsome, hitems⟩ := (ih _).mpr ⟨pre, v, post, rfl, refused_cons.mp hv, hpre.2⟩
          exact ⟨hsome, List.forall_mem_cons.mpr ⟨hpre.1, hitems⟩⟩

/-- The items that members are held with. -/
def heldItems (s : Engine D) (req : CompositionRequest D) (vs : List ResourceId) :
    List (ReservationItem D) := vs.map fun v => ⟨v, .provisional, s.holdOf req v⟩

/-- **A loop that goes through** holds every member, each with its amount. -/
theorem reserveMembers_held {vs : List ResourceId} {held : OrdMap ResourceId D}
    (h : (s.reserveMembers req vs held).2.2 = none) :
    (s.reserveMembers req vs held).2.1 = s.heldItems req vs ∧
      ∀ k, Ledger.amount (s.reserveMembers req vs held).1 k =
        s.heldAfter req k (Ledger.amount held k) vs := by
  -- on the members, for any ledger before them
  induction vs generalizing held with
  | nil => exact ⟨rfl, fun _ => rfl⟩
  | cons w vs ih =>
    by_cases hw : Refused s req held [] w
    · obtain ⟨held', e, hm, -⟩ := reserveMembers_cons_of_refused hw vs
      rw [hm] at h
      cases h
    · rw [reserveMembers_cons_of_not_refused hw] at h ⊢
      obtain ⟨hitems, hamounts⟩ := ih h
      refine ⟨congrArg (List.cons _) hitems, fun k => ?_⟩
      rw [hamounts, amount_hold]
      rfl

/-- The loop goes through when no member is refused. -/
theorem reserveMembers_eq_none_iff (s : Engine D) (req : CompositionRequest D)
    (vs : List ResourceId) (held : OrdMap ResourceId D) :
    (s.reserveMembers req vs held).2.2 = none ↔
      ¬ ∃ pre v post, vs = pre ++ v :: post ∧ Refused s req held pre v := by
  have hfailed := s.reserveMembers_failed_iff req (fun _ => True) vs held
  have hiff : (s.reserveMembers req vs held).2.2.isSome = true ↔
      ∃ pre v post, vs = pre ++ v :: post ∧ Refused s req held pre v := by
    simpa using hfailed
  rw [← hiff, Bool.not_eq_true, Option.isSome_eq_false_iff, Option.isNone_iff_eq_none]

/-- **When `Reserve` succeeds.** -/
theorem reserve_ok_iff (plan : CompositionPlan D) :
    (s.reserve plan).2.ok = true ↔ plan.lifecycle = .planned ∧ plan.id.isValid = true ∧
      ¬ ∃ pre v post, plan.graph.vertices = pre ++ v :: post ∧
        Refused s plan.request s.reservedAmount pre v := by
  rw [← reserveMembers_eq_none_iff]
  -- the guards in the order of the source, then the loop
  unfold reserve
  split
  · next hplanned => exact iff_of_false (fun h => by cases h) fun h => hplanned h.1
  next hplanned =>
  split
  · next hid =>
    rw [Bool.not_eq_true'] at hid
    exact iff_of_false (fun h => by cases h) fun h => Bool.false_ne_true (hid.symm.trans h.2.1)
  next hid =>
  rw [Bool.not_eq_true', Bool.not_eq_false] at hid
  rcases hm : s.reserveMembers plan.request plan.graph.vertices s.reservedAmount with
    ⟨held, items, _ | e⟩
  · exact iff_of_true rfl ⟨not_not.mp hplanned, hid, rfl⟩
  · exact iff_of_false (fun h => by cases h) fun h => by cases h.2.2

/-- A rejection carries one reason and a default-constructed reservation. -/
theorem reserve_rejected {plan : CompositionPlan D} (h : (s.reserve plan).2.ok = false) :
    ∃ reason notes, (s.reserve plan).2 = .reject reason notes := by
  unfold reserve at h ⊢
  -- the two guards, then the first member that is refused
  split
  · exact ⟨_, _, rfl⟩
  next hplanned =>
  split
  · exact ⟨_, _, rfl⟩
  next hid =>
  rw [if_neg hplanned, if_neg hid] at h
  rcases hm : s.reserveMembers plan.request plan.graph.vertices s.reservedAmount with
    ⟨held, items, _ | e⟩
  · rw [hm] at h
    cases h
  · exact ⟨_, _, rfl⟩

/-! ### What a failed attempt leaves in the ledger -/

section Exact

variable {s : Engine ℚ} (req : CompositionRequest ℚ)

/-- What the loop has held, it has held with the amount of the member. -/
theorem reserveMembers_holdOf (vs : List ResourceId) (held : OrdMap ResourceId ℚ) :
    ∀ i ∈ (s.reserveMembers req vs held).2.1, i.reservedAmount = s.holdOf req i.resource := by
  induction vs generalizing held with
  | nil => exact List.forall_mem_nil _
  | cons w vs ih =>
    by_cases hw : Refused s req held [] w
    · obtain ⟨held', e, hm, -⟩ := reserveMembers_cons_of_refused hw vs
      rw [hm]
      exact List.forall_mem_nil _
    · rw [reserveMembers_cons_of_not_refused hw]
      exact List.forall_mem_cons.mpr ⟨rfl, ih _⟩

/-- The amounts of the others are what they were. -/
theorem amount_reserveMembers_of_ne (vs : List ResourceId) (held : OrdMap ResourceId ℚ)
    {k : ResourceId} (hne : ∀ i ∈ (s.reserveMembers req vs held).2.1, i.resource ≠ k) :
    Ledger.amount (s.reserveMembers req vs held).1 k = Ledger.amount held k := by
  induction vs generalizing held with
  | nil => rfl
  | cons w vs ih =>
    by_cases hw : Refused s req held [] w
    · obtain ⟨held', e, hm, hamount⟩ := reserveMembers_cons_of_refused hw vs
      rw [hm]
      exact hamount k
    · rw [reserveMembers_cons_of_not_refused hw] at hne ⊢
      rw [List.forall_mem_cons] at hne
      rw [ih _ hne.2, amount_hold, if_neg (Ne.symm hne.1)]

/-- A member that can be held first is free. -/
theorem amount_nonpos_of_not_refused {held : OrdMap ResourceId ℚ} {w : ResourceId}
    (hw : ¬ Refused s req held [] w) : Ledger.amount held w ≤ 0 := by
  simp only [Refused, not_forall, not_or] at hw
  obtain ⟨r, -, -, hfree, -⟩ := hw
  rw [Double.rat_lt, decide_eq_true_eq] at hfree
  exact not_lt.mp hfree

/-- A member that the loop has held was free, and has no more recorded than it was held
with. -/
theorem reserveMembers_amounts (vs : List ResourceId) (held : OrdMap ResourceId ℚ)
    {k : ResourceId} (hk : ∃ i ∈ (s.reserveMembers req vs held).2.1, i.resource = k) :
    Ledger.amount held k ≤ 0 ∧
      Ledger.amount (s.reserveMembers req vs held).1 k ≤ s.holdOf req k := by
  induction vs generalizing held with
  | nil =>
    obtain ⟨i, hi, -⟩ := hk
    exact absurd hi List.not_mem_nil
  | cons w vs ih =>
    by_cases hw : Refused s req held [] w
    · obtain ⟨held', e, hm, -⟩ := reserveMembers_cons_of_refused hw vs
      rw [hm] at hk
      obtain ⟨i, hi, -⟩ := hk
      exact absurd hi List.not_mem_nil
    · have hfree := amount_nonpos_of_not_refused req hw
      rw [reserveMembers_cons_of_not_refused hw] at hk ⊢
      by_cases hlater : ∃ i ∈ (s.reserveMembers req vs (s.hold req held w)).2.1, i.resource = k
      · -- it is held again later, from the amount that this member leaves
        obtain ⟨hle, hamount⟩ := ih _ hlater
        refine ⟨?_, hamount⟩
        rw [amount_hold] at hle
        by_cases hkw : k = w
        · rw [hkw]
          exact hfree
        · rwa [if_neg hkw] at hle
      · -- held here for the last time
        obtain ⟨i, hi, hik⟩ := hk
        have hkw : k = w := by
          rcases List.mem_cons.mp hi with rfl | hi
          · exact hik.symm
          · exact absurd ⟨i, hi, hik⟩ hlater
        subst hkw
        refine ⟨hfree, ?_⟩
        rw [amount_reserveMembers_of_ne req vs _ fun i hi hik => hlater ⟨i, hi, hik⟩, amount_hold,
          if_pos rfl, Double.rat_add]
        linarith

/-- **Giving back what the loop has held**, from a ledger with the amounts it left: nothing
is recorded for the members that were held, and the other amounts are what they were. -/
theorem amount_releaseAll_held (plan : CompositionPlan ℚ) (vs : List ResourceId)
    (held : OrdMap ResourceId ℚ) {m : OrdMap ResourceId ℚ}
    (hm : ∀ k, Ledger.amount m k = Ledger.amount (s.reserveMembers req vs held).1 k)
    (k : ResourceId) :
    Ledger.amount (Ledger.releaseAll m
      (s.newReservation plan (s.reserveMembers req vs held).2.1).holds) k =
    if ∃ i ∈ (s.reserveMembers req vs held).2.1, i.resource = k then 0
    else Ledger.amount held k := by
  split
  · -- a member is held once or more, with the same amount each time
    next hk =>
    refine Ledger.amount_releaseAll_of_le (a := s.holdOf req k) m ?_ ?_ ?_
    · intro e he hek
      obtain ⟨i, hi, rfl⟩ := List.mem_map.mp he
      rw [← hek]
      exact reserveMembers_holdOf req vs held i hi
    · obtain ⟨i, hi, hik⟩ := hk
      exact ⟨_, List.mem_map.mpr ⟨i, hi, rfl⟩, hik⟩
    · rw [hm]
      exact (reserveMembers_amounts req vs held hk).2
  · next hk =>
    -- no item is for this resource
    have hne : ∀ i ∈ (s.reserveMembers req vs held).2.1, i.resource ≠ k :=
      fun i hi hik => hk ⟨i, hi, hik⟩
    have hother : ∀ e ∈ (s.newReservation plan (s.reserveMembers req vs held).2.1).holds,
        e.1 ≠ k := by
      intro e he
      obtain ⟨i, hi, rfl⟩ := List.mem_map.mp he
      exact hne i hi
    rw [Ledger.amount, Ledger.find?_releaseAll_of_forall_ne m hother]
    calc Ledger.amount m k = Ledger.amount (s.reserveMembers req vs held).1 k := hm k
      _ = Ledger.amount held k := amount_reserveMembers_of_ne req vs held hne

/-- **The loop undone.** Where no amount was negative, giving back what the loop has held
restores every amount, however often a member is listed and whatever it is held with. -/
theorem amount_undo (plan : CompositionPlan ℚ) (vs : List ResourceId)
    {held m : OrdMap ResourceId ℚ} (hnonneg : ∀ k, 0 ≤ Ledger.amount held k)
    (hm : ∀ k, Ledger.amount m k = Ledger.amount (s.reserveMembers req vs held).1 k)
    (k : ResourceId) :
    Ledger.amount (Ledger.releaseAll m
      (s.newReservation plan (s.reserveMembers req vs held).2.1).holds) k =
    Ledger.amount held k := by
  rw [amount_releaseAll_held req plan vs held hm k]
  split
  · next hk =>
    -- what was held was free before, so it had nothing recorded
    exact le_antisymm (hnonneg k) (reserveMembers_amounts req vs held hk).1
  · rfl

end Exact

end Engine

end DFabric
