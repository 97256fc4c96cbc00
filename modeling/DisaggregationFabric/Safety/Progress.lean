import DisaggregationFabric.Engine.Admission
import DisaggregationFabric.Engine.Completeness
import DisaggregationFabric.Safety.Holds

/-!
# A plan that goes through

A client turns a plan into an active composition with three calls: `Reserve`, `Commit` and
`Activate`. `Recompute` makes the same three calls behind its releasing section
(`recompute_snd`). Each of them checks again what `Compose` has checked, so a plan of
`Compose` can only fail for what `Compose` does not look at: who holds the members, the sign
of two capacities, the id that is issued, and the fence.

`carryThrough_ok_iff` is exact, in any later state with the resources and the epoch of the
composing one: the plan goes through exactly when every member is `Vacant` and its id is valid
and not fenced. An amount below zero is no better than one above: `Reserve` takes the member,
and `Commit` then finds less than was taken.

`recompute_ok_iff` reads this for `Recompute`: it succeeds exactly when `Compose` finds a plan
for the old request whose members are vacant once the old reservation is given back.
-/

namespace DFabric

/-! ### What revalidation passes -/

/-- The member loop of the revalidation passes the generations read off the members. -/
theorem revalidateMembers_own {D : Type} {resources : UMap ResourceId (Resource D)}
    {vertices : List ResourceId}
    (h : ∀ v ∈ vertices, ∃ r, resources.lookup v = some r ∧ r.id.isValid = true ∧
      r.evidence.isCurrent = true) :
    revalidateMembers resources vertices
      ((vertices.filterMap resources.lookup).map (·.generation)) = .ok () := by
  induction vertices with
  | nil => rfl
  | cons v vertices ih =>
    obtain ⟨⟨r, hr, hvalid, hcurrent⟩, hrest⟩ := List.forall_mem_cons.mp h
    rw [List.filterMap_cons, hr, List.map_cons, revalidateMembers, hr]
    simp only [hvalid, hcurrent, Bool.not_true, Bool.false_eq_true, if_false, List.head?_cons,
      Option.any_some, ne_eq, not_true_eq_false, decide_false, List.tail_cons]
    exact ih hrest

namespace Engine

variable {D : Type} [Double D]

/-! ### The request of a plan -/

/-- The best plan so far is for the request. -/
theorem request_foldl_considerCombo (s : Engine D) (req : CompositionRequest D)
    (selections : List (Selection D)) (combos : List (List ResourceId))
    (acc : OrdMap Str (PathEvidence D) × Result (CompositionPlan D))
    (h : acc.2.ok = true → acc.2.payload.request = req) :
    (combos.foldl (s.considerCombo req selections) acc).2.ok = true →
      (combos.foldl (s.considerCombo req selections) acc).2.payload.request = req := by
  induction combos generalizing acc with
  | nil => exact h
  | cons combo combos ih =>
    refine ih _ ?_
    rcases s.considerCombo_cases req selections acc combo with ⟨-, heq⟩ | ⟨-, heq⟩
    · rw [heq]
      exact h
    · rw [heq]
      exact fun _ => rfl

/-- A returned plan is for the request it was composed for. -/
theorem compose_request {s : Engine D} {req : CompositionRequest D}
    (hok : (s.compose req).2.ok = true) : (s.compose req).2.payload.request = req := by
  revert hok
  unfold compose
  rcases s.combosFor req with ⟨reason, notes⟩ | ⟨selections, combos⟩
  · exact fun hok => by cases hok
  dsimp only
  -- every plan considered carries the request
  have hfold := s.request_foldl_considerCombo req selections combos (s.paths, noPlan)
    (by intro hok; cases hok)
  generalize combos.foldl (s.considerCombo req selections) (s.paths, noPlan) = best at hfold ⊢
  -- the last step leaves the request of the plan as it is
  unfold finish
  by_cases hr : best.2.ok = true
  · rw [if_pos hr]
    exact fun _ => hfold hr
  · rw [if_neg hr]
    exact fun hok => by cases hok

/-! ### The three calls -/

/-- `Reserve`, `Commit` and `Activate`, each one when the one before it succeeded. -/
def carryThrough (s : Engine D) (plan : CompositionPlan D) : Engine D × Bool :=
  let (s, rr) := s.reserve plan
  if !rr.ok then (s, false)
  else
    let (s, cc) := s.commit rr.payload
    if !cc.ok then (s, false)
    else
      let (s, ar) := s.activate cc.payload.id
      if !ar.ok then (s, false) else (s, true)

/-- **`Recompute` carries its plan through** behind the releasing section. -/
theorem recompute_of_compose {s : Engine D} {id : CompositionId} {c : Composition D}
    (hc : s.compositions.lookup id = some c) (hok : (s.compose c.request).2.ok = true) :
    s.recompute id = ((s.compose c.request).1.recomputeRelease id).carryThrough
      (s.compose c.request).2.payload := by
  unfold recompute carryThrough
  rw [hc]
  dsimp only
  rw [hok]
  rfl

/-- The three verdicts. -/
theorem carryThrough_snd (s : Engine D) (plan : CompositionPlan D) :
    (s.carryThrough plan).2 = true ↔ (s.reserve plan).2.ok = true ∧
      ((s.reserve plan).1.commit (s.reserve plan).2.payload).2.ok = true ∧
      (((s.reserve plan).1.commit (s.reserve plan).2.payload).1.activate
        ((s.reserve plan).1.commit (s.reserve plan).2.payload).2.payload.id).2.ok = true := by
  unfold carryThrough
  dsimp only
  -- a step that fails ends the transaction
  by_cases hr : (s.reserve plan).2.ok = true
  swap
  · simp [hr]
  by_cases hcm : ((s.reserve plan).1.commit (s.reserve plan).2.payload).2.ok = true
  swap
  · simp [hr, hcm]
  simp only [hr, hcm, Bool.not_true, Bool.false_eq_true, if_false, true_and]
  split
  · next h => simpa using h
  · next h => simpa using h

/-! ### What the loops pass -/

/-- Holding members other than `v` leaves the amount of `v`. -/
theorem heldAfter_of_not_mem (s : Engine D) (req : CompositionRequest D) {v : ResourceId} (a : D)
    {pre : List ResourceId} (h : v ∉ pre) : s.heldAfter req v a pre = a := by
  induction pre generalizing a with
  | nil => rfl
  | cons w pre ih =>
    rw [List.mem_cons, not_or] at h
    show s.heldAfter req v (if v = w then _ else a) pre = a
    rw [if_neg h.1]
    exact ih a h.2

/-- A member that is held once has its hold added. -/
theorem heldAfter_of_nodup (s : Engine D) (req : CompositionRequest D) {v : ResourceId} (a : D)
    {vs : List ResourceId} (hnodup : vs.Nodup) (hv : v ∈ vs) :
    s.heldAfter req v a vs = Double.add a (s.holdOf req v) := by
  induction vs with
  | nil => exact absurd hv List.not_mem_nil
  | cons w vs ih =>
    obtain ⟨hw, hnodup⟩ := List.nodup_cons.mp hnodup
    -- the member is held once, here or further behind
    rcases List.mem_cons.mp hv with rfl | hv
    · show s.heldAfter req v (if v = v then _ else a) vs = _
      rw [if_pos rfl]
      exact s.heldAfter_of_not_mem req _ hw
    · have hne : v ≠ w := fun h => hw (h ▸ hv)
      show s.heldAfter req v (if v = w then _ else a) vs = _
      rw [if_neg hne]
      exact ih hnodup hv

/-- **What the check loop of `Commit` passes.** -/
theorem verifyItems_eq_none_iff (s : Engine D) (req : CompositionRequest D)
    (items : List (ReservationItem D)) (held : OrdMap ResourceId D) :
    (s.verifyItems req items held).2 = none ↔ ∀ i ∈ items,
      (∃ r, s.resources.lookup i.resource = some r ∧ Eligible r req) ∧
        Double.lt (Ledger.amount held i.resource) i.reservedAmount = false := by
  induction items generalizing held with
  | nil => exact iff_of_true rfl (List.forall_mem_nil _)
  | cons i items ih =>
    rw [List.forall_mem_cons]
    unfold verifyItems
    -- the tests of one item in the order of the source
    rcases hr : s.resources.lookup i.resource with _ | r
    · refine iff_of_false (fun h => by cases h) ?_
      rintro ⟨⟨⟨r, hr', -⟩, -⟩, -⟩
      cases hr'
    dsimp only
    rcases he : resourceEligible r req with e | ⟨⟨⟩⟩
    · refine iff_of_false (fun h => by cases h) ?_
      rintro ⟨⟨⟨r', hr', heligible⟩, -⟩, -⟩
      cases hr'
      rw [Eligible, he] at heligible
      cases heligible
    dsimp only
    have heligible : Eligible r req := by rw [Eligible, he]; rfl
    rw [Ledger.amount_touch]
    split
    · next hlt =>
      refine iff_of_false (fun h => by cases h) fun h => ?_
      rw [h.1.2] at hlt
      cases hlt
    · next hlt =>
      rw [ih]
      simp only [Ledger.amount_touch]
      exact (and_iff_right ⟨⟨r, rfl, heligible⟩, Bool.not_eq_true _ ▸ hlt⟩).symm

/-! ### One call after the other -/

/-- The verdict of `Commit` on the reservation that has just been made. -/
theorem commit_of_reserve_ok_iff {t : Engine D} {plan : CompositionPlan D}
    {held : OrdMap ResourceId D} {items : List (ReservationItem D)} :
    ((t.storeReservation plan held items).commit (t.newReservation plan items)).2.ok = true ↔
      ∀ i ∈ items, (∃ r, t.resources.lookup i.resource = some r ∧ Eligible r plan.request) ∧
        Double.lt (Ledger.amount held i.resource) i.reservedAmount = false := by
  -- both records are the ones that were stored
  have hresv : (t.storeReservation plan held items).reservations.lookup
      (t.newReservation plan items).id = some (t.newReservation plan items) :=
    AList.lookup_insert _
  have hcomp : (t.storeReservation plan held items).compositions.lookup
      (t.newReservation plan items).composition = some (t.newComposition plan) :=
    AList.lookup_insert _
  have hverify := (t.storeReservation plan held items).verifyItems_eq_none_iff plan.request items
    held
  refine Iff.trans ?_ hverify
  obtain ⟨held', reason, hv, hc⟩ | ⟨held', hv, hc⟩ := commit_cases hresv rfl hcomp rfl
  · rw [hc]
    refine iff_of_false (fun h => by cases h) fun h => ?_
    cases (congrArg Prod.snd hv).symm.trans h
  · rw [hc]
    exact iff_of_true rfl (congrArg Prod.snd hv)

/-- What it leaves when it succeeds: the composition of the plan is committed, the resources,
the epoch and the fences are those of before. -/
theorem commit_of_reserve {t : Engine D} {plan : CompositionPlan D}
    {held : OrdMap ResourceId D} {items : List (ReservationItem D)}
    (hok : ((t.storeReservation plan held items).commit
      (t.newReservation plan items)).2.ok = true) :
    ∃ u, (t.storeReservation plan held items).commit (t.newReservation plan items) =
        (u, ⟨.success, { t.newComposition plan with lifecycle := .committed }, [], []⟩) ∧
      u.compositions.lookup plan.id =
        some { t.newComposition plan with lifecycle := .committed } ∧
      u.resources = t.resources ∧ u.epoch = t.epoch ∧ u.fenced = t.fenced := by
  -- `Commit` finds what `Reserve` has just stored
  obtain ⟨resv, comp, held', hr, -, hc, -, -, heq⟩ := commit_ok hok
  have hresv : (t.storeReservation plan held items).reservations.lookup
      (t.newReservation plan items).id = some (t.newReservation plan items) :=
    AList.lookup_insert _
  rw [hresv] at hr
  cases hr
  have hcomp : (t.storeReservation plan held items).compositions.lookup
      (t.newReservation plan items).composition = some (t.newComposition plan) :=
    AList.lookup_insert _
  rw [hcomp] at hc
  cases hc
  exact ⟨_, heq, AList.lookup_insert _, rfl, rfl, rfl⟩

/-- The verdict of `Activate` on a committed composition that is stored under its own id. -/
theorem activate_ok_iff {s : Engine D} {id : CompositionId} {c : Composition D}
    (hc : s.compositions.lookup id = some c) (hl : c.lifecycle = .committed) :
    (s.activate id).2.ok = true ↔
      c.id ∉ s.fenced ∧ revalidationHolds c s.resources s.epoch = .ok () := by
  unfold activate
  rw [hc]
  dsimp only
  rw [if_neg (not_not.mpr hl)]
  -- a fenced composition is refused, and so is one that does not revalidate
  by_cases hf : c.id ∈ s.fenced
  · rw [if_pos hf]
    exact iff_of_false (fun h => by cases h) fun h => h.1 hf
  rw [if_neg hf]
  rcases hv : revalidationHolds c s.resources s.epoch with e | ⟨⟨⟩⟩
  · exact iff_of_false (fun h => by cases h) fun h => by cases h.2
  · exact iff_of_true rfl ⟨hf, rfl⟩

section Exact

variable {s t : Engine ℚ} {req : CompositionRequest ℚ}

/-- Nothing is recorded for the resource, and the two capacities that `Reserve` looks at are
not negative. -/
def Vacant (s : Engine ℚ) (v : ResourceId) : Prop :=
  Ledger.amount s.reservedAmount v = 0 ∧ ∀ r, s.resources.lookup v = some r →
    0 ≤ r.capacity.computeUnits ∧ 0 ≤ r.capacity.hostMemoryBytes

/-- Of an eligible member that is listed once, `Reserve` asks that nothing is held and that
no capacity is negative. -/
theorem refused_iff_of_eligible {v : ResourceId} {pre : List ResourceId} {r : Resource ℚ}
    (hr : t.resources.lookup v = some r) (heligible : Eligible r req) (hv : v ∉ pre) :
    Refused t req t.reservedAmount pre v ↔ ¬ (Ledger.amount t.reservedAmount v ≤ 0 ∧
      0 ≤ r.capacity.computeUnits ∧ 0 ≤ r.capacity.hostMemoryBytes) := by
  rw [Refused, t.heldAfter_of_not_mem req _ hv]
  simp only [hr, Option.some.injEq, forall_eq', Double.rat_lt, decide_eq_true_eq,
    Double.rat_zero, not_true_eq_false, heligible, false_or, not_and_or, not_le]

theorem not_mem_before {vs pre post : List ResourceId} {v : ResourceId} (hnodup : vs.Nodup)
    (hsplit : vs = pre ++ v :: post) : v ∉ pre := by
  rw [hsplit] at hnodup
  exact fun hmem => (List.nodup_append.mp hnodup).2.2 v hmem v List.mem_cons_self rfl

/-- What a plan of `Compose` brings with it: its members are registered, different and
eligible, and the authority records their generations and the epoch. -/
structure Fit (s : Engine ℚ) (req : CompositionRequest ℚ) (plan : CompositionPlan ℚ) : Prop where
  planned : plan.lifecycle = .planned
  request : plan.request = req
  nodup : plan.graph.vertices.Nodup
  eligible : ∀ v ∈ plan.graph.vertices, ∃ r, s.resources.lookup v = some r ∧ Eligible r req
  epoch : plan.authority.coordinatorEpoch = s.epoch
  generations : plan.authority.resourceGenerations =
    (plan.graph.vertices.filterMap s.resources.lookup).map (·.generation)

theorem compose_fit (hkeyed : s.ResourcesKeyed) (hok : (s.compose req).2.ok = true) :
    s.Fit req (s.compose req).2.payload := by
  obtain ⟨-, -, before, members, -, hplanned⟩ := compose_planned hkeyed hok
  obtain ⟨-, paths, hauthority⟩ := compose_payload hkeyed hok
  -- a call that fails returns no plan to fit
  obtain ⟨paths', ⟨hfail, -⟩ | ⟨-, -, plan, hplan⟩⟩ := s.compose_cases req
  · rw [hfail] at hok
    cases hok
  refine ⟨?_, compose_request hok, ?_, ?_, ?_, ?_⟩
  · rw [hplan]
    rfl
  · rw [hplanned.vertices]
    exact hplanned.nodup
  · -- a vertex of the plan is a member of the choice that won
    intro v hv
    rw [hplanned.vertices] at hv
    obtain ⟨r, hr, rfl⟩ := List.mem_map.mp hv
    exact ⟨r, hplanned.lookup r hr, hplanned.eligible r hr⟩
  · rw [hauthority]
    rfl
  · rw [hauthority]
    rfl

/-- `Reserve` of such a plan. -/
theorem Fit.reserve_ok_iff {plan : CompositionPlan ℚ} (h : t.Fit req plan) :
    (t.reserve plan).2.ok = true ↔ plan.id.isValid = true ∧ ∀ v ∈ plan.graph.vertices,
      Ledger.amount t.reservedAmount v ≤ 0 ∧ ∀ r, t.resources.lookup v = some r →
        0 ≤ r.capacity.computeUnits ∧ 0 ≤ r.capacity.hostMemoryBytes := by
  rw [Engine.reserve_ok_iff, h.request, and_iff_right h.planned]
  refine and_congr_right fun _ => ⟨fun hnone v hv => ?_, ?_⟩
  · -- a member that cannot be held would be refused behind those before it
    obtain ⟨r, hr, heligible⟩ := h.eligible v hv
    obtain ⟨pre, post, hsplit⟩ := List.append_of_mem hv
    have hpre := not_mem_before h.nodup hsplit
    by_contra hcontra
    refine hnone ⟨pre, v, post, hsplit, (refused_iff_of_eligible hr heligible hpre).mpr ?_⟩
    rintro ⟨hfree, hcaps⟩
    refine hcontra ⟨hfree, fun r' hr' => ?_⟩
    rw [hr] at hr'
    cases hr'
    exact hcaps
  · -- no member is refused if each of them is free and has no negative capacity
    rintro hall ⟨pre, v, post, hsplit, hrefused⟩
    have hv : v ∈ plan.graph.vertices := by
      rw [hsplit]
      exact List.mem_append_right _ List.mem_cons_self
    obtain ⟨r, hr, heligible⟩ := h.eligible v hv
    have hpre := not_mem_before h.nodup hsplit
    exact (refused_iff_of_eligible hr heligible hpre).mp hrefused ⟨(hall v hv).1, (hall v hv).2 r hr⟩

/-- The revalidation of such a plan passes, as long as the resources and the epoch are
those it was composed for. -/
theorem Fit.revalidationHolds {plan : CompositionPlan ℚ} (h : s.Fit req plan)
    {c : Composition ℚ} (ha : c.authority = plan.authority) (hg : c.graph = plan.graph) :
    revalidationHolds c s.resources s.epoch = .ok () := by
  unfold DFabric.revalidationHolds
  rw [ha, hg, h.epoch, h.generations, if_neg (not_not.mpr rfl)]
  refine revalidateMembers_own fun v hv => ?_
  obtain ⟨r, hr, heligible⟩ := h.eligible v hv
  exact ⟨r, hr, heligible.valid_and_current⟩

/-- A plan fits any state with the same resources and the same epoch. -/
theorem Fit.congr {plan : CompositionPlan ℚ} (h : s.Fit req plan)
    (hres : t.resources = s.resources) (hepoch : t.epoch = s.epoch) : t.Fit req plan where
  planned := h.planned
  request := h.request
  nodup := h.nodup
  eligible := by rw [hres]; exact h.eligible
  epoch := by rw [hepoch]; exact h.epoch
  generations := by rw [hres]; exact h.generations

/-- **When such a plan goes through.** -/
theorem Fit.carryThrough_ok_iff {plan : CompositionPlan ℚ} (h : t.Fit req plan) :
    (t.carryThrough plan).2 = true ↔ plan.id.isValid = true ∧ plan.id ∉ t.fenced ∧
      ∀ v ∈ plan.graph.vertices, t.Vacant v := by
  rw [carryThrough_snd]
  by_cases hr : (t.reserve plan).2.ok = true
  swap
  · -- a vacant member is free
    refine iff_of_false (fun hall => hr hall.1) fun hall => hr ?_
    refine h.reserve_ok_iff.mpr ⟨hall.1, fun v hv => ?_⟩
    exact ⟨(hall.2.2 v hv).1.le, (hall.2.2 v hv).2⟩
  obtain ⟨hid, hfree⟩ := h.reserve_ok_iff.mp hr
  obtain ⟨held, items, hmembers, heq⟩ := reserve_ok hr
  obtain ⟨hitems, hamounts⟩ := reserveMembers_held (congrArg (·.2.2) hmembers)
  rw [hmembers] at hitems hamounts
  rw [and_iff_right hr, and_iff_right hid, heq]
  dsimp only
  -- the check of `Commit` finds an item whole exactly when nothing was recorded before
  have hcommit : ((t.storeReservation plan held items).commit
      (t.newReservation plan items)).2.ok = true ↔ ∀ v ∈ plan.graph.vertices, t.Vacant v := by
    rw [commit_of_reserve_ok_iff, show items = _ from hitems, heldItems, List.forall_mem_map]
    refine forall₂_congr fun v hv => ?_
    have hamount : Ledger.amount held v =
        Ledger.amount t.reservedAmount v + t.holdOf plan.request v := by
      rw [show Ledger.amount held v = _ from hamounts v,
        t.heldAfter_of_nodup plan.request _ h.nodup hv, Double.rat_add]
    obtain ⟨r, hr', heligible⟩ := h.eligible v hv
    rw [hamount, Double.rat_lt, decide_eq_false_iff_not, not_lt]
    constructor
    · rintro ⟨-, hle⟩
      have hnonneg : 0 ≤ Ledger.amount t.reservedAmount v := by linarith
      exact ⟨le_antisymm (hfree v hv).1 hnonneg, (hfree v hv).2⟩
    · rintro ⟨hzero, -⟩
      rw [hzero, zero_add]
      exact ⟨⟨r, hr', h.request ▸ heligible⟩, le_rfl⟩
  by_cases hc : ((t.storeReservation plan held items).commit
      (t.newReservation plan items)).2.ok = true
  swap
  · exact iff_of_false (fun hall => hc hall.1) fun hall => hc (hcommit.mpr hall.2)
  obtain ⟨u, hu, hlook, hres, hepoch, hfenced⟩ := commit_of_reserve hc
  rw [and_iff_right hc, and_iff_left (hcommit.mp hc), hu]
  show (u.activate plan.id).2.ok = true ↔ _
  rw [activate_ok_iff hlook rfl, hfenced, hres, hepoch]
  exact and_iff_left (h.revalidationHolds rfl rfl)

/-! ### Plans in a run -/

/-- No live reservation holds the resource, and the two capacities that `Reserve` looks at
are not negative. -/
structure Available (s : Engine ℚ) (except : Option ReservationId) (v : ResourceId) : Prop where
  unheld : ∀ rid resv, s.reservations.lookup rid = some resv → resv.IsLive →
    (∃ i ∈ resv.items, i.resource = v) → some rid = except
  capacities : ∀ r, s.resources.lookup v = some r →
    0 ≤ r.capacity.computeUnits ∧ 0 ≤ r.capacity.hostMemoryBytes

/-- **With a right account, nothing is recorded for what no live reservation holds.** -/
theorem Conserved.amount_eq_zero_iff (h : Conserved (0 < ·) s) (v : ResourceId) :
    Ledger.amount s.reservedAmount v = 0 ↔ ∀ rid resv, s.reservations.lookup rid = some resv →
      resv.IsLive → ¬ ∃ i ∈ resv.items, i.resource = v := by
  constructor
  · -- a live reservation of `v` would put more than zero on the account
    rintro hzero rid resv hresv hlive ⟨i, hi, rfl⟩
    have hpos := (h.amounts resv (UMap.mem_values_of_lookup hresv)).held_pos hlive hi
    have hle := h.held_le (fun _ hx => hx.le) hresv i.resource
    rw [hzero] at hle
    exact absurd hpos (not_lt.mpr hle)
  · -- the account is the sum over the reservations, and each of them adds zero
    intro hunheld
    rw [h.amount_eq, liveHolds]
    refine List.sum_eq_zero fun x hx => ?_
    obtain ⟨resv, hmem, rfl⟩ := List.mem_map.mp hx
    obtain ⟨rid, hresv⟩ := UMap.exists_lookup_of_mem_values hmem
    by_cases hlive : resv.IsLive
    · rw [Reservation.held_of_live hlive]
      refine Ledger.charge_eq_zero fun e he hev => ?_
      obtain ⟨i, hi, rfl⟩ := List.mem_map.mp he
      exact absurd ⟨i, hi, hev⟩ (hunheld rid resv hresv hlive)
    · exact Reservation.held_of_not_live hlive v

/-- With a right account, vacant is what no live reservation holds. -/
theorem Conserved.vacant_iff (h : Conserved (0 < ·) s) (v : ResourceId) :
    s.Vacant v ↔ s.Available none v := by
  rw [Vacant, h.amount_eq_zero_iff]
  constructor
  · rintro ⟨hunheld, hcaps⟩
    exact ⟨fun rid resv hresv hlive hi => absurd hi (hunheld rid resv hresv hlive), hcaps⟩
  · rintro ⟨hunheld, hcaps⟩
    refine ⟨fun rid resv hresv hlive hi => ?_, hcaps⟩
    cases hunheld rid resv hresv hlive hi

/-- `Compose` changes neither what a plan is checked against nor who holds what. -/
theorem compose_unchanged (s : Engine ℚ) (req : CompositionRequest ℚ) :
    ∃ paths next, (s.compose req).1 = { s with paths := paths, nextComp := next } := by
  obtain ⟨paths, ⟨-, heq⟩ | ⟨-, heq, -⟩⟩ := s.compose_cases req
  · exact ⟨paths, s.nextComp, heq⟩
  · exact ⟨paths, s.nextComp + 1, heq⟩

/-- The id of a returned plan is the counter. -/
theorem compose_plan_id (hok : (s.compose req).2.ok = true) :
    (s.compose req).2.payload.id = ⟨s.nextComp⟩ := by
  obtain ⟨paths, ⟨hfail, -⟩ | ⟨-, -, plan, hplan⟩⟩ := s.compose_cases req
  · rw [hfail] at hok
    cases hok
  · rw [hplan]
    rfl

/-- **When a composed plan goes through.** In every run that keeps the account of holds, the
three calls after a `Compose` succeed exactly when no live reservation holds a member, no
member has a negative capacity, and the id that was issued is valid and not fenced. -/
theorem transaction_succeeds_iff (cfg : EngineConfig) (ops : List (Op ℚ))
    (h : Along (Accounted (0 < ·)) (fresh cfg) ops) (req : CompositionRequest ℚ)
    (hok : (((fresh cfg).run ops).compose req).2.ok = true) :
    let s := (fresh cfg).run ops
    let plan := (s.compose req).2.payload
    ((s.compose req).1.carryThrough plan).2 = true ↔
      s.nextComp ≠ 0 ∧ (⟨s.nextComp⟩ : CompositionId) ∉ s.fenced ∧
        ∀ v ∈ plan.graph.vertices, s.Available none v := by
  dsimp only
  -- the accounts are exact and the tables keyed in the state before
  have hconserved := conserved_run (fun _ hx => le_of_lt hx) cfg h
  have hkeyed := resourcesKeyed_run cfg ops
  generalize (fresh cfg).run ops = s at hok hconserved hkeyed ⊢
  have hfit := compose_fit hkeyed hok
  obtain ⟨paths, next, hs⟩ := s.compose_unchanged req
  have hafter : (s.compose req).1.Fit req (s.compose req).2.payload :=
    hfit.congr (by rw [hs]) (by rw [hs]; rfl)
  rw [hafter.carryThrough_ok_iff, compose_plan_id hok, hs]
  -- the id is valid, not fenced, and every member is vacant
  refine and_congr ?_ (and_congr_right fun _ => forall₂_congr fun v _ => ?_)
  · show (s.nextComp != 0) = true ↔ _
    exact bne_iff_ne
  · exact hconserved.vacant_iff v

/-- The plan for the one registered resource goes through, so nobody holds it. -/
theorem sample_transaction_succeeds :
    let s : Engine ℚ := (fresh sampleConfig).run sampleOps
    ∀ v ∈ (s.compose (sampleRequest 32)).2.payload.graph.vertices, s.Available none v :=
  ((transaction_succeeds_iff sampleConfig sampleOps (by decide +kernel) (sampleRequest 32)
    (by decide +kernel)).mp (by decide +kernel)).2.2

/-- What the releasing section leaves: the resources, the epoch, one more fence. -/
theorem recomputeRelease_frame {id : CompositionId} {c : Composition ℚ}
    (hc : s.compositions.lookup id = some c) :
    (s.recomputeRelease id).resources = s.resources ∧
      (s.recomputeRelease id).epoch = s.epoch ∧
      (s.recomputeRelease id).fenced = insert c.id s.fenced ∧
      (s.recomputeRelease id).reservations = (s.endComposition id c).reservations := by
  obtain ⟨held, resvs, hend⟩ := s.endReservation_eq c.reservation
  unfold recomputeRelease
  rw [hc]
  refine ⟨?_, ?_, rfl, rfl⟩
  · show (s.endComposition id c).resources = s.resources
    rw [endComposition, hend]
    rfl
  · show (s.endComposition id c).epoch = s.epoch
    rw [endComposition, hend]
    rfl

/-- The vacant resources once a composition was ended: its own reservation does not count. -/
theorem available_recomputeRelease_iff {id : CompositionId} {c : Composition ℚ}
    (hc : s.compositions.lookup id = some c) (v : ResourceId) :
    (s.recomputeRelease id).Available none v ↔ s.Available (some c.reservation) v := by
  obtain ⟨hresources, -, -, hresvs⟩ := recomputeRelease_frame hc
  constructor
  · -- another reservation is as live behind the release as it was
    rintro ⟨hunheld, hcaps⟩
    rw [hresources] at hcaps
    refine ⟨?_, hcaps⟩
    intro rid resv hresv hlive hlists
    by_contra hne
    have hother : rid ≠ c.reservation := fun h => hne (congrArg some h)
    refine Option.some_ne_none rid (hunheld rid resv ?_ hlive hlists)
    rw [hresvs, lookup_reservations_endComposition_of_ne hother, hresv]
  · rintro ⟨hunheld, hcaps⟩
    refine ⟨?_, by rw [hresources]; exact hcaps⟩
    intro rid resv hresv hlive hlists
    rw [hresvs] at hresv
    obtain ⟨hbefore, hne⟩ | ⟨-, r₀, -, rfl⟩ := lookup_reservations_endComposition id hresv
    · exact absurd (Option.some.inj (hunheld rid resv hbefore hlive hlists)) hne
    · -- a released reservation is not live
      rcases hlive with hstate | hstate <;> cases hstate

/-- The releasing section looks neither at the paths nor at the counter of compositions. -/
theorem recomputeRelease_of_composed (s : Engine ℚ) (id : CompositionId)
    (paths : OrdMap Str (PathEvidence ℚ)) (next : UInt64) :
    ({ s with paths := paths, nextComp := next } : Engine ℚ).recomputeRelease id =
      { s.recomputeRelease id with paths := paths, nextComp := next } := by
  unfold recomputeRelease endComposition endReservation
  dsimp only
  split
  · rfl
  · split <;> rfl

/-- **When `Recompute` succeeds.** In every run that keeps the account of holds, if the
reservation of the old composition may be ended, `Recompute` returns true exactly when
`Compose` finds a plan for the old request whose members are held by no reservation but the
old one, have no negative capacity, and whose id is valid and not fenced. -/
theorem recompute_succeeds_iff (cfg : EngineConfig) (ops : List (Op ℚ))
    (h : Along (Accounted (0 < ·)) (fresh cfg) ops) (id : CompositionId)
    (hend : Accounted (0 < ·) ((fresh cfg).run ops) (.recomputeRelease id)) :
    let s := (fresh cfg).run ops
    (s.recompute id).2 = true ↔ ∃ c, s.compositions.lookup id = some c ∧
      (s.compose c.request).2.ok = true ∧
      s.nextComp ≠ 0 ∧ (⟨s.nextComp⟩ : CompositionId) ∉ insert c.id s.fenced ∧
      ∀ v ∈ (s.compose c.request).2.payload.graph.vertices, s.Available (some c.reservation) v := by
  dsimp only
  have hreleased := (conserved_run (fun _ hx => le_of_lt hx) cfg h).step
    (fun _ hx => le_of_lt hx) hend
  have hkeyed := resourcesKeyed_run cfg ops
  generalize (fresh cfg).run ops = s at hend hreleased hkeyed ⊢
  rcases hc : s.compositions.lookup id with _ | c
  · -- unknown compositions are not recomputed
    refine iff_of_false (fun hok => ?_) fun ⟨c, hc', _⟩ => by cases hc'
    rw [recompute, hc] at hok
    cases hok
  simp only [Option.some.injEq, exists_eq_left']
  by_cases hok : (s.compose c.request).2.ok = true
  -- a call of `Compose` that fails ends it
  swap
  · refine iff_of_false (fun hdone => ?_) fun hall => hok hall.1
    rw [recompute, hc] at hdone
    simp only [Bool.not_eq_true] at hok
    simp only [hok, Bool.not_false, if_true] at hdone
    cases hdone
  rw [and_iff_right hok, recompute_of_compose hc hok]
  -- `Compose` writes the paths and the counter only, which the release does not read
  obtain ⟨paths, next, hs⟩ := s.compose_unchanged c.request
  have hfit := compose_fit hkeyed hok
  obtain ⟨hresources, hepoch, hfenced, -⟩ := recomputeRelease_frame hc
  rw [hs, recomputeRelease_of_composed]
  have hafter : ({ s.recomputeRelease id with paths := paths, nextComp := next } :
      Engine ℚ).Fit c.request (s.compose c.request).2.payload :=
    hfit.congr hresources hepoch
  rw [hafter.carryThrough_ok_iff, compose_plan_id hok]
  -- the id, the fence and the members, each on the state before the release
  refine and_congr ?_ (and_congr ?_ (forall₂_congr fun v _ => ?_))
  · show (s.nextComp != 0) = true ↔ _
    exact bne_iff_ne
  · show _ ∉ (s.recomputeRelease id).fenced ↔ _
    rw [hfenced]
  · show (s.recomputeRelease id).Vacant v ↔ _
    exact (hreleased.vacant_iff v).trans (available_recomputeRelease_iff hc v)

/-- The active sample composition is recomputed: the replacement takes the resource that only
the old reservation holds. -/
theorem sample_recompute_succeeds :
    let s : Engine ℚ := (fresh sampleConfig).run (sampleOps ++ sampleTransaction)
    ∃ c, s.compositions.lookup ⟨1⟩ = some c ∧ (s.compose c.request).2.ok = true ∧
      ∀ v ∈ (s.compose c.request).2.payload.graph.vertices,
        s.Available (some c.reservation) v := by
  obtain ⟨c, hc, hok, -, -, hfree⟩ :=
    (recompute_succeeds_iff sampleConfig (sampleOps ++ sampleTransaction) (by decide +kernel) ⟨1⟩
      (by decide +kernel)).mp (by decide +kernel)
  exact ⟨c, hc, hok, hfree⟩

end Exact

end Engine

end DFabric
