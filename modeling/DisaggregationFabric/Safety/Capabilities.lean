import DisaggregationFabric.Engine.Admission
import DisaggregationFabric.Engine.Completeness
import DisaggregationFabric.Safety.Backing

/-!
# Capability claims and membership

A resource is eligible unless its first claims for the kinds of its class include an
unknown one and no supported one. A class whose kinds are not claimed at all, or claimed
as unsupported or as due for revalidation only, passes. So the members of a plan, and those
of a composition that `Commit` accepts, need not have a supported claim
(`unsupported_composed`).

The condition is exact, and one on the record of the resource: in every run it is a member
only with a supported claim if and only if it has one, or eligibility refuses it whatever
is asked for (`capabilities_fail_closed_iff`). A member of an accepted composition is one
that `Commit` has looked at because the reservation lists the members (`Backing`).
-/

namespace DFabric

variable {D : Type}

/-- Some claim for a kind of the resource's class is that it is supported. -/
def Supported (r : Resource D) : Prop :=
  ∃ c ∈ r.capabilities, c.kind ∈ classCapabilityKinds r.resourceClass ∧ c.state = .supported

instance (r : Resource D) : Decidable (Supported r) := inferInstanceAs (Decidable (∃ _ ∈ _, _ ∧ _))

/-- The first claims for the kinds of the resource's class. -/
def firstClaims (r : Resource D) : List Capability :=
  (classCapabilityKinds r.resourceClass).filterMap (findCapability r)

/-- Eligibility refuses the resource whatever is asked for. -/
def NeverEligible (r : Resource D) : Prop :=
  r.id.isValid = false ∨ r.health ≠ .healthy ∨ r.readiness ≠ .ready ∨
    r.evidence.isCurrent = false ∨
    ((∃ c ∈ firstClaims r, c.state = .unknown) ∧ ∀ c ∈ firstClaims r, c.state ≠ .supported)

instance (r : Resource D) : Decidable (NeverEligible r) :=
  inferInstanceAs (Decidable (_ ∨ _ ∨ _ ∨ _ ∨ (∃ _ ∈ _, _) ∧ _))

/-- A request that asks for no architecture and does not look at reachability. -/
def openRequest [Double D] : CompositionRequest D :=
  { (default : CompositionRequest D) with ignoreReachability := true }

/-- What eligibility has seen. -/
theorem not_neverEligible_of_eligible {r : Resource D} {req : CompositionRequest D}
    (h : Eligible r req) : ¬ NeverEligible r := by
  -- the checks in their order
  obtain ⟨hid, h⟩ := Check.isOk_ite h
  obtain ⟨hoffline, h⟩ := Check.isOk_ite h
  obtain ⟨hdegraded, h⟩ := Check.isOk_ite h
  obtain ⟨-, h⟩ := Check.isOk_ite h
  obtain ⟨hready, h⟩ := Check.isOk_ite h
  obtain ⟨hcurrent, h⟩ := Check.isOk_ite h
  obtain ⟨hclaims, -⟩ := Check.isOk_ite h
  rintro (hzero | hhealth | hreadiness | hstale | ⟨⟨c, hc, hunknown⟩, hnone⟩)
  · exact hid (by rw [hzero]; rfl)
  · rw [not_or] at hdegraded
    cases hcase : r.health with
    | healthy => exact hhealth hcase
    | degraded => exact hdegraded.1 hcase
    | offline => exact hoffline hcase
    | unknown => exact hdegraded.2 hcase
  · rw [not_or] at hready
    cases hcase : r.readiness with
    | ready => exact hreadiness hcase
    | notReady => exact hready.1 hcase
    | unknown => exact hready.2 hcase
  · exact hcurrent (by rw [hstale]; rfl)
  · -- a claim, an unknown one among them, and no supported one
    refine hclaims ?_
    rw [Bool.and_eq_true, Bool.and_eq_true, Bool.not_eq_true', Bool.not_eq_true']
    refine ⟨⟨List.isEmpty_eq_false_iff.mpr (List.ne_nil_of_mem hc), ?_⟩, ?_⟩
    · exact List.any_eq_true.mpr ⟨c, hc, decide_eq_true hunknown⟩
    · exact List.any_eq_false.mpr fun c hc => by simpa using hnone c hc

/-- Nothing else is refused when nothing is asked for. -/
theorem eligible_openRequest [Double D] {r : Resource D} (h : ¬ NeverEligible r) :
    Eligible r openRequest := by
  simp only [NeverEligible, not_or, not_and_or, not_not, Bool.not_eq_false] at h
  obtain ⟨hid, hhealth, hready, hcurrent, hclaims⟩ := h
  -- the tests in the order of the source
  refine Check.isOk_ite_of_not (by rw [hid]; decide) <|
    Check.isOk_ite_of_not (by rw [hhealth]; decide) <|
    Check.isOk_ite_of_not (by rw [hhealth]; decide) <|
    Check.isOk_ite_of_not (fun hreach => Bool.false_ne_true hreach.1) <|
    Check.isOk_ite_of_not (by rw [hready]; decide) <|
    Check.isOk_ite_of_not (by rw [hcurrent]; decide) <| Check.isOk_ite_of_not ?_ ?_
  · rw [Bool.and_eq_true, Bool.and_eq_true, Bool.not_eq_true', Bool.not_eq_true']
    rintro ⟨⟨-, hunknown⟩, hnone⟩
    obtain ⟨c, hc, hstate⟩ := List.any_eq_true.mp hunknown
    rcases hclaims with hno | hok
    · exact hno ⟨c, hc, of_decide_eq_true hstate⟩
    · refine hok fun c hc hsupported => ?_
      exact List.any_eq_false.mp hnone c hc (decide_eq_true hsupported)
  · -- no architecture is listed
    rw [if_neg fun harch => Bool.false_ne_true harch.2]
    rfl

namespace Engine

/-- **A resource with a class is a member only with a supported claim**: of a plan that
`Compose` returns in this state, and of a composition that `Commit` accepts in it. -/
def FailsClosed [Double D] (s : Engine D) (r : Resource D) : Prop :=
  s.resources.lookup r.id = some r → r.resourceClass ≠ .unknown →
    (∀ req, (s.compose req).2.ok = true →
      r.id ∈ (s.compose req).2.payload.graph.vertices → Supported r) ∧
    ∀ resIn, (s.commit resIn).2.ok = true →
      r.id ∈ (s.commit resIn).2.payload.graph.vertices → Supported r

section Members

variable [Double D] [LawfulDoubleOrder D] {s : Engine D}

/-- A member of a returned plan is eligible. -/
theorem eligible_of_compose (hkeyed : s.ResourcesKeyed) {req : CompositionRequest D}
    (hok : (s.compose req).2.ok = true) {r : Resource D}
    (hr : s.resources.lookup r.id = some r)
    (hmem : r.id ∈ (s.compose req).2.payload.graph.vertices) : Eligible r req := by
  obtain ⟨selections, combos, hcombos, combo, hcombo, before, hwon⟩ := compose_won hok
  have hplanned := hwon.planned hkeyed hcombos hcombo
  rw [hplanned.vertices] at hmem
  obtain ⟨r', hr', hid⟩ := List.mem_map.mp hmem
  have hsame := hplanned.lookup r' hr'
  rw [hid, hr] at hsame
  cases hsame
  exact hplanned.eligible r hr'

omit [LawfulDoubleOrder D] in
/-- A member of a composition that `Commit` accepts is eligible, if the reservation lists
the members. -/
theorem eligible_of_commit (hbacking : s.Backing) {resIn : Reservation D}
    (hok : (s.commit resIn).2.ok = true) {r : Resource D}
    (hr : s.resources.lookup r.id = some r)
    (hmem : r.id ∈ (s.commit resIn).2.payload.graph.vertices) :
    ∃ req, Eligible r req := by
  obtain ⟨resv, comp, held, hresv, hopen, hcomp, hreserved, hverified, heq⟩ := commit_ok hok
  obtain ⟨-, hitems⟩ := hbacking.open_reservation resv.composition comp resIn.id resv hcomp
    hreserved hresv (hbacking.keyed _ _ hcomp).symm hopen
  -- the members of the composition are the items that have been verified
  rw [heq] at hmem
  change r.id ∈ comp.graph.vertices at hmem
  rw [← hitems] at hmem
  obtain ⟨i, hi, hid⟩ := List.mem_map.mp hmem
  obtain ⟨r', hr', heligible⟩ := verifyItems_eligible hverified i hi
  rw [hid, hr] at hr'
  cases hr'
  exact ⟨comp.request, heligible⟩

end Members

/-! ### A run that commits any eligible record -/

section Committing

variable {cfg : EngineConfig} {r : Resource ℚ}

/-- The record with all capacities zero. -/
def emptied (r : Resource ℚ) : Resource ℚ := { r with capacity := default }

/-- A plan with the resource as its only member. -/
def planFor (r : Resource ℚ) : CompositionPlan ℚ :=
  { (default : CompositionPlan ℚ) with
    id := ⟨1⟩
    graph := ⟨[r.id], []⟩
    request := openRequest
    lifecycle := .planned }

/-- The resource is registered without capacities, reserved, and registered again as it is:
`Reserve` refuses negative capacities, `Commit` does not look at them. -/
def committing (r : Resource ℚ) : List (Op ℚ) :=
  [.registerResource (emptied r), .reserve (planFor r), .registerResource r]

/-- The engine that has registered the resource without capacities. -/
def emptyRegistered (cfg : EngineConfig) (r : Resource ℚ) : Engine ℚ :=
  { (fresh cfg : Engine ℚ) with
    resources := (∅ : UMap ResourceId (Resource ℚ)).insert r.id (emptied r) }

theorem step_registerResource_emptied (hid : r.id.isValid = true) :
    (fresh cfg).step (.registerResource (emptied r)) = emptyRegistered cfg r := by
  have hinvalid : ¬ (!(emptied r).id.isValid) = true := by
    change ¬ (!r.id.isValid) = true
    rw [hid]
    decide
  change ((fresh cfg).registerResource (emptied r)).1 = _
  rw [registerResource, if_neg hinvalid, ingestResource, if_neg hinvalid]
  rfl

/-- The plan can be reserved. -/
theorem reserve_planFor (heligible : Eligible r openRequest) :
    ((emptyRegistered cfg r).reserve (planFor r)).2.ok = true := by
  refine (reserve_ok_iff _).mpr ⟨rfl, rfl, ?_⟩
  rintro ⟨pre, v, post, hsplit, hrefused⟩
  -- the one member is the first
  obtain ⟨rfl, rfl, rfl⟩ : pre = [] ∧ v = r.id ∧ post = [] := by
    rcases pre with _ | ⟨w, pre⟩
    · cases hsplit
      exact ⟨rfl, rfl, rfl⟩
    · cases pre <;> cases hsplit
  have hlookup : (emptyRegistered cfg r).resources.lookup r.id = some (emptied r) :=
    AList.lookup_insert _
  rcases hrefused (emptied r) hlookup with hnot | hheld | hunits | hmemory
  · exact hnot heligible
  · exact lt_irrefl (0 : ℚ) (of_decide_eq_true hheld)
  · exact lt_irrefl (0 : ℚ) (of_decide_eq_true hunits)
  · exact lt_irrefl (0 : ℚ) (of_decide_eq_true hmemory)

/-- Registering the record again with its generation demotes nothing. -/
theorem step_registerResource_again (hid : r.id.isValid = true) {s : Engine ℚ}
    (hlookup : s.resources.lookup r.id = some (emptied r)) :
    s.step (.registerResource r) = { s with resources := s.resources.insert r.id r } := by
  have hinvalid : ¬ (!r.id.isValid) = true := by
    rw [hid]
    decide
  have hsame : ¬ (emptied r).generation ≠ r.generation := not_not.mpr rfl
  change (s.registerResource r).1 = _
  rw [registerResource, if_neg hinvalid, ingestResource, if_neg hinvalid, hlookup]
  dsimp only
  rw [if_neg hsame]

/-- The hold of the member is recorded, so the check of `Commit` passes. -/
theorem verifyItems_heldItems {s t : Engine ℚ} {held : OrdMap ResourceId ℚ}
    (hlookup : s.resources.lookup r.id = some r) (heligible : Eligible r openRequest)
    (hamount : t.holdOf openRequest r.id ≤ Ledger.amount held r.id) :
    ∃ held', s.verifyItems openRequest (t.heldItems openRequest [r.id]) held = (held', none) := by
  have hok : resourceEligible r openRequest = .ok () := by
    rcases hv : resourceEligible r openRequest with e | ⟨⟨⟩⟩
    · rw [Eligible, hv] at heligible
      cases heligible
    · rfl
  -- reading the amount of the item creates its entry
  refine ⟨Ledger.touch held r.id, ?_⟩
  unfold heldItems
  rw [List.map_singleton, verifyItems, hlookup]
  dsimp only
  rw [hok]
  dsimp only
  rw [Ledger.amount_touch, if_neg]
  · rfl
  · exact fun hlt => absurd (of_decide_eq_true hlt) (not_lt.mpr hamount)

/-- **The run commits the record.** -/
theorem run_committing (cfg : EngineConfig) (hid : r.id.isValid = true)
    (heligible : Eligible r openRequest) :
    ((fresh cfg).run (committing r)).resources.lookup r.id = some r ∧ ∃ resIn,
      (((fresh cfg).run (committing r)).commit resIn).2.ok = true ∧
      r.id ∈ (((fresh cfg).run (committing r)).commit resIn).2.payload.graph.vertices := by
  have hreserved : ((emptyRegistered cfg r).reserve (planFor r)).2.ok = true :=
    reserve_planFor heligible
  obtain ⟨held, items, hmembers, hreserve⟩ := reserve_ok hreserved
  obtain ⟨hheld, hamounts⟩ := reserveMembers_held (congrArg (·.2.2) hmembers)
  rw [hmembers] at hheld hamounts
  have hitems : items = (emptyRegistered cfg r).heldItems openRequest [r.id] := hheld
  -- the state after the `Reserve`
  generalize ht : (emptyRegistered cfg r).storeReservation (planFor r) held items = t at hreserve
  have htable : t.resources.lookup r.id = some (emptied r) := by
    rw [← ht]
    exact AList.lookup_insert _
  have hrun : (fresh cfg).run (committing r) =
      { t with resources := t.resources.insert r.id r } := by
    rw [← step_registerResource_again hid htable]
    change (((fresh cfg).step (.registerResource (emptied r))).step (.reserve (planFor r))).step
      (.registerResource r) = _
    rw [step_registerResource_emptied hid]
    change (((emptyRegistered cfg r).reserve (planFor r)).1).step (.registerResource r) = _
    rw [hreserve]
  rw [hrun]
  have hlookup : (t.resources.insert r.id r).lookup r.id = some r := AList.lookup_insert _
  refine ⟨hlookup, (emptyRegistered cfg r).newReservation (planFor r) items, ?_⟩
  have hresv : t.reservations.lookup ((emptyRegistered cfg r).newReservation (planFor r) items).id =
      some ((emptyRegistered cfg r).newReservation (planFor r) items) := by
    rw [← ht]
    exact AList.lookup_insert _
  have hcomp : t.compositions.lookup
      ((emptyRegistered cfg r).newReservation (planFor r) items).composition =
      some ((emptyRegistered cfg r).newComposition (planFor r)) := by
    rw [← ht]
    exact AList.lookup_insert _
  have hamount : (emptyRegistered cfg r).holdOf openRequest r.id ≤
      Ledger.amount t.reservedAmount r.id := by
    rw [← ht]
    change _ ≤ Ledger.amount held r.id
    rw [hamounts r.id, heldAfter, planFor, List.foldl_cons, List.foldl_nil, if_pos rfl]
    exact (zero_add _).ge
  obtain ⟨held', hverified⟩ :=
    verifyItems_heldItems (s := { t with resources := t.resources.insert r.id r }) hlookup
      heligible hamount
  rcases commit_cases (s := { t with resources := t.resources.insert r.id r }) hresv rfl hcomp rfl
    with ⟨held'', reason, hfailed, -⟩ | ⟨held'', -, heq⟩
  · -- the check of the one item passes
    subst hitems
    cases hverified.symm.trans hfailed
  · rw [heq]
    exact ⟨rfl, List.mem_singleton_self _⟩

/-- Its one `Reserve` is for a fresh reservation. -/
theorem committing_reservesFresh (cfg : EngineConfig) (hid : r.id.isValid = true) :
    Along ReservesFresh (fresh cfg) (committing r) := by
  refine ⟨by rintro plan ⟨⟩, ?_, by rintro plan ⟨⟩, trivial⟩
  intro plan hplan
  cases hplan
  rw [step_registerResource_emptied hid]
  exact ⟨List.forall_mem_nil _, List.forall_mem_nil _⟩

end Committing

/-- **When capabilities fail closed.** For every record: in every state of every run in
which reservations are fresh, the resource is a member of a returned plan or of an accepted
composition only with a supported claim for a kind of its class, if and only if it has one,
or has no class, or eligibility refuses it whatever is asked for. -/
theorem capabilities_fail_closed_iff (r : Resource ℚ) :
    (∀ (cfg : EngineConfig) (ops : List (Op ℚ)), Along ReservesFresh (fresh cfg) ops →
      ((fresh cfg).run ops).FailsClosed r) ↔
      r.resourceClass = .unknown ∨ Supported r ∨ NeverEligible r := by
  constructor
  · intro h
    by_contra hneither
    rw [not_or, not_or] at hneither
    obtain ⟨hclass, hnot, hopen⟩ := hneither
    have heligible : Eligible r openRequest := eligible_openRequest hopen
    have hid : r.id.isValid = true := heligible.valid_and_current.1
    obtain ⟨hlookup, resIn, hok, hmem⟩ := run_committing sampleConfig hid heligible
    have hclosed := h sampleConfig (committing r) (committing_reservesFresh sampleConfig hid)
    exact hnot ((hclosed hlookup hclass).2 resIn hok hmem)
  · intro h cfg ops hfresh hlookup hclass
    have hbacking : ((fresh cfg).run ops).Backing :=
      Machine.invariant_of_along (backing_fresh cfg) (fun s op hs hop => hs.step hop) hfresh
    -- a member is eligible, so the record is not of the last kind
    have hsupported : ∀ req, Eligible r req → Supported r := fun req heligible =>
      (h.resolve_left hclass).resolve_right (not_neverEligible_of_eligible heligible)
    refine ⟨fun req hok hmem => ?_, fun resIn hok hmem => ?_⟩
    · exact hsupported req (eligible_of_compose (resourcesKeyed_run cfg ops) hok hlookup hmem)
    · obtain ⟨req, heligible⟩ := eligible_of_commit hbacking hok hlookup hmem
      exact hsupported req heligible

/-- Host memory whose access is claimed to be unsupported. -/
def unsupportedMemory : Resource ℚ :=
  { sampleMemory ⟨1⟩ 64 with
    capabilities := [⟨.hostMemoryAccess, .unsupported, ⟨1⟩, ⟨1⟩, []⟩] }

/-- **An unsupported claim does not keep a resource out**: it is planned for 32 bytes. -/
theorem unsupported_composed :
    ¬ ((fresh sampleConfig).run [.registerResource unsupportedMemory]).FailsClosed
      unsupportedMemory := by
  intro h
  have hlookup : ((fresh sampleConfig).run [.registerResource unsupportedMemory]).resources.lookup
      unsupportedMemory.id = some unsupportedMemory := rfl
  have hsupported := (h hlookup (by decide)).1 (sampleRequest 32) (by decide +kernel)
    (by decide +kernel)
  exact absurd hsupported (by decide)

end Engine

end DFabric
