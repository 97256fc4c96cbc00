import DisaggregationFabric.Engine.Compose
import DisaggregationFabric.Lib.Ledger

/-!
# The transaction: reserve, commit, activate, and the ways out

A plan becomes authority in three calls. `Reserve` holds every member and stores
the composition as `reserved`; `Commit` checks the members again and either makes
the whole reservation `committed` or rolls it back; `Activate` revalidates the
authority tuple and makes the composition `active`. `BeginDrain` / `EndDrain`,
`Release` and `Recompute` lead out again; all three end the reservation the
composition refers to by its id, through the same loop (`endReservation`).

`Recompute` is not one critical section: it takes the engine's lock anew for each
of its parts. Its releasing part is `recomputeRelease`, and `recompute` is the
whole call when nothing comes in between.
-/

namespace DFabric

/-- A reservation whose holds count: it is provisional or committed. -/
def Reservation.IsLive {D : Type} (r : Reservation D) : Prop :=
  r.state = .provisional ∨ r.state = .committed

instance {D : Type} (r : Reservation D) : Decidable r.IsLive :=
  inferInstanceAs (Decidable (_ ∨ _))

/-- The holds of a reservation. -/
def Reservation.holds {D : Type} (r : Reservation D) : List (ResourceId × D) :=
  r.items.map fun i => (i.resource, i.reservedAmount)

/-- A reservation with all its items committed. -/
def Reservation.committed {D : Type} (r : Reservation D) : Reservation D :=
  { r with
    items := r.items.map fun i => { i with state := .committed }
    state := .committed }

namespace Engine

variable {D : Type} [Double D]

/-! ### Reserve -/

/-- The body of the member loop of `Reserve`: the ledger after it, and the item or
the reason to stop. Looking at the amount held already creates its entry. -/
def reserveMember (s : Engine D) (req : CompositionRequest D) (held : OrdMap ResourceId D)
    (rid : ResourceId) : OrdMap ResourceId D × Except Rejection (ReservationItem D) :=
  match s.resources.lookup rid with
  | none => (held, .error ⟨.resourceOffline, str "member missing " ++ rid.toStr⟩)
  | some r =>
    match resourceEligible r req with
    | .error e => (held, .error ⟨e.reason, str "member ineligible " ++ rid.toStr⟩)
    | .ok () =>
      -- `reserved_amount[rid]` creates the entry it reads
      let held := Ledger.touch held rid
      if Double.lt Double.zero (Ledger.amount held rid) then
        (held, .error ⟨.reservationConflict, str "already reserved " ++ rid.toStr⟩)
      else
        let amt := holdAmountForResource r req
        -- two of the capacities are tested, whichever one the hold is taken from
        if Double.lt r.capacity.computeUnits Double.zero ||
            Double.lt r.capacity.hostMemoryBytes Double.zero then
          (held, .error ⟨.capacityNegative, str "negative capacity " ++ rid.toStr⟩)
        else (Ledger.add held rid amt, .ok ⟨rid, .provisional, amt⟩)

/-- The member loop of `Reserve`: the ledger, the items held so far, and the first
failure. -/
def reserveMembers (s : Engine D) (req : CompositionRequest D) :
    List ResourceId → OrdMap ResourceId D →
      OrdMap ResourceId D × List (ReservationItem D) × Option Rejection
  | [], held => (held, [], none)
  | rid :: rest, held =>
    match s.reserveMember req held rid with
    | (held, .error e) => (held, [], some e)
    | (held, .ok item) =>
      let r := s.reserveMembers req rest held
      (r.1, item :: r.2.1, r.2.2)

/-- What the member loop of `Reserve` does with one member: it holds the member, or
it stops with at most an entry created. -/
theorem reserveMember_cases (s : Engine D) (req : CompositionRequest D)
    (held : OrdMap ResourceId D) (rid : ResourceId) :
    (∃ r, s.resources.lookup rid = some r ∧
      Double.lt Double.zero (Ledger.amount (Ledger.touch held rid) rid) = false ∧
      s.reserveMember req held rid =
        (Ledger.add (Ledger.touch held rid) rid (holdAmountForResource r req),
          .ok ⟨rid, .provisional, holdAmountForResource r req⟩)) ∨
    ∃ e, s.reserveMember req held rid = (held, .error e) ∨
      s.reserveMember req held rid = (Ledger.touch held rid, .error e) := by
  unfold reserveMember
  -- the refusals in the order of the source: missing, ineligible, held, negative
  rcases hr : s.resources.lookup rid with _ | r
  · exact Or.inr ⟨_, Or.inl rfl⟩
  dsimp only
  rcases resourceEligible r req with e | ⟨⟨⟩⟩
  · exact Or.inr ⟨_, Or.inl rfl⟩
  dsimp only
  split
  · exact Or.inr ⟨_, Or.inr rfl⟩
  · next hfree =>
    split
    · exact Or.inr ⟨_, Or.inr rfl⟩
    · exact Or.inl ⟨r, rfl, by simpa using hfree, rfl⟩

/-- A fully reserved plan lists exactly its vertices. -/
theorem reserveMembers_items {s : Engine D} {req : CompositionRequest D}
    {vertices : List ResourceId} {held held' : OrdMap ResourceId D}
    {items : List (ReservationItem D)}
    (h : s.reserveMembers req vertices held = (held', items, none)) :
    items.map ReservationItem.resource = vertices := by
  -- a refusal anywhere would have been returned, so every member went through
  induction vertices generalizing held held' items with
  | nil => cases h; rfl
  | cons rid rest ih =>
    obtain ⟨r, -, -, hm⟩ | ⟨e, hm | hm⟩ := s.reserveMember_cases req held rid
    · rw [reserveMembers, hm] at h
      rcases hr : s.reserveMembers req rest
        (Ledger.add (Ledger.touch held rid) rid (holdAmountForResource r req)) with ⟨_, _, _⟩
      simp only [hr] at h
      cases h
      rw [List.map_cons, ih hr]
    · rw [reserveMembers, hm] at h; cases h
    · rw [reserveMembers, hm] at h; cases h

/-- Every member of a fully reserved plan is registered. -/
theorem reserveMembers_registered {s : Engine D} {req : CompositionRequest D}
    {vertices : List ResourceId} {held held' : OrdMap ResourceId D}
    {items : List (ReservationItem D)}
    (h : s.reserveMembers req vertices held = (held', items, none)) :
    ∀ v ∈ vertices, ∃ r, s.resources.lookup v = some r := by
  induction vertices generalizing held held' items with
  | nil => exact List.forall_mem_nil _
  | cons rid rest ih =>
    -- a member that is held was looked up
    obtain ⟨r, hr, -, hm⟩ | ⟨e, hm | hm⟩ := s.reserveMember_cases req held rid
    · rw [reserveMembers, hm] at h
      rcases hrest : s.reserveMembers req rest
        (Ledger.add (Ledger.touch held rid) rid (holdAmountForResource r req)) with ⟨_, _, _⟩
      simp only [hrest] at h
      cases h
      intro v hv
      rcases List.mem_cons.mp hv with rfl | hv
      · exact ⟨r, hr⟩
      · exact ih hrest v hv
    · rw [reserveMembers, hm] at h; cases h
    · rw [reserveMembers, hm] at h; cases h

/-- The reservation `Reserve` builds. -/
def newReservation (s : Engine D) (plan : CompositionPlan D) (items : List (ReservationItem D)) :
    Reservation D where
  id := ⟨s.nextResv⟩
  generation := ⟨1⟩
  composition := plan.id
  items := items
  state := .provisional

/-- The composition `Reserve` stores. -/
def newComposition (s : Engine D) (plan : CompositionPlan D) : Composition D where
  id := plan.id
  generation := plan.generation
  resourceSetId := ⟨s.nextRs⟩
  resourceSetGeneration := ⟨1⟩
  graph := plan.graph
  nodes := plan.nodes
  request := plan.request
  authority := plan.authority
  lifecycle := .reserved
  rank := plan.rank
  reservation := ⟨s.nextResv⟩
  paths := plan.paths
  outcome := .outcomeUnknown
  explanation := []

/-- The engine after a successful `Reserve`. -/
def storeReservation (s : Engine D) (plan : CompositionPlan D) (held : OrdMap ResourceId D)
    (items : List (ReservationItem D)) : Engine D :=
  { s with
    reservedAmount := held
    compositions := s.compositions.insert plan.id (s.newComposition plan)
    reservations := s.reservations.insert ⟨s.nextResv⟩ (s.newReservation plan items)
    nextRs := s.nextRs + 1
    nextResv := s.nextResv + 1 }

/-- `Reserve`: all members or none. A failed attempt still consumes a reservation
id. -/
def reserve (s : Engine D) (plan : CompositionPlan D) : Engine D × Result (Reservation D) :=
  if plan.lifecycle ≠ .planned then
    (s, .reject .invalidStateTransition [str "plan not PLANNED"])
  else if !plan.id.isValid then
    (s, .reject .invalidStateTransition [str "plan has zero id"])
  else
    match s.reserveMembers plan.request plan.graph.vertices s.reservedAmount with
    | (held, items, some e) =>
      -- the holds taken so far are given back; the counter stays consumed
      ({ s with
          reservedAmount := Ledger.releaseAll held (s.newReservation plan items).holds
          nextResv := s.nextResv + 1 },
        .reject e.reason [e.note])
    | (held, items, none) =>
      (s.storeReservation plan held items, ⟨.success, s.newReservation plan items, [], []⟩)

/-- What a successful `Reserve` has done. -/
theorem reserve_ok {s : Engine D} {plan : CompositionPlan D} (h : (s.reserve plan).2.ok = true) :
    ∃ held items, s.reserveMembers plan.request plan.graph.vertices s.reservedAmount =
        (held, items, none) ∧ s.reserve plan =
        (s.storeReservation plan held items, ⟨.success, s.newReservation plan items, [], []⟩) := by
  -- past the two guards, with every member held
  unfold reserve at h ⊢
  split at h
  · cases h
  · next hl =>
    split at h
    · cases h
    · next hv =>
      rw [if_neg hl, if_neg hv]
      split at h
      · cases h
      · next held items hm =>
        rw [hm]
        exact ⟨held, items, rfl, rfl⟩

/-! ### Commit -/

/-- The check loop of `Commit`: every item is registered, eligible, and its hold
recorded. -/
def verifyItems (s : Engine D) (req : CompositionRequest D) :
    List (ReservationItem D) → OrdMap ResourceId D → OrdMap ResourceId D × Option RejectionReason
  | [], held => (held, none)
  | item :: rest, held =>
    match s.resources.lookup item.resource with
    | none => (held, some .resourceOffline)
    | some r =>
      match resourceEligible r req with
      | .error e => (held, some e.reason)
      | .ok () =>
        -- again the lookup creates the entry
        let held := Ledger.touch held item.resource
        if Double.lt (Ledger.amount held item.resource) item.reservedAmount then
          (held, some .overcommit)
        else s.verifyItems req rest held

/-- What the check loop has seen: every item is registered and eligible. -/
theorem verifyItems_eligible {s : Engine D} {req : CompositionRequest D}
    {items : List (ReservationItem D)} {held held' : OrdMap ResourceId D}
    (h : s.verifyItems req items held = (held', none)) :
    ∀ i ∈ items, ∃ r, s.resources.lookup i.resource = some r ∧ Eligible r req := by
  induction items generalizing held with
  | nil => exact List.forall_mem_nil _
  | cons i items ih =>
    unfold verifyItems at h
    -- three tests for each item
    split at h
    · cases h
    next r hr =>
    split at h
    · cases h
    next heligible =>
    dsimp only at h
    split at h
    · cases h
    · exact List.forall_mem_cons.mpr ⟨⟨r, hr, by rw [Eligible, heligible]; rfl⟩, ih h⟩

/-- The closure `rollback` of `Commit`: give the holds back, and mark the
reservation and its composition. -/
def rollback (s : Engine D) (rid : ReservationId) (resv : Reservation D) (comp : Composition D)
    (held : OrdMap ResourceId D) : Engine D :=
  { s with
    reservedAmount := Ledger.releaseAll held resv.holds
    reservations := s.reservations.insert rid { resv with state := .rolledBack }
    compositions := s.compositions.insert resv.composition
      { comp with lifecycle := .revalidationRequired, outcome := .failed } }

/-- The engine after a successful `Commit`. -/
def confirm (s : Engine D) (rid : ReservationId) (resv : Reservation D) (comp : Composition D)
    (held : OrdMap ResourceId D) : Engine D :=
  { s with
    reservedAmount := held
    reservations := s.reservations.insert rid resv.committed
    compositions := s.compositions.insert resv.composition { comp with lifecycle := .committed } }

/-- `Commit`. Only the id of the reservation passed in is read. -/
def commit (s : Engine D) (resIn : Reservation D) : Engine D × Result (Composition D) :=
  match s.reservations.lookup resIn.id with
  | none => (s, .reject .reservationConflict [str "reservation unknown"])
  | some resv =>
    if resv.state ≠ .provisional then
      (s, .reject .invalidStateTransition [str "reservation not PROVISIONAL"])
    else
      match s.compositions.lookup resv.composition with
      | none => (s, .reject .reservationConflict [str "composition unknown"])
      | some comp =>
        if comp.lifecycle ≠ .reserved then
          (s, .reject .invalidStateTransition [str "composition not RESERVED"])
        else
          match s.verifyItems comp.request resv.items s.reservedAmount with
          | (held, some reason) =>
            (s.rollback resIn.id resv comp held,
              ⟨.rejected, { comp with lifecycle := .revalidationRequired, outcome := .failed },
                [reason], []⟩)
          | (held, none) =>
            (s.confirm resIn.id resv comp held,
              ⟨.success, { comp with lifecycle := .committed }, [], []⟩)

/-- What `Commit` does with an open reservation of a reserved composition: it rolls both
back or confirms both. -/
theorem commit_cases {s : Engine D} {resIn resv : Reservation D} {comp : Composition D}
    (hr : s.reservations.lookup resIn.id = some resv) (hp : resv.state = .provisional)
    (hc : s.compositions.lookup resv.composition = some comp) (hl : comp.lifecycle = .reserved) :
    (∃ held reason, s.verifyItems comp.request resv.items s.reservedAmount =
        (held, some reason) ∧
      s.commit resIn = (s.rollback resIn.id resv comp held,
        ⟨.rejected, { comp with lifecycle := .revalidationRequired, outcome := .failed },
          [reason], []⟩)) ∨
    ∃ held, s.verifyItems comp.request resv.items s.reservedAmount = (held, none) ∧
      s.commit resIn = (s.confirm resIn.id resv comp held,
        ⟨.success, { comp with lifecycle := .committed }, [], []⟩) := by
  -- the guards of `Commit` pass
  have heq : s.commit resIn = match s.verifyItems comp.request resv.items s.reservedAmount with
      | (held, some reason) =>
        (s.rollback resIn.id resv comp held,
          ⟨.rejected, { comp with lifecycle := .revalidationRequired, outcome := .failed },
            [reason], []⟩)
      | (held, none) =>
        (s.confirm resIn.id resv comp held,
          ⟨.success, { comp with lifecycle := .committed }, [], []⟩) := by
    rw [commit, hr]
    dsimp only
    rw [if_neg (not_not.mpr hp), hc]
    dsimp only
    rw [if_neg (not_not.mpr hl)]
  rcases hv : s.verifyItems comp.request resv.items s.reservedAmount with ⟨held, _ | reason⟩
  · rw [hv] at heq
    exact Or.inr ⟨held, rfl, heq⟩
  · rw [hv] at heq
    exact Or.inl ⟨held, reason, rfl, heq⟩

/-- A `Commit` that stops at one of its guards changes nothing. -/
theorem commit_of_guard {s : Engine D} {resIn : Reservation D}
    (h : ¬ ∃ resv ∈ s.reservations.lookup resIn.id, resv.state = .provisional ∧
      ∃ comp ∈ s.compositions.lookup resv.composition, comp.lifecycle = .reserved) :
    (s.commit resIn).1 = s := by
  unfold commit
  -- one of the guards fails: no reservation, not provisional, no composition, not reserved
  rcases hr : s.reservations.lookup resIn.id with _ | resv
  · rfl
  dsimp only
  split
  · rfl
  next hp =>
  rcases hc : s.compositions.lookup resv.composition with _ | comp
  · rfl
  dsimp only
  split
  · rfl
  next hl => exact absurd ⟨resv, hr, not_not.mp hp, comp, hc, not_not.mp hl⟩ h

/-- What a successful `Commit` has done. -/
theorem commit_ok {s : Engine D} {resIn : Reservation D} (h : (s.commit resIn).2.ok = true) :
    ∃ resv comp held, s.reservations.lookup resIn.id = some resv ∧ resv.state = .provisional ∧
      s.compositions.lookup resv.composition = some comp ∧ comp.lifecycle = .reserved ∧
      s.verifyItems comp.request resv.items s.reservedAmount = (held, none) ∧
      s.commit resIn = (s.confirm resIn.id resv comp held,
        ⟨.success, { comp with lifecycle := .committed }, [], []⟩) := by
  -- the four guards reject, so all of them were passed
  have hopen : ∃ resv comp, s.reservations.lookup resIn.id = some resv ∧
      resv.state = .provisional ∧ s.compositions.lookup resv.composition = some comp ∧
      comp.lifecycle = .reserved := by
    unfold commit at h
    split at h
    · cases h
    next resv hr =>
    split at h
    · cases h
    next hp =>
    split at h
    · cases h
    next comp hc =>
    split at h
    · cases h
    next hl => exact ⟨resv, comp, hr, not_not.mp hp, hc, not_not.mp hl⟩
  obtain ⟨resv, comp, hr, hp, hc, hl⟩ := hopen
  obtain ⟨held, reason, -, heq⟩ | ⟨held, hv, heq⟩ := commit_cases hr hp hc hl
  · rw [heq] at h
    cases h
  · exact ⟨resv, comp, held, hr, hp, hc, hl, hv, heq⟩

/-! ### Activate -/

/-- Store a composition under the key it was found at. -/
def setComposition (s : Engine D) (id : CompositionId) (c : Composition D) : Engine D :=
  { s with compositions := s.compositions.insert id c }

/-- `Activate`. -/
def activate (s : Engine D) (id : CompositionId) : Engine D × Result (Composition D) :=
  match s.compositions.lookup id with
  | none => (s, .reject .noValidComposition [str "composition unknown"])
  | some comp =>
    if comp.lifecycle ≠ .committed then
      (s, .reject .invalidStateTransition [str "composition not COMMITTED"])
    -- the fence is asked for the id in the record, not for the key
    else if comp.id ∈ s.fenced then
      (s, .reject .policyDenied [str "composition fenced"])
    else
      match revalidationHolds comp s.resources s.epoch with
      | .error e =>
        -- the failed attempt is recorded, and the composition loses its lifecycle
        let comp : Composition D :=
          { comp with lifecycle := .revalidationRequired, outcome := .rejected }
        (s.setComposition id comp, ⟨.rejected, comp, [e.reason], [e.note]⟩)
      | .ok () =>
        let comp : Composition D := { comp with lifecycle := .active, outcome := .success }
        (s.setComposition id comp, ⟨.success, comp, [], []⟩)

/-- What a successful `Activate` has done. -/
theorem activate_done {s : Engine D} {id : CompositionId} (h : (s.activate id).2.ok = true) :
    ∃ comp, s.compositions.lookup id = some comp ∧ comp.lifecycle = .committed ∧
      revalidationHolds comp s.resources s.epoch = .ok () ∧
      s.activate id = (s.setComposition id { comp with lifecycle := .active, outcome := .success },
        ⟨.success, { comp with lifecycle := .active, outcome := .success }, [], []⟩) := by
  unfold activate at h ⊢
  -- every earlier branch rejects
  rcases hc : s.compositions.lookup id with _ | comp
  · rw [hc] at h
    cases h
  rw [hc] at h
  dsimp only at h ⊢
  split at h
  · cases h
  next hl =>
  split at h
  · cases h
  next hf =>
  rcases hv : revalidationHolds comp s.resources s.epoch with e | ⟨⟨⟩⟩
  · rw [hv] at h
    cases h
  · rw [if_neg hl, if_neg hf]
    exact ⟨comp, rfl, not_not.mp hl, hv, rfl⟩

/-- What a successful `Activate` has checked. -/
theorem activate_ok {s : Engine D} {id : CompositionId} (h : (s.activate id).2.ok = true) :
    ∃ comp, s.compositions.lookup id = some comp ∧ comp.lifecycle = .committed ∧
      revalidationHolds comp s.resources s.epoch = .ok () := by
  obtain ⟨comp, hc, hl, hv, -⟩ := activate_done h
  exact ⟨comp, hc, hl, hv⟩

/-- `Revalidate`: the verdict on a composition, without any effect. -/
def revalidate (s : Engine D) (c : Composition D) : Check := revalidationHolds c s.resources s.epoch

/-! ### The ways out -/

/-- `BeginDrain`. -/
def beginDrain (s : Engine D) (id : CompositionId) : Engine D × Bool :=
  match s.compositions.lookup id with
  | none => (s, false)
  | some c =>
    if c.lifecycle ≠ .active ∧ c.lifecycle ≠ .committed ∧ c.lifecycle ≠ .degraded then (s, false)
    else
      ({ s.setComposition id { c with lifecycle := .draining } with
          draining := insert id s.draining }, true)

/-- Give the holds of a reservation back and mark it released, whatever state it
is in. -/
def endReservation (s : Engine D) (rid : ReservationId) : Engine D :=
  match s.reservations.lookup rid with
  | none => s
  | some r =>
    { s with
      reservedAmount := Ledger.releaseAll s.reservedAmount r.holds
      reservations := s.reservations.insert rid { r with state := .released } }

/-- End the reservation a stored composition refers to, and mark the composition
released. -/
def endComposition (s : Engine D) (id : CompositionId) (c : Composition D) : Engine D :=
  (s.endReservation c.reservation).setComposition id { c with lifecycle := .released }

/-- `EndDrain`. The composition is not fenced. -/
def endDrain (s : Engine D) (id : CompositionId) : Engine D × Bool :=
  match s.compositions.lookup id with
  | none => (s, false)
  | some c =>
    if c.lifecycle ≠ .draining then (s, false)
    else ({ s.endComposition id c with draining := s.draining.erase id }, true)

/-- `Release`. -/
def release (s : Engine D) (id : CompositionId) : Engine D × Bool :=
  match s.compositions.lookup id with
  | none => (s, false)
  | some c =>
    if c.lifecycle = .released ∨ c.lifecycle = .retired then (s, false)
    else
      ({ s.endComposition id c with
          draining := s.draining.erase id
          fenced := insert id s.fenced }, true)

omit [Double D] in
/-- What a `BeginDrain` that returns true has done. -/
theorem beginDrain_done {s : Engine D} {id : CompositionId} (h : (s.beginDrain id).2 = true) :
    ∃ c, s.compositions.lookup id = some c ∧
      (s.beginDrain id).1 = { s.setComposition id { c with lifecycle := .draining } with
        draining := insert id s.draining } := by
  unfold beginDrain at h ⊢
  rcases hc : s.compositions.lookup id with _ | c
  · rw [hc] at h
    cases h
  rw [hc] at h
  dsimp only at h ⊢
  split at h
  · cases h
  · next hl =>
    rw [if_neg hl]
    exact ⟨c, rfl, rfl⟩

/-- What an `EndDrain` that returns true has done. -/
theorem endDrain_done {s : Engine D} {id : CompositionId} (h : (s.endDrain id).2 = true) :
    ∃ c, s.compositions.lookup id = some c ∧
      (s.endDrain id).1 = { s.endComposition id c with draining := s.draining.erase id } := by
  unfold endDrain at h ⊢
  rcases hc : s.compositions.lookup id with _ | c
  · rw [hc] at h
    cases h
  rw [hc] at h
  dsimp only at h ⊢
  split at h
  · cases h
  · next hl =>
    rw [if_neg hl]
    exact ⟨c, rfl, rfl⟩

/-- What a `Release` that returns true has done. -/
theorem release_done {s : Engine D} {id : CompositionId} (h : (s.release id).2 = true) :
    ∃ c, s.compositions.lookup id = some c ∧
      (s.release id).1 = { s.endComposition id c with
        draining := s.draining.erase id
        fenced := insert id s.fenced } := by
  unfold release at h ⊢
  rcases hc : s.compositions.lookup id with _ | c
  · rw [hc] at h
    cases h
  rw [hc] at h
  dsimp only at h ⊢
  split at h
  · cases h
  · next hl =>
    rw [if_neg hl]
    exact ⟨c, rfl, rfl⟩

/-- `Release` of a composition that is released already. -/
theorem release_of_released {s : Engine D} {id : CompositionId} {c : Composition D}
    (hc : s.compositions.lookup id = some c) (hl : c.lifecycle = .released) :
    s.release id = (s, false) := by
  rw [release, hc]
  exact if_pos (Or.inl hl)

/-- The second critical section of `Recompute`: end the reservation of the old
composition, in whatever lifecycle it is, and fence it. -/
def recomputeRelease (s : Engine D) (id : CompositionId) : Engine D :=
  match s.compositions.lookup id with
  | none => s
  | some c => { s.endComposition id c with fenced := insert c.id s.fenced }

/-- `Recompute`, uninterrupted. -/
def recompute (s : Engine D) (id : CompositionId) : Engine D × Bool :=
  match s.compositions.lookup id with
  | none => (s, false)
  | some c =>
    let (s, cr) := s.compose c.request
    if !cr.ok then (s, false)
    else
      -- break before make: from here on the old composition is gone
      let s := s.recomputeRelease id
      let (s, rr) := s.reserve cr.payload
      if !rr.ok then (s, false)
      else
        let (s, cc) := s.commit rr.payload
        if !cc.ok then (s, false)
        else
          let (s, ar) := s.activate cc.payload.id
          if !ar.ok then (s, false) else (s, true)

end Engine

end DFabric
