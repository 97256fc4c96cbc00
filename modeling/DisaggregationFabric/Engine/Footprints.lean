import DisaggregationFabric.Engine.Effects

/-!
# What a transaction reads and writes

The calls of a transaction (`Reserve`, `Commit`, `Activate`, `BeginDrain`, `EndDrain` and
`Release`) concern one plan: its members, its composition and its reservation.

* A call writes no more than these (`within_reserve`, `within_ask`).
* A call reads no more than these, the tables, and the fence of its own id: in two engines
  that look alike to the plan it tells the same, and leaves them looking alike
  (`View.reserve`, `Twins.ask`). They may differ in the ids that were handed out, and in
  whatever concerns other plans.
-/

namespace DFabric

/-- The calls of a transaction. -/
inductive Call where
  | reserve
  | commit
  | activate
  | beginDrain
  | endDrain
  | release
deriving DecidableEq

/-- What a call tells the client, up to the ids and records the engine has made. -/
inductive Verdict where
  /-- The client has no plan to reserve any more, or no reservation yet. -/
  | idle
  | result (outcome : CompositionOutcome) (reasons : List RejectionReason) (notes : List Str)
  | flag (ok : Bool)
deriving DecidableEq

/-- The verdict in a result. -/
def Result.verdict {P : Type} (r : Result P) : Verdict := .result r.outcome r.reasons r.notes

namespace Engine

variable {D : Type} [Double D]

/-! ### The loops read the ledger at the members -/

section Loops

variable {s t : Engine D} (req : CompositionRequest D) {vs : List ResourceId}

theorem reserveMember_agree (htab : s.resources = t.resources) {m m' : OrdMap ResourceId D}
    (h : Ledger.Agree vs m m') {v : ResourceId} (hv : v ∈ vs) :
    (s.reserveMember req m v).2 = (t.reserveMember req m' v).2 ∧
      Ledger.Agree vs (s.reserveMember req m v).1 (t.reserveMember req m' v).1 := by
  have htouch := h.touch hv
  unfold reserveMember
  rw [htab]
  -- the tests in the order of the source; the ledger is read at the member only
  split
  · exact ⟨rfl, h⟩
  split
  · exact ⟨rfl, h⟩
  dsimp only
  rw [htouch.amount hv]
  split
  · exact ⟨rfl, htouch⟩
  split
  · exact ⟨rfl, htouch⟩
  · exact ⟨rfl, htouch.add hv _⟩

theorem reserveMembers_agree (htab : s.resources = t.resources) {ws : List ResourceId}
    (hws : ∀ w ∈ ws, w ∈ vs) {m m' : OrdMap ResourceId D} (h : Ledger.Agree vs m m') :
    (s.reserveMembers req ws m).2 = (t.reserveMembers req ws m').2 ∧
      Ledger.Agree vs (s.reserveMembers req ws m).1 (t.reserveMembers req ws m').1 := by
  induction ws generalizing m m' with
  | nil => exact ⟨rfl, h⟩
  | cons w ws ih =>
    rw [List.forall_mem_cons] at hws
    obtain ⟨hout, hledger⟩ := reserveMember_agree req htab h hws.1
    unfold reserveMembers
    rcases hm : s.reserveMember req m w with ⟨held, out⟩
    rcases hm' : t.reserveMember req m' w with ⟨held', out'⟩
    rw [hm, hm'] at hout hledger
    -- both loops have told the same about this member, so both go on or both stop
    dsimp only at hout hledger
    subst hout
    rcases out with e | item
    · exact ⟨rfl, hledger⟩
    · obtain ⟨hrest, hledger'⟩ := ih hws.2 hledger
      exact ⟨by dsimp only; rw [hrest], hledger'⟩

/-- A member that is held, or refused, leaves the entries of the others. -/
theorem find?_reserveMember_of_ne (s : Engine D) (m : OrdMap ResourceId D) {v k : ResourceId}
    (h : k ≠ v) : (s.reserveMember req m v).1.find? k = m.find? k := by
  have htouch : (Ledger.touch m v).find? k = m.find? k := by
    rw [Ledger.find?_touch, if_neg h]
  obtain ⟨r, -, -, hm⟩ | ⟨e, hm | hm⟩ := s.reserveMember_cases req m v
  · rw [hm]
    dsimp only
    rw [Ledger.find?_add, if_neg h, htouch]
  · rw [hm]
  · rw [hm]
    exact htouch

theorem find?_reserveMembers_of_not_mem (s : Engine D) (m : OrdMap ResourceId D)
    {ws : List ResourceId} {k : ResourceId} (h : k ∉ ws) :
    (s.reserveMembers req ws m).1.find? k = m.find? k := by
  induction ws generalizing m with
  | nil => rfl
  | cons w ws ih =>
    rw [List.mem_cons, not_or] at h
    have hone := s.find?_reserveMember_of_ne req m h.1
    unfold reserveMembers
    -- the loop ends at a member that is refused, or goes on
    rcases hm : s.reserveMember req m w with ⟨held, e | item⟩
    · rw [hm] at hone
      exact hone
    · rw [hm] at hone
      exact (ih held h.2).trans hone

/-- The items that were held are members. -/
theorem reserveMembers_items_mem (s : Engine D) (m : OrdMap ResourceId D) (ws : List ResourceId) :
    ∀ i ∈ (s.reserveMembers req ws m).2.1, i.resource ∈ ws := by
  induction ws generalizing m with
  | nil => exact List.forall_mem_nil _
  | cons w ws ih =>
    -- one item for a member that is held, and no more behind one that is refused
    obtain ⟨r, -, -, hm⟩ | ⟨e, hm | hm⟩ := s.reserveMember_cases req m w
    · rw [reserveMembers, hm]
      refine List.forall_mem_cons.mpr ⟨List.mem_cons_self, fun i hi => ?_⟩
      exact List.mem_cons_of_mem w (ih _ i hi)
    · rw [reserveMembers, hm]
      exact List.forall_mem_nil _
    · rw [reserveMembers, hm]
      exact List.forall_mem_nil _

theorem verifyItems_agree (htab : s.resources = t.resources) {items : List (ReservationItem D)}
    (hitems : ∀ i ∈ items, i.resource ∈ vs) {m m' : OrdMap ResourceId D}
    (h : Ledger.Agree vs m m') :
    (s.verifyItems req items m).2 = (t.verifyItems req items m').2 ∧
      Ledger.Agree vs (s.verifyItems req items m).1 (t.verifyItems req items m').1 := by
  induction items generalizing m m' with
  | nil => exact ⟨rfl, h⟩
  | cons i items ih =>
    rw [List.forall_mem_cons] at hitems
    have htouch := h.touch hitems.1
    -- the tests of an item read its resource and the entry of its resource only
    unfold verifyItems
    rw [htab]
    split
    · exact ⟨rfl, h⟩
    split
    · exact ⟨rfl, h⟩
    dsimp only
    rw [htouch.amount hitems.1]
    split
    · exact ⟨rfl, htouch⟩
    · exact ih hitems.2 htouch

theorem find?_verifyItems_of_forall_ne (s : Engine D) (m : OrdMap ResourceId D)
    {items : List (ReservationItem D)} {k : ResourceId} (h : ∀ i ∈ items, i.resource ≠ k) :
    (s.verifyItems req items m).1.find? k = m.find? k := by
  induction items generalizing m with
  | nil => rfl
  | cons i items ih =>
    rw [List.forall_mem_cons] at h
    have htouch : (Ledger.touch m i.resource).find? k = m.find? k := by
      rw [Ledger.find?_touch, if_neg (Ne.symm h.1)]
    unfold verifyItems
    -- a member may be gone, not eligible any more, or held by too much
    split
    · rfl
    split
    · rfl
    dsimp only
    split
    · exact htouch
    · exact (ih _ h.2).trans htouch

end Loops

/-! ### The calls of a transaction -/

/-- The calls behind `Reserve`, with the reservation that `Reserve` has returned; a plan is not
reserved a second time. -/
def ask (plan : CompositionPlan D) (r : Reservation D) (s : Engine D) : Call → Engine D × Verdict
  | .reserve => (s, .idle)
  | .commit => ((s.commit r).1, (s.commit r).2.verdict)
  | .activate => ((s.activate plan.id).1, (s.activate plan.id).2.verdict)
  | .beginDrain => ((s.beginDrain plan.id).1, .flag (s.beginDrain plan.id).2)
  | .endDrain => ((s.endDrain plan.id).1, .flag (s.endDrain plan.id).2)
  | .release => ((s.release plan.id).1, .flag (s.release plan.id).2)

/-! ### What a call writes -/

/-- The composition of a plan and its reservation, as the engine has them. -/
structure Recorded (s : Engine D) (plan : CompositionPlan D) (rid : ReservationId)
    (c : Composition D) (v : Reservation D) : Prop where
  composition : s.compositions.lookup plan.id = some c
  own_id : c.id = plan.id
  reservation : c.reservation = rid
  stored : s.reservations.lookup rid = some v
  own_plan : v.composition = plan.id
  items : ∀ i ∈ v.items, i.resource ∈ plan.graph.vertices

/-- The states differ in the records of one plan at most. -/
structure Within (plan : CompositionPlan D) (rid : ReservationId) (s s' : Engine D) : Prop where
  resources : s'.resources = s.resources
  epoch : s'.epoch = s.epoch
  ledger : ∀ k, k ∉ plan.graph.vertices →
    s'.reservedAmount.find? k = s.reservedAmount.find? k
  compositions : ∀ id, id ≠ plan.id → s'.compositions.lookup id = s.compositions.lookup id
  reservations : ∀ rid', rid' ≠ rid → s'.reservations.lookup rid' = s.reservations.lookup rid'
  fenced : ∀ id, id ≠ plan.id → (id ∈ s'.fenced ↔ id ∈ s.fenced)

section Writes

variable {s s' : Engine D} {plan : CompositionPlan D} {rid : ReservationId} {c : Composition D}
  {v : Reservation D}

omit [Double D] in
theorem Within.refl (plan : CompositionPlan D) (rid : ReservationId) (s : Engine D) :
    Within plan rid s s :=
  ⟨rfl, rfl, fun _ _ => rfl, fun _ _ => rfl, fun _ _ => rfl, fun _ _ => Iff.rfl⟩

omit [Double D] in
/-- A state that stores a composition of the plan and a reservation under the id. -/
theorem within_of_insert (hresources : s'.resources = s.resources) (hepoch : s'.epoch = s.epoch)
    (hledger : ∀ k, k ∉ plan.graph.vertices →
      s'.reservedAmount.find? k = s.reservedAmount.find? k)
    (hcompositions : s'.compositions = s.compositions.insert plan.id c)
    (hreservations : s'.reservations = s.reservations.insert rid v)
    (hfenced : ∀ id, id ≠ plan.id → (id ∈ s'.fenced ↔ id ∈ s.fenced)) : Within plan rid s s' where
  resources := hresources
  epoch := hepoch
  ledger := hledger
  compositions id hid := by rw [hcompositions, UMap.lookup_insert_eq_ite, if_neg hid]
  reservations rid' hrid := by rw [hreservations, UMap.lookup_insert_eq_ite, if_neg hrid]
  fenced := hfenced

omit [Double D] in
/-- A state that stores the composition of the plan only. -/
theorem within_setComposition (draining : Finset CompositionId) :
    Within plan rid s { s.setComposition plan.id c with draining := draining } where
  resources := rfl
  epoch := rfl
  ledger _ _ := rfl
  compositions id hid := by
    show (s.compositions.insert plan.id c).lookup id = _
    rw [UMap.lookup_insert_eq_ite, if_neg hid]
  reservations _ _ := rfl
  fenced _ _ := Iff.rfl

/-- What `Reserve` writes. -/
theorem within_reserve (plan : CompositionPlan D) :
    Within plan ⟨s.nextResv⟩ s (s.reserve plan).1 := by
  unfold reserve
  split
  · exact .refl _ _ s
  split
  · exact .refl _ _ s
  rcases hm : s.reserveMembers plan.request plan.graph.vertices s.reservedAmount with
    ⟨held, items, _ | e⟩
  · refine within_of_insert (c := s.newComposition plan) (v := s.newReservation plan items) rfl rfl
      (fun k hk => ?_) rfl rfl fun _ _ => Iff.rfl
    have hledger := s.find?_reserveMembers_of_not_mem plan.request s.reservedAmount hk
    rw [hm] at hledger
    exact hledger
  · refine ⟨rfl, rfl, fun k hk => ?_, fun _ _ => rfl, fun _ _ => rfl, fun _ _ => Iff.rfl⟩
    have hledger := s.find?_reserveMembers_of_not_mem plan.request s.reservedAmount hk
    have hitems := s.reserveMembers_items_mem plan.request s.reservedAmount plan.graph.vertices
    rw [hm] at hledger hitems
    -- what the attempt has held are members too
    show (Ledger.releaseAll held _).find? k = _
    rw [Ledger.find?_releaseAll_of_forall_ne held ?_]
    · exact hledger
    · intro entry hentry
      obtain ⟨i, hi, rfl⟩ := List.mem_map.mp hentry
      exact fun hik => hk (hik ▸ hitems i hi)

/-- Ending the composition of a plan, with its reservation. -/
theorem Recorded.endComposition (h : Recorded s plan rid c v) :
    s.endComposition plan.id c = { s with
      reservedAmount := Ledger.releaseAll s.reservedAmount v.holds
      reservations := s.reservations.insert rid { v with state := .released }
      compositions := s.compositions.insert plan.id { c with lifecycle := .released } } := by
  unfold Engine.endComposition endReservation
  rw [h.reservation, h.stored]
  rfl

omit [Double D] in
theorem Recorded.holds_mem (h : Recorded s plan rid c v) :
    ∀ e ∈ v.holds, e.1 ∈ plan.graph.vertices := by
  intro e he
  obtain ⟨i, hi, rfl⟩ := List.mem_map.mp he
  exact h.items i hi

/-- Giving the holds of a plan back leaves the other entries. -/
theorem Recorded.find?_releaseAll (h : Recorded s plan rid c v) (m : OrdMap ResourceId D)
    {k : ResourceId} (hk : k ∉ plan.graph.vertices) :
    (Ledger.releaseAll m v.holds).find? k = m.find? k :=
  Ledger.find?_releaseAll_of_forall_ne m fun e he hek => hk (hek ▸ h.holds_mem e he)

/-- The check loop of `Commit` leaves the other entries. -/
theorem Recorded.find?_verifyItems (h : Recorded s plan rid c v) {held : OrdMap ResourceId D}
    {out : Option RejectionReason}
    (hv : s.verifyItems c.request v.items s.reservedAmount = (held, out)) {k : ResourceId}
    (hk : k ∉ plan.graph.vertices) : held.find? k = s.reservedAmount.find? k := by
  have hledger := s.find?_verifyItems_of_forall_ne c.request s.reservedAmount
    fun i hi (hik : i.resource = k) => hk (hik ▸ h.items i hi)
  rw [hv] at hledger
  exact hledger

/-- **A call writes the records of its plan only**, and hands out no id. -/
theorem within_ask {r : Reservation D} (h : Recorded s plan r.id c v) (call : Call) :
    Within plan r.id s (ask plan r s call).1 ∧ (ask plan r s call).1.nextResv = s.nextResv := by
  have hself : Within plan r.id s s := .refl plan r.id s
  cases call with
  | reserve => exact ⟨hself, rfl⟩
  | commit =>
    show Within plan r.id s (s.commit r).1 ∧ (s.commit r).1.nextResv = s.nextResv
    unfold commit
    rw [h.stored]
    dsimp only
    split
    · exact ⟨hself, rfl⟩
    -- the reservation names the composition of the plan
    rw [h.own_plan, h.composition]
    dsimp only
    split
    · exact ⟨hself, rfl⟩
    rcases hv : s.verifyItems c.request v.items s.reservedAmount with ⟨held, _ | reason⟩
    -- confirmed: the check loop has touched the entries of members only
    · refine ⟨within_of_insert (c := { c with lifecycle := .committed }) rfl rfl
        (fun k hk => h.find?_verifyItems hv hk) ?_ rfl fun _ _ => Iff.rfl, rfl⟩
      exact congrArg (s.compositions.insert · _) h.own_plan
    -- rolled back: what is given back was held for members too
    · refine ⟨within_of_insert
        (c := { c with lifecycle := .revalidationRequired, outcome := .failed }) rfl rfl
        (fun k hk => ?_) ?_ rfl fun _ _ => Iff.rfl, rfl⟩
      · exact (h.find?_releaseAll held hk).trans (h.find?_verifyItems hv hk)
      · exact congrArg (s.compositions.insert · _) h.own_plan
  | activate =>
    show Within plan r.id s (s.activate plan.id).1 ∧ (s.activate plan.id).1.nextResv = s.nextResv
    unfold activate
    rw [h.composition]
    dsimp only
    split
    · exact ⟨hself, rfl⟩
    split
    · exact ⟨hself, rfl⟩
    split
    · exact ⟨within_setComposition s.draining, rfl⟩
    · exact ⟨within_setComposition s.draining, rfl⟩
  | beginDrain =>
    show Within plan r.id s (s.beginDrain plan.id).1 ∧
      (s.beginDrain plan.id).1.nextResv = s.nextResv
    unfold beginDrain
    rw [h.composition]
    dsimp only
    split
    · exact ⟨hself, rfl⟩
    · exact ⟨within_setComposition _, rfl⟩
  | endDrain =>
    show Within plan r.id s (s.endDrain plan.id).1 ∧ (s.endDrain plan.id).1.nextResv = s.nextResv
    unfold endDrain
    rw [h.composition]
    dsimp only
    split
    · exact ⟨hself, rfl⟩
    · rw [h.endComposition]
      exact ⟨within_of_insert rfl rfl (fun k hk => h.find?_releaseAll _ hk) rfl rfl
        fun _ _ => Iff.rfl, rfl⟩
  | release =>
    show Within plan r.id s (s.release plan.id).1 ∧ (s.release plan.id).1.nextResv = s.nextResv
    unfold release
    rw [h.composition]
    dsimp only
    split
    · exact ⟨hself, rfl⟩
    · rw [h.endComposition]
      -- the fence is on the composition of the plan alone
      refine ⟨within_of_insert rfl rfl (fun k hk => h.find?_releaseAll _ hk) rfl rfl ?_, rfl⟩
      intro id hid
      exact Finset.mem_insert.trans (or_iff_right hid)

end Writes

/-! ### What a call reads -/

/-- What two engines have in common for a plan, beside its own records. -/
structure View (plan : CompositionPlan D) (s t : Engine D) : Prop where
  resources : s.resources = t.resources
  epoch : s.epoch = t.epoch
  ledger : Ledger.Agree plan.graph.vertices s.reservedAmount t.reservedAmount
  fenced : plan.id ∈ s.fenced ↔ plan.id ∈ t.fenced

/-- The two engines have the same records for a plan, up to the ids they have handed out. -/
structure Twins (plan : CompositionPlan D) (rid rid' : ReservationId) (s t : Engine D) : Prop
    extends View plan s t where
  recorded : ∃ c v setId, Recorded s plan rid c v ∧
    Recorded t plan rid' { c with resourceSetId := setId, reservation := rid' }
      { v with id := rid' }

section Reads

variable {s s' t t' : Engine D} {plan : CompositionPlan D} {rid rid' : ReservationId}
  {c : Composition D} {v : Reservation D} {setId : ResourceSetId}

omit [Double D] in
/-- The records after both engines have stored them again. -/
theorem Twins.of_lookup (h : View plan s t) (setId : ResourceSetId) {c : Composition D}
    {v : Reservation D} (hc : s.compositions.lookup plan.id = some c)
    (hc' : t.compositions.lookup plan.id =
      some { c with resourceSetId := setId, reservation := rid' })
    (hv : s.reservations.lookup rid = some v)
    (hv' : t.reservations.lookup rid' = some { v with id := rid' }) (hid : c.id = plan.id)
    (hresv : c.reservation = rid) (hplan : v.composition = plan.id)
    (hitems : ∀ i ∈ v.items, i.resource ∈ plan.graph.vertices) : Twins plan rid rid' s t :=
  { h with
    recorded := ⟨c, v, setId, ⟨hc, hid, hresv, hv, hplan, hitems⟩,
      ⟨hc', hid, rfl, hv', hplan, hitems⟩⟩ }

/-- **`Reserve` reads the ledger at the members.** It tells the same in both engines, and
leaves the same behind. -/
theorem View.reserve (h : View plan s t) :
    (s.reserve plan).2.verdict = (t.reserve plan).2.verdict ∧
      (s.reserve plan).2.ok = (t.reserve plan).2.ok ∧
      View plan (s.reserve plan).1 (t.reserve plan).1 ∧
      ((s.reserve plan).2.ok = true →
        Twins plan (s.reserve plan).2.payload.id (t.reserve plan).2.payload.id
          (s.reserve plan).1 (t.reserve plan).1) := by
  unfold Engine.reserve
  -- both guards look at the plan only
  split
  · exact ⟨rfl, rfl, h, fun hok => by cases hok⟩
  split
  · exact ⟨rfl, rfl, h, fun hok => by cases hok⟩
  -- the loop finds the same members with the same amounts
  obtain ⟨hout, hledger⟩ := reserveMembers_agree plan.request h.resources
    (fun w hw => hw) h.ledger
  have hitems := s.reserveMembers_items_mem plan.request s.reservedAmount
    plan.graph.vertices
  rcases hm : s.reserveMembers plan.request plan.graph.vertices s.reservedAmount with
    ⟨held, items, e⟩
  rcases hm' : t.reserveMembers plan.request plan.graph.vertices t.reservedAmount with
    ⟨held', items', e'⟩
  rw [hm] at hitems
  rw [hm, hm'] at hout hledger
  cases hout
  rcases e with _ | e
  · have hview : View plan (s.storeReservation plan held items)
        (t.storeReservation plan held' items) := ⟨h.resources, h.epoch, hledger, h.fenced⟩
    refine ⟨rfl, rfl, hview, fun _ => ?_⟩
    refine .of_lookup hview ⟨t.nextRs⟩ (AList.lookup_insert _) (AList.lookup_insert _)
      (AList.lookup_insert _) (AList.lookup_insert _) rfl rfl rfl hitems
  · -- what was held for the plan is given back on both sides
    refine ⟨rfl, rfl, ⟨h.resources, h.epoch, ?_, h.fenced⟩, fun hok => by cases hok⟩
    refine Ledger.Agree.releaseAll ?_ hledger
    intro entry hentry
    obtain ⟨i, hi, rfl⟩ := List.mem_map.mp hentry
    exact hitems i hi

/-- **A call reads the records of its plan**, the tables, and the ledger at the members. -/
theorem Twins.ask {r r' : Reservation D} (h : Twins plan r.id r'.id s t) (call : Call) :
    (ask plan r s call).2 = (ask plan r' t call).2 ∧
      Twins plan r.id r'.id (ask plan r s call).1 (ask plan r' t call).1 := by
  obtain ⟨c, v, setId, hs, ht⟩ := h.recorded
  have hview := h.toView
  cases call with
  | reserve => exact ⟨rfl, h⟩
  | commit =>
    show (s.commit r).2.verdict = (t.commit r').2.verdict ∧
      Twins plan r.id r'.id (s.commit r).1 (t.commit r').1
    unfold commit
    rw [hs.stored, ht.stored]
    dsimp only
    split
    · exact ⟨rfl, h⟩
    -- both find the composition of the plan under the name that the reservation has
    have hcs : s.compositions.lookup v.composition = some c := by
      rw [hs.own_plan, hs.composition]
    have hct : t.compositions.lookup v.composition =
        some { c with resourceSetId := setId, reservation := r'.id } := by
      rw [hs.own_plan, ht.composition]
    rw [hcs, hct]
    dsimp only
    split
    · exact ⟨rfl, h⟩
    -- the check tells the same, so both confirm or both roll back
    obtain ⟨hout, hledger⟩ := verifyItems_agree c.request h.resources hs.items h.ledger
    rcases hm : s.verifyItems c.request v.items s.reservedAmount with ⟨held, out⟩
    rcases hm' : t.verifyItems c.request v.items t.reservedAmount with ⟨held', out'⟩
    rw [hm, hm'] at hout hledger
    cases hout
    rcases out with _ | reason
    · refine ⟨rfl, .of_lookup ⟨hview.resources, hview.epoch, hledger, hview.fenced⟩ setId
        (c := { c with lifecycle := .committed }) (v := v.committed) ?_ ?_
        (AList.lookup_insert _) (AList.lookup_insert _) hs.own_id hs.reservation hs.own_plan ?_⟩
      · show (s.compositions.insert v.composition _).lookup plan.id = _
        rw [hs.own_plan, AList.lookup_insert]
      · show (t.compositions.insert v.composition _).lookup plan.id = _
        rw [hs.own_plan, AList.lookup_insert]
      · intro i hi
        obtain ⟨i₀, hi₀, rfl⟩ := List.mem_map.mp hi
        exact hs.items i₀ hi₀
    · have hreleased : Ledger.Agree plan.graph.vertices (Ledger.releaseAll held v.holds)
          (Ledger.releaseAll held' v.holds) := hledger.releaseAll hs.holds_mem
      refine ⟨rfl, .of_lookup ⟨hview.resources, hview.epoch, hreleased, hview.fenced⟩ setId
        (c := { c with lifecycle := .revalidationRequired, outcome := .failed })
        (v := { v with state := .rolledBack }) ?_ ?_
        (AList.lookup_insert _) (AList.lookup_insert _) hs.own_id hs.reservation hs.own_plan
        hs.items⟩
      · show (s.compositions.insert v.composition _).lookup plan.id = _
        rw [hs.own_plan, AList.lookup_insert]
      · show (t.compositions.insert v.composition _).lookup plan.id = _
        rw [hs.own_plan, AList.lookup_insert]
  | activate =>
    show (s.activate plan.id).2.verdict = (t.activate plan.id).2.verdict ∧
      Twins plan r.id r'.id (s.activate plan.id).1 (t.activate plan.id).1
    -- the revalidation reads neither the id of the set nor the reservation
    have hvalid : revalidationHolds
        { c with resourceSetId := setId, reservation := r'.id } t.resources t.epoch =
        revalidationHolds c s.resources s.epoch := by
      rw [hview.resources, hview.epoch]
      rfl
    have hfence : c.id ∈ s.fenced ↔ c.id ∈ t.fenced := by
      rw [hs.own_id]
      exact hview.fenced
    unfold activate
    rw [hs.composition, ht.composition]
    dsimp only
    split
    · exact ⟨rfl, h⟩
    rw [hvalid]
    by_cases hf : c.id ∈ s.fenced
    · rw [if_pos hf, if_pos (hfence.mp hf)]
      exact ⟨rfl, h⟩
    rw [if_neg hf, if_neg fun hf' => hf (hfence.mpr hf')]
    split
    · exact ⟨rfl, .of_lookup ⟨hview.resources, hview.epoch, hview.ledger, hview.fenced⟩ setId
        (AList.lookup_insert _) (AList.lookup_insert _) hs.stored ht.stored hs.own_id
        hs.reservation hs.own_plan hs.items⟩
    · exact ⟨rfl, .of_lookup ⟨hview.resources, hview.epoch, hview.ledger, hview.fenced⟩ setId
        (AList.lookup_insert _) (AList.lookup_insert _) hs.stored ht.stored hs.own_id
        hs.reservation hs.own_plan hs.items⟩
  | beginDrain =>
    show Verdict.flag (s.beginDrain plan.id).2 = .flag (t.beginDrain plan.id).2 ∧
      Twins plan r.id r'.id (s.beginDrain plan.id).1 (t.beginDrain plan.id).1
    unfold beginDrain
    rw [hs.composition, ht.composition]
    dsimp only
    split
    · exact ⟨rfl, h⟩
    · exact ⟨rfl, .of_lookup ⟨hview.resources, hview.epoch, hview.ledger, hview.fenced⟩ setId
        (AList.lookup_insert _) (AList.lookup_insert _) hs.stored ht.stored hs.own_id
        hs.reservation hs.own_plan hs.items⟩
  | endDrain =>
    show Verdict.flag (s.endDrain plan.id).2 = .flag (t.endDrain plan.id).2 ∧
      Twins plan r.id r'.id (s.endDrain plan.id).1 (t.endDrain plan.id).1
    unfold endDrain
    rw [hs.composition, ht.composition]
    dsimp only
    split
    · exact ⟨rfl, h⟩
    rw [hs.endComposition, ht.endComposition]
    exact ⟨rfl, .of_lookup ⟨hview.resources, hview.epoch, hview.ledger.releaseAll hs.holds_mem,
        hview.fenced⟩ setId (AList.lookup_insert _) (AList.lookup_insert _) (AList.lookup_insert _)
        (AList.lookup_insert _) hs.own_id hs.reservation hs.own_plan hs.items⟩
  | release =>
    show Verdict.flag (s.release plan.id).2 = .flag (t.release plan.id).2 ∧
      Twins plan r.id r'.id (s.release plan.id).1 (t.release plan.id).1
    unfold release
    rw [hs.composition, ht.composition]
    dsimp only
    split
    · exact ⟨rfl, h⟩
    rw [hs.endComposition, ht.endComposition]
    exact ⟨rfl, .of_lookup ⟨hview.resources, hview.epoch, hview.ledger.releaseAll hs.holds_mem,
        iff_of_true (Finset.mem_insert_self _ _) (Finset.mem_insert_self _ _)⟩
        setId (AList.lookup_insert _) (AList.lookup_insert _) (AList.lookup_insert _)
        (AList.lookup_insert _) hs.own_id hs.reservation hs.own_plan hs.items⟩

end Reads

end Engine

end DFabric
