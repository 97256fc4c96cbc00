import DisaggregationFabric.Safety.Authority

/-!
# Authority is backed by holds

A composition refers to its reservation by a number. The invariant `Backing` says
what makes the reference sound: a stored composition and the reservation it refers
to agree on whom the reservation is for, a committed or active composition refers
to a committed reservation that lists exactly its members, and a reserved one is
the target of the only reservation that is open for it.

`Reserve` breaks it in two ways. The counter of reservation ids is not restored by
`Load`, while compositions are loaded with the ids of reservations that are gone: a
new reservation then answers to the reference of an old composition, and releasing
the old one ends the hold of the new one (`release_ends_another_hold`). And where
holds of zero let a plan be reserved twice, the older reservation may be the one
that is committed. `FreshFor` excludes both, and with it every state of every run,
restarts included, has its authority backed (`authority_backed`).
-/

namespace DFabric

namespace Engine

variable {D : Type} [Double D] [DoubleBits D]

/-- The composition refers to a committed reservation for it that lists exactly its
members. -/
def Backed (s : Engine D) (c : Composition D) : Prop :=
  ∃ r, s.reservations.lookup c.reservation = some r ∧ r.composition = c.id ∧
    r.state = .committed ∧ r.items.map ReservationItem.resource = c.graph.vertices

/-- The next reservation is taken for no composition but the one of the plan, and
no reservation is open for that one. -/
def FreshFor (s : Engine D) (plan : CompositionPlan D) : Prop :=
  (∀ c ∈ s.compositions.values, c.id ≠ plan.id → c.reservation ≠ ⟨s.nextResv⟩) ∧
    ∀ r ∈ s.reservations.values, r.composition = plan.id → r.state ≠ .provisional

instance (s : Engine D) (plan : CompositionPlan D) : Decidable (s.FreshFor plan) :=
  inferInstanceAs (Decidable (_ ∧ _))

/-- Every `Reserve` is called for a plan whose reservation will be fresh. -/
def ReservesFresh (s : Engine D) (op : Op D) : Prop := ∀ plan ∈ op.plan?, s.FreshFor plan

/-- What makes the references from compositions to reservations sound. -/
structure Backing (s : Engine D) : Prop where
  keyed : s.Keyed
  /-- The reservation a composition refers to is for that composition. -/
  referred : ∀ id c r, s.compositions.lookup id = some c →
    s.reservations.lookup c.reservation = some r → r.composition = c.id
  /-- The open reservation for a reserved composition is the one it refers to. -/
  open_reservation : ∀ id c rid r, s.compositions.lookup id = some c → c.lifecycle = .reserved →
    s.reservations.lookup rid = some r → r.composition = c.id → r.state = .provisional →
    c.reservation = rid ∧ r.items.map ReservationItem.resource = c.graph.vertices
  /-- A committed or active composition is backed. -/
  backed : ∀ id c, s.compositions.lookup id = some c →
    c.lifecycle = .committed ∨ c.lifecycle = .active → s.Backed c

omit [Double D] [DoubleBits D] in
/-- A step that leaves compositions and reservations alone. -/
theorem Backing.congr {s s' : Engine D} (h : s.Backing) (hc : s'.compositions = s.compositions)
    (hr : s'.reservations = s.reservations) : s'.Backing where
  keyed := by unfold Keyed; rw [hc]; exact h.keyed
  referred := by rw [hc, hr]; exact h.referred
  open_reservation := by rw [hc, hr]; exact h.open_reservation
  backed := by unfold Backed; rw [hc, hr]; exact h.backed

omit [Double D] [DoubleBits D] in
/-- Without reservations and authority there is nothing to back. -/
theorem Backing.of_empty {s : Engine D} (hk : s.Keyed) (hr : s.reservations = ∅)
    (hl : ∀ id l, s.lifecycleOf id = some l → l ≠ .committed ∧ l ≠ .active) : s.Backing where
  keyed := hk
  referred _ _ _ _ h := by rw [hr] at h; simp at h
  open_reservation _ _ _ _ _ _ h := by rw [hr] at h; simp at h
  backed id c hc hlc := by
    have hnot := hl id c.lifecycle (lifecycleOf_eq_some.mpr ⟨c, hc, rfl⟩)
    rcases hlc with hcm | hact
    · exact absurd hcm hnot.1
    · exact absurd hact hnot.2

omit [Double D] [DoubleBits D] in
theorem backing_fresh (cfg : EngineConfig) : (fresh cfg : Engine D).Backing :=
  .of_empty (keyed_fresh cfg) rfl fun _ _ h => by simp [lifecycleOf, fresh] at h

omit [Double D] [DoubleBits D] in
theorem backing_importState (s : Engine D) (d : DurableState D) : (s.importState d).Backing :=
  .of_empty (s.keyed_importState d) rfl fun _ _ h => lifecycleOf_importState h

omit [Double D] [DoubleBits D] in
/-- A quiet step takes authority away at most. -/
theorem Backing.quiet {s s' : Engine D} (h : s.Backing) (hk : s'.Keyed) (hq : Quiet s s') :
    s'.Backing where
  keyed := hk
  referred id c' r hc' hr := by
    obtain ⟨c, hc, hd⟩ := hq.compositions.back hc'
    rw [hq.reservations, hd.reservation] at hr
    rw [hd.id, h.referred id c r hc hr]
  open_reservation id c' rid r hc' hl hr hcomp hp := by
    -- a reserved composition was reserved before: nothing is promoted
    obtain ⟨c, hc, hd⟩ := hq.compositions.back hc'
    rw [hq.reservations] at hr
    rw [hd.id] at hcomp
    rw [hd.reservation, hd.graph]
    refine h.open_reservation id c rid r hc ?_ hr hcomp hp
    rw [← hl]
    exact hd.of_authoritative (Or.inl hl)
  backed id c' hc' hl := by
    obtain ⟨c, hc, hd⟩ := hq.compositions.back hc'
    unfold Backed
    rw [hq.reservations, hd.reservation, hd.graph, hd.id]
    refine h.backed id c hc ?_
    rw [hd.of_authoritative (Or.inr hl)]
    exact hl

omit [DoubleBits D] in
/-- A fresh reservation comes between no composition and its hold. -/
theorem Backing.storeReservation {s : Engine D} (h : s.Backing) {plan : CompositionPlan D}
    (hf : s.FreshFor plan) {held : OrdMap ResourceId D} {items : List (ReservationItem D)}
    (hm : s.reserveMembers plan.request plan.graph.vertices s.reservedAmount =
      (held, items, none)) :
    (s.storeReservation plan held items).Backing := by
  -- the other compositions refer to other reservations
  have hother : ∀ id c, id ≠ plan.id → s.compositions.lookup id = some c →
      c.id ≠ plan.id ∧ c.reservation ≠ ⟨s.nextResv⟩ := by
    intro id c hid hc
    have hne : c.id ≠ plan.id := by rw [h.keyed id c hc]; exact hid
    exact ⟨hne, hf.1 c (UMap.mem_values_of_lookup hc) hne⟩
  refine ⟨h.keyed.insert rfl rfl, ?_, ?_, ?_⟩
  · intro id c r hc hr
    rcases UMap.lookup_insert_inv hc with ⟨-, rfl⟩ | ⟨hid, hc⟩
    · -- the new composition refers to the new reservation
      rcases UMap.lookup_insert_inv hr with ⟨-, rfl⟩ | ⟨hne, -⟩
      · rfl
      · exact absurd rfl hne
    · rcases UMap.lookup_insert_inv hr with ⟨heq, -⟩ | ⟨-, hr⟩
      · exact absurd heq (hother id c hid hc).2
      · exact h.referred id c r hc hr
  · intro id c rid r hc hl hr hcomp hp
    rcases UMap.lookup_insert_inv hc with ⟨-, rfl⟩ | ⟨hid, hc⟩
    · rcases UMap.lookup_insert_inv hr with ⟨hrid, rfl⟩ | ⟨-, hr⟩
      · exact ⟨hrid.symm, reserveMembers_items hm⟩
      · -- no other reservation is open for the plan
        exact absurd hp (hf.2 r (UMap.mem_values_of_lookup hr) hcomp)
    · rcases UMap.lookup_insert_inv hr with ⟨-, rfl⟩ | ⟨-, hr⟩
      · exact absurd hcomp.symm (hother id c hid hc).1
      · exact h.open_reservation id c rid r hc hl hr hcomp hp
  · intro id c hc hl
    rcases UMap.lookup_insert_inv hc with ⟨-, rfl⟩ | ⟨hid, hc⟩
    · rcases hl with hl | hl <;> cases hl
    · obtain ⟨r, hr, hrest⟩ := h.backed id c hc hl
      refine ⟨r, ?_, hrest⟩
      change (s.reservations.insert _ _).lookup _ = _
      rw [UMap.lookup_insert_eq_ite, if_neg (hother id c hid hc).2, hr]

/-- The reservation of a committed or active composition is touched by no operation
on another composition. -/
theorem Backing.lookup_reservation {s : Engine D} (h : s.Backing) {id : CompositionId}
    {c : Composition D} (hc : s.compositions.lookup id = some c)
    (hl : c.lifecycle = .committed ∨ c.lifecycle = .active) {op : Op D}
    (hload : op.isLoad = false) (hfresh : s.ReservesFresh op)
    (hplan : ∀ plan ∈ op.plan?, plan.id ≠ id) (hends : op.ends? ≠ some id) :
    (s.step op).reservations.lookup c.reservation = s.reservations.lookup c.reservation := by
  obtain ⟨r, hr, hrc, hstate, -⟩ := h.backed id c hc hl
  -- a reservation that is open is another one
  have hopen : ∀ rid resv, s.reservations.lookup rid = some resv → resv.state = .provisional →
      c.reservation ≠ rid := by
    rintro rid resv hresv hp rfl
    rw [hresv] at hr
    cases hr
    rw [hp] at hstate
    cases hstate
  have heff := s.step_effect op
  generalize s.step op = s' at heff ⊢
  cases heff with
  | quiet hq => rw [hq.reservations]
  | composed req paths _ => rfl
  | reserveFailed plan held items e _ => rfl
  | reserved plan held items _ _ _ =>
    -- the new reservation has another id, by freshness
    have hne : c.id ≠ plan.id := by
      rw [h.keyed id c hc]
      exact (hplan plan rfl).symm
    change (s.reservations.insert _ _).lookup _ = _
    rw [UMap.lookup_insert_eq_ite,
      if_neg ((hfresh plan rfl).1 c (UMap.mem_values_of_lookup hc) hne)]
  | rolledBack resIn resv comp held reason hresv hp _ _ _ =>
    change (s.reservations.insert _ _).lookup _ = _
    rw [UMap.lookup_insert_eq_ite, if_neg (hopen _ resv hresv hp)]
  | committed resIn resv comp held hresv hp _ _ _ _ =>
    change (s.reservations.insert _ _).lookup _ = _
    rw [UMap.lookup_insert_eq_ite, if_neg (hopen _ resv hresv hp)]
  | activated id' comp _ _ _ _ _ => rfl
  | ended id' comp fenced draining hop hcomp _ _ =>
    -- two compositions with one reservation would be one composition
    have hid : id' ≠ id := by
      rintro rfl
      rcases hop with rfl | rfl | rfl <;> exact hends rfl
    change (s.endComposition id' comp).reservations.lookup _ = _
    refine lookup_reservations_endComposition_of_ne fun heq => hid ?_
    have hsame := h.referred id' comp r hcomp (heq ▸ hr)
    rw [← h.keyed id' comp hcomp, ← hsame, hrc, h.keyed id c hc]
  | loaded file d _ => cases hload

omit [Double D] [DoubleBits D] in
/-- One stored composition changes into one that is not `reserved`; reservations
may be closed, but not those of other compositions with authority. -/
theorem Backing.update {s s' : Engine D} (h : s.Backing) {k : CompositionId}
    {c c' : Composition D} (hc : s.compositions.lookup k = some c)
    (heq : s'.compositions = s.compositions.insert k c') (hid : c'.id = c.id)
    (href : c'.reservation = c.reservation) (hnot : c'.lifecycle ≠ .reserved)
    (hold : ∀ rid r', s'.reservations.lookup rid = some r' → ∃ r,
      s.reservations.lookup rid = some r ∧ r'.composition = r.composition ∧
        (r'.state = .provisional → r' = r))
    (hback : c'.lifecycle = .committed ∨ c'.lifecycle = .active → s'.Backed c')
    (hkeep : ∀ id c₁, id ≠ k → s.compositions.lookup id = some c₁ →
      c₁.lifecycle = .committed ∨ c₁.lifecycle = .active →
      s'.reservations.lookup c₁.reservation = s.reservations.lookup c₁.reservation) :
    s'.Backing := by
  -- each part splits into the composition that changed and the others
  refine ⟨h.keyed.insert heq (hid.trans (h.keyed k c hc)), ?_, ?_, ?_⟩
  · intro id c₁ r' hc₁ hr'
    obtain ⟨r, hr, hcomp, -⟩ := hold _ r' hr'
    rw [heq] at hc₁
    rcases UMap.lookup_insert_inv hc₁ with ⟨-, rfl⟩ | ⟨-, hc₁⟩
    · rw [href] at hr
      rw [hcomp, hid, h.referred k c r hc hr]
    · rw [hcomp, h.referred id c₁ r hc₁ hr]
  · intro id c₁ rid r' hc₁ hl hr' hcomp hp
    obtain ⟨r, hr, -, hsame⟩ := hold rid r' hr'
    obtain rfl := hsame hp
    rw [heq] at hc₁
    rcases UMap.lookup_insert_inv hc₁ with ⟨-, rfl⟩ | ⟨-, hc₁⟩
    · exact absurd hl hnot
    · exact h.open_reservation id c₁ rid r' hc₁ hl hr hcomp hp
  · intro id c₁ hc₁ hl
    rw [heq] at hc₁
    rcases UMap.lookup_insert_inv hc₁ with ⟨-, rfl⟩ | ⟨hne, hc₁⟩
    · exact hback hl
    · obtain ⟨r, hr, hrest⟩ := h.backed id c₁ hc₁ hl
      exact ⟨r, (hkeep id c₁ hne hc₁ hl).trans hr, hrest⟩

/-- **One step keeps the authority backed.** -/
theorem Backing.step {s : Engine D} (h : s.Backing) {op : Op D} (hfresh : s.ReservesFresh op) :
    (s.step op).Backing := by
  have hk : (s.step op).Keyed := h.keyed.step op
  -- what the step does not touch, said before the state after it is forgotten
  have hkeep : ∀ id c, s.compositions.lookup id = some c →
      c.lifecycle = .committed ∨ c.lifecycle = .active → op.isLoad = false →
      (∀ plan ∈ op.plan?, plan.id ≠ id) → op.ends? ≠ some id →
      (s.step op).reservations.lookup c.reservation = s.reservations.lookup c.reservation :=
    fun id c hc hl hload hplan hends => h.lookup_reservation hc hl hload hfresh hplan hends
  have heff := s.step_effect op
  generalize s.step op = s' at heff hk hkeep ⊢
  cases heff with
  | quiet hq => exact h.quiet hk hq
  | composed req paths _ => exact h.congr rfl rfl
  | reserveFailed plan held items e _ => exact h.congr rfl rfl
  | reserved plan held items _ _ hm => exact h.storeReservation (hfresh plan rfl) hm
  | rolledBack resIn resv comp held reason hr hp hc _ _ =>
    refine h.update hc rfl rfl rfl (by simp) ?_ (by simp) ?_
    · intro rid r' hr'
      rcases UMap.lookup_insert_inv hr' with ⟨rfl, rfl⟩ | ⟨-, hr'⟩
      · exact ⟨resv, hr, rfl, fun hs => by cases hs⟩
      · exact ⟨r', hr', rfl, fun _ => rfl⟩
    · exact fun id c _ hc₁ hl => hkeep id c hc₁ hl rfl (by simp [Op.plan?]) (by simp [Op.ends?])
  | committed resIn resv comp held hr hp hc hl _ _ =>
    have hcid := h.keyed _ comp hc
    -- the open reservation is the one the composition refers to
    obtain ⟨href, hitems⟩ := h.open_reservation _ comp resIn.id resv hc hl hr hcid.symm hp
    refine h.update hc rfl rfl rfl (by simp) ?_ ?_ ?_
    · intro rid r' hr'
      rcases UMap.lookup_insert_inv hr' with ⟨rfl, rfl⟩ | ⟨-, hr'⟩
      · exact ⟨resv, hr, rfl, fun hs => by cases hs⟩
      · exact ⟨r', hr', rfl, fun _ => rfl⟩
    · intro _
      refine ⟨resv.committed, ?_, hcid.symm, rfl, ?_⟩
      · change (s.reservations.insert _ _).lookup comp.reservation = _
        rw [UMap.lookup_insert_eq_ite, if_pos href]
      · rw [← hitems]
        simp [Reservation.committed, Function.comp_def]
    · exact fun id c _ hc₁ hl => hkeep id c hc₁ hl rfl (by simp [Op.plan?]) (by simp [Op.ends?])
  | activated id comp hc hl _ _ _ =>
    refine h.update hc rfl rfl rfl (by simp) (fun rid r' hr' => ⟨r', hr', rfl, fun _ => rfl⟩)
      (fun _ => ?_) (fun _ _ _ _ _ => rfl)
    exact h.backed id comp hc (Or.inl hl)
  | ended id comp fenced draining hop hc _ _ =>
    refine h.update hc (s.compositions_endComposition id comp) rfl rfl (by simp)
      (fun rid r' hr' => ?_) (by simp) ?_
    · rcases lookup_reservations_endComposition id hr' with ⟨hr, -⟩ | ⟨-, r, hr, rfl⟩
      · exact ⟨r', hr, rfl, fun _ => rfl⟩
      · exact ⟨r, hr, rfl, fun hs => by cases hs⟩
    · intro id' c hne hc₁ hl
      refine hkeep id' c hc₁ hl ?_ ?_ ?_
      · rcases hop with rfl | rfl | rfl <;> rfl
      · rcases hop with rfl | rfl | rfl <;> simp [Op.plan?]
      · rcases hop with rfl | rfl | rfl <;> simpa [Op.ends?] using hne.symm
  | loaded file d _ => exact s.backing_importState d

/-- The condition on the events of a run. -/
def EventReservesFresh (s : Engine D) : Event D → Prop
  | .call op => s.ReservesFresh op
  | .restart _ _ => True

instance (s : Engine D) (op : Op D) : Decidable (s.ReservesFresh op) :=
  inferInstanceAs (Decidable (∀ plan ∈ op.plan?, s.FreshFor plan))

instance (s : Engine D) (ev : Event D) : Decidable (s.EventReservesFresh ev) :=
  match ev with
  | .call op => inferInstanceAs (Decidable (s.ReservesFresh op))
  | .restart _ _ => inferInstanceAs (Decidable True)

/-- **Authority is backed by holds, across restarts.** In every run of operations
and restarts in which every `Reserve` takes a reservation that is fresh, each
committed or active composition refers to a committed reservation for it that lists
exactly its members, and an operation on another composition leaves that
reservation as it is. -/
theorem authority_backed (cfg : EngineConfig) (evs : List (Event D))
    (hfresh : Machine.Along happen EventReservesFresh (fresh cfg) evs) :
    let s := Machine.run happen (fresh cfg) evs
    ∀ id c, s.compositions.lookup id = some c →
      c.lifecycle = .committed ∨ c.lifecycle = .active →
      s.Backed c ∧
        ∀ op : Op D, op.isLoad = false → s.ReservesFresh op →
          (∀ plan ∈ op.plan?, plan.id ≠ id) → op.ends? ≠ some id →
          (s.step op).reservations.lookup c.reservation = s.reservations.lookup c.reservation := by
  have hinv : (Machine.run happen (fresh cfg) evs).Backing := by
    refine Machine.invariant_of_along (backing_fresh cfg) ?_ hfresh
    intro s ev hs hev
    cases ev with
    | call op => exact hs.step hev
    | restart cfg' file =>
      -- a restarted engine has no reservation and no authority
      change ((fresh cfg').load file).1.Backing
      unfold load
      split
      · exact backing_importState _ _
      · exact backing_fresh cfg'
  intro s id c hc hl
  exact ⟨hinv.backed id c hc hl, fun op hload hf hplan hends =>
    hinv.lookup_reservation hc hl hload hf hplan hends⟩

/-- The sample engine loads the file of an empty one and performs its transaction. -/
def sampleEvents : List (Event ℚ) :=
  .restart sampleConfig (fresh sampleConfig : Engine ℚ).savedFile ::
    (sampleOps ++ sampleTransaction).map .call

/-- The sample composition is backed, and the release of another one leaves its
reservation alone. -/
theorem sample_authority_backed :
    let s := Machine.run happen (fresh sampleConfig) sampleEvents
    ∃ c, s.compositions.lookup ⟨1⟩ = some c ∧ s.Backed c ∧
      (s.step (.release ⟨2⟩)).reservations.lookup c.reservation =
        s.reservations.lookup c.reservation := by
  intro s
  obtain ⟨c, hc, hl⟩ : ∃ c, s.compositions.lookup ⟨1⟩ = some c ∧ c.lifecycle = .active :=
    lifecycleOf_eq_some.mp (by decide +kernel)
  obtain ⟨hback, hkeep⟩ :=
    authority_backed sampleConfig sampleEvents (by decide +kernel) ⟨1⟩ c hc (Or.inr hl)
  exact ⟨c, hc, hback, hkeep (.release ⟨2⟩) rfl (by simp [ReservesFresh, Op.plan?])
    (by simp [Op.plan?]) (by decide)⟩

/-! ### Where the reference goes wrong -/

/-- The sample engine after its transaction, restarted from its own file, with the
resource published again. -/
def restarted : Engine ℚ :=
  (((fresh sampleConfig).load
    ((fresh sampleConfig).run (sampleOps ++ sampleTransaction)).savedFile).1).run sampleOps

/-- The sample engine is restarted from its own file, performs a second transaction
and releases the composition it has loaded. -/
def restartedEvents : List (Event ℚ) :=
  (sampleOps ++ sampleTransaction).map .call ++
    .restart sampleConfig ((fresh sampleConfig).run (sampleOps ++ sampleTransaction)).savedFile ::
    [.call (.registerResource (sampleMemory ⟨1⟩ 64)), .call (.compose (sampleRequest 32)),
      .call (.reserve (restarted.compose (sampleRequest 32)).2.payload),
      .call (.commit (sampleReservation ⟨1⟩)), .call (.activate ⟨2⟩), .call (.release ⟨1⟩)]

/-- Both plans were returned by the engine that reserves them. -/
theorem restartedEvents_plansReturned :
    PlansReturned [] (fresh sampleConfig) restartedEvents := by
  refine .call rfl <| .call rfl <| .reserve ?_ <| .call rfl <| .call rfl <| .restart <|
    .call rfl <| .call rfl <| .reserve ?_ <| .call rfl <| .call rfl <| .call rfl ?_
  · exact mem_returned_compose (by decide +kernel)
  · exact mem_returned_compose (by decide +kernel)
  · exact trivial

/-- The restart is from the file of the engine before it. -/
theorem restartedEvents_restartsFromSave :
    Machine.Along happen RestartsFromSave (fresh sampleConfig) restartedEvents := by
  refine ⟨trivial, trivial, trivial, trivial, trivial, ?_, trivial, trivial, trivial, trivial,
    trivial, trivial, trivial⟩
  exact save_eq_savedFile (by decide +kernel)

/-- **A release can end another composition's hold.** After the restart the second
composition is given the reservation id the first one still carries; releasing the
first one leaves the second active on a released reservation. -/
theorem release_ends_another_hold :
    ¬ ∀ (cfg : EngineConfig) (evs : List (Event ℚ)),
      PlansReturned [] (fresh cfg) evs →
      Machine.Along happen RestartsFromSave (fresh cfg) evs →
      ∀ id c, (Machine.run happen (fresh cfg) evs).compositions.lookup id = some c →
        c.lifecycle = .committed ∨ c.lifecycle = .active →
        (Machine.run happen (fresh cfg) evs).Backed c := by
  intro h
  have hback := h sampleConfig restartedEvents restartedEvents_plansReturned
    restartedEvents_restartsFromSave
  generalize hs : Machine.run happen (fresh sampleConfig) restartedEvents = s at hback
  have hl : s.lifecycleOf ⟨2⟩ = some .active := by rw [← hs]; decide +kernel
  obtain ⟨c, hc, hl⟩ := lifecycleOf_eq_some.mp hl
  obtain ⟨r, hr, -, hstate, -⟩ := hback ⟨2⟩ c hc (Or.inr hl)
  have hnone : ∀ r ∈ s.reservations.values, r.state ≠ .committed := by rw [← hs]; decide +kernel
  exact hnone r (UMap.mem_values_of_lookup hr) hstate

end Engine

end DFabric
