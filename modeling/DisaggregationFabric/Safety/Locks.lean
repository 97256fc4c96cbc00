import DisaggregationFabric.Lib.Locks
import DisaggregationFabric.Safety.Progress
import DisaggregationFabric.Safety.Undo

/-!
# The engine as a lock manager

What reservations are for: whoever has one owns its members, and nobody else does. Nowhere in
the engine is there a record of who owns what. There is a ledger of amounts, written by five
operations, and a table of reservations with their states. `refines_locks` compares both with
a `LockTable` whose owners are reservations: `lockRequests` says what an operation asks of the
table, and along every run that keeps the account of holds the table that has served these
requests is the one that the engine `Represents`. A `Reserve` succeeds exactly when its plan
is `Admissible`, which has nothing to do with the others, and the table grants the members.

So among competing clients the first one gets what it asks for
(`reservations_first_come`), and a plan that is refused costs nobody else anything.
-/

namespace DFabric

namespace Engine

variable {s s' t : Engine ℚ} {table : LockTable ResourceId ReservationId}

/-! ### Owners -/

/-- A live reservation lists the resource. -/
def Holds (s : Engine ℚ) (r : ResourceId) (rid : ReservationId) : Prop :=
  ∃ v, s.reservations.lookup rid = some v ∧ v.IsLive ∧ ∃ i ∈ v.items, i.resource = r

/-- The table says who holds what. -/
def Represents (s : Engine ℚ) (table : LockTable ResourceId ReservationId) : Prop :=
  ∀ r rid, table r = some rid ↔ s.Holds r rid

/-- A resource is free when nobody holds it. -/
theorem Represents.eq_none_iff (h : s.Represents table) (r : ResourceId) :
    table r = none ↔ ∀ rid, ¬ s.Holds r rid := by
  rw [Option.eq_none_iff_forall_ne_some]
  exact forall_congr' fun rid => not_congr (h r rid)

theorem represents_fresh (cfg : EngineConfig) :
    (fresh cfg : Engine ℚ).Represents LockTable.empty := by
  intro r rid
  refine iff_of_false (fun h => by cases h) ?_
  rintro ⟨v, hv, -⟩
  cases hv

/-- Who holds what is in the table of reservations. -/
theorem Represents.congr (h : s.Represents table) (hr : s'.reservations = s.reservations) :
    s'.Represents table := by
  intro r rid
  rw [h r rid, Holds, Holds, hr]

/-- A reservation that is stored under its id again, live as before and with the same
members. -/
theorem Represents.restore (h : s.Represents table) {rid : ReservationId} {v v' : Reservation ℚ}
    (hv : s.reservations.lookup rid = some v) (hlive : v.IsLive) (hlive' : v'.IsLive)
    (hitems : v'.items.map ReservationItem.resource = v.items.map ReservationItem.resource)
    (hr : s'.reservations = s.reservations.insert rid v') : s'.Represents table := by
  intro r k
  rw [h r k, Holds, Holds, hr, UMap.lookup_insert_eq_ite]
  by_cases hk : k = rid
  · subst hk
    -- it was live and is live, and lists the same resources
    have hsame : (∃ i ∈ v'.items, i.resource = r) ↔ ∃ i ∈ v.items, i.resource = r := by
      rw [← List.mem_map, ← List.mem_map, hitems]
    rw [if_pos rfl, hv]
    simp only [Option.some.injEq, exists_eq_left', hlive, hlive', true_and, hsame]
  · rw [if_neg hk]

/-- A reservation that is stored again and is not live any more has given everything back. -/
theorem Represents.drop (h : s.Represents table) {rid : ReservationId} {v' : Reservation ℚ}
    (hclosed : ¬ v'.IsLive) (hr : s'.reservations = s.reservations.insert rid v') :
    s'.Represents (table.step (.drop rid)) := by
  intro r k
  rw [LockTable.step_drop_eq_some_iff, h r k, Holds, Holds, hr, UMap.lookup_insert_eq_ite]
  by_cases hk : k = rid
  · rw [if_pos hk]
    refine iff_of_false (fun hh => hh.1 hk) ?_
    rintro ⟨v, hv, hlive, -⟩
    cases hv
    exact hclosed hlive
  · rw [if_neg hk, and_iff_right hk]

/-- A new reservation takes members that were free. -/
theorem Represents.take (h : s.Represents table) {rid : ReservationId} {v' : Reservation ℚ}
    {vs : List ResourceId} (hfree : ∀ v ∈ s.reservations.lookup rid, ¬ v.IsLive)
    (hgrants : table.Grants vs) (hlive : v'.IsLive)
    (hitems : v'.items.map ReservationItem.resource = vs)
    (hr : s'.reservations = s.reservations.insert rid v') :
    s'.Represents (table.step (.take rid vs)) := by
  intro r k
  rw [LockTable.step_take_eq_some_iff hgrants, Holds, hr, UMap.lookup_insert_eq_ite]
  have hmem : r ∈ vs ↔ ∃ i ∈ v'.items, i.resource = r := by rw [← hitems, List.mem_map]
  by_cases hk : k = rid
  · -- the id was not that of a live reservation, so it held nothing before
    have hnot : ¬ table r = some k := by
      rw [h r k, hk]
      rintro ⟨v, hv, hl, -⟩
      exact hfree v hv hl
    rw [if_pos hk]
    simp only [hk, and_true, Option.some.injEq, exists_eq_left', hlive, true_and, ← hmem]
    exact ⟨fun hh => hh.elim id fun hh => absurd hh.2 (hk ▸ hnot), Or.inl⟩
  · rw [if_neg hk]
    show _ ↔ s.Holds r k
    rw [← h r k]
    refine ⟨fun hh => hh.elim (fun hh => absurd hh.2 hk) And.right, fun hh => Or.inr ⟨?_, hh⟩⟩
    intro hr
    rw [hgrants r hr] at hh
    cases hh

/-! ### Plans -/

/-- What `Reserve` asks of a plan, whoever else there is: it is up for reservation, and its
members are different, registered, eligible, and of no negative capacity. -/
structure Admissible (s : Engine ℚ) (plan : CompositionPlan ℚ) : Prop where
  planned : plan.lifecycle = .planned
  valid : plan.id.isValid = true
  nodup : plan.graph.vertices.Nodup
  members : ∀ v ∈ plan.graph.vertices, ∃ r ∈ s.resources.lookup v, Eligible r plan.request ∧
    0 ≤ r.capacity.computeUnits ∧ 0 ≤ r.capacity.hostMemoryBytes

instance (s : Engine ℚ) (plan : CompositionPlan ℚ) : Decidable (s.Admissible plan) :=
  decidable_of_iff
    (plan.lifecycle = .planned ∧ plan.id.isValid = true ∧ plan.graph.vertices.Nodup ∧
      ∀ v ∈ plan.graph.vertices, ∃ r ∈ s.resources.lookup v, Eligible r plan.request ∧
        0 ≤ r.capacity.computeUnits ∧ 0 ≤ r.capacity.hostMemoryBytes)
    ⟨fun h => ⟨h.1, h.2.1, h.2.2.1, h.2.2.2⟩, fun h => ⟨h.planned, h.valid, h.nodup, h.members⟩⟩

/-- A list whose members are not listed before is without repetition. -/
theorem nodup_of_forall_not_mem_before {vs : List ResourceId}
    (h : ∀ pre v post, vs = pre ++ v :: post → v ∉ pre) : vs.Nodup := by
  induction vs with
  | nil => exact List.nodup_nil
  | cons w vs ih =>
    refine List.nodup_cons.mpr ⟨fun hw => ?_, ih fun pre v post hsplit hv => ?_⟩
    · obtain ⟨pre, post, rfl⟩ := List.append_of_mem hw
      exact h (w :: pre) w post rfl List.mem_cons_self
    · exact h (w :: pre) v post (by rw [hsplit]; rfl) (List.mem_cons_of_mem w hv)

/-- Holding members with positive amounts leaves no amount smaller. -/
theorem le_heldAfter {req : CompositionRequest ℚ} {v : ResourceId} (hv : 0 ≤ s.holdOf req v)
    (a : ℚ) (pre : List ResourceId) : a ≤ s.heldAfter req v a pre := by
  induction pre generalizing a with
  | nil => exact le_rfl
  | cons w pre ih =>
    show a ≤ s.heldAfter req v (if v = w then Double.add a (s.holdOf req w) else a) pre
    by_cases hw : v = w
    · rw [if_pos hw, Double.rat_add]
      subst hw
      exact (le_add_of_nonneg_right hv).trans (ih _)
    · rw [if_neg hw]
      exact ih a

/-- A member that has been held already is not free. -/
theorem heldAfter_pos {req : CompositionRequest ℚ} {v : ResourceId} (hv : 0 < s.holdOf req v)
    {a : ℚ} (ha : 0 ≤ a) {pre : List ResourceId} (hmem : v ∈ pre) :
    0 < s.heldAfter req v a pre := by
  induction pre generalizing a with
  | nil => exact absurd hmem List.not_mem_nil
  | cons w pre ih =>
    show 0 < s.heldAfter req v (if v = w then Double.add a (s.holdOf req w) else a) pre
    by_cases hw : v = w
    · rw [if_pos hw, Double.rat_add]
      subst hw
      exact (add_pos_of_nonneg_of_pos ha hv).trans_le (le_heldAfter hv.le _ pre)
    · rw [if_neg hw]
      exact ih ha ((List.mem_cons.mp hmem).resolve_left hw)

/-- **When `Reserve` succeeds**, with a right account: the plan is admissible and nothing is
recorded for its members. -/
theorem reserve_ok_iff_admissible (hc : Conserved (0 < ·) s) {plan : CompositionPlan ℚ}
    (htakes : TakesAmounts (0 < ·) s plan.request plan.graph.vertices) :
    (s.reserve plan).2.ok = true ↔ s.Admissible plan ∧
      ∀ v ∈ plan.graph.vertices, Ledger.amount s.reservedAmount v = 0 := by
  have hnonneg : ∀ v, 0 ≤ Ledger.amount s.reservedAmount v :=
    hc.amount_nonneg fun _ hx => hx.le
  rw [reserve_ok_iff]
  constructor
  · rintro ⟨hplanned, hvalid, hnone⟩
    -- no member is refused behind those before it
    have hmembers : ∀ pre v post, plan.graph.vertices = pre ++ v :: post →
        ∃ r, s.resources.lookup v = some r ∧ Eligible r plan.request ∧
          s.heldAfter plan.request v (Ledger.amount s.reservedAmount v) pre ≤ 0 ∧
          0 ≤ r.capacity.computeUnits ∧ 0 ≤ r.capacity.hostMemoryBytes := by
      intro pre v post hsplit
      have hv : ¬ Refused s plan.request s.reservedAmount pre v :=
        fun h => hnone ⟨pre, v, post, hsplit, h⟩
      simp only [Refused, not_forall, not_or, not_not, Double.rat_lt, decide_eq_true_eq,
        Double.rat_zero, not_lt] at hv
      obtain ⟨r, hr, heligible, hfree, hcaps⟩ := hv
      exact ⟨r, hr, heligible, hfree, hcaps⟩
    have hbefore : ∀ pre v post, plan.graph.vertices = pre ++ v :: post → v ∉ pre := by
      intro pre v post hsplit hmem
      obtain ⟨r, hr, -, hfree, -⟩ := hmembers pre v post hsplit
      have hv : v ∈ plan.graph.vertices := by
        rw [hsplit]
        exact List.mem_append_right _ List.mem_cons_self
      -- a repeated member would find what is held for it already
      have hpos : 0 < s.holdOf plan.request v := by
        rw [holdOf, hr]
        exact htakes v hv r hr
      exact absurd (heldAfter_pos hpos (hnonneg v) hmem) (not_lt.mpr hfree)
    refine ⟨⟨hplanned, hvalid, nodup_of_forall_not_mem_before hbefore, fun v hv => ?_⟩,
      fun v hv => ?_⟩
    · obtain ⟨pre, post, hsplit⟩ := List.append_of_mem hv
      obtain ⟨r, hr, heligible, -, hcaps⟩ := hmembers pre v post hsplit
      exact ⟨r, hr, heligible, hcaps⟩
    · obtain ⟨pre, post, hsplit⟩ := List.append_of_mem hv
      obtain ⟨r, -, -, hfree, -⟩ := hmembers pre v post hsplit
      rw [s.heldAfter_of_not_mem plan.request _ (hbefore pre v post hsplit)] at hfree
      exact le_antisymm hfree (hnonneg v)
  · rintro ⟨hadm, hzero⟩
    refine ⟨hadm.planned, hadm.valid, ?_⟩
    rintro ⟨pre, v, post, hsplit, hrefused⟩
    have hv : v ∈ plan.graph.vertices := by
      rw [hsplit]
      exact List.mem_append_right _ List.mem_cons_self
    obtain ⟨r, hr, heligible, hcaps⟩ := hadm.members v hv
    have hpre := not_mem_before hadm.nodup hsplit
    exact (refused_iff_of_eligible hr heligible hpre).mp hrefused ⟨(hzero v hv).le, hcaps⟩

/-- The same in terms of the table. -/
theorem Represents.reserve_ok_iff (h : s.Represents table) (hc : Conserved (0 < ·) s)
    {plan : CompositionPlan ℚ}
    (htakes : TakesAmounts (0 < ·) s plan.request plan.graph.vertices) :
    (s.reserve plan).2.ok = true ↔ s.Admissible plan ∧ table.Grants plan.graph.vertices := by
  rw [reserve_ok_iff_admissible hc htakes]
  refine and_congr_right fun _ => forall₂_congr fun v _ => ?_
  rw [hc.amount_eq_zero_iff, h.eq_none_iff]
  constructor
  · rintro hnone rid ⟨resv, hresv, hlive, hi⟩
    exact hnone rid resv hresv hlive hi
  · rintro hnone rid resv hresv hlive hi
    exact hnone rid ⟨resv, hresv, hlive, hi⟩

/-! ### What an operation asks for -/

/-- A `Commit` that gets as far as its check, and fails there. -/
def RollsBack (s : Engine ℚ) (resIn : Reservation ℚ) : Prop :=
  (∃ v ∈ s.reservations.lookup resIn.id, v.state = .provisional ∧
    ∃ c ∈ s.compositions.lookup v.composition, c.lifecycle = .reserved) ∧
  (s.commit resIn).2.ok = false

instance (s : Engine ℚ) (resIn : Reservation ℚ) : Decidable (s.RollsBack resIn) :=
  inferInstanceAs (Decidable (_ ∧ _))

/-- The requests of an operation to the lock table. -/
def lockRequests (s : Engine ℚ) : Op ℚ → List (LockRequest ResourceId ReservationId)
  | .reserve plan =>
    if s.Admissible plan then [.take ⟨s.nextResv⟩ plan.graph.vertices] else []
  | .commit resIn => if s.RollsBack resIn then [.drop resIn.id] else []
  -- the three ways out, with their guards
  | op => (s.ending op).toList.map fun c => .drop c.reservation

/-! ### One step -/

/-- The reservations after an operation that neither reserves nor commits nor ends. -/
theorem reservations_step {op : Op ℚ} (hplan : op.plan? = none)
    (hcommit : ∀ resIn, op ≠ .commit resIn) (hends : op.ends? = none)
    (hload : op.isLoad = false) : (s.step op).reservations = s.reservations := by
  have heff := s.step_effect op
  generalize s.step op = s' at heff ⊢
  -- reservations are written by `Reserve`, by `Commit` and where a composition ends
  cases heff with
  | quiet hq => exact hq.reservations
  | composed req paths _ => rfl
  | reserveFailed plan held items e _ => cases hplan
  | reserved plan held items _ _ _ => cases hplan
  | rolledBack resIn resv comp held reason _ _ _ _ _ => exact absurd rfl (hcommit resIn)
  | committed resIn resv comp held _ _ _ _ _ _ => exact absurd rfl (hcommit resIn)
  | activated id comp _ _ _ _ _ => rfl
  | ended id comp fenced draining hop _ _ _ _ => rcases hop with rfl | rfl | rfl <;> cases hends
  | loaded file d _ => cases hload

/-- A `Reserve` that takes nothing leaves the reservations alone. -/
theorem reservations_reserve_of_not_ok {plan : CompositionPlan ℚ}
    (h : ¬ (s.reserve plan).2.ok = true) :
    (s.reserve plan).1.reservations = s.reservations := by
  have heff := s.reserve_effect plan
  generalize hs : (s.reserve plan).1 = s' at heff ⊢
  cases heff with
  | quiet hq => exact hq.reservations
  | reserveFailed _ held items e _ => rfl
  | reserved _ held items _ hok _ => exact absurd hok h
  | ended id comp fenced draining hop _ _ _ _ => rcases hop with hop | hop | hop <;> cases hop

section Ending

variable {op : Op ℚ} {id : CompositionId}

/-- A way out whose guard does not let it through. -/
theorem reservations_of_ending_none
    (hop : op = .endDrain id ∨ op = .release id ∨ op = .recomputeRelease id)
    (hend : s.ending op = none) : (s.step op).reservations = s.reservations := by
  have heff := s.step_effect op
  generalize s.step op = s' at heff ⊢
  rcases hop with rfl | rfl | rfl <;> cases heff with
  | quiet hq => exact hq.reservations
  | ended id comp fenced draining _ _ _ _ hend' => rw [hend] at hend'; cases hend'

/-- A way out that is taken ends the reservation that the composition refers to. -/
theorem reservations_of_ending {c : Composition ℚ}
    (hop : op = .endDrain id ∨ op = .release id ∨ op = .recomputeRelease id)
    (hend : s.ending op = some c) :
    (s.step op).reservations = (s.endComposition id c).reservations := by
  -- each of the three calls writes what `endComposition` does, where its guard passes
  rcases hop with rfl | rfl | rfl
  · obtain ⟨hc, hl⟩ := Option.filter_eq_some_iff.mp hend
    show (s.endDrain id).1.reservations = _
    rw [endDrain, hc]
    dsimp only
    rw [if_neg (not_not.mpr (of_decide_eq_true hl))]
  · obtain ⟨hc, hl⟩ := Option.filter_eq_some_iff.mp hend
    show (s.release id).1.reservations = _
    rw [release, hc]
    dsimp only
    rw [if_neg (of_decide_eq_true hl)]
  · show (s.recomputeRelease id).reservations = _
    rw [recomputeRelease, show s.compositions.lookup id = some c from hend]

/-- The ways out give back what the reservation holds. -/
theorem Represents.ending (h : s.Represents table)
    (hop : op = .endDrain id ∨ op = .release id ∨ op = .recomputeRelease id) :
    (s.step op).Represents
      (table.run ((s.ending op).toList.map fun c => .drop c.reservation)) := by
  rcases hend : s.ending op with _ | c
  · exact h.congr (reservations_of_ending_none hop hend)
  · show (s.step op).Represents (table.step (.drop c.reservation))
    have hresv := reservations_of_ending hop hend
    rw [reservations_endComposition] at hresv
    rcases hv : s.reservations.lookup c.reservation with _ | v
    · -- there is no such reservation, so it holds nothing
      rw [hv] at hresv
      intro r rid
      rw [LockTable.step_drop_eq_some_iff, (h.congr hresv) r rid]
      refine and_iff_right_of_imp ?_
      rintro ⟨v, hv', -⟩ rfl
      rw [hresv, hv] at hv'
      cases hv'
    · rw [hv] at hresv
      refine h.drop ?_ hresv
      rintro (hs | hs) <;> cases hs

end Ending

/-- **One step of the engine is what it asks of the lock table.** -/
theorem Represents.step (h : s.Represents table) (hc : Conserved (0 < ·) s) {op : Op ℚ}
    (hacc : Accounted (0 < ·) s op) :
    (s.step op).Represents (table.run (s.lockRequests op)) := by
  cases op with
  | reserve plan =>
    have hiff := h.reserve_ok_iff hc (hacc.takes plan rfl)
    show (s.reserve plan).1.Represents
      (table.run (if s.Admissible plan then [.take ⟨s.nextResv⟩ plan.graph.vertices] else []))
    by_cases hok : (s.reserve plan).2.ok = true
    · obtain ⟨hadm, hgrants⟩ := hiff.mp hok
      obtain ⟨held, items, hm, heq⟩ := reserve_ok hok
      rw [if_pos hadm, heq]
      exact h.take (hacc.free_id plan rfl) hgrants (Or.inl rfl) (reserveMembers_items hm) rfl
    · have hsame := h.congr (reservations_reserve_of_not_ok hok)
      by_cases hadm : s.Admissible plan
      · -- the table does not grant the members either
        have hnot : ¬ table.Grants plan.graph.vertices :=
          fun hgrants => hok (hiff.mpr ⟨hadm, hgrants⟩)
        rw [if_pos hadm]
        show (s.reserve plan).1.Represents (table.step (.take ⟨s.nextResv⟩ plan.graph.vertices))
        rw [LockTable.step_take_of_not_grants hnot]
        exact hsame
      · rw [if_neg hadm]
        exact hsame
  | commit resIn =>
    show (s.commit resIn).1.Represents
      (table.run (if s.RollsBack resIn then [.drop resIn.id] else []))
    by_cases hguards : ∃ v ∈ s.reservations.lookup resIn.id, v.state = .provisional ∧
      ∃ c ∈ s.compositions.lookup v.composition, c.lifecycle = .reserved
    swap
    · rw [commit_of_guard hguards, if_neg fun hb => hguards hb.1]
      exact h
    -- past the guards, a commit confirms or rolls back
    have hguards' := hguards
    obtain ⟨v, hv, hp, c, hc', hl⟩ := hguards'
    obtain ⟨held, reason, -, heq⟩ | ⟨held, -, heq⟩ := commit_cases hv hp hc' hl
    · rw [if_pos ⟨hguards, by rw [heq]; rfl⟩, heq]
      have hclosed : ¬ ({ v with state := .rolledBack } : Reservation ℚ).IsLive := by
        rintro (hs | hs) <;> cases hs
      exact h.drop hclosed rfl
    · have hnot : ¬ s.RollsBack resIn := by
        rintro ⟨-, hfail⟩
        rw [heq] at hfail
        cases hfail
      rw [if_neg hnot, heq]
      have hlive : v.committed.IsLive := Or.inr rfl
      refine h.restore hv (Or.inl hp) hlive ?_ rfl
      show (v.items.map _).map ReservationItem.resource = _
      rw [List.map_map]
      rfl
  | endDrain id => exact h.ending (Or.inl rfl)
  | release id => exact h.ending (Or.inr (Or.inl rfl))
  | recomputeRelease id => exact h.ending (Or.inr (Or.inr rfl))
  | load file => exact absurd hacc.no_load (by simp [Op.isLoad])
  | _ => exact h.congr (reservations_step rfl (fun _ h => by cases h) rfl rfl)

/-! ### Runs -/

/-- **The engine refines a lock table.** In every run that keeps the account of holds, the
table that has served what the operations ask for says who holds what; and a further
`Reserve` succeeds exactly when its plan is admissible and the table grants the members. -/
theorem refines_locks (cfg : EngineConfig) (ops : List (Op ℚ))
    (h : Along (Accounted (0 < ·)) (fresh cfg) ops) :
    let s : Engine ℚ := (fresh cfg).run ops
    let table := LockTable.empty.run (Machine.trace Engine.step lockRequests (fresh cfg) ops)
    s.Represents table ∧ ∀ plan, TakesAmounts (0 < ·) s plan.request plan.graph.vertices →
      ((s.reserve plan).2.ok = true ↔ s.Admissible plan ∧ table.Grants plan.graph.vertices) := by
  intro s table
  -- by induction on the calls, with the requests that they have made so far
  have hinv : s.Represents (LockTable.empty.run
      ([] ++ Machine.trace Engine.step lockRequests (fresh cfg) ops)) ∧ Conserved (0 < ·) s := by
    refine Machine.history_of_along
      (J := fun rs (s : Engine ℚ) => s.Represents (LockTable.empty.run rs) ∧ Conserved (0 < ·) s)
      ⟨represents_fresh cfg, conserved_fresh cfg⟩ ?_ h
    rintro rs s op ⟨hrep, hc⟩ hacc
    refine ⟨?_, hc.step (fun _ hx => le_of_lt hx) hacc⟩
    rw [LockTable.run, Machine.run_append]
    exact hrep.step hc hacc
  exact ⟨hinv.1, fun plan htakes => hinv.1.reserve_ok_iff hinv.2 htakes⟩

/-- After its transaction the sample engine does not grant the plan a second time, so the
table does not either. -/
theorem sample_refines_locks :
    let s : Engine ℚ := (fresh sampleConfig).run (sampleOps ++ sampleTransaction)
    let table := LockTable.empty.run (Machine.trace Engine.step lockRequests (fresh sampleConfig)
      (sampleOps ++ sampleTransaction))
    s.Represents table ∧ ¬ table.Grants samplePlan.graph.vertices := by
  intro s table
  obtain ⟨hrep, hreserve⟩ :=
    refines_locks sampleConfig (sampleOps ++ sampleTransaction) (by decide +kernel)
  refine ⟨hrep, fun hgrants => ?_⟩
  have hok := (hreserve samplePlan (by decide +kernel)).mpr ⟨by decide +kernel, hgrants⟩
  revert hok
  decide +kernel

/-! ### First come, first served -/

/-- Nobody holds the resource. -/
def Unheld (s : Engine ℚ) (r : ResourceId) : Prop := ∀ rid, ¬ s.Holds r rid

/-- Several plans are reserved one after the other. -/
abbrev reserveAll (s : Engine ℚ) (plans : List (CompositionPlan ℚ)) : Engine ℚ :=
  Machine.run (fun s plan => (s.reserve plan).1) s plans

/-- A `Reserve` takes the members of its plan, if it succeeds, and nothing else. -/
theorem Represents.unheld_reserve_iff (h : s.Represents table) (hc : Conserved (0 < ·) s)
    {plan : CompositionPlan ℚ} (hacc : Accounted (0 < ·) s (.reserve plan)) (r : ResourceId) :
    (s.reserve plan).1.Unheld r ↔
      s.Unheld r ∧ ((s.reserve plan).2.ok = true → r ∉ plan.graph.vertices) := by
  have hnext := h.step hc hacc
  have hiff := h.reserve_ok_iff hc (hacc.takes plan rfl)
  show (∀ rid, ¬ (s.reserve plan).1.Holds r rid) ↔ (∀ rid, ¬ s.Holds r rid) ∧ _
  by_cases hok : (s.reserve plan).2.ok = true
  · obtain ⟨hadm, hgrants⟩ := hiff.mp hok
    have hnone := hnext.eq_none_iff r
    -- the request of an admissible plan is one to take its members
    rw [lockRequests, if_pos hadm] at hnone
    rw [← h.eq_none_iff, and_congr_right fun _ => forall_prop_of_true hok]
    exact hnone.symm.trans (LockTable.step_take_eq_none_iff hgrants _ r)
  · have hsame := h.congr (reservations_reserve_of_not_ok hok)
    rw [← hsame.eq_none_iff, ← h.eq_none_iff]
    exact (and_iff_left fun hok' => absurd hok' hok).symm

/-- What is held after several plans. -/
theorem Represents.unheld_reserveAll_iff (h : s.Represents table) (hc : Conserved (0 < ·) s)
    {plans : List (CompositionPlan ℚ)}
    (hacc : Machine.Along (fun s plan => (s.reserve plan).1)
      (fun s plan => Accounted (0 < ·) s (.reserve plan)) s plans) (r : ResourceId) :
    (s.reserveAll plans).Unheld r ↔ s.Unheld r ∧
      Machine.Along (fun s plan => (s.reserve plan).1)
        (fun s plan => (s.reserve plan).2.ok = true → r ∉ plan.graph.vertices) s plans := by
  induction plans generalizing s table with
  | nil => exact (and_iff_left trivial).symm
  | cons plan plans ih =>
    obtain ⟨hplan, hplans⟩ := hacc
    have hnext := ih (h.step hc hplan) (hc.step (fun _ hx => le_of_lt hx) hplan) hplans
    exact hnext.trans (and_congr_left' (h.unheld_reserve_iff hc hplan r) |>.trans and_assoc)

/-- `Reserve` registers nothing. -/
theorem resources_reserve (s : Engine ℚ) (plan : CompositionPlan ℚ) :
    (s.reserve plan).1.resources = s.resources := by
  unfold reserve
  split
  · rfl
  split
  · rfl
  split <;> rfl

theorem resources_reserveAll (s : Engine ℚ) (plans : List (CompositionPlan ℚ)) :
    (s.reserveAll plans).resources = s.resources := by
  induction plans generalizing s with
  | nil => rfl
  | cons plan plans ih => exact (ih _).trans (s.resources_reserve plan)

theorem Admissible.congr {plan : CompositionPlan ℚ} (h : s.Admissible plan)
    (hr : s'.resources = s.resources) : s'.Admissible plan where
  planned := h.planned
  valid := h.valid
  nodup := h.nodup
  members := by rw [hr]; exact h.members

/-- Plans that are reserved one after the other leave the account right. -/
theorem Represents.reserveAll (h : s.Represents table) (hc : Conserved (0 < ·) s)
    {plans : List (CompositionPlan ℚ)}
    (hacc : Machine.Along (fun s plan => (s.reserve plan).1)
      (fun s plan => Accounted (0 < ·) s (.reserve plan)) s plans) :
    (∃ table', (s.reserveAll plans).Represents table') ∧
      Conserved (0 < ·) (s.reserveAll plans) := by
  refine Machine.invariant_of_along
    (I := fun s : Engine ℚ => (∃ table', s.Represents table') ∧ Conserved (0 < ·) s)
    ⟨⟨table, h⟩, hc⟩ ?_ hacc
  rintro s plan ⟨⟨table', h'⟩, hc'⟩ hplan
  exact ⟨⟨_, h'.step hc' hplan⟩, hc'.step (fun _ hx => le_of_lt hx) hplan⟩

/-- **First come, first served.** In a state that is reached with a right account, of several
plans that are reserved one after the other a plan is accepted exactly when it is admissible,
nobody held a member before, and no plan before it that was accepted has a member in common
with it. A plan that is refused stands in nobody's way. -/
theorem reservations_first_come (cfg : EngineConfig) (ops : List (Op ℚ))
    (h : Along (Accounted (0 < ·)) (fresh cfg) ops) (plans : List (CompositionPlan ℚ))
    (hplans : Machine.Along (fun s plan => (s.reserve plan).1)
      (fun s plan => Accounted (0 < ·) s (.reserve plan)) ((fresh cfg).run ops) plans) :
    let s : Engine ℚ := (fresh cfg).run ops
    let Accepted (pre : List (CompositionPlan ℚ)) (plan : CompositionPlan ℚ) : Prop :=
      ((s.reserveAll pre).reserve plan).2.ok = true
    ∀ pre plan post, plans = pre ++ plan :: post →
      (Accepted pre plan ↔ s.Admissible plan ∧ ∀ r ∈ plan.graph.vertices, s.Unheld r ∧
        ∀ pre' p post', pre = pre' ++ p :: post' → Accepted pre' p → r ∉ p.graph.vertices) := by
  intro s Accepted pre plan post hsplit
  have hrep := (refines_locks cfg ops h).1
  have hc : Conserved (0 < ·) s := conserved_run (fun _ hx => le_of_lt hx) cfg h
  rw [hsplit, Machine.along_append] at hplans
  obtain ⟨hpre, hplan, -⟩ := hplans
  obtain ⟨⟨table, htable⟩, hconserved⟩ := hrep.reserveAll hc hpre
  -- what the plan finds when its turn comes
  have hresources := s.resources_reserveAll pre
  have hadm : (s.reserveAll pre).Admissible plan ↔ s.Admissible plan :=
    ⟨fun hadm => hadm.congr hresources.symm, fun hadm => hadm.congr hresources⟩
  show ((s.reserveAll pre).reserve plan).2.ok = true ↔ _
  rw [htable.reserve_ok_iff hconserved (hplan.takes plan rfl), hadm]
  refine and_congr_right fun _ => forall₂_congr fun r _ => ?_
  rw [htable.eq_none_iff]
  exact (hrep.unheld_reserveAll_iff hc hpre r).trans (and_congr_right fun _ => Machine.along_iff)

/-- Two plans for the first resource, and one for a second resource. -/
def competingPlans : List (CompositionPlan ℚ) :=
  [samplePlan, planOver ⟨7⟩ [⟨1⟩], planOver ⟨8⟩ [⟨2⟩]]

/-- The first plan is accepted, so the second one is refused. -/
theorem sample_first_come :
    ¬ ((((fresh sampleConfig).run
      (sampleOps ++ [.registerResource (sampleMemory ⟨2⟩ 16)])).reserveAll [samplePlan]).reserve
        (planOver ⟨7⟩ [⟨1⟩])).2.ok = true := by
  have hiff := reservations_first_come sampleConfig
    (sampleOps ++ [.registerResource (sampleMemory ⟨2⟩ 16)]) (by decide +kernel) competingPlans
    (by decide +kernel) [samplePlan] (planOver ⟨7⟩ [⟨1⟩]) [planOver ⟨8⟩ [⟨2⟩]] (by rfl)
  intro hok
  obtain ⟨-, hmembers⟩ := hiff.mp hok
  exact (hmembers ⟨1⟩ List.mem_cons_self).2 [] samplePlan [] rfl (by decide +kernel)
    (by decide +kernel)

end Engine

end DFabric
