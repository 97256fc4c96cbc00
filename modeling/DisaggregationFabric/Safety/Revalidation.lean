import DisaggregationFabric.Safety.Binding

/-!
# What activation has revalidated

`Compose` records in the authority tuple every generation its plan depends on.
`Activate` looks at the epoch, the generations of the members and the currency of
their evidence; the rest is left to the events, which demote compositions as things
change. That does not cover everything:

* while there is only a plan, nothing is stored that an event could demote, and
  `Reserve` does not compare the plan with what is current
  (`node_restart_before_reserve`);
* a re-publication is compared by its generation alone, so that the boot of a node,
  or the evidence, capabilities and compatibility of a member, may change under it;
* a policy update does not demote a reserved composition.

Where the record is current when the plan is reserved (`RecordCurrent`) and the
operations from there on do none of the latter two (`KeepsRecord`), a successful
`Activate` finds everything that was recorded for the members still current
(`activation_covers_authority`).
-/

namespace DFabric

variable {D : Type}

/-- The records agree in what the authority tuple takes from a member besides its own
generation, and in the node it is on. -/
structure SameRecord (r r' : Resource D) : Prop where
  nodeId : r'.nodeId = r.nodeId
  evidence : r'.evidence.generation = r.evidence.generation
  capabilities : r'.capabilities.map (·.generation) = r.capabilities.map (·.generation)
  compatibility : r'.compatibility.map (·.generation) = r.compatibility.map (·.generation)

/-- The nodes agree in what the authority tuple takes from them. -/
structure SameHost (n n' : Node D) : Prop where
  generation : n'.generation = n.generation
  workerBoot : n'.workerBoot = n.workerBoot

instance (r r' : Resource D) : Decidable (SameRecord r r') :=
  decidable_of_iff
    (r'.nodeId = r.nodeId ∧ r'.evidence.generation = r.evidence.generation ∧
      r'.capabilities.map (·.generation) = r.capabilities.map (·.generation) ∧
      r'.compatibility.map (·.generation) = r.compatibility.map (·.generation))
    ⟨fun h => ⟨h.1, h.2.1, h.2.2.1, h.2.2.2⟩,
      fun h => ⟨h.nodeId, h.evidence, h.capabilities, h.compatibility⟩⟩

instance (n n' : Node D) : Decidable (SameHost n n') :=
  decidable_of_iff (n'.generation = n.generation ∧ n'.workerBoot = n.workerBoot)
    ⟨fun h => ⟨h.1, h.2⟩, fun h => ⟨h.generation, h.workerBoot⟩⟩

theorem SameRecord.refl (r : Resource D) : SameRecord r r := ⟨rfl, rfl, rfl, rfl⟩

theorem SameRecord.trans {r r' r'' : Resource D} (h : SameRecord r r') (h' : SameRecord r' r'') :
    SameRecord r r'' where
  nodeId := h'.nodeId.trans h.nodeId
  evidence := h'.evidence.trans h.evidence
  capabilities := h'.capabilities.trans h.capabilities
  compatibility := h'.compatibility.trans h.compatibility

theorem StatusOnly.sameRecord {r r' : Resource D} (h : StatusOnly r r') : SameRecord r r' := by
  rw [h]
  exact ⟨rfl, rfl, rfl, rfl⟩

theorem SameHost.refl (n : Node D) : SameHost n n := ⟨rfl, rfl⟩

theorem SameHost.trans {n n' n'' : Node D} (h : SameHost n n') (h' : SameHost n' n'') :
    SameHost n n'' where
  generation := h'.generation.trans h.generation
  workerBoot := h'.workerBoot.trans h.workerBoot

namespace Engine

/-! ### The record and what keeps it -/

/-- What was recorded at `s₀` for the members of the plan is current at `s`. -/
structure TupleCurrent (s₀ : Engine D) (plan : CompositionPlan D) (s : Engine D) : Prop where
  /-- The generations of each member, and those of the node it is on. -/
  members : ∀ v ∈ plan.graph.vertices, ∃ r₀ r, s₀.resources.lookup v = some r₀ ∧
    s.resources.lookup v = some r ∧ r.generation = r₀.generation ∧ SameRecord r₀ r ∧
    ∀ n₀, s₀.nodes.lookup r₀.nodeId = some n₀ → ∃ n, s.nodes.lookup r.nodeId = some n ∧
      SameHost n₀ n
  /-- The generation of the policy, where the engine has one. -/
  policy : ∀ g, s.policies.find? plan.request.policy = some g →
    plan.authority.policyGeneration = g

/-- At the time of `Reserve`, what `Activate` will not look at is as it was recorded at
`s₀`: the hosts of the members, the policy, and the rest of the record of a member
that has its recorded generation. -/
structure RecordCurrent (s₀ : Engine D) (plan : CompositionPlan D) (s : Engine D) : Prop where
  members : ∀ v ∈ plan.graph.vertices, ∀ r₀ ∈ s₀.resources.lookup v, ∀ r ∈ s.resources.lookup v,
    r.generation = r₀.generation → SameRecord r₀ r ∧
      ∀ n₀ ∈ s₀.nodes.lookup r₀.nodeId, ∃ n ∈ s.nodes.lookup r₀.nodeId, SameHost n₀ n
  policy : ∀ g ∈ s.policies.find? plan.request.policy, g = plan.authority.policyGeneration

instance (s₀ : Engine D) (plan : CompositionPlan D) (s : Engine D) :
    Decidable (RecordCurrent s₀ plan s) :=
  decidable_of_iff
    ((∀ v ∈ plan.graph.vertices, ∀ r₀ ∈ s₀.resources.lookup v, ∀ r ∈ s.resources.lookup v,
      r.generation = r₀.generation → SameRecord r₀ r ∧
        ∀ n₀ ∈ s₀.nodes.lookup r₀.nodeId, ∃ n ∈ s.nodes.lookup r₀.nodeId, SameHost n₀ n) ∧
      ∀ g ∈ s.policies.find? plan.request.policy, g = plan.authority.policyGeneration)
    ⟨fun h => ⟨h.1, h.2⟩, fun h => ⟨h.members, h.policy⟩⟩

variable [Double D] [DoubleBits D]

/-- The operation does not change under an unchanged generation what the plan has
recorded, and records no other policy generation while the composition is reserved. -/
structure KeepsRecord (plan : CompositionPlan D) (s : Engine D) (op : Op D) : Prop where
  /-- The composition stays the one of this `Reserve`. -/
  reserves : ∀ plan' ∈ op.plan?, (s.reserve plan').2.ok = true → plan'.id ≠ plan.id
  /-- The node of a member is published with its generation only together with its
  boot. -/
  node : ∀ n ∈ op.node?, ∀ v ∈ plan.graph.vertices, ∀ r ∈ s.resources.lookup v,
    r.nodeId = n.id → ∀ old ∈ s.nodes.lookup n.id, old.generation = n.generation →
    old.workerBoot = n.workerBoot
  /-- A member is published with its generation only together with the rest of its
  record. -/
  resource : ∀ r ∈ op.resource?, r.id ∈ plan.graph.vertices →
    ∀ old ∈ s.resources.lookup r.id, old.generation = r.generation → SameRecord old r
  /-- While the composition is reserved, its policy keeps its generation. -/
  policy : ∀ p ∈ op.policy?, p.1 = plan.request.policy → s.lifecycleOf plan.id = some .reserved →
    p.2 = plan.authority.policyGeneration

instance (plan : CompositionPlan D) (s : Engine D) (op : Op D) :
    Decidable (KeepsRecord plan s op) :=
  decidable_of_iff
    ((∀ plan' ∈ op.plan?, (s.reserve plan').2.ok = true → plan'.id ≠ plan.id) ∧
      (∀ n ∈ op.node?, ∀ v ∈ plan.graph.vertices, ∀ r ∈ s.resources.lookup v,
        r.nodeId = n.id → ∀ old ∈ s.nodes.lookup n.id, old.generation = n.generation →
        old.workerBoot = n.workerBoot) ∧
      (∀ r ∈ op.resource?, r.id ∈ plan.graph.vertices →
        ∀ old ∈ s.resources.lookup r.id, old.generation = r.generation → SameRecord old r) ∧
      ∀ p ∈ op.policy?, p.1 = plan.request.policy → s.lifecycleOf plan.id = some .reserved →
        p.2 = plan.authority.policyGeneration)
    ⟨fun h => ⟨h.1, h.2.1, h.2.2.1, h.2.2.2⟩,
      fun h => ⟨h.reserves, h.node, h.resource, h.policy⟩⟩

/-! ### The composition on its way to `Activate` -/

/-- The composition is committed, or reserved with an open reservation. -/
def Pending (id : CompositionId) (s : Engine D) (c : Composition D) : Prop :=
  s.compositions.lookup id = some c ∧ (c.lifecycle = .committed ∨
    c.lifecycle = .reserved ∧ ∃ rid v, s.reservations.lookup rid = some v ∧
      v.composition = id ∧ v.state = .provisional)

omit [Double D] [DoubleBits D] in
theorem Pending.authoritative {id : CompositionId} {s : Engine D} {c : Composition D}
    (h : Pending id s c) : c.lifecycle.IsAuthoritative := by
  rcases h.2 with hl | ⟨hl, -⟩
  · exact Or.inr (Or.inl hl)
  · exact Or.inl hl

omit [Double D] [DoubleBits D] in
/-- A step that leaves the composition as it is and opens no reservation for it. -/
theorem Pending.mono {id : CompositionId} {s s' : Engine D} {c c' : Composition D}
    (h : Pending id s' c') (hc : s.compositions.lookup id = some c)
    (hl : c.lifecycle = c'.lifecycle)
    (hopen : ∀ rid v, s'.reservations.lookup rid = some v → v.composition = id →
      v.state = .provisional → s.reservations.lookup rid = some v) : Pending id s c := by
  refine ⟨hc, ?_⟩
  rw [hl]
  rcases h.2 with hcm | ⟨hres, rid, v, hv, hcomp, hstate⟩
  · exact Or.inl hcm
  · exact Or.inr ⟨hres, rid, v, hopen rid v hv hcomp hstate, hcomp, hstate⟩

/-- **Where a pending composition comes from.** Unless this step reserved it, it was
pending before, with the same graph and authority. -/
theorem pending_step {s : Engine D} {op : Op D} {id : CompositionId} {c' : Composition D}
    (hnot : ∀ plan ∈ op.plan?, (s.reserve plan).2.ok = true → plan.id ≠ id)
    (h : Pending id (s.step op) c') :
    ∃ c, Pending id s c ∧ c'.graph = c.graph ∧ c'.authority = c.authority ∧
      (c'.lifecycle = .reserved → c.lifecycle = .reserved) := by
  have heff := s.step_effect op
  generalize s.step op = s' at heff h
  have hc' := h.1
  have hpend := h.2
  -- which record is stored under the id, and which reservations are open
  cases heff with
  | quiet hq =>
    obtain ⟨c, hc, hd⟩ := hq.compositions.back hc'
    have hl := hd.of_authoritative h.authoritative
    refine ⟨c, h.mono hc hl ?_, hd.graph, hd.authority, fun hr => hl.trans hr⟩
    intro rid v hv _ _
    rwa [hq.reservations] at hv
  | composed req paths _ => exact ⟨c', h, rfl, rfl, fun hr => hr⟩
  | reserveFailed plan held items e _ => exact ⟨c', h, rfl, rfl, fun hr => hr⟩
  | reserved plan held items _ hok _ =>
    have hid : id ≠ plan.id := (hnot plan rfl hok).symm
    rcases UMap.lookup_insert_inv hc' with ⟨heq, -⟩ | ⟨-, hc'⟩
    · exact absurd heq hid
    refine ⟨c', h.mono hc' rfl ?_, rfl, rfl, fun hr => hr⟩
    intro rid v hv hcomp _
    rcases UMap.lookup_insert_inv hv with ⟨-, rfl⟩ | ⟨-, hv⟩
    · exact absurd hcomp.symm hid
    · exact hv
  | rolledBack resIn resv comp held reason _ _ _ _ _ =>
    rcases UMap.lookup_insert_inv hc' with ⟨-, rfl⟩ | ⟨-, hc'⟩
    · exact absurd h.authoritative (by simp [CompositionLifecycle.IsAuthoritative])
    · refine ⟨c', h.mono hc' rfl ?_, rfl, rfl, fun hr => hr⟩
      intro rid v hv _ hstate
      exact UMap.lookup_of_insert_ne hv (by rintro rfl; cases hstate)
  | committed resIn resv comp held hr hp hc hl _ _ =>
    rcases UMap.lookup_insert_inv hc' with ⟨rfl, rfl⟩ | ⟨-, hc'⟩
    · -- this step committed it: its reservation was open
      exact ⟨comp, ⟨hc, Or.inr ⟨hl, resIn.id, resv, hr, rfl, hp⟩⟩, rfl, rfl, fun _ => hl⟩
    · refine ⟨c', h.mono hc' rfl ?_, rfl, rfl, fun hr => hr⟩
      intro rid v hv _ hstate
      exact UMap.lookup_of_insert_ne hv (by rintro rfl; cases hstate)
  | activated id' comp _ _ _ _ _ =>
    rcases UMap.lookup_insert_inv hc' with ⟨-, rfl⟩ | ⟨-, hc'⟩
    · rcases hpend with hl | ⟨hl, -⟩ <;> cases hl
    · exact ⟨c', h.mono hc' rfl fun rid v hv _ _ => hv, rfl, rfl, fun hr => hr⟩
  | ended id' comp fenced draining _ _ _ _ _ =>
    change (s.endComposition id' comp).compositions.lookup id = _ at hc'
    rw [compositions_endComposition] at hc'
    rcases UMap.lookup_insert_inv hc' with ⟨-, rfl⟩ | ⟨-, hc'⟩
    · rcases hpend with hl | ⟨hl, -⟩ <;> cases hl
    · refine ⟨c', h.mono hc' rfl ?_, rfl, rfl, fun hr => hr⟩
      intro rid v hv _ hstate
      rcases lookup_reservations_endComposition id' hv with ⟨hv, -⟩ | ⟨-, v₀, -, rfl⟩
      · exact hv
      · cases hstate
  | loaded file d _ =>
    -- a load leaves nothing committed and no reservation open
    rcases hpend with hl | ⟨-, rid, v, hv, -⟩
    · have hlife := lifecycleOf_importState (lifecycleOf_eq_some.mpr ⟨c', hc', hl⟩)
      exact absurd rfl hlife.1
    · exact absurd hv (by simp [importState])

/-! ### The tables since `Reserve` -/

/-- What the plan depends on is as it was at `s₂`. -/
structure TablesKept (s₂ : Engine D) (plan : CompositionPlan D) (s : Engine D) : Prop where
  members : ∀ v ∈ plan.graph.vertices, ∀ r₂, s₂.resources.lookup v = some r₂ →
    ∃ r, s.resources.lookup v = some r ∧ r.generation = r₂.generation ∧ SameRecord r₂ r ∧
      ∀ n₂, s₂.nodes.lookup r₂.nodeId = some n₂ →
        ∃ n, s.nodes.lookup r₂.nodeId = some n ∧ SameHost n₂ n
  policy : ∀ g, s.policies.find? plan.request.policy = some g →
    g = plan.authority.policyGeneration

omit [Double D] [DoubleBits D] in
/-- The tables at `s₂` itself. -/
theorem TablesKept.of_eq {s₂ s : Engine D} {plan : CompositionPlan D}
    (hr : s.resources = s₂.resources) (hn : s.nodes = s₂.nodes)
    (hp : ∀ g, s.policies.find? plan.request.policy = some g →
      g = plan.authority.policyGeneration) : TablesKept s₂ plan s where
  members v _ r₂ hlook := by
    rw [hr, hn]
    exact ⟨r₂, hlook, rfl, .refl r₂, fun n₂ hn₂ => ⟨n₂, hn₂, .refl n₂⟩⟩
  policy := hp

omit [Double D] [DoubleBits D] in
/-- A change of the tables that touches, of what the plan depends on, only what the
plan has not recorded. -/
theorem TablesKept.mono {s₂ s s' : Engine D} {plan : CompositionPlan D}
    (h : TablesKept s₂ plan s)
    (hr : ∀ v ∈ plan.graph.vertices, ∀ r, s.resources.lookup v = some r →
      ∃ r', s'.resources.lookup v = some r' ∧ r'.generation = r.generation ∧ SameRecord r r')
    (hn : ∀ v ∈ plan.graph.vertices, ∀ r, s.resources.lookup v = some r →
      ∀ n, s.nodes.lookup r.nodeId = some n →
        ∃ n', s'.nodes.lookup r.nodeId = some n' ∧ SameHost n n')
    (hp : ∀ g, s'.policies.find? plan.request.policy = some g →
      g = plan.authority.policyGeneration) : TablesKept s₂ plan s' where
  members v hv r₂ hlook₂ := by
    obtain ⟨r, hlook, hgen, hrec, hhost⟩ := h.members v hv r₂ hlook₂
    obtain ⟨r', hlook', hgen', hrec'⟩ := hr v hv r hlook
    refine ⟨r', hlook', hgen'.trans hgen, hrec.trans hrec', ?_⟩
    intro n₂ hn₂
    obtain ⟨n, hlookn, hsame⟩ := hhost n₂ hn₂
    rw [← hrec.nodeId] at hlookn ⊢
    obtain ⟨n', hlookn', hsame'⟩ := hn v hv r hlook n hlookn
    exact ⟨n', hlookn', hsame.trans hsame'⟩
  policy := hp

/-- **One step keeps what the plan depends on**, as long as its composition is
pending. -/
theorem TablesKept.step {s₂ s : Engine D} {plan : CompositionPlan D} {op : Op D}
    (hop : op.isDiscover = false) (hkeep : KeepsRecord plan s op) (h : TablesKept s₂ plan s)
    {c' : Composition D} (hpend : Pending plan.id (s.step op) c') (hg : c'.graph = plan.graph)
    (ha : c'.authority = plan.authority)
    (hres : c'.lifecycle = .reserved → s.lifecycleOf plan.id = some .reserved) :
    TablesKept s₂ plan (s.step op) := by
  have htab := s.step_tables hop
  have hc' := hpend.1
  have hauth := hpend.authoritative
  generalize s.step op = s' at htab hc' hpend ⊢
  -- what a table that is left alone contributes
  have hrefl : ∀ v ∈ plan.graph.vertices, ∀ r, s.resources.lookup v = some r →
      ∃ r', s.resources.lookup v = some r' ∧ r'.generation = r.generation ∧ SameRecord r r' :=
    fun v _ r hr => ⟨r, hr, rfl, .refl r⟩
  have hhost : ∀ v ∈ plan.graph.vertices, ∀ r, s.resources.lookup v = some r →
      ∀ n, s.nodes.lookup r.nodeId = some n →
        ∃ n', s.nodes.lookup r.nodeId = some n' ∧ SameHost n n' :=
    fun v _ r _ n hn => ⟨n, hn, .refl n⟩
  cases htab with
  | same hr hn hp _ =>
    refine h.mono ?_ ?_ ?_
    · rw [hr]; exact hrefl
    · rw [hn]; exact hhost
    · rw [hp]; exact h.policy
  | node n₁ hop₁ hr hn hp _ hkept =>
    refine h.mono ?_ ?_ ?_
    · rw [hr]; exact hrefl
    · intro v hv r hlook n hlookn
      rw [hn, UMap.lookup_insert_eq_ite]
      by_cases hid : r.nodeId = n₁.id
      · -- the node of a member: a pending composition survives no other generation
        rw [hid] at hlookn
        have hgen := hkept plan.id c' hc' hauth n hlookn
        have hboot := hkeep.node n₁ hop₁ v hv r hlook hid n hlookn hgen
        exact ⟨n₁, if_pos hid, hgen.symm, hboot.symm⟩
      · exact ⟨n, by rw [if_neg hid, hlookn], .refl n⟩
    · rw [hp]; exact h.policy
  | resource r₁ hop₁ hr hn hp _ hkept =>
    refine h.mono ?_ ?_ ?_
    · intro v hv r hlook
      rw [hr, UMap.lookup_insert_eq_ite]
      by_cases hid : v = r₁.id
      · -- a member: a pending composition survives no other generation
        subst hid
        have hgen := hkept plan.id c' hc' hauth (hg ▸ hv) r hlook
        exact ⟨r₁, if_pos rfl, hgen.symm, hkeep.resource r₁ hop₁ hv r hlook hgen⟩
      · exact ⟨r, by rw [if_neg hid, hlook], rfl, .refl r⟩
    · rw [hn]; exact hhost
    · rw [hp]; exact h.policy
  | status f hf _ hr hn hp _ =>
    refine h.mono (fun v hv r hlook => ⟨f v r, ?_, ?_, (hf v r).sameRecord⟩) ?_ ?_
    · rw [hr, hlook, Option.map_some]
    · rw [hf v r]
    · rw [hn]; exact hhost
    · rw [hp]; exact h.policy
  | policy policy gen hop₁ hr hn hp _ hkept =>
    refine h.mono ?_ ?_ ?_
    · rw [hr]; exact hrefl
    · rw [hn]; exact hhost
    · intro g hg'
      rw [hp, OrdMap.find?_insert] at hg'
      split at hg'
      · next hpol =>
        cases hg'
        -- the sweep passes over a reserved composition; the condition covers it
        rcases hkept plan.id c' hc' hauth with hl | hgen
        · exact hkeep.policy (policy, gen) hop₁ hpol.symm (hres hl)
        · rw [← ha, hgen]
      · exact h.policy g hg'
  | loaded file d _ _ hs =>
    -- nothing is pending after a load
    rw [hs] at hpend
    rcases hpend.2 with hl | ⟨-, rid, v, hv, -⟩
    · have hlife := lifecycleOf_importState (lifecycleOf_eq_some.mpr ⟨c', hpend.1, hl⟩)
      exact absurd rfl hlife.1
    · exact absurd hv (by simp [importState])

/-- As long as the composition is pending, it is the one that was reserved, and what
it depends on is as it was then. -/
def Tracked (s₂ : Engine D) (plan : CompositionPlan D) (s : Engine D) : Prop :=
  ∀ c, Pending plan.id s c → c.graph = plan.graph ∧ c.authority = plan.authority ∧
    TablesKept s₂ plan s

/-- **One step keeps the composition tracked.** -/
theorem Tracked.step {s₂ s : Engine D} {plan : CompositionPlan D} {op : Op D}
    (hop : op.isDiscover = false) (hkeep : KeepsRecord plan s op) (h : Tracked s₂ plan s) :
    Tracked s₂ plan (s.step op) := by
  intro c' hpend
  obtain ⟨c, hc, hg, ha, hl⟩ := pending_step hkeep.reserves hpend
  obtain ⟨hcg, hca, hkept⟩ := h c hc
  have hg' : c'.graph = plan.graph := hg.trans hcg
  have ha' : c'.authority = plan.authority := ha.trans hca
  refine ⟨hg', ha', hkept.step hop hkeep hpend hg' ha' ?_⟩
  intro hres
  exact lifecycleOf_eq_some.mpr ⟨c, hc.1, hl hres⟩

omit [Double D] [DoubleBits D] in
/-- Along registered vertices, the recorded generations stand at the indices of their
vertices. -/
theorem recorded_generation {resources : UMap ResourceId (Resource D)} {vertices : List ResourceId}
    (h : ∀ v ∈ vertices, ∃ r, resources.lookup v = some r) {i : ℕ} {v : ResourceId}
    (hv : vertices[i]? = some v) {r : Resource D} (hr : resources.lookup v = some r) :
    ((vertices.filterMap resources.lookup).map Resource.generation)[i]? = some r.generation := by
  induction vertices generalizing i with
  | nil => simp at hv
  | cons w rest ih =>
    obtain ⟨r₁, hw⟩ := h w List.mem_cons_self
    rw [List.filterMap_cons_some (f := resources.lookup) hw, List.map_cons]
    -- the lists run in parallel, as no vertex is dropped
    cases i with
    | zero =>
      rw [List.getElem?_cons_zero, Option.some.injEq] at hv ⊢
      subst hv
      rw [hw, Option.some.injEq] at hr
      rw [hr]
    | succ i =>
      rw [List.getElem?_cons_succ] at hv ⊢
      exact ih (fun u hu => h u (List.mem_cons_of_mem w hu)) hv

/-- A composition is tracked from its `Reserve` on. -/
theorem tracked_reserve {s : Engine D} {plan : CompositionPlan D}
    (hok : (s.reserve plan).2.ok = true)
    (hpolicy : ∀ g, s.policies.find? plan.request.policy = some g →
      g = plan.authority.policyGeneration) : Tracked s plan (s.step (.reserve plan)) := by
  obtain ⟨held, items, -, hstored⟩ := reserve_ok hok
  intro c hpend
  change Pending plan.id (s.reserve plan).1 c at hpend
  change _ ∧ _ ∧ TablesKept s plan (s.reserve plan).1
  rw [hstored] at hpend ⊢
  -- the composition under the id is the new one
  have hc : c = s.newComposition plan := by
    have hlook := hpend.1
    change (s.compositions.insert _ _).lookup plan.id = _ at hlook
    rw [UMap.lookup_insert_eq_ite, if_pos rfl] at hlook
    exact (Option.some.inj hlook).symm
  subst hc
  exact ⟨rfl, rfl, .of_eq rfl rfl hpolicy⟩

theorem Tracked.run {s₂ s : Engine D} {plan : CompositionPlan D} {ops : List (Op D)}
    (h : Tracked s₂ plan s) (hkeep : Along (ThroughDiscover (KeepsRecord plan)) s ops) :
    Tracked s₂ plan (s.run ops) := by
  refine Machine.invariant_of_along h ?_ hkeep
  intro s op hs hop
  -- a write to the path table does not matter
  exact step_invariant (fun s paths hs => fun c hpend => by
      obtain ⟨hg, ha, hkept⟩ := hs c hpend
      exact ⟨hg, ha, hkept.members, hkept.policy⟩)
    (fun s op hd hs hC => hs.step hd hC) hs hop

/-- **Activation covers the authority tuple.** In every run, take a plan that `Compose`
returned, the last successful `Reserve` for it before a successful `Activate`, and
any operations in between. If what `Activate` does not look at was current at the
`Reserve`, and no later operation changes it under an unchanged generation, then all
that `Compose` recorded for the members is current at the `Activate`. -/
theorem activation_covers_authority (cfg : EngineConfig) (ops₀ ops₁ ops₂ : List (Op D))
    (req : CompositionRequest D) :
    let s₀ := (fresh cfg).run ops₀
    let plan := (s₀.compose req).2.payload
    let s₂ := (s₀.step (.compose req)).run ops₁
    let s₄ := (s₂.step (.reserve plan)).run ops₂
    (s₀.compose req).2.ok = true → (s₂.reserve plan).2.ok = true → RecordCurrent s₀ plan s₂ →
      Along (ThroughDiscover (KeepsRecord plan)) (s₂.step (.reserve plan)) ops₂ →
      (s₄.activate plan.id).2.ok = true → TupleCurrent s₀ plan s₄ := by
  intro s₀ plan s₂ s₄ hcompose hreserve hcurrent hkeep hact
  -- what the plan has recorded
  obtain ⟨hreg₀, paths, hauthority⟩ := compose_payload (resourcesKeyed_run cfg ops₀) hcompose
  -- the composition is tracked from `Reserve` on, up to the `Activate`
  obtain ⟨held, items, hm, -⟩ := reserve_ok hreserve
  have hend : Tracked s₂ plan s₄ :=
    (tracked_reserve hreserve fun g hg => hcurrent.policy g hg).run hkeep
  -- `Activate` has revalidated the generations of the members
  obtain ⟨comp, hcomp, hl, hval⟩ := activate_ok hact
  obtain ⟨hg, ha, hkept⟩ := hend comp ⟨hcomp, Or.inl hl⟩
  have hbound := bound_of_revalidationHolds hval
  refine ⟨?_, fun g hg' => (hkept.policy g hg').symm⟩
  intro v hv
  obtain ⟨r₀, hr₀⟩ := hreg₀ v hv
  obtain ⟨r₂, hr₂⟩ := reserveMembers_registered hm v hv
  obtain ⟨r, hr, hgen, hrec, hhost⟩ := hkept.members v hv r₂ hr₂
  obtain ⟨i, hi⟩ := List.mem_iff_getElem?.mp hv
  -- the generation at the index of the member is the one `Compose` has seen
  have hgen₀ : r.generation = r₀.generation := by
    obtain ⟨r', hr', hsame⟩ := hbound.members i v (by rw [hg]; exact hi)
    rw [hr] at hr'
    cases hr'
    refine hsame _ ?_
    rw [ha, hauthority]
    exact recorded_generation hreg₀ hi hr₀
  -- with the generation unchanged, the rest was current at the `Reserve`
  obtain ⟨hrec₀, hhost₀⟩ := hcurrent.members v hv r₀ hr₀ r₂ hr₂ (by rw [← hgen, hgen₀])
  refine ⟨r₀, r, hr₀, hr, hgen₀, hrec₀.trans hrec, ?_⟩
  intro n₀ hn₀
  obtain ⟨n₂, hn₂, hsame₂⟩ := hhost₀ n₀ hn₀
  rw [← hrec₀.nodeId] at hn₂
  obtain ⟨n, hn, hsame⟩ := hhost n₂ hn₂
  refine ⟨n, ?_, hsame₂.trans hsame⟩
  rw [hrec.nodeId]
  exact hn

/-! ### A node that restarts -/

/-- The host of the sample resource, in some generation. -/
def sampleNode (generation : NodeGeneration) : Node ℚ :=
  { (default : Node ℚ) with
    id := ⟨1⟩
    generation := generation
    workerBoot := ⟨generation.value⟩ }

/-- The sample engine with the host registered too. -/
def hostedOps : List (Op ℚ) := .registerNode (sampleNode ⟨1⟩) :: sampleOps

/-- The host is published once more while the composition is reserved; what was
recorded is current when the composition is activated. -/
theorem sample_activation_covers_authority :
    let s₀ := (fresh sampleConfig).run hostedOps
    let plan := (s₀.compose (sampleRequest 32)).2.payload
    let s₂ := s₀.step (.compose (sampleRequest 32))
    TupleCurrent s₀ plan ((s₂.step (.reserve plan)).run
      [.onNodeUpdate (sampleNode ⟨1⟩), .commit (sampleReservation ⟨1⟩)]) :=
  activation_covers_authority sampleConfig hostedOps []
    [.onNodeUpdate (sampleNode ⟨1⟩), .commit (sampleReservation ⟨1⟩)] (sampleRequest 32)
    (by decide +kernel) (by decide +kernel) (by decide +kernel) (by decide +kernel)
    (by decide +kernel)

/-- **A node that restarts before `Reserve` goes unnoticed.** The host of the one member
comes back with another generation and another boot between `Compose` and `Reserve`;
the plan can still be reserved, committed and activated. -/
theorem node_restart_before_reserve :
    ¬ ∀ (cfg : EngineConfig) (ops₀ ops₁ ops₂ : List (Op ℚ)) (req : CompositionRequest ℚ),
      let s₀ := (fresh cfg).run ops₀
      let plan := (s₀.compose req).2.payload
      let s₂ := (s₀.step (.compose req)).run ops₁
      let s₄ := (s₂.step (.reserve plan)).run ops₂
      (s₀.compose req).2.ok = true → (s₂.reserve plan).2.ok = true →
        (s₄.activate plan.id).2.ok = true → TupleCurrent s₀ plan s₄ := by
  intro h
  have hcur := h sampleConfig hostedOps [.onNodeUpdate (sampleNode ⟨2⟩)]
    [.commit (sampleReservation ⟨1⟩)] (sampleRequest 32) (by decide +kernel) (by decide +kernel)
    (by decide +kernel)
  generalize hs₀ : (fresh sampleConfig).run hostedOps = s₀ at hcur
  generalize hplan : (s₀.compose (sampleRequest 32)).2.payload = plan at hcur
  generalize hs₄ : (((s₀.step (.compose (sampleRequest 32))).run
    [.onNodeUpdate (sampleNode ⟨2⟩)]).step (.reserve plan)).run
    [.commit (sampleReservation ⟨1⟩)] = s₄ at hcur
  have hmem : (⟨1⟩ : ResourceId) ∈ plan.graph.vertices := by
    rw [← hplan, ← hs₀]; decide +kernel
  obtain ⟨r₀, r, hr₀, hr, -, -, hhost⟩ := hcur.members ⟨1⟩ hmem
  have hon : ∀ r ∈ s₀.resources.values, r.nodeId = ⟨1⟩ := by rw [← hs₀]; decide +kernel
  have hon₄ : ∀ r ∈ s₄.resources.values, r.nodeId = ⟨1⟩ := by
    rw [← hs₄, ← hplan, ← hs₀]; decide +kernel
  rw [hon r₀ (UMap.mem_values_of_lookup hr₀), hon₄ r (UMap.mem_values_of_lookup hr)] at hhost
  obtain ⟨n₀, hn₀⟩ : ∃ n, s₀.nodes.lookup ⟨1⟩ = some n :=
    Option.isSome_iff_exists.mp (by rw [← hs₀]; decide +kernel)
  obtain ⟨n, hn, hsame⟩ := hhost n₀ hn₀
  have hgen₀ : ∀ n ∈ s₀.nodes.values, n.generation = ⟨1⟩ := by rw [← hs₀]; decide +kernel
  have hgen₄ : ∀ n ∈ s₄.nodes.values, n.generation = ⟨2⟩ := by
    rw [← hs₄, ← hplan, ← hs₀]; decide +kernel
  -- the generation of the node is another one at the end
  have hcontra := hsame.generation
  rw [hgen₀ n₀ (UMap.mem_values_of_lookup hn₀), hgen₄ n (UMap.mem_values_of_lookup hn)] at hcontra
  cases hcontra

end Engine

end DFabric
