import DisaggregationFabric.Engine.Tables
import DisaggregationFabric.Safety.Authority

/-!
# What active compositions are bound to

**Epoch and generations.** An active composition is bound to the current epoch and
to the current generations of its members (`active_bound`), in every run and under
every argument. `Activate` establishes it through `RevalidationHolds`, and whatever
changes the epoch, a generation or the resource table demotes the active
compositions it concerns.

**Eligible members.** That every member of an active composition would still be
eligible is kept by most events, but not by all: `InvalidateNode` demotes nothing
(`invalidateNode_keeps_active`), a re-publication is only looked at for its
generation, and `Activate` checks less than eligibility. Where none of these is
used against a member, all members stay eligible (`active_members_eligible`).
-/

namespace DFabric

variable {D : Type}

/-- What the member loop of `RevalidationHolds` has checked: every vertex is
registered, with current evidence and with the generation recorded at its index. -/
theorem revalidateMembers_ok {resources : UMap ResourceId (Resource D)}
    {vertices : List ResourceId} {generations : List ResourceGeneration}
    (h : revalidateMembers resources vertices generations = .ok ()) {i : ℕ} {v : ResourceId}
    (hv : vertices[i]? = some v) :
    ∃ r, resources.lookup v = some r ∧ r.evidence.isCurrent = true ∧
      ∀ g, generations[i]? = some g → r.generation = g := by
  -- along both lists at once: index `i` of the rest is index `i + 1` of the whole
  induction vertices generalizing generations i with
  | nil => simp at hv
  | cons rid rest ih =>
    unfold revalidateMembers at h
    split at h
    · cases h
    · next r hr =>
      split at h
      · cases h
      · split at h
        · cases h
        · next hgen =>
          split at h
          · cases h
          · next hcurrent =>
            cases i with
            | zero =>
              -- the head of the list is the generation at index zero
              rw [List.getElem?_cons_zero, Option.some.injEq] at hv
              subst hv
              refine ⟨r, hr, by simpa using hcurrent, ?_⟩
              intro g hg
              rw [← List.head?_eq_getElem?] at hg
              have hsame : g = r.generation := by simpa [hg] using hgen
              exact hsame.symm
            | succ i =>
              rw [List.getElem?_cons_succ] at hv
              obtain ⟨r', hr', hcurrent', hg'⟩ := ih h hv
              refine ⟨r', hr', hcurrent', fun g hg => hg' g ?_⟩
              rw [List.getElem?_tail]
              exact hg

namespace Engine

/-! ### Epoch and generations -/

/-- The composition is bound to the epoch and to the generations of its members. -/
structure Bound (s : Engine D) (c : Composition D) : Prop where
  epoch : c.authority.coordinatorEpoch = s.epoch
  /-- Every vertex is registered, with the generation recorded at its index. -/
  members : ∀ (i : ℕ) v, c.graph.vertices[i]? = some v → ∃ r, s.resources.lookup v = some r ∧
    ∀ g, c.authority.resourceGenerations[i]? = some g → r.generation = g

/-- Every active composition is bound. -/
def ActiveBound (s : Engine D) : Prop :=
  ∀ id c, s.compositions.lookup id = some c → c.lifecycle = .active → s.Bound c

/-- A composition stays bound as long as the epoch and the generations of its members
stay. -/
theorem Bound.mono {s s' : Engine D} {c c' : Composition D} (h : s.Bound c)
    (hg : c'.graph = c.graph) (ha : c'.authority = c.authority) (he : s'.epoch = s.epoch)
    (hr : ∀ v ∈ c'.graph.vertices, ∀ r, s.resources.lookup v = some r →
      ∃ r', s'.resources.lookup v = some r' ∧ r'.generation = r.generation) : s'.Bound c' := by
  refine ⟨by rw [ha, he, h.epoch], ?_⟩
  intro i v hv
  have hmem : v ∈ c'.graph.vertices := List.mem_of_getElem? hv
  rw [hg] at hv
  obtain ⟨r, hlook, hgen⟩ := h.members i v hv
  obtain ⟨r', hlook', hsame⟩ := hr v hmem r hlook
  refine ⟨r', hlook', ?_⟩
  intro g hg'
  rw [ha] at hg'
  rw [hsame, hgen g hg']

variable [Double D] [DoubleBits D]

omit [Double D] [DoubleBits D] in
/-- A revalidated composition is bound. -/
theorem bound_of_revalidationHolds {s : Engine D} {c : Composition D}
    (h : revalidationHolds c s.resources s.epoch = .ok ()) : s.Bound c := by
  unfold revalidationHolds at h
  split at h
  · cases h
  · next he =>
    refine ⟨not_not.mp he, ?_⟩
    intro i v hv
    obtain ⟨r, hr, -, hgen⟩ := revalidateMembers_ok h hv
    exact ⟨r, hr, hgen⟩

omit [Double D] [DoubleBits D] in
/-- The members of a revalidated composition have current evidence. -/
theorem current_of_revalidationHolds {s : Engine D} {c : Composition D}
    (h : revalidationHolds c s.resources s.epoch = .ok ()) {v : ResourceId}
    (hv : v ∈ c.graph.vertices) :
    ∃ r, s.resources.lookup v = some r ∧ r.evidence.isCurrent = true := by
  unfold revalidationHolds at h
  split at h
  · cases h
  · obtain ⟨i, hi⟩ := List.mem_iff_getElem?.mp hv
    obtain ⟨r, hr, hcurrent, -⟩ := revalidateMembers_ok h hi
    exact ⟨r, hr, hcurrent⟩

/-- **One step keeps active compositions bound.** -/
theorem ActiveBound.step {s : Engine D} (h : s.ActiveBound) {op : Op D}
    (hop : op.isDiscover = false) : (s.step op).ActiveBound := by
  intro id c' hc' hl
  have htab := s.step_tables hop
  rcases active_step hc' hl with ⟨c, -, -, -, -, hv, rfl, hr, he⟩ | ⟨c, hc, hcl, hg, ha, -⟩
  · -- activated by this step: the revalidation has just succeeded
    refine (bound_of_revalidationHolds hv).mono rfl rfl he fun v _ r hlook => ⟨r, ?_, rfl⟩
    rw [hr, hlook]
  · -- active before: bound then, and only what concerns no member has changed
    have hbound := h id c hc hcl
    cases htab with
    | same hr hn hp he =>
      refine hbound.mono hg ha he fun v _ r hlook => ⟨r, ?_, rfl⟩
      rw [hr, hlook]
    | node n _ hr _ _ he _ =>
      refine hbound.mono hg ha he fun v _ r hlook => ⟨r, ?_, rfl⟩
      rw [hr, hlook]
    | resource r₁ _ hr _ _ he hkept =>
      refine hbound.mono hg ha he ?_
      intro v hmem r hlook
      rw [hr, UMap.lookup_insert_eq_ite]
      by_cases hv : v = r₁.id
      · -- the member itself was published, with the generation it had
        subst hv
        have hsame := hkept id c' hc' (Or.inr (Or.inr hl)) hmem r hlook
        exact ⟨r₁, if_pos rfl, hsame.symm⟩
      · exact ⟨r, by rw [if_neg hv, hlook], rfl⟩
    | status f hf _ hr _ _ hkept =>
      -- a change of status keeps the generation, and the epoch is not advanced
      obtain ⟨he, -⟩ := hkept id c' hc' hl
      refine hbound.mono hg ha he fun v _ r hlook => ⟨f v r, ?_, ?_⟩
      · rw [hr, hlook, Option.map_some]
      · rw [hf v r]
    | policy policy gen _ hr _ _ he _ =>
      refine hbound.mono hg ha he fun v _ r hlook => ⟨r, ?_, rfl⟩
      rw [hr, hlook]
    | loaded file d _ _ hs =>
      rw [hs] at hc'
      have hlife := lifecycleOf_importState (lifecycleOf_eq_some.mpr ⟨c', hc', hl⟩)
      exact absurd rfl hlife.2

/-- The active compositions of every run are bound. -/
theorem activeBound_run (cfg : EngineConfig) (ops : List (Op D)) :
    ((fresh cfg : Engine D).run ops).ActiveBound := by
  refine Machine.invariant_run ?_ ?_
  · intro id c hc
    simp [fresh] at hc
  · intro s op hs
    refine step_invariant (C := fun _ _ => True) (fun s paths hs => ?_)
      (fun s op hop hs _ => hs.step hop) hs ⟨fun _ => ?_, fun _ => trivial⟩
    · intro id c hc hl
      exact ⟨(hs id c hc hl).epoch, (hs id c hc hl).members⟩
    · exact Machine.along_of_forall (fun _ _ => trivial) _ _

/-- **Active means bound to the current epoch and generations.** In every state that
operations with arbitrary arguments reach, every active composition carries the
current epoch, all its vertices are registered, and each has the generation recorded
at its index, where one is recorded. -/
theorem active_bound (cfg : EngineConfig) (ops : List (Op D)) :
    let s := (fresh cfg).run ops
    ∀ id c, s.compositions.lookup id = some c → c.lifecycle = .active →
      c.authority.coordinatorEpoch = s.epoch ∧
        ∀ (i : ℕ) v, c.graph.vertices[i]? = some v → ∃ r, s.resources.lookup v = some r ∧
          ∀ g, c.authority.resourceGenerations[i]? = some g → r.generation = g := by
  intro s id c hc hl
  have hbound := activeBound_run cfg ops id c hc hl
  exact ⟨hbound.epoch, hbound.members⟩

/-! ### Eligible members -/

/-- Every member of every active composition is registered and eligible. -/
def ActiveEligible (s : Engine D) : Prop :=
  ∀ id c, s.compositions.lookup id = some c → c.lifecycle = .active →
    ∀ v ∈ c.graph.vertices, ∃ r, s.resources.lookup v = some r ∧ Eligible r c.request

/-- The resource whose evidence an operation invalidates without looking at the
compositions. -/
def invalidated? : Op D → Option ResourceId
  | .invalidateNode rid => some rid
  | _ => none

/-- The composition an operation is to activate. -/
def activates? : Op D → Option CompositionId
  | .activate id => some id
  | _ => none

/-- The operation is not one of those that leave or make a composition active with a
member that is not eligible. -/
structure KeepsEligible (s : Engine D) (op : Op D) : Prop where
  /-- A member of an active composition that is published again with its generation is
  published as eligible. -/
  published : ∀ r ∈ op.resource?, ∀ c ∈ s.compositions.values, c.lifecycle = .active →
    r.id ∈ c.graph.vertices →
    ∀ old ∈ s.resources.lookup r.id, old.generation = r.generation → Eligible r c.request
  /-- No member of an active composition is invalidated. -/
  invalidated : ∀ rid ∈ invalidated? op, ∀ c ∈ s.compositions.values, c.lifecycle = .active →
    rid ∉ c.graph.vertices
  /-- What `Activate` lets pass has eligible members. -/
  activated : ∀ id ∈ activates? op, ∀ c ∈ s.compositions.lookup id, c.lifecycle = .committed →
    (revalidationHolds c s.resources s.epoch).isOk = true →
    ∀ v ∈ c.graph.vertices, ∀ r ∈ s.resources.lookup v, Eligible r c.request

instance (s : Engine D) (op : Op D) : Decidable (KeepsEligible s op) :=
  decidable_of_iff
    ((∀ r ∈ op.resource?, ∀ c ∈ s.compositions.values, c.lifecycle = .active →
        r.id ∈ c.graph.vertices →
        ∀ old ∈ s.resources.lookup r.id, old.generation = r.generation → Eligible r c.request) ∧
      (∀ rid ∈ invalidated? op, ∀ c ∈ s.compositions.values, c.lifecycle = .active →
        rid ∉ c.graph.vertices) ∧
      ∀ id ∈ activates? op, ∀ c ∈ s.compositions.lookup id, c.lifecycle = .committed →
        (revalidationHolds c s.resources s.epoch).isOk = true →
        ∀ v ∈ c.graph.vertices, ∀ r ∈ s.resources.lookup v, Eligible r c.request)
    ⟨fun h => ⟨h.1, h.2.1, h.2.2⟩, fun h => ⟨h.published, h.invalidated, h.activated⟩⟩

/-- **One step keeps the members of active compositions eligible.** -/
theorem ActiveEligible.step {s : Engine D} (h : s.ActiveEligible) {op : Op D}
    (hop : op.isDiscover = false) (hkeep : KeepsEligible s op) : (s.step op).ActiveEligible := by
  intro id c' hc' hl v hv
  have htab := s.step_tables hop
  rcases active_step hc' hl with ⟨c, rfl, hc, hcl, -, hval, rfl, hr, -⟩ | ⟨c, hc, hcl, hg, -, hq⟩
  · -- activated by this step: registered by the revalidation, eligible by the condition
    obtain ⟨i, hi⟩ := List.mem_iff_getElem?.mp hv
    obtain ⟨r, hlook, -⟩ := (bound_of_revalidationHolds hval).members i v hi
    refine ⟨r, by rw [hr, hlook], ?_⟩
    exact hkeep.activated id rfl c hc hcl (by rw [hval]; rfl) v hv r hlook
  · have hvc : v ∈ c.graph.vertices := hg ▸ hv
    obtain ⟨r, hlook, helig⟩ := h id c hc hcl v hvc
    have hmem := UMap.mem_values_of_lookup hc
    rw [hq]
    cases htab with
    | same hr _ _ _ => exact ⟨r, by rw [hr, hlook], helig⟩
    | node n _ hr _ _ _ _ => exact ⟨r, by rw [hr, hlook], helig⟩
    | resource r₁ hop₁ hr _ _ _ hkept =>
      by_cases hid : v = r₁.id
      · -- the member itself was published, with the generation it had
        subst hid
        have hsame := hkept id c' hc' (Or.inr (Or.inr hl)) hv r hlook
        refine ⟨r₁, by rw [hr, UMap.lookup_insert_eq_ite, if_pos rfl], ?_⟩
        exact hkeep.published r₁ hop₁ c hmem hcl hvc r hlook hsame
      · exact ⟨r, by rw [hr, UMap.lookup_insert_eq_ite, if_neg hid, hlook], helig⟩
    | status f hf _ hr _ _ hkept =>
      -- a member whose status changed has demoted the composition, or was invalidated
      obtain ⟨-, hsame⟩ := hkept id c' hc' hl
      rcases hsame v hv with rfl | hsame
      · exact absurd hvc (hkeep.invalidated v rfl c hmem hcl)
      · refine ⟨r, ?_, helig⟩
        rw [hr, hlook, Option.map_some, hsame r hlook]
    | policy policy gen _ hr _ _ _ _ => exact ⟨r, by rw [hr, hlook], helig⟩
    | loaded file d _ _ hs =>
      rw [hs] at hc'
      have hlife := lifecycleOf_importState (lifecycleOf_eq_some.mpr ⟨c', hc', hl⟩)
      exact absurd rfl hlife.2

/-- **Active compositions have live members** in every run whose operations, and
whose discoveries publication by publication, are not among those that leave or make
a composition active with a member that is not eligible. -/
theorem active_members_eligible (cfg : EngineConfig) (ops : List (Op D))
    (hkeep : Along (ThroughDiscover KeepsEligible) (fresh cfg) ops) :
    let s := (fresh cfg).run ops
    ∀ id c, s.compositions.lookup id = some c → c.lifecycle = .active →
      ∀ v ∈ c.graph.vertices, ∃ r, s.resources.lookup v = some r ∧ Eligible r c.request := by
  refine Machine.invariant_of_along (I := ActiveEligible) ?_ ?_ hkeep
  · intro id c hc
    simp [fresh] at hc
  · intro s op hs hop
    exact step_invariant (fun _ _ hs => hs) (fun s op hd hs hC => hs.step hd hC) hs hop

/-- The sample engine withdraws another resource while its composition is active. -/
theorem sample_active_members_eligible :
    let s := (fresh sampleConfig).run (sampleOps ++ sampleTransaction ++ [.withdrawResource ⟨2⟩])
    ∃ c, s.compositions.lookup ⟨1⟩ = some c ∧ c.lifecycle = .active ∧
      ∀ v ∈ c.graph.vertices, ∃ r, s.resources.lookup v = some r ∧ Eligible r c.request := by
  intro s
  obtain ⟨c, hc, hl⟩ : ∃ c, s.compositions.lookup ⟨1⟩ = some c ∧ c.lifecycle = .active :=
    lifecycleOf_eq_some.mp (by decide +kernel)
  exact ⟨c, hc, hl, active_members_eligible sampleConfig _ (by decide +kernel) ⟨1⟩ c hc hl⟩

/-- **Invalidated evidence leaves a composition active.** The one member of the sample
composition is invalidated; the composition stays active, and the member would not
be eligible for it. -/
theorem invalidateNode_keeps_active :
    ¬ ∀ (cfg : EngineConfig) (ops : List (Op ℚ)) (id : CompositionId) (c : Composition ℚ),
      ((fresh cfg).run ops).compositions.lookup id = some c → c.lifecycle = .active →
      ∀ v ∈ c.graph.vertices, ∃ r, ((fresh cfg).run ops).resources.lookup v = some r ∧
        Eligible r c.request := by
  intro h
  have hops := h sampleConfig (sampleOps ++ sampleTransaction ++ [.invalidateNode ⟨1⟩]) ⟨1⟩
  generalize hs : (fresh sampleConfig).run
    (sampleOps ++ sampleTransaction ++ [.invalidateNode ⟨1⟩]) = s at hops
  have hl : s.lifecycleOf ⟨1⟩ = some .active := by rw [← hs]; decide +kernel
  obtain ⟨c, hc, hl⟩ := lifecycleOf_eq_some.mp hl
  -- its only member is stale, and it is active
  have hmember : ∀ c ∈ s.compositions.values, (⟨1⟩ : ResourceId) ∈ c.graph.vertices := by
    rw [← hs]; decide +kernel
  have hstale : ∀ r ∈ s.resources.values, r.evidence.isCurrent = false := by
    rw [← hs]; decide +kernel
  obtain ⟨r, hr, helig⟩ := hops c hc hl ⟨1⟩ (hmember c (UMap.mem_values_of_lookup hc))
  have hcurrent := helig.valid_and_current.2
  rw [hstale r (UMap.mem_values_of_lookup hr)] at hcurrent
  cases hcurrent

end Engine

end DFabric
