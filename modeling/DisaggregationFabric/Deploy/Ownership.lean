import DisaggregationFabric.Deploy.Exchange

/-!
# The resources of a worker in the registry

What a worker has published is in the registry as long as its connection is open, exactly as the
worker has stamped it, and eligible; when the thread of the connection has ended, none of it has
current evidence, and no composition that it is a member of is active (`owned_while_connected`).

Two things could disturb this, and the coordinator prevents neither: another connection may
publish a resource of the same id, and it may end under the same boot (`Undisturbed`).
-/

namespace DFabric

namespace Deploy

open Wire Proto

variable {D : Type} [Double D] [DoubleBits D]

/-! ### The resources that workers publish -/

omit [DoubleBits D] in
theorem nodup_discoverResources :
    ((SyntheticBackend.discoverResources : List (Resource D)).map (·.id)).Nodup :=
  of_decide_eq_true rfl

omit [DoubleBits D] in
theorem valid_discoverResources :
    ∀ r ∈ (SyntheticBackend.discoverResources : List (Resource D)), r.id.isValid = true :=
  of_decide_eq_true rfl

omit [DoubleBits D] in
/-- What is expected of a worker is the stamped topology. -/
theorem exists_of_mem_expected {boot : UInt64} {ids : List NodeId} {r : Resource D}
    (hr : .resource r ∈ expected D boot ids) : boot ≠ 0 ∧
      ∃ r₀ ∈ (SyntheticBackend.discoverResources : List (Resource D)), r = stampResource boot r₀ := by
  unfold expected at hr
  split at hr
  · cases hr
  · next hboot =>
    refine ⟨hboot, ?_⟩
    obtain ⟨d, hd, heq⟩ := List.mem_map.mp hr
    obtain ⟨nid, -, hd⟩ := List.mem_flatMap.mp hd
    -- a resource of the inventory is one that the backend discovers
    rcases List.mem_append.mp hd with hd | hd
    · obtain ⟨n, -, rfl⟩ := List.mem_map.mp hd
      cases heq
    · obtain ⟨r₀, hr₀, rfl⟩ := List.mem_map.mp hd
      cases heq
      exact ⟨r₀, (List.mem_filter.mp hr₀).1, rfl⟩

omit [DoubleBits D] in
/-- A worker publishes one record for an id. -/
theorem eq_of_mem_expected {boot : UInt64} {ids : List NodeId} {r r' : Resource D}
    (hr : .resource r ∈ expected D boot ids) (hr' : .resource r' ∈ expected D boot ids)
    (hid : r.id = r'.id) : r = r' := by
  obtain ⟨-, r₀, hr₀, rfl⟩ := exists_of_mem_expected hr
  obtain ⟨-, r₁, hr₁, rfl⟩ := exists_of_mem_expected hr'
  have heq : r₀ = r₁ := List.inj_on_of_nodup_map nodup_discoverResources hr₀ hr₁ hid
  rw [heq]

omit [Double D] [DoubleBits D] in
/-- A stamped resource carries the boot of its worker and no other. -/
theorem ownedBy_stampResource (boot boot' : UInt64) (r : Resource D) :
    Engine.ownedBy ⟨boot'⟩ (stampResource boot r) = true ↔ boot' = boot := by
  -- the provenance has a hyphen, so it is no decimal
  have hprovenance : str "worker-" ++ toDecimal boot ≠ toDecimal boot' := by
    intro h
    have hmem : (45 : UInt8) ∈ str "worker-" ++ toDecimal boot :=
      List.mem_append_left _ (by decide +kernel)
    rw [h] at hmem
    exact notMem_toDecimal (by decide) boot' hmem
  show (decide (toDecimal boot = toDecimal boot') ||
    decide (str "worker-" ++ toDecimal boot = toDecimal boot')) = true ↔ _
  rw [decide_eq_false hprovenance, Bool.or_false, decide_eq_true_iff,
    toDecimal_injective.eq_iff, eq_comm]

omit [DoubleBits D] in
/-- A stamped resource of the topology is eligible for a request that names no architecture. -/
theorem eligible_stampResource {boot : UInt64} {r : Resource D}
    (hr : r ∈ (SyntheticBackend.discoverResources : List (Resource D)))
    {req : CompositionRequest D} (hreq : req.acceleratorArchitectures = []) :
    (resourceEligible (stampResource boot r) req).isOk = true := by
  have hid : (stampResource boot r).id.isValid = true := valid_discoverResources r hr
  have hcurrent : (stampResource boot r).evidence.isCurrent = true := rfl
  -- the topology claims nothing but what is supported
  have hsupported : ∀ r ∈ (SyntheticBackend.discoverResources : List (Resource D)),
      ∀ c ∈ r.capabilities, c.state = .supported := of_decide_eq_true rfl
  have hclaims : ((classCapabilityKinds (stampResource boot r).resourceClass).filterMap
      (findCapability (stampResource boot r))).any (fun c => c.state = .unknown) = false := by
    rw [List.any_eq_false]
    intro c hc
    obtain ⟨kind, -, hfind⟩ := List.mem_filterMap.mp hc
    have hmem : c ∈ r.capabilities := List.mem_of_find?_eq_some hfind
    rw [hsupported r hr c hmem]
    decide
  have hhealth : (stampResource boot r).health = .healthy := rfl
  have hready : (stampResource boot r).readiness = .ready := rfl
  have hreachable : (stampResource boot r).reachability = .reachable := rfl
  unfold resourceEligible
  simp only [hid, hcurrent, hclaims, hreq, hhealth, hready, hreachable, Bool.not_true, Bool.and_false,
    Bool.false_and, Bool.false_eq_true, if_false, ne_eq, not_true, and_false, or_self, reduceCtorEq,
    List.isEmpty_nil]
  rfl

/-! ### The registry -/

omit [Double D] [DoubleBits D] in
/-- The end of another worker does not touch what it does not own. -/
theorem lookup_markEvidence_of_not_owned {s : Engine D} {boot : WorkerBootId} {v : ResourceId}
    {r : Resource D} (hr : s.resources.lookup v = some r) (hown : Engine.ownedBy boot r = false) :
    (s.markEvidenceRevalidationRequired boot).resources.lookup v = some r := by
  show (UMap.mapVals _ s.resources).lookup v = some r
  rw [UMap.lookup_mapVals, hr, Option.map_some, if_neg (by rw [hown]; decide)]

omit [Double D] [DoubleBits D] in
/-- Nodes have a table of their own. -/
theorem resources_registerNode (s : Engine D) (n : Node D) :
    (s.registerNode n).1.resources = s.resources := by
  unfold Engine.registerNode
  obtain ⟨nodes, compositions, heq⟩ := s.ingestNode_eq n
  rw [heq]
  split <;> rfl

/-- The engine has what the worker has published. -/
def Held (s : Engine D) (published : List (Descriptor D)) : Prop :=
  ∀ r, .resource r ∈ published → s.resources.lookup r.id = some r

/-- What the worker has published is known to the engine, but without life. -/
def Buried (s : Engine D) (published : List (Descriptor D)) : Prop :=
  ∀ r, .resource r ∈ published →
    (∃ r', s.resources.lookup r.id = some r') ∧ Lifeless s r.id

section Move

variable {s : Coordinator D} {input : Input} {published : List (Descriptor D)}

/-- An input registers nothing that the worker has published. -/
def SparesIds (s : Coordinator D) (input : Input) (published : List (Descriptor D)) : Prop :=
  ∀ p, s.registers input = some p → ∀ r, .resource r ∈ published → p.resource.id ≠ r.id

/-- What is held stays, when it is neither registered again nor its worker buried. -/
theorem Held.move (h : Held s.engine published) (hids : SparesIds s input published)
    (hends : ∀ j c b, s.ends input = some (j, c) → c.dying = some b →
      ∀ r, .resource r ∈ published → Engine.ownedBy ⟨b⟩ r = false) :
    Held (s.step input).engine published := by
  intro r hr
  have hlook := h r hr
  -- another resource is registered, another boot dies, or the table stays
  cases Deploy.move s input with
  | registers p hp _ _ _ hresources =>
    have hne : r.id ≠ p.resource.id := fun heq => hids p hp r hr heq.symm
    rw [hresources, UMap.lookup_insert_eq_ite, if_neg hne]
    exact hlook
  | buries j c b _ he hdying hengine =>
    rw [hengine]
    exact lookup_markEvidence_of_not_owned hlook (hends j c b he hdying r hr)
  | closes j c _ _ _ hengine =>
    rw [hengine]
    exact hlook
  | other _ _ _ hresources =>
    rw [hresources]
    exact hlook

/-- What is buried stays so, unless it is registered again. -/
theorem Buried.move (h : Buried s.engine published) (hids : SparesIds s input published) :
    Buried (s.step input).engine published := by
  intro r hr
  obtain ⟨⟨r₀, hlook⟩, hlife⟩ := h r hr
  cases Deploy.move s input with
  | registers p hp _ _ hengine hresources =>
    have hne : r.id ≠ p.resource.id := fun heq => hids p hp r hr heq.symm
    have hsame : (s.step input).engine.resources.lookup r.id = some r₀ := by
      rw [hresources, UMap.lookup_insert_eq_ite, if_neg hne]
      exact hlook
    refine ⟨⟨r₀, hsame⟩, ?_⟩
    rw [hengine] at hsame ⊢
    refine hlife.step ?_
    intro r' hr'
    rw [hsame] at hr'
    cases hr'
    exact hlife.evidence r₀ hlook
  | buries j c b _ _ _ hengine =>
    obtain ⟨r', hr', -⟩ := exists_lookup_markEvidence ⟨b⟩ hlook
    rw [hengine]
    refine ⟨⟨r', hr'⟩, ?_⟩
    refine hlife.step ?_
    intro r'' hr''
    obtain ⟨r₁, hr₁, -, rfl | hdead, -⟩ := lookup_markEvidence hr''
    · exact hlife.evidence r'' hr₁
    · exact hdead
  | closes j c _ _ _ hengine =>
    rw [hengine]
    exact ⟨⟨r₀, hlook⟩, hlife⟩
  | other _ _ hengine hresources =>
    refine ⟨⟨r₀, by rw [hresources]; exact hlook⟩, ?_⟩
    rcases hengine with heq | ⟨op, heq⟩
    · rw [heq]
      exact hlife
    · rw [heq] at hresources ⊢
      -- an operation that leaves the resources revives nothing
      refine hlife.step ?_
      intro r' hr'
      rw [hresources] at hr'
      exact hlife.evidence r' hr'

end Move

/-! ### A worker's thread knows its boot -/

theorem after_of_not_hello {c : Session} {f : Frame} (h : OfWorker f) (hne : f.type ≠ .hello) :
    c.after f = c := by
  rcases h with h | h | h | h
  · exact absurd h hne
  all_goals
    unfold Session.after
    rw [h]

/-- What a worker says behind its `HELLO`. -/
def behindHello (D : Type) [Double D] [DoubleBits D] (boot : UInt64) (ids : List NodeId) :
    List Frame :=
  (if ids.length ≤ 511 then [Reply.frame ⟨.register, 2, Write.ids ids⟩] else []) ++
    echoes boot 100 (inventory D (announced ids))

theorem said_eq_cons [LawfulDoubleBits D] (boot : UInt64) (ids : List NodeId) :
    (course D boot ids).said =
      Reply.frame ⟨.hello, 1, [.u64 boot]⟩ :: behindHello D boot ids := by
  show (registration D boot ids).opening ++ _ = _
  rw [opening_eq, List.cons_append]
  rfl

/-- No second boot is announced. -/
theorem type_ne_of_mem_behindHello {boot : UInt64} {ids : List NodeId} {f : Frame}
    (hf : f ∈ behindHello D boot ids) : f.type ≠ .hello := by
  rcases List.mem_append.mp hf with hf | hf
  · split at hf
    · rw [List.mem_singleton.mp hf]
      show FrameType.register ≠ .hello
      decide
    · cases hf
  · obtain ⟨d, -, corr, rfl⟩ := exists_of_mem_echoes boot hf
    cases d with
    | node n =>
      show FrameType.publishNode ≠ .hello
      decide
    | resource r =>
      show FrameType.publishResource ≠ .hello
      decide

theorem run_after_of_not_hello {c : Session} {frames : List Frame}
    (h : ∀ f ∈ frames, OfWorker f ∧ f.type ≠ .hello) :
    Machine.run Session.after c frames = c := by
  induction frames with
  | nil => rfl
  | cons f frames ih =>
    obtain ⟨hf, hrest⟩ := List.forall_mem_cons.mp h
    rw [Machine.run_cons, after_of_not_hello hf.1 hf.2]
    exact ih hrest

/-- Once the first frame of a worker is handled, its thread has the worker's boot. -/
theorem session_of_handled [LawfulDoubleBits D] {boot : UInt64} {ids : List NodeId}
    {handled : List Frame} (hle : handled <+: (course D boot ids).said) (hne : handled ≠ []) :
    Machine.run Session.after default handled = ⟨boot, boot ≠ 0, false⟩ := by
  rcases handled with _ | ⟨f, rest⟩
  · exact absurd rfl hne
  have hof : ∀ g ∈ rest, OfWorker g := fun g hg =>
    ofWorker_of_mem_said (hle.subset (List.mem_cons_of_mem f hg))
  rw [said_eq_cons, List.cons_prefix_cons] at hle
  obtain ⟨rfl, hrest⟩ := hle
  rw [Machine.run_cons, after_hello]
  exact run_after_of_not_hello fun g hg =>
    ⟨hof g hg, type_ne_of_mem_behindHello (hrest.subset hg)⟩

/-! ### The registry along a run -/

namespace Exchange

variable {i : ℕ} {boot : UInt64} {ids : List NodeId} {x : Exchange D}

/-- Nothing that happens on another connection registers a resource that the worker has
published, or buries its boot. -/
def Undisturbed (i : ℕ) (boot : UInt64) (x : Exchange D) : Act → Prop
  | .other input => input.connection ≠ i →
    SparesIds x.coordinator input x.published ∧
      ∀ j c, x.coordinator.ends input = some (j, c) → c.dying ≠ some boot
  | _ => True

/-- The registry has what was published as long as the connection is open, and has buried it
afterwards. -/
structure Owned (i : ℕ) (x : Exchange D) : Prop where
  opened : ∀ c, x.coordinator.connections.lookup i = some c → Held x.coordinator.engine x.published
  closed : x.coordinator.connections.lookup i = none → Buried x.coordinator.engine x.published

theorem owned_start (s : Coordinator D) (i : ℕ) (boot : UInt64) (ids : List NodeId) :
    Owned i (start s i boot ids) :=
  ⟨fun _ _ _ hr => absurd hr List.not_mem_nil, fun _ _ hr => absurd hr List.not_mem_nil⟩

omit [Double D] [DoubleBits D] in
/-- An act that touches neither the registry nor the table of connections. -/
theorem Owned.congr {x' : Exchange D} (h : Owned i x)
    (hlook : (x'.coordinator.connections.lookup i).isSome =
      (x.coordinator.connections.lookup i).isSome)
    (hheld : Held x.coordinator.engine x.published → Held x'.coordinator.engine x'.published)
    (hburied : Buried x.coordinator.engine x.published →
      Buried x'.coordinator.engine x'.published) : Owned i x' := by
  constructor
  · intro c hc
    rw [hc] at hlook
    obtain ⟨c', hc'⟩ := Option.isSome_iff_exists.mp hlook.symm
    exact hheld (h.opened c' hc')
  · intro hnone
    rw [hnone] at hlook
    exact hburied (h.closed (Option.isNone_iff_eq_none.mp (by simpa using hlook.symm)))

/-- What the handling of a worker's frame registers is held. -/
theorem Owned.serves [LawfulDoubleBits D] {d : Dialogue UInt8 Frame Frame Session UInt64}
    (h : Owned i x) (hc : Dialogue.Coherent (course D boot ids) d) (hm : Matches i boot x d)
    (sent : Bool) : Owned i (x.step i (.serves sent)) := by
  -- all that is published after the act is expected
  obtain ⟨d', hc', hm', -⟩ := hm.step hc (.serves sent)
  have hexpected := hm'.published_le hc'
  rcases hlook : x.coordinator.connections.lookup i with _ | c
  · have hstep : x.step i (.serves sent) = x := by simp only [Exchange.step, hlook]
    rw [hstep]
    exact h
  rcases hpend : c.pending with _ | ⟨f, rest⟩
  · have hstep : x.step i (.serves sent) = x := by simp only [Exchange.step, hlook, hpend]
    rw [hstep]
    exact h
  have hpublished : (x.step i (.serves sent)).published =
      x.published ++ (publication D c.session f).toList := by
    simp only [Exchange.step, hlook, hpend]
  have hengine : (x.step i (.serves sent)).coordinator.engine =
      (handle x.coordinator.engine c.session f).engine := by
    simp only [Exchange.step, Coordinator.step, hlook, hpend]
  -- the thread lives on, whether or not its reply was taken
  have hlook' : ((x.step i (.serves sent)).coordinator.connections.lookup i).isSome = true := by
    simp only [Exchange.step, Coordinator.step, hlook, hpend]
    exact Option.isSome_iff_exists.mpr ⟨_, AList.lookup_insert _⟩
  have hof : OfWorker f := by
    obtain ⟨-, hpending, -⟩ := hm.opened c hlook
    refine ofWorker_of_mem_said (hc.handled_le.subset ?_)
    rw [hpending, hpend]
    exact List.mem_append_right _ List.mem_cons_self
  have hheld := h.opened c hlook
  rw [handle_publication hof] at hengine
  rw [hpublished] at hexpected
  refine ⟨?_, fun hnone => (by rw [hnone] at hlook'; cases hlook')⟩
  intro c' _
  rw [hengine, hpublished]
  cases hpub : publication D c.session f with
  | none =>
    rw [Option.toList_none, List.append_nil]
    exact hheld
  | some e =>
    rw [hpub] at hexpected
    rw [Option.toList_some]
    intro r hr
    cases e with
    | node n =>
      show (x.coordinator.engine.registerNode n).1.resources.lookup r.id = some r
      rw [resources_registerNode]
      rcases List.mem_append.mp hr with hr | hr
      · exact hheld r hr
      · cases List.mem_singleton.mp hr
    | resource r' =>
      have hr' : Descriptor.resource r' ∈ expected D boot ids :=
        hexpected.subset (List.mem_append_right _ List.mem_cons_self)
      obtain ⟨-, r₀, hr₀, heq⟩ := exists_of_mem_expected hr'
      have hid : r'.id.isValid = true := by
        rw [heq]
        exact valid_discoverResources r₀ hr₀
      show (x.coordinator.engine.registerResource r').1.resources.lookup r.id = some r
      rw [resources_registerResource _ hid, UMap.lookup_insert_eq_ite]
      by_cases hsame : r.id = r'.id
      -- of one id, a worker has one record
      · rw [if_pos hsame, eq_of_mem_expected (hexpected.subset hr) hr' hsame]
      · rw [if_neg hsame]
        rcases List.mem_append.mp hr with hr | hr
        · exact hheld r hr
        · cases List.mem_singleton.mp hr
          exact absurd rfl hsame

/-- The end of the connection buries what was published on it. -/
theorem Owned.finishes [LawfulDoubleBits D] {d : Dialogue UInt8 Frame Frame Session UInt64}
    (h : Owned i x) (hc : Dialogue.Coherent (course D boot ids) d) (hm : Matches i boot x d) :
    Owned i (x.step i .finishes) := by
  rcases hlook : x.coordinator.connections.lookup i with _ | c
  · have hstep : x.step i .finishes = x := by
      simp only [Exchange.step, Coordinator.step, hlook]
    rw [hstep]
    exact h
  by_cases hdone : (c.session.done && c.pending.isEmpty) = true
  · have hlook' : (x.step i .finishes).coordinator.connections.lookup i = none := by
      simp only [Exchange.step, Coordinator.step, hlook, if_pos hdone]
      exact AList.lookup_erase _ _
    refine ⟨fun c' hc' => (by rw [hlook'] at hc'; cases hc'), ?_⟩
    intro _ r hr
    change Descriptor.resource r ∈ x.published at hr
    have hhandled : d.handled <+: (course D boot ids).said :=
      (List.prefix_append _ _).trans hc.handled_le
    obtain ⟨hboot, r₀, hr₀, heq⟩ := exists_of_mem_expected ((hm.published_le hc).subset hr)
    -- something was published, so the thread knows the boot of the worker
    have hne : d.handled ≠ [] := by
      intro hnil
      rw [hm.published, hnil] at hr
      cases hr
    obtain ⟨-, -, hcboot, hcworker, -⟩ := hm.opened c hlook
    have hserver : d.server = ⟨boot, boot ≠ 0, false⟩ :=
      hc.server_eq.trans (session_of_handled hhandled hne)
    rw [hserver] at hcboot hcworker
    have hworker : (c.session.isWorker && c.session.boot != 0) = true := by
      rw [← hcboot, ← hcworker]
      simp [hboot]
    have hengine : (x.step i .finishes).coordinator.engine =
        x.coordinator.engine.markEvidenceRevalidationRequired ⟨boot⟩ := by
      simp only [Exchange.step, Coordinator.step, hlook, if_pos hdone, if_pos hworker]
      rw [← hcboot]
    have hstored := h.opened c hlook r hr
    obtain ⟨r', hr', -⟩ := exists_lookup_markEvidence ⟨boot⟩ hstored
    rw [hengine]
    refine ⟨⟨r', hr'⟩, lifeless_markEvidence hstored ?_⟩
    rw [heq]
    exact (ownedBy_stampResource boot boot r₀).mpr rfl
  · have hstep : x.step i .finishes = x := by
      simp only [Exchange.step, Coordinator.step, hlook, if_neg hdone]
    rw [hstep]
    exact h

/-- **One act keeps the registry and the connection in step.** -/
theorem Owned.step [LawfulDoubleBits D] {d : Dialogue UInt8 Frame Frame Session UInt64} {a : Act}
    (h : Owned i x) (hc : Dialogue.Coherent (course D boot ids) d) (hm : Matches i boot x d)
    (hu : Undisturbed i boot x a) : Owned i (x.step i a) := by
  -- neither bytes nor errors register anything
  have hnothing : ∀ input, x.coordinator.registers input = none →
      x.coordinator.ends input = none →
      (Held x.coordinator.engine x.published →
        Held (x.coordinator.step input).engine x.published) ∧
      (Buried x.coordinator.engine x.published →
        Buried (x.coordinator.step input).engine x.published) := by
    intro input hregisters hends
    have hids : SparesIds x.coordinator input x.published := fun p hp => by
      rw [hregisters] at hp
      cases hp
    refine ⟨fun hheld => hheld.move hids fun j c b he => ?_, fun hburied => hburied.move hids⟩
    rw [hends] at he
    cases he
  cases a with
  | receives n =>
    rcases hlook : x.coordinator.connections.lookup i with _ | c
    · have hstep : x.step i (.receives n) = x := by simp only [Exchange.step, hlook]
      rw [hstep]
      exact h
    by_cases hbusy : (c.session.done || !c.pending.isEmpty) = true
    · have hstep : x.step i (.receives n) = x := by
        simp only [Exchange.step, hlook, if_pos hbusy]
      rw [hstep]
      exact h
    have hstep : x.step i (.receives n) = { x with
        coordinator := x.coordinator.step (.received i (x.up.take n))
        up := x.up.drop n } := by
      simp only [Exchange.step, hlook, if_neg hbusy]
    obtain ⟨hheld, hburied⟩ := hnothing (.received i (x.up.take n)) rfl rfl
    rw [hstep]
    refine h.congr ?_ hheld hburied
    simp only [Coordinator.step, hlook, if_neg hbusy]
    split <;> exact Option.isSome_iff_exists.mpr ⟨_, AList.lookup_insert _⟩
  | serves sent => exact h.serves hc hm sent
  | loses =>
    obtain ⟨hheld, hburied⟩ := hnothing (.lost i) rfl rfl
    refine h.congr ?_ hheld hburied
    show ((x.coordinator.step (.lost i)).connections.lookup i).isSome = _
    rcases hlook : x.coordinator.connections.lookup i with _ | c
    · simp only [Coordinator.step, hlook]
    · simp only [Coordinator.step, hlook]
      split
      · rw [hlook]
      · exact Option.isSome_iff_exists.mpr ⟨_, AList.lookup_insert _⟩
  | finishes => exact h.finishes hc hm
  | hears n =>
    unfold Exchange.step
    dsimp only
    split
    · exact h
    · exact h.congr rfl id id
  | breaks m n => exact h.congr rfl id id
  | other input =>
    by_cases hi : input.connection = i
    · have hstep : x.step i (.other input) = x := if_pos hi
      rw [hstep]
      exact h
    have hstep : x.step i (.other input) = { x with coordinator := x.coordinator.step input } :=
      if_neg hi
    obtain ⟨hids, hends⟩ := hu hi
    rw [hstep]
    refine h.congr ?_ (fun hheld => hheld.move hids ?_) fun hburied => hburied.move hids
    · show ((x.coordinator.step input).connections.lookup i).isSome = _
      rw [x.coordinator.lookup_of_other hi]
    · -- what dies on another connection is not the worker's boot
      intro j c b he hdying r hr
      obtain ⟨-, r₀, -, rfl⟩ := exists_of_mem_expected ((hm.published_le hc).subset hr)
      rw [← Bool.not_eq_true, ownedBy_stampResource]
      rintro rfl
      exact hends j c he hdying

/-- **The registry has a worker's resources exactly as long as it is connected.** In every
interleaving in which no other connection publishes a resource of the worker or ends under its
boot: while the connection is open, every resource that was published on it is in the registry as
the worker has stamped it, and eligible for every request that names no architecture; when the
connection has ended, however that came about, none of them has current evidence, and none is a
member of an active composition. -/
theorem owned_while_connected [LawfulDoubleBits D] {s : Coordinator D}
    (h : s.connections.lookup i = none) {acts : List Act}
    (hu : Machine.Along (step i) (Undisturbed i boot) (start s i boot ids) acts) :
    let x := (start s i boot ids).run i acts
    ∀ r, .resource r ∈ x.published →
      ((x.coordinator.connections.lookup i).isSome = true →
        x.coordinator.engine.resources.lookup r.id = some r ∧
          ∀ req : CompositionRequest D, req.acceleratorArchitectures = [] →
            (x.coordinator.engine.checkEligibility r.id req).isOk = true) ∧
      ((x.coordinator.connections.lookup i).isSome = false →
        (∀ r', x.coordinator.engine.resources.lookup r.id = some r' →
          r'.evidence.isCurrent = false) ∧
        ∀ id c, x.coordinator.engine.compositions.lookup id = some c → c.lifecycle = .active →
          r.id ∉ c.graph.vertices) := by
  intro x r hr
  have hinv : Owned i x ∧ ∃ d, Dialogue.Coherent (course D boot ids) d ∧ Matches i boot x d := by
    refine Machine.invariant_of_along
      (I := fun x => Owned i x ∧ ∃ d, Dialogue.Coherent (course D boot ids) d ∧ Matches i boot x d)
      ⟨owned_start s i boot ids, _, Dialogue.coherent_start (course D boot ids),
        matches_start h boot ids⟩ ?_ hu
    rintro y a ⟨howned, d, hc, hm⟩ hua
    obtain ⟨d', hc', hm', -⟩ := hm.step hc a
    exact ⟨howned.step hc hm hua, d', hc', hm'⟩
  obtain ⟨howned, d, hc, hm⟩ := hinv
  constructor
  · intro hopen
    obtain ⟨c, hlook⟩ := Option.isSome_iff_exists.mp hopen
    have hstored := howned.opened c hlook r hr
    refine ⟨hstored, fun req hreq => ?_⟩
    obtain ⟨-, r₀, hr₀, heq⟩ := exists_of_mem_expected ((hm.published_le hc).subset hr)
    unfold Engine.checkEligibility
    rw [hstored, heq]
    exact eligible_stampResource hr₀ hreq
  · intro hclosed
    have hnone : x.coordinator.connections.lookup i = none := by simpa using hclosed
    obtain ⟨-, hlife⟩ := howned.closed hnone r hr
    exact ⟨hlife.evidence, hlife.members⟩

/-- The worker registers, and is killed. -/
def registersAndDies : List Act := registers ++ [.breaks 0 0, .loses, .finishes]

theorem registersAndDies_owned :
    let x := (start (Coordinator.start Binary64 ⟨1⟩ none) 0 8 [⟨4⟩]).run 0 registersAndDies
    x.published.length = 2 ∧ ∀ r, .resource r ∈ x.published →
      ((x.coordinator.connections.lookup 0).isSome = true →
        x.coordinator.engine.resources.lookup r.id = some r ∧
          ∀ req : CompositionRequest Binary64, req.acceleratorArchitectures = [] →
            (x.coordinator.engine.checkEligibility r.id req).isOk = true) ∧
      ((x.coordinator.connections.lookup 0).isSome = false →
        (∀ r', x.coordinator.engine.resources.lookup r.id = some r' →
          r'.evidence.isCurrent = false) ∧
        ∀ id c, x.coordinator.engine.compositions.lookup id = some c → c.lifecycle = .active →
          r.id ∉ c.graph.vertices) :=
  ⟨by decide +kernel, owned_while_connected rfl
    ⟨trivial, trivial, trivial, trivial, trivial, trivial, trivial, trivial, trivial, trivial,
      trivial, trivial⟩⟩

end Exchange

end Deploy

end DFabric
