import DisaggregationFabric.Codec.Transfer
import DisaggregationFabric.Deploy.Coordinator
import DisaggregationFabric.Safety.Binding

/-!
# Workers that come and go

A worker announces its boot with `HELLO`, publishes resources, and dies with its
connection. The thread of a connection keeps the boot in a variable: a resource is stamped
with the value at its publication, and what is invalidated at the end is what carries the
value at the end.

`Watched` follows a coordinator and keeps a ghost beside it: which connection each resource
was registered on last, and which boots have been invalidated. Two things are asked of it.

**The end of a connection.** Nothing that was last registered on a connection that has
ended has current evidence, or is a member of an active composition. A second `HELLO` with
another boot leaves the resources published before it alone (`second_hello_leaves_evidence`);
where every connection ends under the boot its resources carry, nothing is left
(`ended_connections_leave_nothing`).

**Dead boots.** Nothing of a boot that was invalidated is eligible. Nobody remembers the
boots that died, so a worker that announces one of them is served like any other
(`stale_boot_restored`); where no such worker registers current evidence, dead boots stay
dead, and it takes a publication under another boot to make a resource eligible
(`dead_boots_stay_dead`).
-/

namespace DFabric

namespace Deploy

open Wire Proto

variable {D : Type} [Double D] [DoubleBits D]

/-! ### What an input does to the resources -/

/-- A resource that a `PUBLISH_RESOURCE` registers, with the connection it came on and the
boot the connection had announced. -/
structure Registration (D : Type) where
  connection : ℕ
  boot : UInt64
  resource : Resource D

namespace Coordinator

/-- What the handling of a frame registers. -/
def registration (i : ℕ) (c : Session) (f : Frame) : Option (Registration D) :=
  match f.type with
  | .publishResource =>
    if accepted (decodeResource : Decoder (Resource D)) f.payload && c.isWorker then
      -- stamped with the boot the connection has announced by now
      let r := ownResource c.boot (decoded decodeResource f.payload)
      if r.id.isValid then some ⟨i, c.boot, r⟩ else none
    else none
  | _ => none

/-- What an input registers. -/
def registers (s : Coordinator D) : Input → Option (Registration D)
  | .serve i _ =>
    match s.connections.lookup i with
    | none => none
    | some c => c.pending.head?.bind (registration i c.session)
  | _ => none

/-- The connection that an input ends, with the variables of its thread. -/
def ends (s : Coordinator D) : Input → Option (ℕ × Session)
  | .finish i =>
    match s.connections.lookup i with
    | none => none
    | some c => if c.session.done && c.pending.isEmpty then some (i, c.session) else none
  | _ => none

end Coordinator

/-- The boot that the end of a connection invalidates. -/
def Session.dying (c : Session) : Option UInt64 :=
  if c.isWorker && c.boot != 0 then some c.boot else none

/-- Of what a coordinator asks for, only a publication and the end of a worker concern the
resources. -/
theorem Asks.resources {s : Engine D} {op : Op D} (hop : Asks op) (hr : op.resource? = none)
    (hm : ∀ boot, op ≠ .markEvidenceRevalidationRequired boot) :
    (s.step op).resources = s.resources := by
  have htransaction : op.isTransaction = true → (s.step op).resources = s.resources := fun h =>
    (s.transaction_tables h).1.resources
  cases hop with
  -- a node may demote compositions, but leaves the resources
  | @registerNode payload boot h =>
    generalize ownNode boot (decoded decodeNode payload : Node D) = n
    change (s.registerNode n).1.resources = _
    unfold Engine.registerNode
    obtain ⟨nodes, compositions, heq⟩ := s.ingestNode_eq n
    rw [heq]
    split <;> rfl
  | registerResource boot h hlen => cases hr
  | markEvidenceRevalidationRequired boot => exact absurd rfl (hm boot)
  | _ => exact htransaction rfl

/-- What an input comes to, for the resources of the engine. -/
inductive Move (s : Coordinator D) (input : Input) : Prop where
  /-- A resource is registered. -/
  | registers (p : Registration D) (hp : s.registers input = some p) (he : s.ends input = none)
      (howner : p.resource.evidence.owner = toDecimal p.boot)
      (hengine : (s.step input).engine = s.engine.step (.registerResource p.resource))
      (hresources : (s.step input).engine.resources =
        s.engine.resources.insert p.resource.id p.resource)
  /-- A worker dies. -/
  | buries (i : ℕ) (c : Session) (boot : UInt64) (hp : s.registers input = none)
      (he : s.ends input = some (i, c)) (hdying : c.dying = some boot)
      (hengine : (s.step input).engine =
        s.engine.step (.markEvidenceRevalidationRequired ⟨boot⟩))
  /-- A connection ends that is no worker's. -/
  | closes (i : ℕ) (c : Session) (hp : s.registers input = none)
      (he : s.ends input = some (i, c)) (hdying : c.dying = none)
      (hengine : (s.step input).engine = s.engine)
  /-- The resources stay. -/
  | other (hp : s.registers input = none) (he : s.ends input = none)
      (hengine : (s.step input).engine = s.engine ∨
        ∃ op, (s.step input).engine = s.engine.step op)
      (hresources : (s.step input).engine.resources = s.engine.resources)

/-- The engine is left alone. -/
theorem Move.of_eq {s : Coordinator D} {input : Input} (hp : s.registers input = none)
    (he : s.ends input = none) (hengine : (s.step input).engine = s.engine) : Move s input :=
  .other hp he (Or.inl hengine) (congrArg Engine.resources hengine)

/-- The engine is asked for something that does not concern the resources. -/
theorem Move.of_asks {s : Coordinator D} {input : Input} {op : Op D} (hop : Asks op)
    (hr : op.resource? = none) (hm : ∀ boot, op ≠ .markEvidenceRevalidationRequired boot)
    (hp : s.registers input = none) (he : s.ends input = none)
    (hengine : (s.step input).engine = s.engine.step op) : Move s input := by
  refine .other hp he (Or.inr ⟨op, hengine⟩) ?_
  rw [hengine]
  exact hop.resources hr hm

omit [Double D] [DoubleBits D] in
theorem resources_registerResource (s : Engine D) {r : Resource D} (hid : r.id.isValid = true) :
    (s.registerResource r).1.resources = s.resources.insert r.id r := by
  have hvalid : ¬ (!r.id.isValid) = true := by
    rw [hid]
    decide
  unfold Engine.registerResource Engine.ingestResource
  rw [if_neg hvalid, if_neg hvalid]
  dsimp only
  split
  · split <;> rfl
  · rfl

/-- The move of a handled frame. -/
theorem move_serve {s : Coordinator D} {i : ℕ} {sent : Bool} {c : Connection} {f : Frame}
    {rest : List Frame} (hc : s.connections.lookup i = some c)
    (hpending : c.pending = f :: rest) : Move s (.serve i sent) := by
  have hreg : s.registers (.serve i sent) = Coordinator.registration i c.session f := by
    simp only [Coordinator.registers, hc, hpending, List.head?_cons, Option.bind_some]
  have hengine : (s.step (.serve i sent)).engine = (handle s.engine c.session f).engine := by
    simp only [Coordinator.step, hc, hpending]
  -- only the publication of a resource registers; the other frames are calls or nothing
  obtain ⟨type, corr, payload⟩ := f
  cases type with
  | publishResource =>
    simp only [Coordinator.registration] at hreg
    simp only [handle] at hengine
    by_cases hacc :
        (accepted (decodeResource : Decoder (Resource D)) payload && c.session.isWorker) = true
    · rw [if_pos hacc] at hreg hengine
      by_cases hid : (ownResource c.session.boot
          (decoded (decodeResource : Decoder (Resource D)) payload)).id.isValid = true
      · rw [if_pos hid] at hreg
        refine .registers _ hreg rfl rfl hengine ?_
        rw [hengine]
        exact resources_registerResource s.engine hid
      · -- an invalid id is refused by the engine
        rw [if_neg hid] at hreg
        refine .of_eq hreg rfl ?_
        rw [hengine, Engine.registerResource, Bool.eq_false_iff.mpr hid]
        rfl
    · rw [if_neg hacc] at hreg hengine
      exact .of_eq hreg rfl hengine
  | publishNode =>
    simp only [handle] at hengine
    -- a node is registered in the engine and not counted here
    by_cases hacc : (accepted (decodeNode : Decoder (Node D)) payload && c.session.isWorker) = true
    · rw [if_pos hacc] at hengine
      rw [Bool.and_eq_true] at hacc
      exact .of_asks (.registerNode c.session.boot hacc.1) rfl (fun _ h => by cases h) hreg rfl
        hengine
    · rw [if_neg hacc] at hengine
      exact .of_eq hreg rfl hengine
  | composeReq => exact .of_asks (.compose payload) rfl (fun _ h => by cases h) hreg rfl hengine
  | reserveReq => exact .of_asks (.reserve payload) rfl (fun _ h => by cases h) hreg rfl hengine
  | commitReq => exact .of_asks (.commit payload) rfl (fun _ h => by cases h) hreg rfl hengine
  | activateReq => exact .of_asks (.activate _) rfl (fun _ h => by cases h) hreg rfl hengine
  | releaseReq => exact .of_asks (.release _) rfl (fun _ h => by cases h) hreg rfl hengine
  | _ => exact .of_eq hreg rfl hengine

/-- **Every input is one of the moves.** -/
theorem move (s : Coordinator D) (input : Input) : Move s input := by
  cases input with
  | accept i =>
    refine .of_eq rfl rfl ?_
    simp only [Coordinator.step]
    split <;> rfl
  | received i bytes =>
    refine .of_eq rfl rfl ?_
    simp only [Coordinator.step]
    split
    · rfl
    split
    · rfl
    split <;> rfl
  | lost i =>
    refine .of_eq rfl rfl ?_
    simp only [Coordinator.step]
    split
    · rfl
    split <;> rfl
  | serve i sent =>
    rcases hc : s.connections.lookup i with _ | c
    · refine .of_eq ?_ rfl ?_
      · simp only [Coordinator.registers, hc]
      · simp only [Coordinator.step, hc]
    rcases hpending : c.pending with _ | ⟨f, rest⟩
    · refine .of_eq ?_ rfl ?_
      · simp only [Coordinator.registers, hc, hpending, List.head?_nil, Option.bind_none]
      · simp only [Coordinator.step, hc, hpending]
    · exact move_serve hc hpending
  | finish i =>
    rcases hc : s.connections.lookup i with _ | c
    · refine .of_eq rfl ?_ ?_
      · simp only [Coordinator.ends, hc]
      · simp only [Coordinator.step, hc]
    -- the thread ends when it is done and has handled all its frames
    by_cases hdone : (c.session.done && c.pending.isEmpty) = true
    · have hends : s.ends (.finish i) = some (i, c.session) := by
        simp only [Coordinator.ends, hc, if_pos hdone]
      by_cases hworker : (c.session.isWorker && c.session.boot != 0) = true
      · refine .buries i c.session c.session.boot rfl hends (if_pos hworker) ?_
        simp only [Coordinator.step, hc, if_pos hdone, if_pos hworker]
        rfl
      · refine .closes i c.session rfl hends (if_neg hworker) ?_
        simp only [Coordinator.step, hc, if_pos hdone, if_neg hworker]
    · refine .of_eq rfl ?_ ?_
      · simp only [Coordinator.ends, hc, if_neg hdone]
      · simp only [Coordinator.step, hc, if_neg hdone]

/-! ### Resources without life -/

/-- The resource has no current evidence and is in no active composition. -/
structure Lifeless (s : Engine D) (v : ResourceId) : Prop where
  evidence : ∀ r, s.resources.lookup v = some r → r.evidence.isCurrent = false
  members : ∀ id c, s.compositions.lookup id = some c → c.lifecycle = .active →
    v ∉ c.graph.vertices

omit [Double D] [DoubleBits D] in
/-- What the end of a worker leaves of a record. -/
theorem lookup_markEvidence {s : Engine D} {boot : WorkerBootId} {v : ResourceId}
    {r' : Resource D}
    (h : (s.markEvidenceRevalidationRequired boot).resources.lookup v = some r') :
    ∃ r, s.resources.lookup v = some r ∧ r'.evidence.owner = r.evidence.owner ∧
      (r' = r ∨ r'.evidence.isCurrent = false) ∧
      (Engine.ownedBy boot r = true → r'.evidence.isCurrent = false) := by
  change (UMap.mapVals _ s.resources).lookup v = some r' at h
  rw [UMap.lookup_mapVals] at h
  obtain ⟨r, hr, heq⟩ := Option.map_eq_some_iff.mp h
  refine ⟨r, hr, ?_⟩
  -- only what the dead boot owns is marked
  by_cases hown : Engine.ownedBy boot r = true
  · rw [if_pos hown] at heq
    subst heq
    exact ⟨rfl, Or.inr rfl, fun _ => rfl⟩
  · rw [if_neg hown] at heq
    subst heq
    exact ⟨rfl, Or.inl rfl, fun h => absurd h hown⟩

omit [Double D] [DoubleBits D] in
/-- No record is lost with a worker, and none changes its owner. -/
theorem exists_lookup_markEvidence {s : Engine D} (boot : WorkerBootId) {v : ResourceId}
    {r : Resource D} (hr : s.resources.lookup v = some r) :
    ∃ r', (s.markEvidenceRevalidationRequired boot).resources.lookup v = some r' ∧
      r'.evidence.owner = r.evidence.owner := by
  have hstored : ∃ r', (s.markEvidenceRevalidationRequired boot).resources.lookup v = some r' := by
    change ∃ r', (UMap.mapVals _ s.resources).lookup v = some r'
    rw [UMap.lookup_mapVals, hr]
    exact ⟨_, rfl⟩
  obtain ⟨r', hr'⟩ := hstored
  obtain ⟨r₀, hr₀, howner, -⟩ := lookup_markEvidence hr'
  rw [hr] at hr₀
  cases hr₀
  exact ⟨r', hr', howner⟩

/-- A resource without life stays so as long as its evidence does not become current:
`Activate` looks at the evidence of all members. -/
theorem Lifeless.step {s : Engine D} {v : ResourceId} (h : Lifeless s v) {op : Op D}
    (hr : ∀ r, (s.step op).resources.lookup v = some r → r.evidence.isCurrent = false) :
    Lifeless (s.step op) v := by
  refine ⟨hr, ?_⟩
  intro id c' hc' hl hmem
  rcases Engine.active_step hc' hl with ⟨c, -, -, -, -, hv, rfl, -, -⟩ | ⟨c, hc, hcl, hg, -, -⟩
  -- just activated, so every member had current evidence, or active before
  · obtain ⟨r, hlook, hcurrent⟩ := Engine.current_of_revalidationHolds hv hmem
    rw [h.evidence r hlook] at hcurrent
    cases hcurrent
  · rw [hg] at hmem
    exact h.members id c hc hcl hmem

omit [Double D] [DoubleBits D] in
/-- The end of a worker takes the life of what is marked as its own. -/
theorem lifeless_markEvidence {s : Engine D} {boot : WorkerBootId} {v : ResourceId}
    {r : Resource D} (hr : s.resources.lookup v = some r) (hown : Engine.ownedBy boot r = true) :
    Lifeless (s.markEvidenceRevalidationRequired boot) v := by
  constructor
  · intro r' hr'
    obtain ⟨r₀, hr₀, -, -, hdead⟩ := lookup_markEvidence hr'
    rw [hr] at hr₀
    cases hr₀
    exact hdead hown
  · -- the sweep has demoted every active composition it is a member of
    intro id c hc hl hmem
    have hnot := Engine.not_concerned_of_demoteWhere hc
      (fun l => hl ▸ Engine.onWithdrawal_ne l)
    refine absurd ?_ (List.any_eq_false.mp hnot v hmem)
    rw [UMap.lookup_mapVals, hr, Option.map_some, Option.any_some, if_pos hown]
    exact hown

/-! ### The ghost -/

/-- Where a resource was registered last. -/
inductive Registrar where
  /-- On no connection. -/
  | nobody
  /-- On a connection that is open. -/
  | opened (i : ℕ)
  /-- On a connection that has ended. -/
  | ended
deriving DecidableEq

/-- A coordinator with what is remembered of its connections. -/
structure Watched (D : Type) where
  coordinator : Coordinator D
  registrar : ResourceId → Registrar
  /-- The boots whose evidence was invalidated. -/
  dead : List UInt64

namespace Watched

/-- The start of a coordinator. -/
def start (D : Type) [Double D] [DoubleBits D] (epoch : CoordinatorEpoch)
    (file : Option (List UInt8)) : Watched D :=
  ⟨Coordinator.start D epoch file, fun _ => .nobody, []⟩

/-- Who registered what, after an input. -/
def registrarAfter (w : Watched D) (input : Input) : ResourceId → Registrar :=
  match w.coordinator.registers input, w.coordinator.ends input with
  | some p, _ => Function.update w.registrar p.resource.id (.opened p.connection)
  | none, some (i, _) => fun v => if w.registrar v = .opened i then .ended else w.registrar v
  | none, none => w.registrar

/-- What an input does, to the coordinator and to the ghost. -/
def step (w : Watched D) (input : Input) : Watched D where
  coordinator := w.coordinator.step input
  registrar := w.registrarAfter input
  dead := ((w.coordinator.ends input).bind fun e => e.2.dying).toList ++ w.dead

/-- The state a list of inputs leads to. -/
abbrev run (w : Watched D) (inputs : List Input) : Watched D := Machine.run step w inputs

/-- The ghost does not interfere. -/
theorem coordinator_run (w : Watched D) (inputs : List Input) :
    (w.run inputs).coordinator = w.coordinator.run inputs := by
  induction inputs generalizing w with
  | nil => rfl
  | cons input inputs ih => exact ih (w.step input)

/-! ### The end of a connection -/

/-- A connection ends under the boot that its resources carry: whatever was last registered
on it is marked as the evidence of the boot that its end invalidates. -/
def EndsUnderBoot (w : Watched D) (input : Input) : Prop :=
  ∀ i c, w.coordinator.ends input = some (i, c) → ∀ v, w.registrar v = .opened i →
    ∀ r, w.coordinator.engine.resources.lookup v = some r →
      ∃ boot, c.dying = some boot ∧ Engine.ownedBy ⟨boot⟩ r = true

/-- What was registered is still there, and what was last registered on a connection that
has ended is without life. -/
structure Settled (w : Watched D) : Prop where
  stored : ∀ v, w.registrar v ≠ .nobody →
    ∃ r, w.coordinator.engine.resources.lookup v = some r
  ended : ∀ v, w.registrar v = .ended → Lifeless w.coordinator.engine v

theorem settled_start (epoch : CoordinatorEpoch) (file : Option (List UInt8)) :
    (start D epoch file).Settled := by
  refine ⟨fun v hv => absurd rfl hv, ?_⟩
  intro v hv
  cases hv

omit [Double D] [DoubleBits D] in
theorem Settled.exists_of_opened {w : Watched D} (h : w.Settled) {v : ResourceId} {i : ℕ}
    (hv : w.registrar v = .opened i) :
    ∃ r, w.coordinator.engine.resources.lookup v = some r := by
  refine h.stored v ?_
  rw [hv]
  exact Registrar.noConfusion

/-- A registration is known to the ghost. -/
theorem Settled.registers {w : Watched D} (h : w.Settled) {input : Input} {p : Registration D}
    (hp : w.coordinator.registers input = some p)
    (hengine : (w.coordinator.step input).engine =
      w.coordinator.engine.step (.registerResource p.resource))
    (hresources : (w.coordinator.step input).engine.resources =
      w.coordinator.engine.resources.insert p.resource.id p.resource) :
    (w.step input).Settled := by
  have hreg : (w.step input).registrar =
      Function.update w.registrar p.resource.id (.opened p.connection) := by
    simp only [Watched.step, registrarAfter, hp]
  constructor
  · intro v hv
    change ∃ r, (w.coordinator.step input).engine.resources.lookup v = some r
    rw [hresources, UMap.lookup_insert_eq_ite]
    by_cases hvp : v = p.resource.id
    · exact ⟨p.resource, if_pos hvp⟩
    · rw [hreg, Function.update_of_ne hvp] at hv
      rw [if_neg hvp]
      exact h.stored v hv
  · intro v hv
    by_cases hvp : v = p.resource.id
    -- what has just been registered is on an open connection
    · rw [hvp, hreg, Function.update_self] at hv
      cases hv
    · rw [hreg, Function.update_of_ne hvp] at hv
      have hold := h.ended v hv
      change Lifeless (w.coordinator.step input).engine v
      rw [hengine] at hresources ⊢
      refine hold.step ?_
      intro r hr
      rw [hresources, UMap.lookup_insert_eq_ite, if_neg hvp] at hr
      exact hold.evidence r hr

/-- The end of a connection, given that it takes the life of what was registered there. -/
theorem Settled.ends {w : Watched D} (h : w.Settled) {input : Input} {i : ℕ} {c : Session}
    (hp : w.coordinator.registers input = none) (he : w.coordinator.ends input = some (i, c))
    (hstored : ∀ v r, w.coordinator.engine.resources.lookup v = some r →
      ∃ r', (w.coordinator.step input).engine.resources.lookup v = some r')
    (hkept : ∀ v, Lifeless w.coordinator.engine v → Lifeless (w.coordinator.step input).engine v)
    (hdies : ∀ v, w.registrar v = .opened i → Lifeless (w.coordinator.step input).engine v) :
    (w.step input).Settled := by
  have hreg : (w.step input).registrar =
      fun v => if w.registrar v = .opened i then .ended else w.registrar v := by
    simp only [Watched.step, registrarAfter, hp, he]
  constructor
  · -- nobody becomes the registrar of a resource by the end of a connection
    intro v hv
    have hsome : w.registrar v ≠ .nobody := by
      intro hnobody
      rw [hreg] at hv
      simp only [hnobody] at hv
      exact hv rfl
    obtain ⟨r, hr⟩ := h.stored v hsome
    exact hstored v r hr
  · intro v hv
    -- it has ended now, or had ended before
    by_cases hi : w.registrar v = .opened i
    · exact hdies v hi
    · simp only [hreg, if_neg hi] at hv
      exact hkept v (h.ended v hv)

/-- An input that does not concern the resources. -/
theorem Settled.other {w : Watched D} (h : w.Settled) {input : Input}
    (hp : w.coordinator.registers input = none) (he : w.coordinator.ends input = none)
    (hengine : (w.coordinator.step input).engine = w.coordinator.engine ∨
      ∃ op, (w.coordinator.step input).engine = w.coordinator.engine.step op)
    (hresources : (w.coordinator.step input).engine.resources = w.coordinator.engine.resources) :
    (w.step input).Settled := by
  have hreg : (w.step input).registrar = w.registrar := by
    simp only [Watched.step, registrarAfter, hp, he]
  -- nothing is registered and nothing ends, so both halves are those of before
  constructor
  · intro v hv
    rw [hreg] at hv
    change ∃ r, (w.coordinator.step input).engine.resources.lookup v = some r
    rw [hresources]
    exact h.stored v hv
  · intro v hv
    rw [hreg] at hv
    have hold := h.ended v hv
    change Lifeless (w.coordinator.step input).engine v
    -- an operation that keeps the table revives no evidence
    rcases hengine with heq | ⟨op, heq⟩
    · rw [heq]
      exact hold
    · rw [heq] at hresources ⊢
      refine hold.step ?_
      intro r hr
      rw [hresources] at hr
      exact hold.evidence r hr

/-- **One input settles what it ends.** -/
theorem Settled.step {w : Watched D} (h : w.Settled) {input : Input}
    (hend : EndsUnderBoot w input) : (w.step input).Settled := by
  cases move w.coordinator input with
  | registers p hp _ _ hengine hresources => exact h.registers hp hengine hresources
  | buries i c boot hp he hdying hengine =>
    -- marking evidence makes none of it current
    have hmark : ∀ v, Lifeless w.coordinator.engine v →
        Lifeless (w.coordinator.step input).engine v := by
      intro v hv
      rw [hengine]
      refine hv.step ?_
      intro r' hr'
      obtain ⟨r, hr, -, rfl | hdead, -⟩ := lookup_markEvidence hr'
      · exact hv.evidence r' hr
      · exact hdead
    refine h.ends hp he ?_ hmark ?_
    · intro v r hr
      rw [hengine]
      obtain ⟨r', hr', -⟩ := exists_lookup_markEvidence ⟨boot⟩ hr
      exact ⟨r', hr'⟩
    · -- the boot that is invalidated is the one the resources carry
      intro v hv
      obtain ⟨r, hr⟩ := h.exists_of_opened hv
      obtain ⟨boot', hdying', hown⟩ := hend i c he v hv r hr
      rw [hdying] at hdying'
      cases hdying'
      rw [hengine]
      exact lifeless_markEvidence hr hown
  | closes i c hp he hdying hengine =>
    refine h.ends hp he ?_ ?_ ?_
    · intro v r hr
      exact ⟨r, by rw [hengine]; exact hr⟩
    · intro v hv
      rw [hengine]
      exact hv
    · -- nothing was registered on it
      intro v hv
      obtain ⟨r, hr⟩ := h.exists_of_opened hv
      obtain ⟨boot, hdying', -⟩ := hend i c he v hv r hr
      rw [hdying] at hdying'
      cases hdying'
  | other hp he hengine hresources => exact h.other hp he hengine hresources

/-- **A connection that has ended leaves no live evidence.** In every run of a coordinator
whose connections end under the boot that their resources carry: no resource that was last
registered on a connection that has ended has current evidence, and no composition it is a
member of is active. -/
theorem ended_connections_leave_nothing {epoch : CoordinatorEpoch} {file : Option (List UInt8)}
    {inputs : List Input} (h : Machine.Along step EndsUnderBoot (start D epoch file) inputs) :
    let s := ((Coordinator.start D epoch file).run inputs).engine
    ∀ v, ((start D epoch file).run inputs).registrar v = .ended →
      (∀ r, s.resources.lookup v = some r → r.evidence.isCurrent = false) ∧
        ∀ id c, s.compositions.lookup id = some c → c.lifecycle = .active →
          v ∉ c.graph.vertices := by
  intro s v hv
  have hsettled : ((start D epoch file).run inputs).Settled :=
    Machine.invariant_of_along (settled_start epoch file) (fun _ _ hw hend => hw.step hend) h
  have hlifeless := hsettled.ended v hv
  rw [coordinator_run] at hlifeless
  exact ⟨hlifeless.evidence, hlifeless.members⟩

/-- A `HELLO`. -/
def hello (boot : UInt64) : List UInt8 := encode .hello 1 (bytesOf [.u64 boot])

/-- A `PUBLISH_RESOURCE`. -/
def publish : List UInt8 :=
  encode .publishResource 2 (bytesOf (encodeResource sampleAccelerator))

/-- A worker publishes a resource and dies. -/
def workerDies : List Input := [
  .accept 0, .received 0 (hello 8 ++ publish), .serve 0 true, .serve 0 true,
  .lost 0, .finish 0]

/-- A worker publishes a resource, announces another boot and dies. -/
def secondHello : List Input := [
  .accept 0, .received 0 (hello 8 ++ publish ++ hello 9),
  .serve 0 true, .serve 0 true, .serve 0 true, .lost 0, .finish 0]

/-- The resource of the worker that died is not current. -/
theorem workerDies_leaves_nothing :
    ((start Binary64 ⟨1⟩ none).run workerDies).registrar ⟨1⟩ = .ended ∧
      ∀ r, ((Coordinator.start Binary64 ⟨1⟩ none).run workerDies).engine.resources.lookup ⟨1⟩ =
        some r → r.evidence.isCurrent = false := by
  have hended : ((start Binary64 ⟨1⟩ none).run workerDies).registrar ⟨1⟩ = .ended := by
    decide +kernel
  have halong : Machine.Along step EndsUnderBoot (start Binary64 ⟨1⟩ none) workerDies := by
    -- only the last input ends a connection
    refine ⟨fun _ _ h => (by cases h), fun _ _ h => (by cases h), fun _ _ h => (by cases h),
      fun _ _ h => (by cases h), fun _ _ h => (by cases h), ?_, trivial⟩
    intro i c hends v _ r hr
    have hdying : (((start Binary64 ⟨1⟩ none).run workerDies.dropLast).coordinator.ends
        (.finish 0)).all (fun e => e.2.dying = some 8) = true := by decide +kernel
    have hmarked : ∀ r ∈ ((start Binary64 ⟨1⟩ none).run
        workerDies.dropLast).coordinator.engine.resources.values,
        Engine.ownedBy ⟨8⟩ r = true := by decide +kernel
    refine ⟨8, ?_, hmarked r (UMap.mem_values_of_lookup hr)⟩
    exact of_decide_eq_true ((Option.all_eq_true _ _).mp hdying (i, c) hends)
  exact ⟨hended, (ended_connections_leave_nothing halong ⟨1⟩ hended).1⟩

/-- **Evidence that outlives its connection.** The resource was published under the first
boot; the end of the connection invalidates the second. -/
theorem second_hello_leaves_evidence :
    ¬ ∀ (epoch : CoordinatorEpoch) (file : Option (List UInt8)) (inputs : List Input),
      let s := ((Coordinator.start Binary64 epoch file).run inputs).engine
      ∀ v, ((start Binary64 epoch file).run inputs).registrar v = .ended →
        (∀ r, s.resources.lookup v = some r → r.evidence.isCurrent = false) ∧
          ∀ id c, s.compositions.lookup id = some c → c.lifecycle = .active →
            v ∉ c.graph.vertices := by
  intro h
  have hended : ((start Binary64 ⟨1⟩ none).run secondHello).registrar ⟨1⟩ = .ended := by
    decide +kernel
  have hcurrent : (((Coordinator.start Binary64 ⟨1⟩ none).run
      secondHello).engine.resources.lookup ⟨1⟩).any (·.evidence.isCurrent) = true := by
    decide +kernel
  obtain ⟨r, hr, hr'⟩ := (Option.any_eq_true _ _).mp hcurrent
  rw [(h ⟨1⟩ none secondHello ⟨1⟩ hended).1 r hr] at hr'
  cases hr'

/-! ### Dead boots -/

/-- No connection registers current evidence under a boot that was invalidated. -/
def FencesBoots (w : Watched D) (input : Input) : Prop :=
  ∀ p ∈ w.coordinator.registers input, p.boot ∈ w.dead → p.resource.evidence.isCurrent = false

instance (w : Watched D) (input : Input) : Decidable (FencesBoots w input) :=
  inferInstanceAs (Decidable (∀ p ∈ w.coordinator.registers input, p.boot ∈ w.dead →
    p.resource.evidence.isCurrent = false))

/-- The evidence of dead boots is not current. -/
def Fenced (w : Watched D) : Prop :=
  ∀ b ∈ w.dead, ∀ v r, w.coordinator.engine.resources.lookup v = some r →
    r.evidence.owner = toDecimal b → r.evidence.isCurrent = false

omit [Double D] [DoubleBits D] in
theorem Fenced.of_eq {w w' : Watched D} (h : w.Fenced) (hdead : w'.dead = w.dead)
    (hresources : w'.coordinator.engine.resources = w.coordinator.engine.resources) :
    w'.Fenced := by
  intro b hb v r hr hrb
  rw [hdead] at hb
  rw [hresources] at hr
  exact h b hb v r hr hrb

/-- An input that ends no connection leaves the boots alone. -/
theorem dead_step_of_ends {w : Watched D} {input : Input} (he : w.coordinator.ends input = none) :
    (w.step input).dead = w.dead := by
  simp only [Watched.step, he, Option.bind_none, Option.toList_none, List.nil_append]

/-- **One input leaves dead boots dead.** -/
theorem Fenced.step {w : Watched D} (h : w.Fenced) {input : Input}
    (hfence : FencesBoots w input) : (w.step input).Fenced := by
  -- what an input can do: register, bury a boot, close, or neither
  cases move w.coordinator input with
  | registers p hp he howner _ hresources =>
    intro b hb v r hr hrb
    rw [dead_step_of_ends he] at hb
    change (w.coordinator.step input).engine.resources.lookup v = some r at hr
    rw [hresources] at hr
    rcases UMap.lookup_insert_inv hr with ⟨-, rfl⟩ | ⟨-, hold⟩
    · -- decimals of different boots differ, so the boot that published is the dead one
      rw [howner] at hrb
      have hboot : p.boot = b := toDecimal_injective hrb
      rw [← hboot] at hb
      exact hfence p hp hb
    · exact h b hb v r hold hrb
  | buries i c boot _ he hdying hengine =>
    have hdead : (w.step input).dead = boot :: w.dead := by
      simp only [Watched.step, he, hdying, Option.bind_some, Option.toList_some, List.cons_append,
        List.nil_append]
    intro b hb v r' hr' hrb
    rw [hdead] at hb
    change (w.coordinator.step input).engine.resources.lookup v = some r' at hr'
    rw [hengine] at hr'
    obtain ⟨r, hr, howner, hsame, hmarked⟩ := lookup_markEvidence hr'
    rcases List.mem_cons.mp hb with rfl | hb
    · -- the boot that dies now
      refine hmarked ?_
      rw [Engine.ownedBy, ← howner, hrb]
      exact Bool.or_eq_true_iff.mpr (Or.inl (decide_eq_true rfl))
    · -- a boot that was dead already
      rcases hsame with rfl | hgone
      · exact h b hb v r' hr hrb
      · exact hgone
  -- a connection without a boot buries none
  | closes i c _ he hdying hengine =>
    refine h.of_eq ?_ (congrArg Engine.resources hengine)
    simp only [Watched.step, he, hdying, Option.bind_some, Option.toList_none, List.nil_append]
  | other _ he _ hresources => exact h.of_eq (dead_step_of_ends he) hresources

/-- A dead boot is remembered. -/
theorem dead_run {w : Watched D} {b : UInt64} (h : b ∈ w.dead) (inputs : List Input) :
    b ∈ (w.run inputs).dead := by
  refine Machine.invariant_run (I := fun w : Watched D => b ∈ w.dead) h ?_
  intro w input hw
  exact List.mem_append_right _ hw

/-- The owner of a record changes by a publication only. -/
theorem owner_step {w : Watched D} (input : Input) {v : ResourceId} {r : Resource D}
    (hr : w.coordinator.engine.resources.lookup v = some r) :
    ∃ r', (w.step input).coordinator.engine.resources.lookup v = some r' ∧
      (r'.evidence.owner = r.evidence.owner ∨ ∃ p, w.coordinator.registers input = some p ∧
        p.resource.id = v ∧ r'.evidence.owner = toDecimal p.boot) := by
  change ∃ r', (w.coordinator.step input).engine.resources.lookup v = some r' ∧ _
  cases move w.coordinator input with
  | registers p hp _ howner _ hresources =>
    rw [hresources, UMap.lookup_insert_eq_ite]
    by_cases hv : v = p.resource.id
    · exact ⟨p.resource, if_pos hv, Or.inr ⟨p, hp, hv.symm, howner⟩⟩
    · rw [if_neg hv]
      exact ⟨r, hr, Or.inl rfl⟩
  | buries i c boot _ _ _ hengine =>
    -- marking evidence keeps its owner
    rw [hengine]
    obtain ⟨r', hr', howner⟩ := exists_lookup_markEvidence ⟨boot⟩ hr
    exact ⟨r', hr', Or.inl howner⟩
  | closes i c _ _ _ hengine =>
    rw [hengine]
    exact ⟨r, hr, Or.inl rfl⟩
  | other _ _ _ hresources =>
    rw [hresources]
    exact ⟨r, hr, Or.inl rfl⟩

/-- A resource that is owned by somebody else after a run was published by somebody else. -/
theorem owner_run {w : Watched D} {inputs : List Input} {v : ResourceId} {r r' : Resource D}
    {b : UInt64} (hr : w.coordinator.engine.resources.lookup v = some r)
    (hb : r.evidence.owner = toDecimal b)
    (hr' : (w.run inputs).coordinator.engine.resources.lookup v = some r')
    (hb' : r'.evidence.owner ≠ toDecimal b) :
    ∃ before input after p, inputs = before ++ input :: after ∧
      (w.run before).coordinator.registers input = some p ∧ p.resource.id = v ∧ p.boot ≠ b := by
  -- the first input after which the owner is another one
  induction inputs generalizing w r with
  | nil =>
    rw [show w.run [] = w from rfl, hr] at hr'
    cases hr'
    exact absurd hb hb'
  | cons input inputs ih =>
    obtain ⟨r₁, hr₁, howner⟩ := owner_step input hr
    by_cases hb₁ : r₁.evidence.owner = toDecimal b
    · -- it is published later
      obtain ⟨before, input', after, p, hinputs, hp⟩ := ih hr₁ hb₁ hr'
      exact ⟨input :: before, input', after, p, by rw [hinputs]; rfl, hp⟩
    · -- this input has changed the owner, so it is a publication
      rcases howner with hsame | ⟨p, hp, hid, hboot⟩
      · rw [hsame] at hb₁
        exact absurd hb hb₁
      · refine ⟨[], input, inputs, p, rfl, hp, hid, ?_⟩
        intro hpb
        rw [hboot, hpb] at hb₁
        exact hb₁ rfl

omit [Double D] [DoubleBits D] in
/-- What is eligible is registered, with current evidence. -/
theorem current_of_checkEligibility {s : Engine D} {v : ResourceId} {req : CompositionRequest D}
    (h : (s.checkEligibility v req).isOk = true) :
    ∃ r, s.resources.lookup v = some r ∧ r.evidence.isCurrent = true := by
  unfold Engine.checkEligibility at h
  split at h
  · cases h
  · next r hr => exact ⟨r, hr, (Eligible.valid_and_current h).2⟩

/-- In a fenced run, what a dead boot owns is not current. -/
theorem not_current_of_dead {epoch : CoordinatorEpoch} {file : Option (List UInt8)}
    {before after : List Input} {b : UInt64}
    (h : Machine.Along step FencesBoots (start D epoch file) (before ++ after))
    (hb : b ∈ ((start D epoch file).run before).dead) :
    ∀ v r, ((Coordinator.start D epoch file).run
      (before ++ after)).engine.resources.lookup v = some r →
      r.evidence.owner = toDecimal b → r.evidence.isCurrent = false := by
  have hstart : (start D epoch file).Fenced := fun b hb => absurd hb List.not_mem_nil
  have hfenced : ((start D epoch file).run (before ++ after)).Fenced :=
    Machine.invariant_of_along hstart (fun _ _ hw hf => hw.step hf) h
  have hdead : b ∈ ((start D epoch file).run (before ++ after)).dead := by
    rw [Watched.run, Machine.run_append]
    exact dead_run hb after
  have hlaw := hfenced b hdead
  rw [coordinator_run] at hlaw
  exact hlaw

/-- **Dead boots stay dead.** In every run in which no connection registers current evidence
under a boot that was invalidated before: once a boot was invalidated, no resource it owns is
eligible, for any request; and a resource it owned that is eligible again was published under
another boot in the meantime. -/
theorem dead_boots_stay_dead {epoch : CoordinatorEpoch} {file : Option (List UInt8)}
    {before after : List Input}
    (h : Machine.Along step FencesBoots (start D epoch file) (before ++ after)) {b : UInt64}
    (hb : b ∈ ((start D epoch file).run before).dead) :
    let w := (start D epoch file).run before
    let s := ((Coordinator.start D epoch file).run before).engine
    let s' := ((Coordinator.start D epoch file).run (before ++ after)).engine
    (∀ v r, s'.resources.lookup v = some r → r.evidence.owner = toDecimal b →
      ∀ req, (s'.checkEligibility v req).isOk = false) ∧
    ∀ v r req, s.resources.lookup v = some r → r.evidence.owner = toDecimal b →
      (s'.checkEligibility v req).isOk = true →
      ∃ mid input rest p, after = mid ++ input :: rest ∧
        (w.run mid).coordinator.registers input = some p ∧ p.resource.id = v ∧ p.boot ≠ b := by
  -- a record of a dead boot is not current at the end
  have hgone := not_current_of_dead h hb
  have hrun : ((start D epoch file).run before).run after =
      (start D epoch file).run (before ++ after) := (Machine.run_append _ before after).symm
  constructor
  · -- and an eligible one is current
    intro v r hr hrb req
    rw [Bool.eq_false_iff]
    intro hok
    obtain ⟨r', hr', hcurrent⟩ := current_of_checkEligibility hok
    rw [hr] at hr'
    cases hr'
    rw [hgone v r hr hrb] at hcurrent
    cases hcurrent
  · -- an eligible record has current evidence, so its owner has changed
    intro v r req hr hrb hok
    obtain ⟨r', hr', hcurrent⟩ := current_of_checkEligibility hok
    have hbefore : ((start D epoch file).run before).coordinator.engine.resources.lookup v =
        some r := by
      rw [coordinator_run]
      exact hr
    have hafter : (((start D epoch file).run before).run after).coordinator.engine.resources.lookup
        v = some r' := by
      rw [hrun, coordinator_run]
      exact hr'
    refine owner_run hbefore hrb hafter ?_
    intro hrb'
    rw [hgone v r' hr' hrb'] at hcurrent
    cases hcurrent

/-- A worker connects, announces the boot and publishes the resource. -/
def republishes (boot : UInt64) : List Input := [
  .accept 1, .received 1 (hello boot ++ publish), .serve 1 true, .serve 1 true]

/-- The end of the worker's connection has invalidated its boot. -/
theorem dead_workerDies : 8 ∈ ((start Binary64 ⟨1⟩ none).run workerDies).dead := by
  decide +kernel

/-- The resource is eligible after a publication under another boot. -/
theorem republished_by_another :
    (((Coordinator.start Binary64 ⟨1⟩ none).run
      (workerDies ++ republishes 9)).engine.checkEligibility ⟨1⟩ default).isOk = true ∧
    ∃ mid input rest p, republishes 9 = mid ++ input :: rest ∧
      (((start Binary64 ⟨1⟩ none).run workerDies).run mid).coordinator.registers input = some p ∧
      p.resource.id = ⟨1⟩ ∧ p.boot ≠ 8 := by
  have heligible : (((Coordinator.start Binary64 ⟨1⟩ none).run
      (workerDies ++ republishes 9)).engine.checkEligibility ⟨1⟩ default).isOk = true := by
    decide +kernel
  have halong : Machine.Along step FencesBoots (start Binary64 ⟨1⟩ none)
      (workerDies ++ republishes 9) := by decide +kernel
  have howner : (((Coordinator.start Binary64 ⟨1⟩ none).run
      workerDies).engine.resources.lookup ⟨1⟩).any (·.evidence.owner = toDecimal 8) = true := by
    decide +kernel
  obtain ⟨r, hr, hrb⟩ := (Option.any_eq_true _ _).mp howner
  exact ⟨heligible, (dead_boots_stay_dead halong dead_workerDies).2 ⟨1⟩ r default hr
    (of_decide_eq_true hrb) heligible⟩

/-- **A dead boot comes back.** A worker that announces the boot of one that died publishes
the resource again, and it is eligible. -/
theorem stale_boot_restored :
    ¬ ∀ (epoch : CoordinatorEpoch) (file : Option (List UInt8)) (before after : List Input)
      (b : UInt64), b ∈ ((start Binary64 epoch file).run before).dead →
      let s' := ((Coordinator.start Binary64 epoch file).run (before ++ after)).engine
      ∀ v r, s'.resources.lookup v = some r → r.evidence.owner = toDecimal b →
        ∀ req, (s'.checkEligibility v req).isOk = false := by
  intro h
  have howner : (((Coordinator.start Binary64 ⟨1⟩ none).run
      (workerDies ++ republishes 8)).engine.resources.lookup ⟨1⟩).any
        (·.evidence.owner = toDecimal 8) = true := by decide +kernel
  have heligible : (((Coordinator.start Binary64 ⟨1⟩ none).run
      (workerDies ++ republishes 8)).engine.checkEligibility ⟨1⟩ default).isOk = true := by
    decide +kernel
  obtain ⟨r, hr, hrb⟩ := (Option.any_eq_true _ _).mp howner
  rw [h ⟨1⟩ none workerDies (republishes 8) 8 dead_workerDies ⟨1⟩ r hr
    (of_decide_eq_true hrb) default] at heligible
  cases heligible

end Watched

end Deploy

end DFabric
