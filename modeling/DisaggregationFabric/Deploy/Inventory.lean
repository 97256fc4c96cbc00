import DisaggregationFabric.Codec.Sendable
import DisaggregationFabric.Deploy.Coordinator
import DisaggregationFabric.Engine.Bounds
import DisaggregationFabric.Safety.Durability

/-!
# What a coordinator has to send

Everything a coordinator stores has come in over the wire or was made by its engine from
what had, and all of it can be sent on, but for one thing: the health of a resource whose
worker has died is unknown, and no decoder accepts that. `AllSendable` is the invariant,
`allSendable_run` says that it holds in every run of the process.

The plans that `Compose` returns can be sent as well (`sendable_compose`): the search is
bounded, and so is what a frame has room for.
-/

namespace DFabric

open Wire EnumTraits

variable {D : Type} [Double D]

/-! ### Sendable records under the operations -/

/-- Whether a composition can be sent does not depend on its lifecycle and outcome. -/
theorem Composition.Sendable.update {c : Composition D} (h : c.Sendable)
    (l : CompositionLifecycle) (o : CompositionOutcome) :
    ({ c with lifecycle := l, outcome := o } : Composition D).Sendable :=
  ⟨h.nodes, h.request, h.graph, h.authority, h.paths_length, h.paths, h.explanation⟩

/-- What a plan that can be sent is stored as can be sent. -/
theorem CompositionPlan.Sendable.newComposition {plan : CompositionPlan D} (h : plan.Sendable)
    (s : Engine D) : (s.newComposition plan).Sendable :=
  ⟨h.nodes, h.request, h.graph, h.authority, h.paths_length, h.paths, Nat.zero_le _⟩

/-- A resource can be sent after an event, whatever becomes of its health. -/
theorem SetsStatus.sendable {op : Op D} {r r' : Resource D} (hs : StatusOnly r r')
    (hset : SetsStatus op r r') (h : r.Sendable) : r'.Sendable := by
  have hstorable : ({ r' with health := .healthy } : Resource D).Storable := by
    -- with the health left aside it is one of the events that keep a resource storable
    have hs' : StatusOnly { r with health := .healthy } { r' with health := .healthy } := by
      rw [StatusOnly]
      rw [StatusOnly] at hs
      rw [hs]
    have hset' : SetsStatus (.discover : Op D) { r with health := .healthy }
        { r' with health := .healthy } :=
      ⟨Or.inl rfl, hset.readiness, hset.reachability, hset.evidence⟩
    exact hset'.storable hs' (fun owner hop => by cases hop) h.storable
  refine ⟨hstorable, ?_, ?_, ?_, ?_⟩
  all_goals rw [hs]
  · exact h.texts
  · exact h.coords
  · exact h.capabilities
  · exact h.compatibility

/-- The items of a plan that was held are provisional. -/
theorem Engine.reserveMembers_provisional {s : Engine D} (req : CompositionRequest D)
    (vs : List ResourceId) (held : OrdMap ResourceId D) :
    ∀ i ∈ (s.reserveMembers req vs held).2.1, i.state = .provisional := by
  induction vs generalizing held with
  | nil => exact List.forall_mem_nil _
  | cons v vs ih =>
    obtain ⟨r, -, -, hm⟩ | ⟨e, hm | hm⟩ := s.reserveMember_cases req held v
    · rw [reserveMembers, hm]
      exact List.forall_mem_cons.mpr ⟨rfl, ih _⟩
    · rw [reserveMembers, hm]
      exact List.forall_mem_nil _
    · rw [reserveMembers, hm]
      exact List.forall_mem_nil _

/-- What a plan within the bound is reserved as can be sent. -/
theorem Engine.storable_newReservation {s : Engine D} {plan : CompositionPlan D}
    {held : OrdMap ResourceId D} {items : List (ReservationItem D)}
    (hm : s.reserveMembers plan.request plan.graph.vertices s.reservedAmount = (held, items, none))
    (hlen : plan.graph.vertices.length ≤ maxCount) : (s.newReservation plan items).Storable where
  items_length := by
    -- one item for each member
    rw [← reserveMembers_items hm, List.length_map] at hlen
    exact hlen
  items i hi := by
    have hstate := s.reserveMembers_provisional plan.request plan.graph.vertices s.reservedAmount i
    rw [hm] at hstate
    rw [hstate hi]
    decide
  state := by
    change Canonical ReservationState.provisional
    decide

omit [Double D] in
/-- A reservation can be sent in every state but none. -/
theorem Reservation.Storable.update {r : Reservation D} (h : r.Storable) {state : ReservationState}
    (hstate : Canonical state) : ({ r with state := state } : Reservation D).Storable :=
  ⟨h.items_length, h.items, hstate⟩

omit [Double D] in
theorem Reservation.Storable.committed {r : Reservation D} (h : r.Storable) :
    r.committed.Storable := by
  have hcommitted : Canonical ReservationState.committed := by decide
  refine ⟨?_, ?_, hcommitted⟩
  · change (r.items.map _).length ≤ maxCount
    rw [List.length_map]
    exact h.items_length
  · intro i hi
    obtain ⟨i₀, -, rfl⟩ := List.mem_map.mp hi
    exact hcommitted

/-! ### What the backend answers -/

namespace SyntheticBackend

/-- The keys of the pairs the backend answers for. -/
def Linked (D : Type) [Double D] (key : Str) : Prop :=
  ∃ p : PathState D, pathTable.find? key = some p

/-- A path can be sent when the protocol it was asked for can. -/
theorem sendable_pathEvidence {q : PathRequirement D} (hq : q.protocol = []) (p : PathState D) :
    (pathEvidence q p).Sendable := by
  have hsource : Canonical EvidenceSource.backend := by decide
  have hfresh : Canonical EvidenceState.fresh := by decide
  have hname : (str "synthetic").length ≤ 32768 := by decide +kernel
  refine ⟨⟨hsource, hfresh⟩, ?_⟩
  change Short [q.protocol, str "synthetic", str "synthetic", [], []]
  rw [hq]
  simp [hname]

theorem resolvePath_sendable {q : PathRequirement D} (hq : q.protocol = []) {pe : PathEvidence D}
    (h : resolvePath q = some pe) : Linked D (pathKey q.source q.target) ∧ pe.Sendable := by
  obtain ⟨p, hp, rfl⟩ := resolvePath_eq_some h
  exact ⟨⟨p, hp⟩, sendable_pathEvidence hq p⟩

end SyntheticBackend

open SyntheticBackend (Linked)

namespace Engine

/-- A table of linked pairs has twelve entries at most. -/
theorem TableHas.size_le {paths : OrdMap Str (PathEvidence D)} {P : PathEvidence D → Prop}
    (h : TableHas paths (Linked D) P) : paths.size ≤ 12 :=
  (OrdMap.size_le_of_keys fun e he => (h e he).1).trans SyntheticBackend.size_pathTable_le

/-! ### The invariant -/

/-- What the engine of a coordinator stores can be sent, and its paths are those of the
topology. -/
structure AllSendable (s : Engine D) : Prop where
  backends : s.backends = [syntheticBackend Deploy.nodeGeneration]
  paths : TableHas s.paths (Linked D) PathEvidence.Sendable
  resources : ∀ id r, s.resources.lookup id = some r → r.Sendable
  compositions : ∀ id c, s.compositions.lookup id = some c → c.Sendable
  reservations : ∀ id r, s.reservations.lookup id = some r → r.Storable

theorem AllSendable.answers {s : Engine D} (h : s.AllSendable) (req : CompositionRequest D) :
    s.Answers req (Linked D) PathEvidence.Sendable := by
  intro a b pe hpe
  rw [resolvePath, h.backends] at hpe
  have hanswer : SyntheticBackend.resolvePath (edgeRequirement req a b) = some pe := by
    rcases hr : SyntheticBackend.resolvePath (edgeRequirement req a b) with _ | pe'
    · simp [syntheticBackend, hr] at hpe
    · simpa [syntheticBackend, hr] using hpe
  have hsendable := SyntheticBackend.resolvePath_sendable (q := edgeRequirement req a b) rfl hanswer
  exact hsendable

omit [Double D] in
theorem sendable_buildGraph (req : CompositionRequest D) {set : List (Resource D)}
    (hlen : set.length ≤ 48) : (buildGraph req set).Sendable := by
  have hvertices := length_vertices_le req set
  obtain ⟨hedges, hkinds⟩ := buildGraph_edges req set
  have hpairs : set.length * set.length ≤ 48 * 48 := Nat.mul_le_mul hlen hlen
  -- both counts are below the bound of a table
  refine ⟨⟨?_, ?_, fun e he => (hkinds e he).1⟩, ?_⟩
  · unfold maxCount
    omega
  · unfold maxCount
    omega
  · refine short_flatMap.mpr fun e he => ?_
    obtain ⟨-, hprotocol, hfacet⟩ := hkinds e he
    rw [hprotocol, hfacet]
    decide

/-- The factors of a rank are four, with short names. -/
theorem sendable_rank (set : List (Resource D)) :
    (rank set).factors.length = 4 ∧ ∀ f ∈ (rank set).factors, Short [f.name, f.detail] := by
  refine ⟨rfl, ?_⟩
  simp only [rank, List.forall_mem_cons]
  refine ⟨?_, ?_, ?_, ?_, fun f hf => absurd hf List.not_mem_nil⟩
  all_goals decide +kernel

/-- The generations that a set within the bounds is bound to can be sent. -/
theorem storable_makeAuthority (gen : CompositionGeneration) (req : CompositionRequest D)
    {set : List (Resource D)} (nodes : UMap NodeId (Node D)) {paths : OrdMap Str (PathEvidence D)}
    (epoch : CoordinatorEpoch) (hlen : set.length ≤ 48) (hset : ∀ r ∈ set, r.Sendable)
    (hpaths : paths.size ≤ 12) : (makeAuthority gen req set nodes paths epoch).Storable := by
  have hhosts : (set.filterMap fun r => nodes.lookup r.nodeId).length ≤ 48 :=
    (List.length_filterMap_le _ _).trans hlen
  have hcaps : (set.flatMap fun r => r.capabilities.map (·.generation)).length ≤
      set.length * 16384 := by
    refine length_flatMap_le fun r hr => ?_
    rw [List.length_map]
    exact (hset r hr).capabilities
  have hcomps : (set.flatMap fun r => r.compatibility.map (·.generation)).length ≤
      set.length * 16384 := by
    refine length_flatMap_le fun r hr => ?_
    rw [List.length_map]
    exact (hset r hr).compatibility
  unfold OrdMap.size at hpaths
  -- each list has an entry for a member, a host, a capability, a claim or a path
  constructor <;> simp only [makeAuthority, List.length_map, maxCount]
  · exact (List.length_filter_le _ _).trans (by omega)
  all_goals first | omega | exact Nat.zero_le _

/-- **The plans that `Compose` returns can be sent.** -/
theorem sendable_compose {s : Engine D} (h : s.AllSendable) {req : CompositionRequest D}
    (hreq : req.Sendable) : (s.compose req).2.payload.Sendable := by
  obtain ⟨htable, hnone, hsome⟩ := compose_best (h.answers req) h.paths
  rcases hok : (s.compose req).2.ok with _ | _
  · rw [hnone hok]
    exact CompositionPlan.sendable_default
  obtain ⟨set, hlen, hmade, hauth⟩ := hsome hok
  obtain ⟨hfactors, hnames⟩ := sendable_rank set
  have hgraph := sendable_buildGraph req hlen
  have hvertices := length_vertices_le req set
  -- field by field, each read off the set the plan is made from
  refine ⟨?_, ?_, ?_, ?_, ?_, ?_, ?_, hmade.paths⟩
  · rw [hmade.nodes]
    exact (length_distinctNodes_le set).trans (by unfold maxCount; omega)
  · rw [hmade.request]
    exact hreq
  · rw [hmade.graph]
    exact hgraph
  · rw [hauth, hmade.graph]
    refine storable_makeAuthority _ _ _ _ ?_ ?_ htable.size_le
    · exact (List.length_filterMap_le _ _).trans (hvertices.trans hlen)
    · intro r hr
      obtain ⟨v, -, hv⟩ := List.mem_filterMap.mp hr
      exact h.resources v r hv
  · rw [hmade.rank, hfactors]
    decide
  · rw [hmade.rank]
    exact hnames
  · exact hmade.paths_length.trans hgraph.storable.edges_length

/-- What `Commit` returns can be sent. -/
theorem sendable_commit {s : Engine D} (h : s.AllSendable) (resIn : Reservation D) :
    (s.commit resIn).2.payload.Sendable := by
  unfold commit
  -- the composition under the id changes its lifecycle; every early exit answers the default
  split
  · exact Composition.sendable_default
  split
  · exact Composition.sendable_default
  split
  · exact Composition.sendable_default
  next comp hcomp =>
  split
  · exact Composition.sendable_default
  split
  · exact (h.compositions _ comp hcomp).update _ _
  · exact (h.compositions _ comp hcomp).update _ comp.outcome

/-- What `Activate` returns can be sent. -/
theorem sendable_activate {s : Engine D} (h : s.AllSendable) (id : CompositionId) :
    (s.activate id).2.payload.Sendable := by
  unfold activate
  -- the composition under the id changes its lifecycle; every early exit answers the default
  split
  · exact Composition.sendable_default
  next comp hcomp =>
  split
  · exact Composition.sendable_default
  split
  · exact Composition.sendable_default
  split
  · exact (h.compositions _ comp hcomp).update _ _
  · exact (h.compositions _ comp hcomp).update _ _

/-! ### Steps -/

variable [DoubleBits D]

/-- The reservations, by the effect of a step. -/
theorem AllSendable.reservations_step {s : Engine D} (h : s.AllSendable) {op : Op D}
    (hload : op.file? = none) (hplan : ∀ plan ∈ op.plan?, plan.Sendable) :
    ∀ id r, (s.step op).reservations.lookup id = some r → r.Storable := by
  have hreleased : Canonical ReservationState.released := by decide
  have hrolledBack : Canonical ReservationState.rolledBack := by decide
  have heff := s.step_effect op
  generalize s.step op = s' at heff ⊢
  -- a reservation is stored provisional, committed, rolled back or released
  cases heff with
  | quiet hq => rw [hq.reservations]; exact h.reservations
  | composed req paths _ => exact h.reservations
  | reserveFailed plan held items e _ => exact h.reservations
  | reserved plan held items _ _ hm =>
    have hlen := (hplan plan rfl).graph.storable.vertices
    exact UMap.forall_lookup_insert h.reservations (storable_newReservation hm hlen)
  | rolledBack resIn resv comp held reason hresv _ _ _ _ =>
    have hr := (h.reservations _ resv hresv).update hrolledBack
    exact UMap.forall_lookup_insert h.reservations hr
  | committed resIn resv comp held hresv _ _ _ _ _ =>
    exact UMap.forall_lookup_insert h.reservations (h.reservations _ resv hresv).committed
  | activated id' comp _ _ _ _ _ => exact h.reservations
  | ended id' comp fenced draining _ _ _ _ _ =>
    intro id r hr
    rcases lookup_reservations_endComposition id' hr with ⟨hr, -⟩ | ⟨-, r₀, hr₀, rfl⟩
    · exact h.reservations id r hr
    · exact (h.reservations id r₀ hr₀).update hreleased
  | loaded file d _ => cases hload

/-- **One step keeps everything sendable**, when what it publishes and reserves is, and it
leaves the paths to the topology. -/
theorem AllSendable.step {s : Engine D} (h : s.AllSendable) {op : Op D}
    (hload : op.file? = none) (hdiscover : op.isDiscover = false)
    (hresource : ∀ r ∈ op.resource?, r.Sendable) (hplan : ∀ plan ∈ op.plan?, plan.Sendable)
    (hbackends : (s.step op).backends = s.backends)
    (hpaths : TableHas (s.step op).paths (Linked D) PathEvidence.Sendable) :
    (s.step op).AllSendable where
  backends := hbackends.trans h.backends
  paths := hpaths
  resources := by
    refine forall_resources_step hdiscover hresource ?_ ?_ h.resources
    · exact fun _ r r' hs hset _ hr => hset.sendable hs hr
    · intro file hfile
      rw [hload] at hfile
      cases hfile
  compositions := by
    refine forall_compositions_step (fun _ _ l o hc => hc.update l o) ?_ ?_ h.compositions
    · exact fun plan hp => (hplan plan hp).newComposition s
    · intro file hfile
      rw [hload] at hfile
      cases hfile
  reservations := h.reservations_step hload hplan

end Engine

/-! ### The coordinator -/

namespace Deploy

variable [DoubleBits D]

omit [DoubleBits D] in
/-- A resource can be sent under the label of its worker. -/
theorem sendable_ownResource {r : Resource D} (h : r.Sendable) (boot : UInt64) :
    (ownResource boot r).Sendable := by
  have howner : (toDecimal boot).length ≤ 32768 := (length_toDecimal_le boot).trans (by decide)
  have hs := h.storable
  -- the label is no part of what makes a resource storable
  refine ⟨⟨hs.resourceClass, hs.health, hs.readiness, hs.reachability, hs.extra, hs.locality,
    hs.domainType, ⟨hs.evidence.source, hs.evidence.state⟩, hs.capabilities_length,
    hs.capabilities, hs.compatibility_length, hs.compatibility⟩, ?_, h.coords, h.capabilities,
    h.compatibility⟩
  -- the two strings that change are the label
  have htexts := h.texts
  simp only [Resource.texts, Evidence.texts, short_append, short_cons, short_nil] at htexts
  simp only [ownResource, Resource.texts, Evidence.texts, short_append, short_cons, short_nil]
  obtain ⟨⟨⟨⟨⟨⟨⟨hprovider, -⟩, hextra⟩, htags⟩, hname⟩, hprovenance, -⟩, hcaps⟩, hcomps⟩ := htexts
  exact ⟨⟨⟨⟨⟨⟨⟨hprovider, howner, trivial⟩, hextra⟩, htags⟩, hname⟩, hprovenance, howner, trivial⟩,
    hcaps⟩, hcomps⟩

/-- Of what a coordinator asks for, only planning writes the path table. -/
theorem Asks.paths {s : Engine D} {op : Op D} (hop : Asks op) :
    (s.step op).backends = s.backends ∧
      ((s.step op).paths = s.paths ∨ ∃ req, op = .compose req) := by
  -- only `Compose` writes paths, of the calls of a transaction
  have htransaction : op.isTransaction = true → (s.step op).backends = s.backends ∧
      ((s.step op).paths = s.paths ∨ ∃ req, op = .compose req) := fun h =>
    ⟨(s.transaction_tables h).1.backends, (s.transaction_tables h).2⟩
  cases hop with
  | @registerNode payload boot h =>
    generalize ownNode boot (decoded decodeNode payload : Node D) = n
    change (s.registerNode n).1.backends = _ ∧ ((s.registerNode n).1.paths = _ ∨ _)
    unfold Engine.registerNode
    obtain ⟨nodes, compositions, heq⟩ := s.ingestNode_eq n
    rw [heq]
    split <;> exact ⟨rfl, Or.inl rfl⟩
  | @registerResource payload boot h hlen =>
    generalize ownResource boot (decoded decodeResource payload : Resource D) = r
    change (s.registerResource r).1.backends = _ ∧ ((s.registerResource r).1.paths = _ ∨ _)
    unfold Engine.registerResource
    obtain ⟨resources, compositions, heq⟩ := s.ingestResource_eq r
    rw [heq]
    split <;> exact ⟨rfl, Or.inl rfl⟩
  | markEvidenceRevalidationRequired boot => exact ⟨rfl, Or.inl rfl⟩
  | _ => exact htransaction rfl

/-- What a coordinator asks for keeps everything sendable. -/
theorem Asks.allSendable {s : Engine D} (h : s.AllSendable) {op : Op D} (hop : Asks op) :
    (s.step op).AllSendable := by
  have hpaths : Engine.TableHas (s.step op).paths (Linked D) PathEvidence.Sendable := by
    rcases (hop.paths (s := s)).2 with heq | ⟨req, rfl⟩
    · rw [heq]
      exact h.paths
    · exact (Engine.compose_best (h.answers req) h.paths).1
  have hbackends := (hop.paths (s := s)).1
  -- two requests bring records in: a resource and a plan
  cases hop with
  | registerResource boot hacc hlen =>
    refine h.step rfl rfl ?_ (fun _ hp => by cases hp) hbackends hpaths
    rintro r hr
    cases hr
    exact sendable_ownResource (Resource.sendable_of_accepted hlen hacc) boot
  | reserve payload =>
    refine h.step rfl rfl (fun _ hr => by cases hr) ?_ hbackends hpaths
    rintro plan hp
    cases hp
    exact leaves_decodePlan.run _
  | _ => exact h.step rfl rfl (fun _ hr => by cases hr) (fun _ hp => by cases hp) hbackends hpaths

namespace Coordinator

theorem allSendable_onPathUpdate {s : Engine D} (h : s.AllSendable) {q : PathRequirement D}
    (hq : q.protocol = []) {pe : PathEvidence D} (hpe : SyntheticBackend.resolvePath q = some pe) :
    (s.onPathUpdate pe).AllSendable := by
  obtain ⟨hkey, hsendable⟩ := SyntheticBackend.resolvePath_sendable hq hpe
  have hrequirement : pe.requirement = q := by
    obtain ⟨p, -, rfl⟩ := SyntheticBackend.resolvePath_eq_some hpe
    rfl
  rw [← hrequirement] at hkey
  have hstep : (s.step (.onPathUpdate pe)).AllSendable :=
    h.step rfl rfl (fun _ hr => by cases hr) (fun _ hp => by cases hp) rfl
      (h.paths.insert hkey hsendable)
  exact hstep

theorem allSendable_seedPath {s : Engine D} (h : s.AllSendable) (a b : Node D) :
    (seedPath s a b).AllSendable := by
  unfold seedPath
  split
  · exact h
  split
  · next hpe => exact allSendable_onPathUpdate h rfl hpe
  · exact h

theorem allSendable_bootEngine : (bootEngine D).AllSendable := by
  -- the double loop over the nodes of the topology
  refine List.foldlRecOn _ _ ?_ fun s hs a _ => ?_
  · refine ⟨rfl, fun e he => absurd he List.not_mem_nil, ?_, ?_, ?_⟩
    all_goals
      intro id x hx
      cases hx
  · exact List.foldlRecOn _ _ hs fun s hs b _ => allSendable_seedPath hs a b

theorem allSendable_advanceEpoch {s : Engine D} (h : s.AllSendable) (next : CoordinatorEpoch) :
    (s.advanceEpoch next).AllSendable := by
  have hsame : (s.advanceEpoch next).backends = s.backends ∧
      (s.advanceEpoch next).paths = s.paths := by
    unfold Engine.advanceEpoch
    split <;> exact ⟨rfl, rfl⟩
  have hpaths : Engine.TableHas (s.advanceEpoch next).paths (Linked D) PathEvidence.Sendable := by
    rw [hsame.2]
    exact h.paths
  have hstep : (s.step (.advanceEpoch next)).AllSendable :=
    h.step rfl rfl (fun _ hr => by cases hr) (fun _ hp => by cases hp) hsame.1 hpaths
  exact hstep

/-- What a coordinator starts with can be sent. -/
theorem allSendable_start (epoch : CoordinatorEpoch) :
    (start D epoch none).engine.AllSendable := by
  dsimp only [start]
  exact allSendable_advanceEpoch allSendable_bootEngine epoch

/-- **What a coordinator stores can be sent**, in every run from a start without a
file. -/
theorem allSendable_run (epoch : CoordinatorEpoch) (inputs : List Input) :
    ((start D epoch none).run inputs).engine.AllSendable := by
  -- the run of the process is a run of its engine
  obtain ⟨ops, hasks, heq⟩ := engine_run (framed_start (D := D) epoch none) inputs
  rw [heq]
  exact List.foldlRecOn _ _ (allSendable_start epoch) fun s hs op hop =>
    (hasks op hop).allSendable hs

end Coordinator

end Deploy

end DFabric
