import DisaggregationFabric.Codec.Roundtrip
import DisaggregationFabric.Engine.Tables
import DisaggregationFabric.Safety.Authority

/-!
# Whatever is saved can be loaded

`Save` writes every enumerator and most counts unchecked, and `Load` refuses what is
not canonical or beyond the bound, and with it the whole file. The two agree as long
as everything stored is *storable* (`AllStorable`): then what is saved is read back
(`loadImpl_saveImpl`).

Records that come out of a decoder are storable, and the events keep them so, with
one exception: when a worker dies, its resources are given the health `unknown`,
which the reader refuses (`worker_death_spoils_file`). What is left is the size of
things: the tables, and the plans that are stored as compositions. Where no marking
hits a stored resource, every plan reserved is storable and the tables are within
the bound, the file of every run can be loaded (`load_of_save`).
-/

namespace DFabric

open Wire EnumTraits

variable {D : Type}

/-! ### Storable records under the operations -/

/-- Whether a composition is storable does not depend on its lifecycle and outcome. -/
theorem Composition.Storable.update {c : Composition D} (h : c.Storable)
    (l : CompositionLifecycle) (o : CompositionOutcome) :
    ({ c with lifecycle := l, outcome := o } : Composition D).Storable where
  nodes := h.nodes
  request := h.request
  graph := h.graph
  authority := h.authority
  paths_length := h.paths_length
  paths := h.paths

/-- A resource stays storable under an event, unless the event makes its health
unknown. -/
theorem SetsStatus.storable {op : Op D} {r r' : Resource D} (hs : StatusOnly r r')
    (hset : SetsStatus op r r')
    (hmark : ∀ owner, op = .markEvidenceRevalidationRequired owner →
      Engine.ownedBy owner r = false) (h : r.Storable) : r'.Storable := by
  have hhealth : Canonical r'.health := by
    rcases hset.health with heq | heq | ⟨owner, hop, hown⟩
    · rw [heq]; exact h.health
    · rw [heq]; decide
    · rw [hmark owner hop] at hown; cases hown
  have hready : Canonical r'.readiness := by
    rcases hset.readiness with heq | heq
    · rw [heq]; exact h.readiness
    · rw [heq]; decide
  have hreach : Canonical r'.reachability := by
    rcases hset.reachability with heq | heq
    · rw [heq]; exact h.reachability
    · rw [heq]; decide
  have hstate : Canonical r'.evidence.state := by
    rcases hset.evidence with heq | heq
    · rw [heq]; exact h.evidence.state
    · rw [heq]; decide
  have hsource : Canonical r'.evidence.source := by rw [hs]; exact h.evidence.source
  -- the fields no event touches are those of before
  refine ⟨?_, hhealth, hready, hreach, ?_, ?_, ?_, ⟨hsource, hstate⟩, ?_, ?_, ?_, ?_⟩
  all_goals rw [hs]
  · exact h.resourceClass
  · exact h.extra
  · exact h.locality
  · exact h.domainType
  · exact h.capabilities_length
  · exact h.capabilities
  · exact h.compatibility_length
  · exact h.compatibility

variable [Double D] [DoubleBits D]

/-- A node that `DecodeNode` has accepted. -/
def DecodedNode (n : Node D) : Prop :=
  ∃ r, (decodeNode (default : Node D) r).1 = true ∧ (decodeNode (default : Node D) r).2.1 = n

/-- A resource that `DecodeResource` has accepted, up to the label that `Discover`
puts on it. -/
def DecodedResource (res : Resource D) : Prop :=
  ∃ r, (decodeResource (default : Resource D) r).1 = true ∧
    res = { (decodeResource (default : Resource D) r).2.1 with synthetic := res.synthetic }

/-- What `DecodeNode` accepts is storable. -/
theorem DecodedNode.storable {n : Node D} (h : DecodedNode n) : n.Storable := by
  obtain ⟨r, hok, rfl⟩ := h
  exact yields_decodeNode.run r hok

theorem DecodedResource.of_decode {r : Reader}
    (h : (decodeResource (default : Resource D) r).1 = true) :
    DecodedResource (decodeResource (default : Resource D) r).2.1 := ⟨r, h, rfl⟩

/-- What `DecodeResource` accepts is storable, under any label. -/
theorem DecodedResource.storable {res : Resource D} (h : DecodedResource res) : res.Storable := by
  obtain ⟨r, hok, heq⟩ := h
  have hs := yields_decodeResource.run r hok
  rw [heq]
  exact ⟨hs.resourceClass, hs.health, hs.readiness, hs.reachability, hs.extra, hs.locality,
    hs.domainType, hs.evidence, hs.capabilities_length, hs.capabilities, hs.compatibility_length,
    hs.compatibility⟩

omit [Double D] [DoubleBits D] in
/-- A resource is as storable after a load as it was in the file. -/
theorem storable_importResource {r : Resource D} (h : r.Storable) :
    (Engine.importResource r).Storable := by
  unfold Engine.importResource
  split
  · have hstate : Canonical EvidenceState.revalidationRequired := by decide
    exact h.update h.health ⟨h.evidence.source, hstate⟩
  · exact h

namespace Engine

/-! ### What the engine stores -/

/-- Every record the engine stores is storable. -/
structure AllStorable (s : Engine D) : Prop where
  nodes : ∀ id n, s.nodes.lookup id = some n → n.Storable
  resources : ∀ id r, s.resources.lookup id = some r → r.Storable
  compositions : ∀ id c, s.compositions.lookup id = some c → c.Storable

/-- The worker boot whose death an operation reports. -/
def marked? : Op D → Option WorkerBootId
  | .markEvidenceRevalidationRequired owner => some owner
  | _ => none

/-- What the operation publishes has come out of a decoder. -/
structure PublishesDecoded (op : Op D) : Prop where
  nodes : ∀ n ∈ op.node?, DecodedNode n
  resources : ∀ r ∈ op.resource?, DecodedResource r

/-- The operation stores what can be read back. -/
structure KeepsStorable (s : Engine D) (op : Op D) : Prop where
  published : PublishesDecoded op
  /-- The worker that died owned the evidence of no stored resource. -/
  marked : ∀ owner ∈ marked? op, ∀ r ∈ s.resources.values, ownedBy owner r = false
  /-- The plan can be stored. -/
  plan : ∀ plan ∈ op.plan?, plan.Storable

/-- The tables are within the bound of the reader. -/
structure WithinBound (s : Engine D) : Prop where
  nodes : s.nodes.values.length ≤ maxCount
  resources : s.resources.values.length ≤ maxCount
  policies : s.policies.size ≤ maxCount
  compositions : s.compositions.values.length ≤ maxCount

omit [Double D] [DoubleBits D] in
/-- What a storable engine saves is storable. -/
theorem AllStorable.snapshot {s : Engine D} (h : s.AllStorable) (hb : s.WithinBound) :
    s.snapshot.Storable where
  nodes_length := hb.nodes
  nodes := UMap.forall_values h.nodes
  resources_length := hb.resources
  resources := UMap.forall_values h.resources
  policies := hb.policies
  compositions_length := hb.compositions
  compositions := UMap.forall_values h.compositions

/-- The nodes, by the change of the tables. -/
theorem AllStorable.nodes_step {s : Engine D} (h : s.AllStorable) {op : Op D}
    (hop : op.isDiscover = false) (hpub : PublishesDecoded op) :
    ∀ id n, (s.step op).nodes.lookup id = some n → n.Storable := by
  have htab := s.step_tables hop
  generalize s.step op = s' at htab ⊢
  -- a node is ingested, or all of them are read from a file
  cases htab with
  | same _ hn _ _ => rw [hn]; exact h.nodes
  | node n hop₁ _ hn _ _ _ =>
    rw [hn]
    exact UMap.forall_lookup_insert h.nodes (hpub.nodes n hop₁).storable
  | resource _ _ _ hn _ _ _ => rw [hn]; exact h.nodes
  | status _ _ _ _ hn _ _ => rw [hn]; exact h.nodes
  | policy _ _ _ _ hn _ _ _ => rw [hn]; exact h.nodes
  | loaded file d _ hd hs =>
    rw [hs]
    exact fun id n hn => (storable_of_loadImpl hd).nodes n (UMap.lookup_ofValues hn).1

/-- **One step keeps everything storable.** -/
theorem AllStorable.step {s : Engine D} (h : s.AllStorable) {op : Op D}
    (hop : op.isDiscover = false) (hkeep : KeepsStorable s op) : (s.step op).AllStorable where
  nodes := h.nodes_step hop hkeep.published
  resources := by
    refine forall_resources_step hop ?_ ?_ ?_ h.resources
    · exact fun r hr => (hkeep.published.resources r hr).storable
    · -- an event writes the status, and a dead worker the evidence
      intro _ r r' hs hset hmem hr
      refine hset.storable hs ?_ hr
      intro owner hmark
      exact hkeep.marked owner (by rw [hmark]; rfl) r hmem
    · exact fun _ _ d hd r hr => storable_importResource ((storable_of_loadImpl hd).resources r hr)
  compositions := by
    refine forall_compositions_step (fun _ _ l o hc => hc.update l o) ?_ ?_ h.compositions
    · -- a new composition has the records of its plan
      intro plan hplan
      have hp := hkeep.plan plan hplan
      exact ⟨hp.nodes, hp.request, hp.graph, hp.authority, hp.paths_length, hp.paths⟩
    · exact fun _ _ d hd c hc => (storable_of_loadImpl hd).compositions c hc

/-- **Whatever is saved can be loaded**, in every run in which all published records
have come out of a decoder, no stored resource is marked by the death of its worker,
and every plan reserved is storable: if the tables are within the bound and `Save`
succeeds, any fresh engine accepts the file. -/
theorem load_of_save (cfg cfg' : EngineConfig) (ops : List (Op D)) (file : List UInt8)
    (hkeep : Along (ThroughDiscover KeepsStorable) (fresh cfg) ops)
    (hbound : ((fresh cfg).run ops).WithinBound) (hsave : ((fresh cfg).run ops).save = .ok file) :
    ((fresh cfg' : Engine D).load file).2 = .ok () := by
  -- what `Load` refuses is in no table of the engine
  have hinv : ((fresh cfg).run ops).AllStorable := by
    refine Machine.invariant_of_along ?_ ?_ hkeep
    · constructor
      all_goals
        intro id x hx
        simp [fresh] at hx
    · intro s op hs hop
      refine step_invariant (fun s paths hs => ?_) (fun s op hd hs hC => hs.step hd hC) hs hop
      exact ⟨hs.nodes, hs.resources, hs.compositions⟩
  have hload : loadImpl file = .ok ((fresh cfg).run ops).snapshot.persisted :=
    loadImpl_saveImpl (hinv.snapshot hbound) hsave
  rw [load, hload]

/-! ### A worker that dies -/

/-- The bytes of the sample resource, with evidence owned by a worker boot. -/
def memoryBytes (owner : WorkerBootId) : List UInt8 :=
  bytesOf (writeResource { sampleMemory ⟨1⟩ 64 with
    evidence := { (sampleMemory ⟨1⟩ 64).evidence with owner := owner.toStr } })

/-- That resource, as the decoder returns it. -/
def decodedMemory (owner : WorkerBootId) : Resource ℚ :=
  (decodeResource (default : Resource ℚ) (Reader.ofBytes (memoryBytes owner))).2.1

theorem decodedMemory_decoded : DecodedResource (decodedMemory ⟨7⟩) := by
  have hok : (decodeResource (default : Resource ℚ) (Reader.ofBytes (memoryBytes ⟨7⟩))).1 =
      true := by decide +kernel
  exact .of_decode hok

/-- The engine with that resource. -/
def durableEngine : Engine ℚ := (fresh sampleConfig).step (.registerResource (decodedMemory ⟨7⟩))

/-- The plan that engine returns. -/
def durablePlan : CompositionPlan ℚ := (durableEngine.compose (sampleRequest 32)).2.payload

theorem durablePlan_storable : durablePlan.Storable := by decide +kernel

/-- A transaction, then a failure and the death of another worker. -/
def durableOps : List (Op ℚ) := [
  .registerResource (decodedMemory ⟨7⟩), .compose (sampleRequest 32), .reserve durablePlan,
  .commit (sampleReservation ⟨1⟩), .activate ⟨1⟩, .onResourceFailure ⟨1⟩,
  .markEvidenceRevalidationRequired ⟨8⟩]

/-- An operation that publishes nothing, reserves nothing and marks nothing. -/
theorem KeepsStorable.of_other {s : Engine D} {op : Op D} (hn : op.node? = none)
    (hr : op.resource? = none) (hm : marked? op = none) (hp : op.plan? = none) :
    KeepsStorable s op where
  published := ⟨by simp [hn], by simp [hr]⟩
  marked := by simp [hm]
  plan := by simp [hp]

theorem durableOps_keepsStorable :
    Along (ThroughDiscover KeepsStorable) (fresh sampleConfig) durableOps := by
  -- one operation after the other; three of them have something to check
  refine ⟨.of_not_discover rfl ⟨⟨?_, ?_⟩, ?_, ?_⟩, .of_not_discover rfl (.of_other rfl rfl rfl rfl),
    .of_not_discover rfl ⟨⟨?_, ?_⟩, ?_, ?_⟩, .of_not_discover rfl (.of_other rfl rfl rfl rfl),
    .of_not_discover rfl (.of_other rfl rfl rfl rfl),
    .of_not_discover rfl (.of_other rfl rfl rfl rfl), .of_not_discover rfl ⟨⟨?_, ?_⟩, ?_, ?_⟩,
    trivial⟩
  · exact fun n hn => by cases hn
  · rintro r hr
    cases hr
    exact decodedMemory_decoded
  · exact fun owner ho => by cases ho
  · exact fun plan hp => by cases hp
  · exact fun n hn => by cases hn
  · exact fun r hr => by cases hr
  · exact fun owner ho => by cases ho
  · rintro plan hp
    cases hp
    exact durablePlan_storable
  · exact fun n hn => by cases hn
  · exact fun r hr => by cases hr
  · rintro owner ho
    cases ho
    decide +kernel
  · exact fun plan hp => by cases hp

/-- The file of that run can be loaded. -/
theorem sample_load_of_save :
    ((fresh sampleConfig : Engine ℚ).load ((fresh sampleConfig).run durableOps).savedFile).2 =
      .ok () :=
  load_of_save sampleConfig sampleConfig durableOps _ durableOps_keepsStorable
    ⟨by decide +kernel, by decide +kernel, by decide +kernel, by decide +kernel⟩
    (save_eq_savedFile (by decide +kernel))

/-- **The death of a worker spoils the file.** A decoded resource is registered and its
worker dies; `Save` succeeds, and no engine accepts what it has written. -/
theorem worker_death_spoils_file :
    ¬ ∀ (cfg cfg' : EngineConfig) (ops : List (Op ℚ)) (file : List UInt8),
      Along (ThroughDiscover fun _ op => PublishesDecoded op) (fresh cfg) ops →
      ((fresh cfg).run ops).save = .ok file →
      ((fresh cfg' : Engine ℚ).load file).2 = .ok () := by
  intro h
  have hload := h sampleConfig sampleConfig
    [.registerResource (decodedMemory ⟨7⟩), .markEvidenceRevalidationRequired ⟨7⟩] _
    ⟨.of_not_discover rfl ⟨?_, ?_⟩, .of_not_discover rfl ⟨?_, ?_⟩, trivial⟩
    (save_eq_savedFile (by decide +kernel))
  · -- the file has an evidence state that `Load` does not know
    have hrefused : ((fresh sampleConfig : Engine ℚ).load
        ((fresh sampleConfig).run [.registerResource (decodedMemory ⟨7⟩),
          .markEvidenceRevalidationRequired ⟨7⟩]).savedFile).2.isOk = false := by decide +kernel
    rw [hload] at hrefused
    cases hrefused
  · exact fun n hn => by cases hn
  · rintro r hr
    cases hr
    exact decodedMemory_decoded
  · exact fun n hn => by cases hn
  · exact fun r hr => by cases hr

end Engine

end DFabric
