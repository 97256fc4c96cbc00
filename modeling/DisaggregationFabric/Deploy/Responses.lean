import DisaggregationFabric.Deploy.Inventory
import DisaggregationFabric.Engine.Admission

/-!
# Responses and their readers

A peer reads a response with the decoders that belong to the encoders of the coordinator:
the outcome and a record (`answer`), or the epoch and three counted tables
(`stateAnswer`). The encoders write every enumerator; the decoders refuse the zero ones.
So what matters is which values the engine puts into a response.

In every run, the responses to `COMPOSE_REQ`, `COMMIT_REQ` and `ACTIVATE_REQ` are read as
what was encoded, be it a success or a rejection. A rejected `RESERVE_REQ` is answered by
a default-constructed reservation, whose state is none, and a table that holds a resource
of a dead worker has the health unknown in it; neither is accepted.
`responses_readable_iff` says that this is all.
-/

namespace DFabric

namespace Deploy

open Wire Proto EnumTraits

variable {D : Type} [Double D] [DoubleBits D]

/-! ### What a peer reads -/

section Answers

variable {R : Type} [Inhabited R]

/-- The outcome, then a record. -/
def answer (d : Decoder R) : Decoder (UInt32 × R) := .block [
  Fill.u32 fun v a => (v, a.2),
  .into (·.2) (fun v a => (a.1, v)) d]

/-- The payload is written, and read by `d` as `y`; the rest of it is not looked at. -/
def ReadAs (d : Decoder R) (payload : List Token) (y : R) : Prop :=
  ∃ bs, write wireLimits payload = .ok bs ∧ accepted d bs = true ∧ decoded d bs = y

theorem ReadAs.of_reads {d : Decoder R} {ts us : List Token} {y : R}
    (h : Reads wireLimits d ts default y) (hts : Writable wireLimits ts)
    (hus : Writable wireLimits us) : ReadAs d (ts ++ us) y := by
  have hw : Writable wireLimits (ts ++ us) := writable_append.mpr ⟨hts, hus⟩
  have hrun := h.run hts (bytesOf us) 0
  refine ⟨bytesOf (ts ++ us), hw.write_eq, ?_, ?_⟩
  · rw [accepted, Reader.ofBytes, bytesOf_append, hrun]
  · rw [decoded, Reader.ofBytes, bytesOf_append, hrun]

theorem not_readAs_of_refuses {d : Decoder R} {ts us : List Token}
    (h : Refuses wireLimits d ts default) (hts : Writable wireLimits ts)
    (hus : Writable wireLimits us) (y : R) : ¬ ReadAs d (ts ++ us) y := by
  have hw : Writable wireLimits (ts ++ us) := writable_append.mpr ⟨hts, hus⟩
  rintro ⟨bs, hbs, hacc, -⟩
  rw [hw.write_eq] at hbs
  cases hbs
  rw [accepted, Reader.ofBytes, bytesOf_append, h.run hts] at hacc
  cases hacc

end Answers

/-- What a peer learns of the state. -/
structure StateAnswer (D : Type) where
  epoch : CoordinatorEpoch
  compositions : List (Composition D)
  reservations : List (Reservation D)
  resources : List (Resource D)

instance : Inhabited (StateAnswer D) := ⟨⟨default, [], [], []⟩⟩

/-- The epoch, then three tables; their counts are not bounded. -/
def stateAnswer : Decoder (StateAnswer D) := .block [
  Fill.u64 fun v a => { a with epoch := ⟨v⟩ },
  .collect 0xFFFFFFFF (·.compositions) (fun v a => { a with compositions := v })
    (fun l c => l ++ [c]) decodeComposition,
  .collect 0xFFFFFFFF (·.reservations) (fun v a => { a with reservations := v })
    (fun l r => l ++ [r]) decodeReservation,
  .collect 0xFFFFFFFF (·.resources) (fun v a => { a with resources := v })
    (fun l r => l ++ [r]) decodeResource]

/-- The peer reads the response to the frame as what the coordinator has encoded. -/
def Readable (s : Engine D) (c : Session) (f : Frame) : Prop :=
  let replied {R : Type} [Inhabited R] (type : FrameType) (d : Decoder R) (y : R) : Prop :=
    ∃ payload, (handle s c f).replies = [⟨type, f.correlation, payload⟩] ∧ ReadAs d payload y
  match f.type with
  | .composeReq =>
    let cr := (s.compose (decoded decodeRequest f.payload)).2
    replied .composeResp (answer decodePlan) (value cr.outcome, cr.payload)
  | .reserveReq =>
    let rr := (s.reserve (decoded decodePlan f.payload)).2
    replied .reserveResp (answer decodeReservation) (value rr.outcome, rr.payload)
  -- of a composition the factors of the rank are not encoded
  | .commitReq =>
    let cc := (s.commit (decoded decodeReservation f.payload)).2
    replied .commitResp (answer decodeComposition) (value cc.outcome, cc.payload.sent)
  | .activateReq =>
    let ar := (s.activate ⟨leadingU64 f.payload⟩).2
    replied .activateResp (answer decodeComposition) (value ar.outcome, ar.payload.sent)
  | .queryState =>
    replied .stateResp stateAnswer
      ⟨s.epoch, s.compositions.values.map Composition.sent, s.reservations.values,
        s.resources.values⟩
  | _ => True

/-- The tables have as many entries as a count can say. -/
structure CountsFit (s : Engine D) : Prop where
  compositions : s.compositions.values.length < 2 ^ 32
  reservations : s.reservations.values.length < 2 ^ 32
  resources : s.resources.values.length < 2 ^ 32

/-- What it takes: a `RESERVE_REQ` is for a plan that is up for reservation and whose
members can all be held; at a `QUERY_STATE` the counts fit into their words and no
resource is of unknown health. -/
def ReadableWhen (s : Engine D) (f : Frame) : Prop :=
  match f.type with
  | .reserveReq =>
    let plan : CompositionPlan D := decoded decodePlan f.payload
    plan.lifecycle = .planned ∧ plan.id.isValid = true ∧
      ¬ ∃ pre v post, plan.graph.vertices = pre ++ v :: post ∧
        s.Refused plan.request s.reservedAmount pre v
  | .queryState =>
    CountsFit s ∧ ∀ r ∈ s.resources.values, r.health ≠ .unknown
  | _ => True

/-! ### Outcome and record -/

section Answer

variable {R : Type} [Inhabited R] {d : Decoder R} {ts us : List Token} {y : R}

theorem flatten_answer (o : CompositionOutcome) (ts us : List Token) :
    List.flatten [Write.enum o, ts, us] = [Write.enum o, ts].flatten ++ us := by
  simp

theorem writable_answer (o : CompositionOutcome) (hts : Writable wireLimits ts) :
    Writable wireLimits [Write.enum o, ts].flatten := by
  simp [hts]

theorem readAs_answer (o : CompositionOutcome) (h : Reads wireLimits d ts default y)
    (hts : Writable wireLimits ts) (hus : Writable wireLimits us) :
    ReadAs (answer d) [Write.enum o, ts, us].flatten (value o, y) := by
  have hanswer : Reads wireLimits (answer d) [Write.enum o, ts].flatten default (value o, y) := by
    refine .cons (reads_u32 _ (value o) _) ?_
    refine .cons (.into h) ?_
    dsimp only [put]
    exact .nil _
  rw [flatten_answer]
  exact .of_reads hanswer (writable_answer o hts) hus

theorem not_readAs_answer (o : CompositionOutcome) (h : Refuses wireLimits d ts default)
    (hts : Writable wireLimits ts) (hus : Writable wireLimits us) (y : UInt32 × R) :
    ¬ ReadAs (answer d) [Write.enum o, ts, us].flatten y := by
  have hanswer : Refuses wireLimits (answer d) [Write.enum o, ts].flatten default := by
    refine .cons (reads_u32 _ (value o) _) ?_
    exact .head (.into h)
  rw [flatten_answer]
  exact not_readAs_of_refuses hanswer (writable_answer o hts) hus y

end Answer

section Lawful

variable [LawfulDoubleBits D] {s : Engine D}

theorem compose_readAs (h : s.AllSendable) (payload : List UInt8) :
    let cr := (s.compose (decoded decodeRequest payload)).2
    ReadAs (answer decodePlan) (composeReply cr) (value cr.outcome, cr.payload) := by
  have hreq : (decoded decodeRequest payload : CompositionRequest D).Sendable :=
    leaves_decodeRequest.run _
  have hplan := Engine.sendable_compose h hreq
  exact readAs_answer _ hplan.reads hplan.writable (writable_counted.mpr fun r _ => writable_enum r)

theorem composition_readAs {cc : Result (Composition D)} (h : cc.payload.Sendable) :
    ReadAs (answer decodeComposition) (compositionReply cc)
      (value cc.outcome, cc.payload.sent) := by
  have hread := readAs_answer cc.outcome h.reads h.writable writable_nil
  rwa [flatten_answer, List.append_nil] at hread

/-- **A reservation is read exactly when it was made.** -/
theorem reserve_readAs_iff {plan : CompositionPlan D} (hplan : plan.Sendable) :
    ReadAs (answer decodeReservation) (reserveReply (s.reserve plan).2)
        (value (s.reserve plan).2.outcome, (s.reserve plan).2.payload) ↔
      (s.reserve plan).2.ok = true := by
  have hreasons : Writable wireLimits ((s.reserve plan).2.reasons.flatMap Write.enum) :=
    List.forall_mem_flatMap.mpr fun r _ => writable_enum r
  rcases hok : (s.reserve plan).2.ok with _ | _
  -- a rejection carries a default-constructed reservation
  · refine iff_of_false ?_ Bool.false_ne_true
    obtain ⟨reason, notes, hrejected⟩ := Engine.reserve_rejected hok
    rw [hrejected] at hreasons ⊢
    rw [reserveReply]
    exact not_readAs_answer _ refuses_default_reservation (writable_encodeReservation _) hreasons _
  · refine iff_of_true ?_ rfl
    obtain ⟨held, items, hm, heq⟩ := Engine.reserve_ok hok
    rw [heq]
    have hstorable := Engine.storable_newReservation hm hplan.graph.storable.vertices
    exact readAs_answer _ (reads_decodeReservation hstorable) (writable_encodeReservation _)
      writable_nil

/-! ### The state -/

/-- A table whose entries are read back is read back. -/
theorem reads_table {R A B : Type} [Inhabited A] {get : R → List A} {set : List A → R → R}
    {d : Decoder A} {l : List B} {entry : B → List Token} {f : B → A} {x : R}
    (hacc : Accessor get set) (hget : get x = []) (hlen : l.length < 2 ^ 32)
    (hd : ∀ b ∈ l, Reads wireLimits d (entry b) default (f b)) :
    Reads wireLimits (.collect 0xFFFFFFFF get set (fun l a => l ++ [a]) d) (counted l entry) x
      (put set (l.map f) x) := by
  have hmax : l.length ≤ (0xFFFFFFFF : UInt32).toNat := Nat.le_of_lt_succ hlen
  have h : Reads wireLimits (.collect 0xFFFFFFFF get set (fun l a => l ++ [a]) d) (counted l entry)
      x (put set ((l.map f).foldl (fun l a => l ++ [a]) (get x)) x) := .collect hacc hmax hd
  rwa [foldl_push, hget, List.nil_append] at h

omit [LawfulDoubleBits D] in
/-- A count says less than `2 ^ 32`. -/
theorem yields_stateAnswer :
    Yields stateAnswer (default : StateAnswer D) fun a =>
      a.compositions.length < 2 ^ 32 ∧ a.reservations.length < 2 ^ 32 ∧
        a.resources.length < 2 ^ 32 := by
  refine .cons (.read fun _ => ?_)
  refine .cons (.collect ⟨rfl, rfl, rfl⟩ (.trivially ..) fun comps hcomps _ => ?_)
  refine .cons (.collect ⟨rfl, rfl, rfl⟩ (.trivially ..) fun resvs hresvs _ => ?_)
  refine .cons (.collect ⟨rfl, rfl, rfl⟩ (.trivially ..) fun ress hress _ => ?_)
  rw [foldl_push, foldl_push, foldl_push]
  exact .nil ⟨Nat.lt_succ_of_le hcomps, Nat.lt_succ_of_le hresvs, Nat.lt_succ_of_le hress⟩

omit [LawfulDoubleBits D] in
theorem writable_stateReply (h : s.AllSendable) :
    Writable wireLimits (stateReply (registrySnapshot s)) := by
  simp only [stateReply, registrySnapshot, List.flatten_cons, List.flatten_nil, writable_append,
    writable_counted, writable_word, writable_nil, true_and, and_true]
  refine ⟨?_, fun r _ => writable_encodeReservation r, ?_⟩
  · exact UMap.forall_values fun id c hid => (h.compositions id c hid).writable
  · exact UMap.forall_values fun id r hid => (h.resources id r hid).writable

theorem reads_compositions (h : s.AllSendable) :
    ∀ c ∈ s.compositions.values,
      Reads wireLimits decodeComposition (encodeComposition c) default c.sent :=
  UMap.forall_values fun id c hid => (h.compositions id c hid).reads

theorem reads_reservations (h : s.AllSendable) :
    ∀ r ∈ s.reservations.values,
      Reads wireLimits decodeReservation (encodeReservation r) default r :=
  UMap.forall_values fun id r hid => reads_decodeReservation (h.reservations id r hid)

/-- When the counts fit and every health is known, the state is read. -/
theorem reads_stateAnswer (h : s.AllSendable) (hfit : CountsFit s)
    (hhealth : ∀ r ∈ s.resources.values, r.health ≠ .unknown) :
    Reads wireLimits stateAnswer (stateReply (registrySnapshot s)) default
      ⟨s.epoch, s.compositions.values.map Composition.sent, s.reservations.values,
        s.resources.values⟩ := by
  have hress : ∀ r ∈ s.resources.values,
      Reads wireLimits decodeResource (encodeResource r) default r := by
    intro r hr
    exact (UMap.forall_values h.resources r hr).reads (hhealth r hr)
  refine .cons (reads_u64 ..) ?_
  refine .cons (reads_table ⟨rfl, rfl, rfl⟩ rfl hfit.compositions (reads_compositions h)) ?_
  refine .cons (reads_table ⟨rfl, rfl, rfl⟩ rfl hfit.reservations (reads_reservations h)) ?_
  refine .cons (reads_table ⟨rfl, rfl, rfl⟩ rfl hfit.resources hress) ?_
  -- reservations and resources are read as they are, compositions as they are sent
  dsimp only [put, registrySnapshot]
  rw [List.map_id', List.map_id']
  exact .nil _

/-- With a resource of unknown health, the state is refused. -/
theorem refuses_stateAnswer (h : s.AllSendable) (hfit : CountsFit s) {r : Resource D}
    (hr : r ∈ s.resources.values) (hunknown : r.health = .unknown) :
    Refuses wireLimits stateAnswer (stateReply (registrySnapshot s)) (default : StateAnswer D) := by
  have hress : ∀ r ∈ s.resources.values, r.Sendable := UMap.forall_values h.resources
  -- the loop comes as far as the first of them: every resource is read or refused
  have hentries : ∀ r ∈ s.resources.values,
      Reads wireLimits decodeResource (encodeResource r) default r ∨
        Refuses wireLimits decodeResource (encodeResource r) (default : Resource D) := by
    intro r hr
    by_cases hhealth : r.health = .unknown
    · exact Or.inr ((hress r hr).refuses hhealth)
    · exact Or.inl ((hress r hr).reads hhealth)
  refine .cons (reads_u64 ..) ?_
  refine .cons (reads_table ⟨rfl, rfl, rfl⟩ rfl hfit.compositions (reads_compositions h)) ?_
  refine .cons (reads_table ⟨rfl, rfl, rfl⟩ rfl hfit.reservations (reads_reservations h)) ?_
  exact .head (.collect hfit.resources hentries ⟨r, hr, (hress r hr).refuses hunknown⟩)

/-- **The state is read exactly when the counts fit and no health is unknown.** -/
theorem state_readAs_iff (h : s.AllSendable) :
    ReadAs stateAnswer (stateReply (registrySnapshot s))
        ⟨s.epoch, s.compositions.values.map Composition.sent, s.reservations.values,
          s.resources.values⟩ ↔
      CountsFit s ∧ ∀ r ∈ s.resources.values, r.health ≠ .unknown := by
  constructor
  · intro hread
    -- lists that come out of the decoder are as long as a count can say
    have hfit : CountsFit s := by
      obtain ⟨bs, -, hacc, hdecoded⟩ := hread
      have hcounts := yields_stateAnswer.run (Reader.ofBytes bs) hacc
      rw [show (stateAnswer (default : StateAnswer D) (Reader.ofBytes bs)).2.1 = _ from hdecoded,
        List.length_map] at hcounts
      exact ⟨hcounts.1, hcounts.2.1, hcounts.2.2⟩
    refine ⟨hfit, ?_⟩
    intro r hr hunknown
    have hnot := not_readAs_of_refuses (refuses_stateAnswer h hfit hr hunknown)
      (writable_stateReply h) writable_nil
    rw [List.append_nil] at hnot
    exact hnot _ hread
  · rintro ⟨hfit, hhealth⟩
    have hread := ReadAs.of_reads (reads_stateAnswer h hfit hhealth) (writable_stateReply h)
      writable_nil
    rwa [List.append_nil] at hread

/-! ### The result -/

/-- The response to a frame is there, so whether it is readable is a matter of its
payload. -/
theorem replied_iff {R : Type} [Inhabited R] {replies : List Reply} {type : FrameType}
    {corr : UInt64} {payload : List Token} {d : Decoder R} {y : R}
    (hreplies : replies = [⟨type, corr, payload⟩]) :
    (∃ payload, replies = [⟨type, corr, payload⟩] ∧ ReadAs d payload y) ↔ ReadAs d payload y := by
  constructor
  · rintro ⟨payload', heq, hread⟩
    rw [hreplies] at heq
    cases heq
    exact hread
  · exact fun hread => ⟨payload, hreplies, hread⟩

/-- The responses of an engine whose records can be sent. -/
theorem readable_iff (h : s.AllSendable) (c : Session) (f : Frame) :
    Readable s c f ↔ ReadableWhen s f := by
  obtain ⟨type, corr, payload⟩ := f
  -- a request without a reply has none to read
  cases type with
  | composeReq => exact (replied_iff rfl).trans (iff_of_true (compose_readAs h payload) trivial)
  | reserveReq =>
    have hplan : (decoded decodePlan payload : CompositionPlan D).Sendable :=
      leaves_decodePlan.run _
    exact (replied_iff rfl).trans ((reserve_readAs_iff hplan).trans (Engine.reserve_ok_iff _))
  | commitReq =>
    exact (replied_iff rfl).trans
      (iff_of_true (composition_readAs (Engine.sendable_commit h _)) trivial)
  | activateReq =>
    exact (replied_iff rfl).trans
      (iff_of_true (composition_readAs (Engine.sendable_activate h _)) trivial)
  | queryState => exact (replied_iff rfl).trans (state_readAs_iff h)
  | _ => exact Iff.rfl

/-- **Which responses a peer can read.** In every state that a coordinator reaches from a
start without a file, the response to a frame is read as what was encoded exactly when
`ReadableWhen` holds: always for `COMPOSE_REQ`, `COMMIT_REQ` and `ACTIVATE_REQ`; for a
`RESERVE_REQ` when the plan is up for reservation and every member can be held; for a
`QUERY_STATE` when the counts fit and no resource is of unknown health. -/
theorem responses_readable_iff (epoch : CoordinatorEpoch) (inputs : List Input) (c : Session)
    (f : Frame) :
    Readable ((Coordinator.start D epoch none).run inputs).engine c f ↔
      ReadableWhen ((Coordinator.start D epoch none).run inputs).engine f :=
  readable_iff (Coordinator.allSendable_run epoch inputs) c f

end Lawful

/-- A worker connects and publishes a resource. -/
def publishing : List Input := [
  .accept 0,
  .received 0 (encode .hello 1 (bytesOf [.u64 7]) ++
    encode .publishResource 2 (bytesOf (encodeResource sampleAccelerator))),
  .serve 0 true, .serve 0 true]

/-- A `QUERY_STATE`. -/
def stateQuery : Frame := ⟨.queryState, 3, []⟩

/-- The state with the resource is read. -/
theorem stateQuery_readable :
    ReadableWhen ((Coordinator.start Binary64 ⟨1⟩ none).run publishing).engine stateQuery ∧
      Readable ((Coordinator.start Binary64 ⟨1⟩ none).run publishing).engine default stateQuery := by
  have hwhen : ReadableWhen ((Coordinator.start Binary64 ⟨1⟩ none).run publishing).engine
      stateQuery :=
    ⟨⟨by decide +kernel, by decide +kernel, by decide +kernel⟩, by decide +kernel⟩
  exact ⟨hwhen, (responses_readable_iff ⟨1⟩ publishing default stateQuery).mpr hwhen⟩

/-- A `RESERVE_REQ` for the plan that a rejected `COMPOSE_REQ` is answered with. -/
def emptyPlanReserve : Frame :=
  ⟨.reserveReq, 1, bytesOf (encodePlan (default : CompositionPlan Binary64))⟩

/-- **A rejection cannot be read.** A client reserves a plan without an id; the response
that rejects it holds a reservation in no state, which `DecodeReservation` refuses. -/
theorem rejected_reserve_unreadable :
    ¬ ∀ (epoch : CoordinatorEpoch) (inputs : List Input) (c : Session) (f : Frame),
      Readable ((Coordinator.start Binary64 epoch none).run inputs).engine c f := by
  intro h
  have hwhen := (readable_iff (Coordinator.allSendable_run ⟨1⟩ []) default emptyPlanReserve).mp
    (h ⟨1⟩ [] default emptyPlanReserve)
  have hzero : (decoded decodePlan emptyPlanReserve.payload :
      CompositionPlan Binary64).id.isValid = false := by decide +kernel
  exact Bool.false_ne_true (hzero.symm.trans hwhen.2.1)

end Deploy

end DFabric
