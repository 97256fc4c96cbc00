import DisaggregationFabric.Backends.Synthetic
import DisaggregationFabric.Codec.Messages
import DisaggregationFabric.Engine.System
import DisaggregationFabric.Protocol.Framing

/-!
# The coordinator process

`coordinator.cpp`: an engine over the synthetic topology that serves workers and control
clients over framed connections. `handle` is the dispatch on a frame; `step` is what can
happen to the process as a whole. Every connection has a thread of its own, so the frames
of different connections are handled in any order: a thread receives bytes, which may
complete several frames, handles these one by one, and ends with the invalidation of its
worker's evidence.

A handler calls one operation of the engine at most, besides `Save`, so every input is at
most one operation (`step_engine`), and what a coordinator reaches is reached by a run of
the engine.

Sockets are not modelled beyond the bytes they deliver and whether they took what was
sent; a writer that throws would end the process.
-/

namespace DFabric

namespace Deploy

open Wire Proto

/-! ### Requests and replies -/

section Payload

variable {R : Type} [Inhabited R]

/-- The record that a decoder leaves when it is run on a payload, accepted or not. -/
def decoded (d : Decoder R) (payload : List UInt8) : R :=
  (d default (Reader.ofBytes payload)).2.1

/-- The decoder accepts the payload. -/
def accepted (d : Decoder R) (payload : List UInt8) : Bool :=
  (d default (Reader.ofBytes payload)).1

end Payload

/-- `rd.U64()` at the start of a payload. -/
def leadingU64 (payload : List UInt8) : UInt64 := (Reader.ofBytes payload).u64.1

/-- The ids of a `REGISTER`: as many words as were announced. -/
def readIds : ℕ → Reader → List NodeId
  | 0, _ => []
  | n + 1, r => ⟨r.u64.1⟩ :: readIds n r.u64.2

/-- A frame to be sent, its payload as it is written. -/
structure Reply where
  type : FrameType
  correlation : UInt64
  payload : List Token

/-- The bytes put on the connection, unless the writer throws. -/
def Reply.bytes (r : Reply) : Except Str (List UInt8) :=
  (write wireLimits r.payload).map (encode r.type r.correlation)

/-- `RegistrySnapshot`. -/
structure RegistrySnapshot (D : Type) where
  nodes : List (Node D)
  resources : List (Resource D)
  compositions : List (Composition D)
  reservations : List (Reservation D)
  epoch : CoordinatorEpoch

variable {D : Type}

/-- `Snapshot`. -/
def registrySnapshot (s : Engine D) : RegistrySnapshot D where
  nodes := s.nodes.values
  resources := s.resources.values
  compositions := s.compositions.values
  reservations := s.reservations.values
  epoch := s.epoch

section Replies

variable [DoubleBits D]

/-- The payload of a `COMPOSE_RESP`. -/
def composeReply (cr : Result (CompositionPlan D)) : List Token := .flatten [
  Write.enum cr.outcome, encodePlan cr.payload, counted cr.reasons Write.enum]

/-- The payload of a `RESERVE_RESP`. The reasons are not counted. -/
def reserveReply (rr : Result (Reservation D)) : List Token := .flatten [
  Write.enum rr.outcome, encodeReservation rr.payload, rr.reasons.flatMap Write.enum]

/-- The payload of a `COMMIT_RESP` and of an `ACTIVATE_RESP`. -/
def compositionReply (cc : Result (Composition D)) : List Token := .flatten [
  Write.enum cc.outcome, encodeComposition cc.payload]

/-- The payload of a `STATE_RESP`. -/
def stateReply (snap : RegistrySnapshot D) : List Token := .flatten [
  Write.u64 snap.epoch.value,
  counted snap.compositions encodeComposition,
  counted snap.reservations encodeReservation,
  counted snap.resources encodeResource]

end Replies

/-! ### The dispatch -/

/-- The local variables of a connection's thread. -/
structure Session where
  boot : UInt64
  isWorker : Bool
  done : Bool

instance : Inhabited Session := ⟨⟨0, false, false⟩⟩

/-- What handling a frame comes to. -/
structure Handled (D : Type) where
  engine : Engine D
  session : Session
  replies : List Reply
  /-- `Save` is called afterwards. -/
  saves : Bool

/-- The node as it is registered: of the worker that published it. -/
def ownNode (boot : UInt64) (n : Node D) : Node D :=
  { n with workerBoot := ⟨boot⟩, workerOwner := toDecimal boot }

/-- The resource as it is registered: its evidence is the worker's and not durable. -/
def ownResource (boot : UInt64) (r : Resource D) : Resource D :=
  { r with
    evidence := { r.evidence with owner := toDecimal boot, durable := false }
    authorityOwner := toDecimal boot }

/-- The generation the backend of the coordinator is built with. -/
def nodeGeneration : NodeGeneration := ⟨1⟩

variable [Double D] [DoubleBits D]

/-- The descriptors served for the nodes of a `REGISTER`. -/
def descriptors (D : Type) [Double D] [DoubleBits D] (corr : UInt64) (ids : List NodeId) :
    List Reply :=
  ids.flatMap fun nid =>
    ((SyntheticBackend.discoverNodes nodeGeneration : List (Node D)).filter (·.id = nid)).map
      (fun nd => ⟨.publishNode, corr, writeNode nd⟩) ++
    ((SyntheticBackend.discoverResources : List (Resource D)).filter (·.nodeId = nid)).map
      fun r => ⟨.publishResource, corr, encodeResource r⟩

/-- The dispatch on a frame. -/
def handle (s : Engine D) (c : Session) (f : Frame) : Handled D :=
  let reply (type : FrameType) (payload : List Token) : List Reply :=
    [⟨type, f.correlation, payload⟩]
  match f.type with
  | .hello =>
    let boot := leadingU64 f.payload
    ⟨s, { c with boot := boot, isWorker := boot ≠ 0 }, reply .ack [], false⟩
  | .register =>
    let n := (Reader.ofBytes f.payload).u32
    ⟨s, c, descriptors D f.correlation (readIds n.1.toNat n.2) ++ reply .ack [], false⟩
  | .publishNode =>
    -- a refused node, and one of a client that is no worker, is dropped without an answer
    if accepted (decodeNode : Decoder (Node D)) f.payload && c.isWorker then
      ⟨(s.registerNode (ownNode c.boot (decoded decodeNode f.payload))).1, c, [], false⟩
    else ⟨s, c, [], false⟩
  | .publishResource =>
    if accepted (decodeResource : Decoder (Resource D)) f.payload && c.isWorker then
      ⟨(s.registerResource (ownResource c.boot (decoded decodeResource f.payload))).1, c, [], false⟩
    else ⟨s, c, [], false⟩
  | .composeReq =>
    -- of the request decoders the verdict is not looked at
    let cr := s.compose (decoded decodeRequest f.payload)
    ⟨cr.1, c, reply .composeResp (composeReply cr.2), false⟩
  | .reserveReq =>
    let rr := s.reserve (decoded decodePlan f.payload)
    ⟨rr.1, c, reply .reserveResp (reserveReply rr.2), rr.2.ok⟩
  | .commitReq =>
    let cc := s.commit (decoded decodeReservation f.payload)
    ⟨cc.1, c, reply .commitResp (compositionReply cc.2), cc.2.ok⟩
  | .activateReq =>
    let ar := s.activate ⟨leadingU64 f.payload⟩
    ⟨ar.1, c, reply .activateResp (compositionReply ar.2), false⟩
  | .queryState =>
    ⟨s, c, reply .stateResp (stateReply (registrySnapshot s)), false⟩
  | .releaseReq =>
    let ok := s.release ⟨leadingU64 f.payload⟩
    ⟨ok.1, c, reply .releaseResp [.flag ok.2], false⟩
  | .saveReq => ⟨s, c, reply .saveResp [], true⟩
  | .heartbeat => ⟨s, c, reply .heartbeat [], false⟩
  | .bye => ⟨s, { c with done := true }, [], false⟩
  -- the types that only the coordinator sends
  | .ack | .nack | .composeResp | .reserveResp | .commitResp | .activateResp | .stateResp | .err
  | .saveResp | .releaseResp => ⟨s, c, [], false⟩

/-! ### The process -/

/-- A connection: its decoder's buffer, the frames of the last `Feed` that are still to
be handled, and the variables of its thread. -/
structure Connection where
  buffer : List UInt8
  pending : List Frame
  session : Session

/-- The process: the engine, the file at the state path, and the open connections. -/
structure Coordinator (D : Type) where
  engine : Engine D
  file : Option (List UInt8)
  connections : UMap ℕ Connection

/-- What can happen to the process. -/
inductive Input where
  /-- A connection is accepted. -/
  | accept (i : ℕ)
  /-- `RecvSome` returns bytes. -/
  | received (i : ℕ) (bytes : List UInt8)
  /-- `RecvSome` reports the end of the stream, or an error. -/
  | lost (i : ℕ)
  /-- The next frame is handled; `sent` tells whether the socket took the replies. -/
  | serve (i : ℕ) (sent : Bool)
  /-- A thread that is done ends. -/
  | finish (i : ℕ)

namespace Coordinator

/-- Ask for the paths of the topology at the start. -/
def seedPath (s : Engine D) (a b : Node D) : Engine D :=
  if a.id = b.id then s
  else
    match SyntheticBackend.resolvePath { (default : PathRequirement D) with
        source := a.id, target := b.id, required := true,
        minBandwidthMbps := Double.ofRat 1000, maxLatencyUs := Double.ofRat 100 } with
    | some pe => s.onPathUpdate pe
    | none => s

/-- The engine before any state is loaded. -/
def bootEngine (D : Type) [Double D] : Engine D :=
  let nodes : List (Node D) := SyntheticBackend.discoverNodes nodeGeneration
  nodes.foldl (fun s a => nodes.foldl (fun s b => seedPath s a b) s)
    ((Engine.fresh ⟨⟨1⟩, ⟨1⟩⟩).addBackend (syntheticBackend nodeGeneration))

/-- The process when it starts to listen. A file that is refused leaves a warning. -/
def start (D : Type) [Double D] [DoubleBits D] (epoch : CoordinatorEpoch)
    (file : Option (List UInt8)) : Coordinator D where
  engine :=
    (match file with
      | some bytes => ((bootEngine D).load bytes).1
      | none => bootEngine D).advanceEpoch epoch
  file := file
  connections := ∅

/-- `Save` to the state path. -/
def saveFile (s : Engine D) (file : Option (List UInt8)) : Option (List UInt8) :=
  match s.save with
  | .ok bytes => some bytes
  | .error _ => file

/-- Put a connection back. -/
def put (s : Coordinator D) (i : ℕ) (c : Connection) : Coordinator D :=
  { s with connections := s.connections.insert i c }

/-- What an input does. An input that cannot happen to the process as it is does
nothing. -/
def step (s : Coordinator D) : Input → Coordinator D
  | .accept i =>
    match s.connections.lookup i with
    | some _ => s
    | none => s.put i ⟨[], [], default⟩
  | .received i bytes =>
    match s.connections.lookup i with
    | none => s
    | some c =>
      -- a thread receives only when it has handled what it has
      if c.session.done || !c.pending.isEmpty then s
      else
        let r := frameDecoder.feed c.buffer bytes
        match r.refusal with
        -- what was cut off before the refusal is dropped
        | some _ => s.put i { c with buffer := r.buffer, session := { c.session with done := true } }
        | none => s.put i { c with buffer := r.buffer, pending := r.messages }
  | .lost i =>
    match s.connections.lookup i with
    | none => s
    | some c =>
      if c.session.done || !c.pending.isEmpty then s
      else s.put i { c with session := { c.session with done := true } }
  | .serve i sent =>
    match s.connections.lookup i with
    | none => s
    | some c =>
      match c.pending with
      | [] => s
      | f :: rest =>
        let h := handle s.engine c.session f
        -- frames behind a `BYE`, or behind a reply that was not taken, are still handled;
        -- `Save` takes the lock a second time, here right after the operation
        { engine := h.engine
          file := if h.saves then saveFile h.engine s.file else s.file
          connections := s.connections.insert i
            { c with pending := rest, session := { h.session with done := h.session.done || !sent } } }
  | .finish i =>
    match s.connections.lookup i with
    | none => s
    | some c =>
      if c.session.done && c.pending.isEmpty then
        { s with
          engine :=
            if c.session.isWorker && c.session.boot != 0 then
              s.engine.markEvidenceRevalidationRequired ⟨c.session.boot⟩
            else s.engine
          connections := s.connections.erase i }
      else s

/-- The state a list of inputs leads to. -/
abbrev run (s : Coordinator D) (inputs : List Input) : Coordinator D := Machine.run step s inputs

end Coordinator

/-! ### What the coordinator asks of its engine -/

/-- The operations that frames and ends of connections lead to, with the origin of their
arguments. -/
inductive Asks : Op D → Prop where
  | registerNode {payload : List UInt8} (boot : UInt64)
      (h : accepted (decodeNode : Decoder (Node D)) payload = true) :
      Asks (.registerNode (ownNode boot (decoded decodeNode payload)))
  | registerResource {payload : List UInt8} (boot : UInt64)
      (h : accepted (decodeResource : Decoder (Resource D)) payload = true)
      (hlen : payload.length ≤ 65536) :
      Asks (.registerResource (ownResource boot (decoded decodeResource payload)))
  | compose (payload : List UInt8) : Asks (.compose (decoded decodeRequest payload))
  | reserve (payload : List UInt8) : Asks (.reserve (decoded decodePlan payload))
  | commit (payload : List UInt8) : Asks (.commit (decoded decodeReservation payload))
  | activate (id : CompositionId) : Asks (.activate id)
  | release (id : CompositionId) : Asks (.release id)
  | markEvidenceRevalidationRequired (boot : WorkerBootId) :
      Asks (.markEvidenceRevalidationRequired boot)

/-- A frame leads to one operation at most. -/
theorem handle_engine {s : Engine D} {c : Session} {f : Frame} (hf : f.Fits) :
    (handle s c f).engine = s ∨ ∃ op, Asks op ∧ (handle s c f).engine = s.step op := by
  rcases f with ⟨type, corr, payload⟩
  cases type with
  -- the two publications are the ones whose decoders are asked
  | publishNode =>
    simp only [handle]
    split
    · next h =>
      rw [Bool.and_eq_true] at h
      exact Or.inr ⟨_, .registerNode c.boot h.1, rfl⟩
    · exact Or.inl rfl
  | publishResource =>
    simp only [handle]
    split
    · next h =>
      rw [Bool.and_eq_true] at h
      exact Or.inr ⟨_, .registerResource c.boot h.1 hf, rfl⟩
    · exact Or.inl rfl
  | composeReq => exact Or.inr ⟨_, .compose payload, rfl⟩
  | reserveReq => exact Or.inr ⟨_, .reserve payload, rfl⟩
  | commitReq => exact Or.inr ⟨_, .commit payload, rfl⟩
  | activateReq => exact Or.inr ⟨_, .activate _, rfl⟩
  | releaseReq => exact Or.inr ⟨_, .release _, rfl⟩
  | _ => exact Or.inl rfl

namespace Coordinator

/-- The frames that wait are within the bounds of their types. -/
def Framed (s : Coordinator D) : Prop :=
  ∀ i c, s.connections.lookup i = some c → ∀ f ∈ c.pending, f.Fits

omit [Double D] [DoubleBits D] in
theorem Framed.insert {s s' : Coordinator D} {i : ℕ} {c : Connection}
    (heq : s'.connections = s.connections.insert i c) (h : s.Framed)
    (hc : ∀ f ∈ c.pending, f.Fits) : s'.Framed := by
  unfold Framed
  rw [heq]
  exact UMap.forall_lookup_insert h hc

/-- Only `Feed` lets frames in. -/
theorem Framed.step {s : Coordinator D} (h : s.Framed) (input : Input) : (s.step input).Framed := by
  cases input with
  | accept i =>
    simp only [Coordinator.step]
    split
    · exact h
    · exact h.insert rfl (List.forall_mem_nil _)
  | received i bytes =>
    simp only [Coordinator.step]
    split
    · exact h
    next c hc =>
    split
    · exact h
    split
    · exact h.insert rfl (h i c hc)
    -- what `Feed` has cut off
    · exact h.insert rfl (fits_of_mem_drain _)
  | lost i =>
    simp only [Coordinator.step]
    split
    · exact h
    next c hc =>
    split
    · exact h
    · exact h.insert rfl (h i c hc)
  | serve i sent =>
    simp only [Coordinator.step]
    split
    · exact h
    next c hc =>
    split
    · exact h
    next f rest hpending =>
      -- the frames behind the one that is handled wait on
      refine h.insert rfl ?_
      intro g hg
      exact h i c hc g (by rw [hpending]; exact List.mem_cons_of_mem f hg)
  | finish i =>
    simp only [Coordinator.step]
    split
    · exact h
    split
    · intro j c' hj
      by_cases hji : j = i
      · rw [hji, AList.lookup_erase] at hj
        cases hj
      · rw [AList.lookup_erase_ne hji] at hj
        exact h j c' hj
    · exact h

/-- An input is one operation of the engine at most. -/
theorem step_engine {s : Coordinator D} (h : s.Framed) (input : Input) :
    (s.step input).engine = s.engine ∨
      ∃ op, Asks op ∧ (s.step input).engine = s.engine.step op := by
  cases input with
  | accept i =>
    simp only [step]
    split <;> exact Or.inl rfl
  | received i bytes =>
    simp only [step]
    split
    · exact Or.inl rfl
    split
    · exact Or.inl rfl
    split <;> exact Or.inl rfl
  | lost i =>
    simp only [step]
    split
    · exact Or.inl rfl
    split <;> exact Or.inl rfl
  | serve i sent =>
    simp only [step]
    split
    · exact Or.inl rfl
    next c hc =>
    split
    · exact Or.inl rfl
    next f rest hpending =>
      exact handle_engine (h i c hc f (by rw [hpending]; exact List.mem_cons_self))
  | finish i =>
    simp only [step]
    split
    · exact Or.inl rfl
    split
    -- the worker of the connection is dead
    · dsimp only
      split
      · exact Or.inr ⟨_, .markEvidenceRevalidationRequired _, rfl⟩
      · exact Or.inl rfl
    · exact Or.inl rfl

/-- **What a coordinator reaches, its engine reaches by a run** of the operations that
frames and ends of connections lead to. -/
theorem engine_run {s : Coordinator D} (h : s.Framed) (inputs : List Input) :
    ∃ ops : List (Op D), (∀ op ∈ ops, Asks op) ∧ (s.run inputs).engine = s.engine.run ops := by
  induction inputs generalizing s with
  | nil => exact ⟨[], fun op hop => absurd hop List.not_mem_nil, rfl⟩
  | cons input inputs ih =>
    obtain ⟨ops, hasks, hrun⟩ := ih (h.step input)
    rcases step_engine h input with heq | ⟨op, hop, heq⟩
    · rw [heq] at hrun
      exact ⟨ops, hasks, hrun⟩
    · rw [heq] at hrun
      exact ⟨op :: ops, List.forall_mem_cons.mpr ⟨hop, hasks⟩, hrun⟩

theorem framed_start (epoch : CoordinatorEpoch) (file : Option (List UInt8)) :
    (start D epoch file).Framed := by
  intro i c hc
  cases hc

end Coordinator

end Deploy

end DFabric
