import DisaggregationFabric.Deploy.Exchange
import DisaggregationFabric.Deploy.Responses

/-!
# Calls over a connection

A control client uses the engine over a connection: it encodes a request, sends it, and reads
frames until one comes with the type of the response and its own correlation (`RT` of the
tests). What it makes of the payload is the outcome and, after a success, the record.

`Remote` is such a client with the coordinator and the bytes that are under way between them,
beside whatever happens on the other connections. The network delivers in any pieces and may
break at any time. `Local` is what this is for: a caller in the process of the engine, whose
calls are performed at once.

The remote client is a local one (`remote_calls_are_local`), as long as it asks for no constraints
on failure domains and for no extra ones, which `EncodeRequest` leaves out. Each of its calls is
performed once, at the moment its request is handled and in the order of the calls, and what it is
told is what the engine returned at that moment. Of the calls of a client one at most has been
performed without the client having heard of it, and that is the last.
-/

namespace DFabric

namespace Deploy

open Wire Proto EnumTraits

/-! ### Calls and answers -/

/-- What a client asks of the engine. -/
inductive Call (D : Type) where
  | compose (q : CompositionRequest D)
  | reserve (plan : CompositionPlan D)
  | commit (v : Reservation D)
  | activate (id : CompositionId)
  | release (id : CompositionId)

/-- What a client makes of an outcome and a record: it looks at the record after a success. -/
structure Verdict (R : Type) where
  outcome : UInt32
  record : Option R

/-- What a client is told. -/
inductive Answer (D : Type) where
  | plan (v : Verdict (CompositionPlan D))
  | reservation (v : Verdict (Reservation D))
  | composition (v : Verdict (Composition D))
  | released (ok : Bool)

/-- What is left of a result when a caller has looked at it. -/
def Verdict.ofResult {R : Type} (travels : R → R) (r : Result R) : Verdict R :=
  ⟨value r.outcome, if r.ok then some (travels r.payload) else none⟩

/-- `rd.U32()`, and the record after a success. -/
def readVerdict {R : Type} [Inhabited R] (d : Decoder R) (payload : List UInt8) : Verdict R :=
  let outcome := (Reader.ofBytes payload).u32.1
  ⟨outcome,
    if outcome = value CompositionOutcome.success then some (decoded (answer d) payload).2
    else none⟩

namespace Call

variable {D : Type} [Double D] [DoubleBits D]

/-- The request of a call. -/
def request (corr : UInt64) : Call D → Reply
  | .compose q => ⟨.composeReq, corr, encodeRequest q⟩
  | .reserve plan => ⟨.reserveReq, corr, encodePlan plan⟩
  | .commit v => ⟨.commitReq, corr, encodeReservation v⟩
  | .activate id => ⟨.activateReq, corr, [.u64 id.value]⟩
  | .release id => ⟨.releaseReq, corr, [.u64 id.value]⟩

/-- The type of the frames that the client waits for. -/
def awaits : Call D → FrameType
  | .compose _ => .composeResp
  | .reserve _ => .reserveResp
  | .commit _ => .commitResp
  | .activate _ => .activateResp
  | .release _ => .releaseResp

/-- What the client reads in a response. -/
def read (c : Call D) (payload : List UInt8) : Answer D :=
  match c with
  | .compose _ => .plan (readVerdict decodePlan payload)
  | .reserve _ => .reservation (readVerdict decodeReservation payload)
  | .commit _ | .activate _ => .composition (readVerdict decodeComposition payload)
  | .release _ => .released (Reader.ofBytes payload).flag.1

/-- The call in the process of the engine: what it does, what it returns, and whether the
state is saved afterwards. Of a composition the factors of its rank are not looked at. -/
def perform (s : Engine D) : Call D → Engine D × Answer D × Bool
  | .compose q => ((s.compose q).1, .plan (.ofResult id (s.compose q).2), false)
  | .reserve plan =>
    ((s.reserve plan).1, .reservation (.ofResult id (s.reserve plan).2), (s.reserve plan).2.ok)
  | .commit v =>
    ((s.commit v).1, .composition (.ofResult .sent (s.commit v).2), (s.commit v).2.ok)
  | .activate id =>
    ((s.activate id).1, .composition (.ofResult .sent (s.activate id).2), false)
  | .release id => ((s.release id).1, .released (s.release id).2, false)

/-- The arguments are within what the encoders and the decoders take, with neither a constraint on
failure domains nor extra constraints, which do not travel; and the request is within the bound
of its frame. -/
def Sound (c : Call D) : Prop :=
  (match c with
    | .compose q => q.Sendable
    | .reserve plan => plan.Sendable
    | .commit v => v.Storable
    | _ => True) ∧ (c.request 0).frame.Fits

end Call

/-! ### One request -/

section Request

variable {D : Type} [Double D] [DoubleBits D] [LawfulDoubleBits D]

/-- The outcome is read in any case, and the record where it is read at all. -/
theorem readVerdict_eq {R : Type} [Inhabited R] {d : Decoder R} {r : Result R} {travels : R → R}
    {us : List Token} (hus : Writable wireLimits us)
    (h : r.ok = true → ReadAs (answer d) (Write.enum r.outcome ++ us)
      (value r.outcome, travels r.payload)) :
    readVerdict d (bytesOf (Write.enum r.outcome ++ us)) = .ofResult travels r := by
  -- the outcome is the first word in any case
  have hword : (Reader.ofBytes (bytesOf (Write.enum r.outcome ++ us))).u32.1 = value r.outcome := by
    have hread := (ReadsTo.u32 (value r.outcome) : ReadsTo wireLimits Reader.u32 _ _).run
      (writable_u32 _) (bytesOf us) 0
    show (Reader.u32 ⟨bytesOf (Write.enum r.outcome ++ us), 0, true⟩).1 = _
    rw [bytesOf_append]
    exact congrArg Prod.fst hread
  rw [readVerdict, Verdict.ofResult, hword]
  -- and is a success exactly if there is a record behind it
  by_cases hok : r.ok = true
  · have hsuccess : r.outcome = .success := of_decide_eq_true hok
    obtain ⟨bs, hbs, -, hdecoded⟩ := h hok
    have hw : Writable wireLimits (Write.enum r.outcome ++ us) :=
      writable_append.mpr ⟨writable_enum _, hus⟩
    rw [hw.write_eq] at hbs
    cases hbs
    rw [if_pos hok, hdecoded, if_pos (congrArg value hsuccess)]
  · have hne : value r.outcome ≠ value CompositionOutcome.success := by
      intro hv
      refine hok (decide_eq_true ?_)
      revert hv
      cases r.outcome <;> decide
    rw [if_neg hok, if_neg hne]

/-- What is decoded is what was encoded. -/
theorem decoded_bytesOf {R : Type} [Inhabited R] {d : Decoder R} {ts : List Token} {y : R}
    (h : Reads wireLimits d ts default y) (hts : Writable wireLimits ts) :
    decoded d (bytesOf ts) = y := by
  obtain ⟨bs, hbs, -, hdecoded⟩ := ReadAs.of_reads h hts writable_nil
  rw [List.append_nil, hts.write_eq] at hbs
  cases hbs
  exact hdecoded

omit [LawfulDoubleBits D] in
/-- A request is written. -/
theorem Call.Sound.writable {c : Call D} (h : c.Sound) (corr : UInt64) :
    Writable wireLimits (c.request corr).payload := by
  cases c with
  | compose q => exact (writable_encodeRequest rfl).mpr h.1.texts
  | reserve plan => exact h.1.writable
  | commit v => exact writable_encodeReservation v
  | activate id => exact writable_u64 _
  | release id => exact writable_u64 _

/-- The response to a request, and what the client reads in it. -/
structure Responds (c : Call D) (s : Engine D) (payload : List Token) : Prop where
  writable : Writable wireLimits payload
  read : c.read (bytesOf payload) = (c.perform s).2.1

theorem responds_compose {s : Engine D} (h : s.AllSendable) {q : CompositionRequest D}
    (hq : q.Sendable) : Responds (.compose q) s (composeReply (s.compose q).2) := by
  -- the record and the reasons are written, and the record is read back
  have hplan := Engine.sendable_compose h hq
  have hreasons : Writable wireLimits (counted (s.compose q).2.reasons Write.enum) :=
    writable_counted.mpr fun r _ => writable_enum r
  have hread := readAs_answer (s.compose q).2.outcome hplan.reads hplan.writable hreasons
  have hsplit : composeReply (s.compose q).2 = Write.enum (s.compose q).2.outcome ++
      (encodePlan (s.compose q).2.payload ++ counted (s.compose q).2.reasons Write.enum) := by
    simp [composeReply]
  have hrest := writable_append.mpr ⟨hplan.writable, hreasons⟩
  rw [← composeReply, hsplit] at hread
  rw [hsplit]
  exact ⟨writable_append.mpr ⟨writable_enum _, hrest⟩,
    congrArg Answer.plan (readVerdict_eq hrest fun _ => hread)⟩

theorem responds_reserve (s : Engine D) {plan : CompositionPlan D} (hplan : plan.Sendable) :
    Responds (.reserve plan) s (reserveReply (s.reserve plan).2) := by
  have hread := fun hok => (reserve_readAs_iff (s := s) hplan).mpr hok
  -- a client stops behind the record, where the reasons begin
  have hsplit : reserveReply (s.reserve plan).2 = Write.enum (s.reserve plan).2.outcome ++
      (encodeReservation (s.reserve plan).2.payload ++
        (s.reserve plan).2.reasons.flatMap Write.enum) := by
    simp [reserveReply]
  have hrest : Writable wireLimits (encodeReservation (s.reserve plan).2.payload ++
      (s.reserve plan).2.reasons.flatMap Write.enum) :=
    writable_append.mpr ⟨writable_encodeReservation _,
      List.forall_mem_flatMap.mpr fun r _ => writable_enum r⟩
  rw [hsplit] at hread ⊢
  exact ⟨writable_append.mpr ⟨writable_enum _, hrest⟩,
    congrArg Answer.reservation (readVerdict_eq hrest hread)⟩

/-- The response to `COMMIT_REQ` and to `ACTIVATE_REQ`. -/
theorem readVerdict_compositionReply {cc : Result (Composition D)} (h : cc.payload.Sendable) :
    Writable wireLimits (compositionReply cc) ∧
      readVerdict decodeComposition (bytesOf (compositionReply cc)) = .ofResult .sent cc := by
  have hread := composition_readAs h
  have hsplit : compositionReply cc = Write.enum cc.outcome ++ encodeComposition cc.payload := by
    simp [compositionReply]
  rw [hsplit] at hread ⊢
  exact ⟨writable_append.mpr ⟨writable_enum _, h.writable⟩,
    readVerdict_eq h.writable fun _ => hread⟩

omit [LawfulDoubleBits D] in
theorem responds_release (s : Engine D) (id : CompositionId) :
    Responds (.release id) s [.flag (s.release id).2] := by
  have hread := (ReadsTo.flag (s.release id).2 : ReadsTo wireLimits Reader.flag _ _).run
    (writable_flag _) [] 0
  rw [List.append_nil] at hread
  refine ⟨writable_flag _, congrArg Answer.released ?_⟩
  exact congrArg Prod.fst hread

/-- **A request is the call.** What the coordinator does with it is what the call does, and the
client reads in the response what the call returns. -/
theorem handle_request {s : Engine D} (h : s.AllSendable) {c : Call D} (hc : c.Sound)
    (session : Session) (corr : UInt64) :
    ∃ payload, Responds c s payload ∧ handle s session (c.request corr).frame =
      ⟨(c.perform s).1, session, [⟨c.awaits, corr, payload⟩], (c.perform s).2.2⟩ := by
  -- for each call: its argument is decoded as it was, and the branch of `handle` runs
  have hwritable := hc.writable corr
  cases c with
  | compose q =>
    have harg : decoded decodeRequest (bytesOf (encodeRequest q)) = q :=
      (decoded_bytesOf (reads_decodeRequest hc.1.storable) hwritable).trans hc.1.sent
    refine ⟨_, responds_compose h hc.1, ?_⟩
    show handle s session ⟨.composeReq, corr, bytesOf (encodeRequest q)⟩ = _
    generalize bytesOf (encodeRequest q) = payload at harg ⊢
    rw [← harg]
    rfl
  | reserve plan =>
    have harg : decoded decodePlan (bytesOf (encodePlan plan)) = plan :=
      decoded_bytesOf hc.1.reads hwritable
    refine ⟨_, responds_reserve s hc.1, ?_⟩
    show handle s session ⟨.reserveReq, corr, bytesOf (encodePlan plan)⟩ = _
    generalize bytesOf (encodePlan plan) = payload at harg ⊢
    rw [← harg]
    rfl
  | commit v =>
    have harg : decoded decodeReservation (bytesOf (encodeReservation v)) = v :=
      decoded_bytesOf (reads_decodeReservation hc.1) hwritable
    obtain ⟨hw, hread⟩ := readVerdict_compositionReply (Engine.sendable_commit h v)
    refine ⟨_, ⟨hw, congrArg Answer.composition hread⟩, ?_⟩
    show handle s session ⟨.commitReq, corr, bytesOf (encodeReservation v)⟩ = _
    generalize bytesOf (encodeReservation v) = payload at harg ⊢
    rw [← harg]
    rfl
  | activate id =>
    have harg : leadingU64 (bytesOf [.u64 id.value]) = id.value := leadingU64_bytesOf id.value
    obtain ⟨hw, hread⟩ := readVerdict_compositionReply (Engine.sendable_activate h id)
    refine ⟨_, ⟨hw, congrArg Answer.composition hread⟩, ?_⟩
    show (⟨(s.activate ⟨leadingU64 (bytesOf [.u64 id.value])⟩).1, session, [⟨.activateResp, corr,
      compositionReply (s.activate ⟨leadingU64 (bytesOf [.u64 id.value])⟩).2⟩], false⟩ :
      Handled D) = _
    rw [harg]
    rfl
  | release id =>
    have harg : leadingU64 (bytesOf [.u64 id.value]) = id.value := leadingU64_bytesOf id.value
    refine ⟨_, responds_release s id, ?_⟩
    show (⟨(s.release ⟨leadingU64 (bytesOf [.u64 id.value])⟩).1, session, [⟨.releaseResp, corr,
      [.flag (s.release ⟨leadingU64 (bytesOf [.u64 id.value])⟩).2]⟩], false⟩ : Handled D) = _
    rw [harg]
    rfl

end Request

/-! ### The two systems -/

/-- The local variables of a client. -/
structure Client (D : Type) where
  /-- The buffer of its decoder. -/
  buffer : List UInt8
  /-- The calls that have returned, with what they returned. -/
  done : List (Call D × Answer D)
  /-- The call that has not returned. -/
  waits : Option (Call D)

/-- The correlation of the call that is made next, or waits. -/
def Client.corr {D : Type} (k : Client D) : UInt64 := .ofNat k.done.length

/-- A coordinator and a client that has connected to it. -/
structure Remote (D : Type) where
  coordinator : Coordinator D
  client : Client D
  /-- The bytes on the way to the coordinator, and those on the way to the client. -/
  up : List UInt8
  down : List UInt8
  /-- The connection is not broken. -/
  intact : Bool

/-- What can happen. -/
inductive RemoteAct (D : Type) where
  /-- The client makes a call. -/
  | asks (c : Call D)
  /-- `RecvSome` of the coordinator returns the first `n` bytes under way. -/
  | receives (n : ℕ)
  /-- The coordinator handles the next frame; `sent` tells whether the socket took the reply. -/
  | serves (sent : Bool)
  /-- `RecvSome` of the coordinator reports the end of the stream, or an error. -/
  | loses
  /-- The thread of the connection ends. -/
  | finishes
  /-- `RecvSome` of the client returns the first `n` bytes under way. -/
  | hears (n : ℕ)
  /-- The connection breaks: of what is under way, some bytes still arrive. -/
  | breaks (m n : ℕ)
  /-- Something happens on another connection. -/
  | other (input : Input)

/-- A coordinator and a caller in its process. -/
structure Local (D : Type) where
  coordinator : Coordinator D
  /-- The calls, with what they returned. -/
  performed : List (Call D × Answer D)

/-- What can happen. -/
inductive LocalAct (D : Type) where
  /-- A call is performed. -/
  | call (c : Call D)
  /-- Something happens on a connection. -/
  | other (input : Input)

section Systems

variable {D : Type} [Double D] [DoubleBits D]

/-- What an act does. -/
def Local.step (y : Local D) : LocalAct D → Local D
  | .call c =>
    let r := c.perform y.coordinator.engine
    { coordinator := { y.coordinator with
        engine := r.1
        file := if r.2.2 then Coordinator.saveFile r.1 y.coordinator.file else y.coordinator.file }
      performed := y.performed ++ [(c, r.2.1)] }
  | .other input => { y with coordinator := y.coordinator.step input }

namespace Remote

/-- A client has connected. -/
def start (s : Coordinator D) (i : ℕ) : Remote D where
  coordinator := s.step (.accept i)
  client := ⟨[], [], none⟩
  up := []
  down := []
  intact := true

/-- What an act does; an act that cannot happen does nothing. -/
def step (i : ℕ) (x : Remote D) : RemoteAct D → Remote D
  | .asks c =>
    match x.client.waits with
    | some _ => x
    | none =>
      { x with
        client := { x.client with waits := some c }
        up := Dialogue.put x.intact x.up (transmitted [c.request x.client.corr]) }
  | .receives n =>
    match x.coordinator.connections.lookup i with
    | none => x
    | some c =>
      if c.session.done || !c.pending.isEmpty then x
      else
        { x with
          coordinator := x.coordinator.step (.received i (x.up.take n))
          up := x.up.drop n }
  | .serves sent =>
    match x.coordinator.connections.lookup i with
    | none => x
    | some c =>
      match c.pending with
      | [] => x
      | f :: _ =>
        { x with
          coordinator := x.coordinator.step (.serve i sent)
          down := Dialogue.put x.intact x.down
            (transmitted (handle x.coordinator.engine c.session f).replies)
          intact := x.intact && sent }
  | .loses => { x with coordinator := x.coordinator.step (.lost i), intact := false }
  | .finishes => { x with coordinator := x.coordinator.step (.finish i) }
  | .hears n =>
    match x.client.waits with
    -- a client that waits for nothing does not receive
    | none => x
    | some c =>
      let r := frameDecoder.feed x.client.buffer (x.down.take n)
      let answers := r.messages.filter fun f => f.type = c.awaits ∧ f.correlation = x.client.corr
      { x with
        client :=
          match r.refusal, answers with
          | none, f :: _ => ⟨r.buffer, x.client.done ++ [(c, c.read f.payload)], none⟩
          -- other frames are skipped, and nothing follows a protocol error
          | _, _ => { x.client with buffer := r.buffer }
        down := x.down.drop n }
  | .breaks m n => { x with up := x.up.take m, down := x.down.take n, intact := false }
  | .other input =>
    if input.connection = i then x
    else { x with coordinator := x.coordinator.step input }

/-- What an act is for a local caller: a call is performed when its request is handled. -/
def localActs (i : ℕ) (x : Remote D) : RemoteAct D → List (LocalAct D)
  | .serves _ =>
    match x.coordinator.connections.lookup i with
    | none => []
    | some c => if c.pending.isEmpty then [] else (x.client.waits.map LocalAct.call).toList
  | .other input => if input.connection = i then [] else [.other input]
  | _ => []

end Remote

end Systems

/-! ### The simulation -/

section Simulation

variable {D : Type} [Double D] [DoubleBits D] {i : ℕ}

/-- Two coordinators that differ in one connection. -/
structure Agree (i : ℕ) (s s' : Coordinator D) : Prop where
  engine : s.engine = s'.engine
  file : s.file = s'.file
  connections : ∀ j, j ≠ i → s.connections.lookup j = s'.connections.lookup j

omit [Double D] [DoubleBits D] in
theorem Agree.insert {s s' : Coordinator D} (h : Agree i s s') (e : Engine D)
    (file : Option (List UInt8)) (j : ℕ) (c : Connection) :
    Agree i ⟨e, file, s.connections.insert j c⟩ ⟨e, file, s'.connections.insert j c⟩ := by
  refine ⟨rfl, rfl, fun k hk => ?_⟩
  dsimp only
  rw [UMap.lookup_insert_eq_ite, UMap.lookup_insert_eq_ite, h.connections k hk]

/-- What happens on the connection itself is seen in the engine and the file alone. -/
theorem Agree.own {s s' s'' : Coordinator D} (h : Agree i s s') (input : Input)
    (hi : input.connection = i) (hengine : (s.step input).engine = s''.engine)
    (hfile : (s.step input).file = s''.file) (hconns : s''.connections = s'.connections) :
    Agree i (s.step input) s'' := by
  refine ⟨hengine, hfile, fun j hj => ?_⟩
  have hne : input.connection ≠ j := fun hc => hj (hc.symm.trans hi)
  rw [s.lookup_of_other hne, hconns]
  exact h.connections j hj

/-- What happens on another connection happens to both. -/
theorem Agree.step {s s' : Coordinator D} (h : Agree i s s') {input : Input}
    (hi : input.connection ≠ i) : Agree i (s.step input) (s'.step input) := by
  obtain ⟨e, file, conns⟩ := s
  obtain ⟨e', file', conns'⟩ := s'
  obtain rfl : e = e' := h.engine
  obtain rfl : file = file' := h.file
  -- an input reads and writes one connection, which is not `i`
  cases input with
  | accept j =>
    have hj : conns.lookup j = conns'.lookup j := h.connections j hi
    simp only [Coordinator.step, hj]
    split
    · exact h
    · exact h.insert e file j _
  | received j bytes =>
    have hj : conns.lookup j = conns'.lookup j := h.connections j hi
    simp only [Coordinator.step, hj]
    split
    · exact h
    split
    · exact h
    split <;> exact h.insert e file j _
  | lost j =>
    have hj : conns.lookup j = conns'.lookup j := h.connections j hi
    simp only [Coordinator.step, hj]
    split
    · exact h
    split
    · exact h
    · exact h.insert e file j _
  | serve j sent =>
    have hj : conns.lookup j = conns'.lookup j := h.connections j hi
    simp only [Coordinator.step, hj]
    split
    · exact h
    split
    · exact h
    · exact h.insert _ _ j _
  | finish j =>
    have hj : conns.lookup j = conns'.lookup j := h.connections j hi
    simp only [Coordinator.step, hj]
    split
    · exact h
    split
    · refine ⟨rfl, rfl, fun k hk => ?_⟩
      -- the thread that ended is gone on both sides
      by_cases hkj : k = j
      · rw [hkj]
        exact (AList.lookup_erase j conns).trans (AList.lookup_erase j conns').symm
      · exact (AList.lookup_erase_ne hkj).trans
          ((h.connections k hk).trans (AList.lookup_erase_ne hkj).symm)
    · exact h

/-- What is under way for the last call: its request, or its response. -/
inductive Stage (k : Client D) : List Frame → List Frame → List (Call D × Answer D) → Prop where
  | idle (h : k.waits = none) : Stage k [] [] k.done
  | asked {c : Call D} {requests : List Frame} (h : k.waits = some c) (hc : c.Sound)
      (hrequests : requests = [] ∨ requests = [(c.request k.corr).frame]) :
      Stage k requests [] k.done
  | answered {c : Call D} {a : Answer D} {responses : List Frame} (h : k.waits = some c)
      (hresponses : responses = [] ∨ ∃ payload, responses = [⟨c.awaits, k.corr, payload⟩] ∧
        c.read payload = a) :
      Stage k [] responses (k.done ++ [(c, a)])

/-- The remote client as a local one. -/
structure Tracks (i : ℕ) (x : Remote D) (y : Local D) (requests responses : List Frame) :
    Prop where
  agree : Agree i x.coordinator y.coordinator
  framed : x.coordinator.Framed
  sendable : x.coordinator.engine.AllSendable
  stage : Stage x.client requests responses y.performed
  up : ∀ c, x.coordinator.connections.lookup i = some c → c.session.isWorker = false ∧
    ∃ queue lost, Link.Carries frameCode ⟨x.up, c.buffer⟩ queue lost ∧
      (x.intact = true → lost = []) ∧ requests = c.pending ++ queue
  down : ∃ lost, Link.Carries frameCode ⟨x.down, x.client.buffer⟩ responses lost ∧
    (x.intact = true → lost = [])

/-- A reply is put on a connection, if it is within its bound and the connection holds. -/
theorem carries_transmit {wire buffer : List UInt8} {queue : List Frame} {lost : List UInt8}
    {intact : Bool} (h : Link.Carries frameCode ⟨wire, buffer⟩ queue lost)
    (hlost : intact = true → lost = []) {r : Reply} (hr : Writable wireLimits r.payload) :
    ∃ more lost', (more = [] ∨ more = [r.frame]) ∧
      Link.Carries frameCode ⟨Dialogue.put intact wire (transmitted [r]), buffer⟩ (queue ++ more)
        lost' ∧ (intact = true → lost' = []) := by
  have hbytes : transmitted [r] = [r.frame].flatMap frameCode.encode :=
    transmitted_eq (List.forall_mem_singleton.mpr hr)
  -- a broken connection takes nothing
  cases intact with
  | false =>
    refine ⟨[], lost, Or.inl rfl, ?_, hlost⟩
    rw [List.append_nil]
    exact h
  | true =>
    obtain rfl := hlost rfl
    -- a frame beyond the bound is not sent at all
    by_cases hfits : r.frame.Fits
    · refine ⟨[r.frame], [], Or.inr rfl, ?_, fun _ => rfl⟩
      show Link.Carries frameCode ⟨wire ++ transmitted [r], buffer⟩ _ _
      rw [hbytes]
      exact h.send (List.forall_mem_singleton.mpr hfits)
    · refine ⟨[], [], Or.inl rfl, ?_, fun _ => rfl⟩
      show Link.Carries frameCode ⟨wire ++ transmitted [r], buffer⟩ _ _
      have hnil : [r.frame].flatMap frameCode.encode = [] := by
        rw [List.flatMap_singleton]
        exact Socket.encode_of_not_fits hfits
      rw [hbytes, hnil, List.append_nil, List.append_nil]
      exact h

/-- A coordinator keeps its records sendable. -/
theorem allSendable_step {s : Coordinator D} (hf : s.Framed) (h : s.engine.AllSendable)
    (input : Input) : (s.step input).engine.AllSendable := by
  rcases Coordinator.step_engine hf input with heq | ⟨op, hop, heq⟩
  · rw [heq]
    exact h
  · rw [heq]
    exact hop.allSendable h

variable {x : Remote D} {y : Local D} {requests responses : List Frame}

/-- The remote client is a local one, with something under way. -/
def Tracked (i : ℕ) (x : Remote D) (y : Local D) : Prop :=
  ∃ requests responses, Tracks i x y requests responses

theorem tracked_start {s : Coordinator D} (hf : s.Framed) (h : s.engine.AllSendable)
    (hi : s.connections.lookup i = none) : Tracked i (Remote.start s i) ⟨s, []⟩ := by
  -- the connection is new, and nothing is under way
  have hstep : s.step (.accept i) = s.put i ⟨[], [], default⟩ := by
    simp only [Coordinator.step, hi]
  refine ⟨[], [], ?_, hf.step _, allSendable_step hf h _, .idle rfl, ?_, ?_⟩
  · have hself : Agree i s s := ⟨rfl, rfl, fun _ _ => rfl⟩
    have hengine : (s.step (.accept i)).engine = s.engine := by rw [hstep]; rfl
    have hfile : (s.step (.accept i)).file = s.file := by rw [hstep]; rfl
    exact hself.own (.accept i) rfl hengine hfile rfl
  · -- its thread has received nothing
    intro c hc
    change (s.step (.accept i)).connections.lookup i = some c at hc
    rw [hstep] at hc
    obtain rfl : _ = c := Option.some.inj ((AList.lookup_insert _).symm.trans hc)
    exact ⟨rfl, [], [], Link.carries_nil, fun _ => rfl, rfl⟩
  · exact ⟨[], Link.carries_nil, fun _ => rfl⟩

theorem Tracks.receives (h : Tracks i x y requests responses) (n : ℕ) :
    Tracks i (x.step i (.receives n)) y requests responses := by
  rcases hlook : x.coordinator.connections.lookup i with _ | c
  · simp only [Remote.step, hlook]
    exact h
  by_cases hbusy : (c.session.done || !c.pending.isEmpty) = true
  · simp only [Remote.step, hlook, if_pos hbusy]
    exact h
  have hfree : c.session.done = false ∧ c.pending = [] := by simpa using hbusy
  obtain ⟨hworker, queue, lost, hcarries, hlost, hqueue⟩ := h.up c hlook
  obtain ⟨hnone, rest, hrest, hcarries'⟩ := hcarries.arrive n
  -- the thread reads, and its decoder does not give up
  have hstep : x.coordinator.step (.received i (x.up.take n)) = x.coordinator.put i { c with
      buffer := (frameDecoder.feed c.buffer (x.up.take n)).buffer
      pending := (frameDecoder.feed c.buffer (x.up.take n)).messages } := by
    simp only [Coordinator.step, hlook, if_neg hbusy, hnone]
  simp only [Remote.step, hlook, if_neg hbusy]
  refine ⟨?_, h.framed.step _, allSendable_step h.framed h.sendable _, h.stage, ?_, h.down⟩
  · exact h.agree.own (.received i _) rfl
      ((congrArg Coordinator.engine hstep).trans h.agree.engine)
      ((congrArg Coordinator.file hstep).trans h.agree.file) rfl
  intro c' hc'
  rw [hstep] at hc'
  obtain rfl : _ = c' := Option.some.inj ((AList.lookup_insert _).symm.trans hc')
  refine ⟨hworker, rest, lost, hcarries', hlost, ?_⟩
  rw [hqueue, hfree.2, List.nil_append]
  exact hrest

/-- The request of the client is performed. -/
theorem Tracks.serves [LawfulDoubleBits D] (h : Tracks i x y requests responses) (sent : Bool) :
    Tracked i (x.step i (.serves sent))
      (Machine.run Local.step y (x.localActs i (.serves sent))) := by
  rcases hlook : x.coordinator.connections.lookup i with _ | c
  · simp only [Remote.step, Remote.localActs, hlook]
    exact ⟨requests, responses, h⟩
  rcases hpend : c.pending with _ | ⟨f, rest⟩
  · simp only [Remote.step, Remote.localActs, hlook, hpend, List.isEmpty_nil, if_true]
    exact ⟨requests, responses, h⟩
  obtain ⟨hworker, queue, lost, hcarries, hlost, hqueue⟩ := h.up c hlook
  rw [hpend] at hqueue
  obtain ⟨lostDown, hdown, hlostDown⟩ := h.down
  obtain ⟨agree, framed, sendable, stage, -, -⟩ := h
  generalize hperformed : y.performed = performed at stage
  -- a frame that waits is the request of the call that waits
  cases stage with
  | idle _ => cases hqueue
  | answered _ _ => cases hqueue
  | @asked call _ hwaits hsound hrequests =>
  obtain rfl | rfl := hrequests
  · cases hqueue
  obtain ⟨rfl, hnil⟩ := List.cons.inj hqueue
  obtain ⟨rfl, rfl⟩ := List.append_eq_nil_iff.mp hnil.symm
  obtain ⟨payload, hresponds, hhandle⟩ :=
    handle_request sendable hsound c.session x.client.corr
  have hstep : x.coordinator.step (.serve i sent) =
      { engine := (call.perform x.coordinator.engine).1
        file := if (call.perform x.coordinator.engine).2.2 then
            Coordinator.saveFile (call.perform x.coordinator.engine).1 x.coordinator.file
          else x.coordinator.file
        connections := x.coordinator.connections.insert i { c with
          pending := [], session := { c.session with done := c.session.done || !sent } } } := by
    simp only [Coordinator.step, hlook, hpend, hhandle]
  obtain ⟨more, lost', hmore, hcarries', hlost'⟩ :=
    carries_transmit (r := ⟨call.awaits, x.client.corr, payload⟩) hdown hlostDown hresponds.writable
  have hlocal : Machine.run Local.step y (x.localActs i (.serves sent)) = y.step (.call call) := by
    simp only [Remote.localActs, hlook, hpend, hwaits, List.isEmpty_cons, Bool.false_eq_true,
      if_false, Option.map_some, Option.toList_some, Machine.run_cons, Machine.run_nil]
  rw [hlocal]
  simp only [Remote.step, hlook, hpend, hhandle]
  refine ⟨[], more, ?_, framed.step _, allSendable_step framed sendable _, ?_, ?_, ?_⟩
  · refine agree.own (.serve i sent) rfl ?_ ?_ rfl
    · rw [hstep, agree.engine]
      rfl
    · rw [hstep, agree.engine, agree.file]
      rfl
  · show Stage x.client [] more
      (y.performed ++ [(call, (call.perform y.coordinator.engine).2.1)])
    rw [hperformed, ← agree.engine, ← hresponds.read]
    refine .answered hwaits (hmore.imp_right fun hm => ⟨bytesOf payload, hm, rfl⟩)
  · intro c' hc'
    rw [hstep] at hc'
    obtain rfl : _ = c' := Option.some.inj ((AList.lookup_insert _).symm.trans hc')
    refine ⟨hworker, [], lost, hcarries, ?_, rfl⟩
    intro hintact
    exact hlost (Bool.and_eq_true_iff.mp hintact).1
  · refine ⟨lost', hcarries', ?_⟩
    intro hintact
    exact hlost' (Bool.and_eq_true_iff.mp hintact).1

/-- An act that sets a flag of the thread at most. -/
theorem Tracks.loses (h : Tracks i x y requests responses) :
    Tracks i (x.step i .loses) y requests responses := by
  -- the thread of a lost connection keeps what it has received and not handled
  have hold : (x.coordinator.step (.lost i)).engine = x.coordinator.engine ∧
      (x.coordinator.step (.lost i)).file = x.coordinator.file ∧
      ∀ c', (x.coordinator.step (.lost i)).connections.lookup i = some c' →
        ∃ c, x.coordinator.connections.lookup i = some c ∧ c'.buffer = c.buffer ∧
          c'.pending = c.pending ∧ c'.session.isWorker = c.session.isWorker := by
    simp only [Coordinator.step]
    split
    · exact ⟨rfl, rfl, fun c hc => ⟨c, hc, rfl, rfl, rfl⟩⟩
    next c hlook =>
    split
    · exact ⟨rfl, rfl, fun c hc => ⟨c, hc, rfl, rfl, rfl⟩⟩
    · refine ⟨rfl, rfl, fun c' hc' => ?_⟩
      obtain rfl : _ = c' := Option.some.inj ((AList.lookup_insert _).symm.trans hc')
      exact ⟨c, hlook, rfl, rfl, rfl⟩
  obtain ⟨hengine, hfile, hconns⟩ := hold
  obtain ⟨lostDown, hdown, -⟩ := h.down
  refine ⟨?_, h.framed.step _, allSendable_step h.framed h.sendable _, h.stage, ?_, ?_⟩
  · -- nothing that the caller in the process sees has changed
    exact h.agree.own (.lost i) rfl (hengine.trans h.agree.engine) (hfile.trans h.agree.file) rfl
  · intro c' hc'
    obtain ⟨c, hlook, hbuffer, hpending, hw⟩ := hconns c' hc'
    obtain ⟨hworker, queue, lost, hcarries, -, hqueue⟩ := h.up c hlook
    rw [← hbuffer] at hcarries
    rw [← hpending] at hqueue
    exact ⟨hw.trans hworker, queue, lost, hcarries, fun hi => absurd hi Bool.false_ne_true, hqueue⟩
  · exact ⟨lostDown, hdown, fun hi => absurd hi Bool.false_ne_true⟩

/-- The end of the thread of a client leaves the engine alone. -/
theorem Tracks.finishes (h : Tracks i x y requests responses) :
    Tracks i (x.step i .finishes) y requests responses := by
  have hold : (x.coordinator.step (.finish i)).engine = x.coordinator.engine ∧
      (x.coordinator.step (.finish i)).file = x.coordinator.file ∧
      ∀ c, (x.coordinator.step (.finish i)).connections.lookup i = some c →
        x.coordinator.connections.lookup i = some c := by
    simp only [Coordinator.step]
    split
    · exact ⟨rfl, rfl, fun c hc => hc⟩
    next c hlook =>
    split
    -- a client has said no HELLO, so its end buries nobody
    · have hworker : c.session.isWorker = false := (h.up c hlook).1
      refine ⟨?_, rfl, fun c' hc' => ?_⟩
      · rw [hworker]
        rfl
      · cases (AList.lookup_erase i x.coordinator.connections).symm.trans hc'
    · exact ⟨rfl, rfl, fun c hc => hc⟩
  obtain ⟨hengine, hfile, hconns⟩ := hold
  refine ⟨?_, h.framed.step _, allSendable_step h.framed h.sendable _, h.stage, ?_, h.down⟩
  · exact h.agree.own (.finish i) rfl (hengine.trans h.agree.engine) (hfile.trans h.agree.file) rfl
  · exact fun c hc => h.up c (hconns c hc)

/-- A connection that breaks loses what is behind. -/
theorem Tracks.breaks (h : Tracks i x y requests responses) (m n : ℕ) :
    Tracks i (x.step i (.breaks m n)) y requests responses := by
  obtain ⟨lostDown, hdown, -⟩ := h.down
  refine ⟨h.agree, h.framed, h.sendable, h.stage, ?_, ?_⟩
  · intro c hc
    obtain ⟨hworker, queue, lost, hcarries, -, hqueue⟩ := h.up c hc
    exact ⟨hworker, queue, _, hcarries.cut m, fun hi => absurd hi Bool.false_ne_true, hqueue⟩
  · exact ⟨_, hdown.cut n, fun hi => absurd hi Bool.false_ne_true⟩

theorem Tracks.other (h : Tracks i x y requests responses) (input : Input) :
    Tracks i (x.step i (.other input))
      (Machine.run Local.step y (x.localActs i (.other input))) requests responses := by
  by_cases hi : input.connection = i
  · simp only [Remote.step, Remote.localActs, if_pos hi]
    exact h
  · simp only [Remote.step, Remote.localActs, if_neg hi]
    refine ⟨h.agree.step hi, h.framed.step _, allSendable_step h.framed h.sendable _, h.stage, ?_,
      h.down⟩
    intro c hc
    rw [x.coordinator.lookup_of_other hi] at hc
    exact h.up c hc

/-- A call is under way. -/
theorem Tracks.asks (h : Tracks i x y requests responses) {call : Call D} (hcall : call.Sound) :
    Tracked i (x.step i (.asks call)) y := by
  rcases hwaits : x.client.waits with _ | c
  swap
  · simp only [Remote.step, hwaits]
    exact ⟨requests, responses, h⟩
  obtain ⟨agree, framed, sendable, stage, hup, hdown⟩ := h
  generalize hperformed : y.performed = performed at stage
  cases stage with
  | asked h _ _ => cases hwaits.symm.trans h
  | answered h _ => cases hwaits.symm.trans h
  | idle _ =>
  simp only [Remote.step, hwaits]
  rcases hlook : x.coordinator.connections.lookup i with _ | c
  · -- there is no thread any more that could read the request
    refine ⟨[], [], agree, framed, sendable, ?_, fun c hc => ?_, hdown⟩
    · rw [hperformed]
      exact .asked rfl hcall (Or.inl rfl)
    · cases hlook.symm.trans hc
  obtain ⟨hworker, queue, lost, hcarries, hlost, hqueue⟩ := hup c hlook
  -- no request is under way, so the new one is the only one
  obtain ⟨hpending, rfl⟩ := List.append_eq_nil_iff.mp hqueue.symm
  obtain ⟨more, lost', hmore, hcarries', hlost'⟩ :=
    carries_transmit hcarries hlost (hcall.writable x.client.corr)
  refine ⟨more, [], agree, framed, sendable, ?_, ?_, hdown⟩
  · rw [hperformed]
    exact .asked rfl hcall hmore
  · intro c' hc'
    obtain rfl : c = c' := Option.some.inj (hlook.symm.trans hc')
    refine ⟨hworker, more, lost', hcarries', hlost', ?_⟩
    rw [hpending]
    rfl

/-- The client hears nothing new, or what its call returned. -/
theorem Tracks.hears (h : Tracks i x y requests responses) (n : ℕ) :
    Tracked i (x.step i (.hears n)) y := by
  obtain ⟨lost, hcarries, hlost⟩ := h.down
  obtain ⟨hnone, rest, hrest, hcarries'⟩ := hcarries.arrive n
  obtain ⟨agree, framed, sendable, stage, hup, -⟩ := h
  generalize hperformed : y.performed = performed at stage
  cases stage with
  | idle hwaits =>
    simp only [Remote.step, hwaits]
    refine ⟨[], [], agree, framed, sendable, ?_, hup, lost, hcarries, hlost⟩
    rw [hperformed]
    exact .idle hwaits
  | @asked call _ hwaits hsound hrequests =>
    -- nothing is under way to the client
    obtain ⟨hmessages, rfl⟩ := List.append_eq_nil_iff.mp hrest.symm
    simp only at hmessages hnone
    simp only [Remote.step, hwaits, hmessages, hnone, List.filter_nil]
    refine ⟨requests, [], agree, framed, sendable, ?_, hup, lost, hcarries', hlost⟩
    rw [hperformed]
    exact .asked rfl hsound hrequests
  | @answered call a _ hwaits hresponses =>
    rcases hmessages : (frameDecoder.feed x.client.buffer (x.down.take n)).messages with _ | ⟨f, fs⟩
    · -- the response has not arrived, or has been lost
      simp only at hnone
      simp only [hmessages, List.nil_append] at hrest
      simp only [Remote.step, hwaits, hmessages, hnone, List.filter_nil]
      refine ⟨[], responses, agree, framed, sendable, ?_, hup, lost, hrest ▸ hcarries', hlost⟩
      rw [hperformed]
      exact .answered rfl hresponses
    · simp only at hnone
      simp only [hmessages] at hrest
      -- what has arrived is the response, whole and alone
      rcases hresponses with rfl | ⟨payload, rfl, hread⟩
      · cases hrest
      obtain ⟨rfl, hnil⟩ := List.cons.inj hrest
      obtain ⟨rfl, rfl⟩ := List.append_eq_nil_iff.mp hnil.symm
      simp only [Remote.step, hwaits, hmessages, hnone, List.filter_cons_of_pos, List.filter_nil,
        and_self, decide_true, hread]
      refine ⟨[], [], agree, framed, sendable, ?_, hup, lost, hcarries', hlost⟩
      rw [hperformed]
      exact .idle rfl

/-- **One act** of the remote client is what the local one does. -/
theorem Tracked.step [LawfulDoubleBits D] (h : Tracked i x y) {a : RemoteAct D}
    (ha : ∀ c, a = .asks c → c.Sound) :
    Tracked i (x.step i a) (Machine.run Local.step y (x.localActs i a)) := by
  obtain ⟨requests, responses, h⟩ := h
  cases a with
  | asks c => exact h.asks (ha c rfl)
  | receives n => exact ⟨_, _, h.receives n⟩
  | serves sent => exact h.serves sent
  | loses => exact ⟨_, _, h.loses⟩
  | finishes => exact ⟨_, _, h.finishes⟩
  | hears n => exact h.hears n
  | breaks m n => exact ⟨_, _, h.breaks m n⟩
  | other input => exact ⟨_, _, h.other input⟩

/-- What a client may not know yet. -/
theorem Stage.performed_eq {k : Client D} {performed : List (Call D × Answer D)}
    (h : Stage k requests responses performed) :
    performed = k.done ∨ ∃ c a, k.waits = some c ∧ performed = k.done ++ [(c, a)] := by
  cases h with
  | idle _ => exact Or.inl rfl
  | asked _ _ _ => exact Or.inl rfl
  | answered h _ => exact Or.inr ⟨_, _, h, rfl⟩

/-- **Remote calls are local calls.** A client connects to a coordinator in any state it reaches
from a start without a file, and makes calls within the bounds of the protocol, none of them with
a constraint that does not travel. Whatever the network does and whatever happens on the other
connections: the engine, the file and the other connections are at every moment those of a caller
in the process of the engine, to whom the inputs of the other connections happen in the same
order. The calls that have returned to the client are the ones performed there, in their order
and with what they returned there; only the call that the client waits for may have been
performed besides. -/
theorem remote_calls_are_local [LawfulDoubleBits D] (epoch : CoordinatorEpoch)
    (inputs : List Input)
    (h : ((Coordinator.start D epoch none).run inputs).connections.lookup i = none)
    (acts : List (RemoteAct D)) (hacts : ∀ c, .asks c ∈ acts → c.Sound) :
    let s := (Coordinator.start D epoch none).run inputs
    let x := Machine.run (Remote.step i) (Remote.start s i) acts
    let y := Machine.run Local.step ⟨s, []⟩
      (Machine.trace (Remote.step i) (Remote.localActs i) (Remote.start s i) acts)
    Agree i x.coordinator y.coordinator ∧
      (y.performed = x.client.done ∨
        ∃ c a, x.client.waits = some c ∧ y.performed = x.client.done ++ [(c, a)]) := by
  intro s x y
  have hframed : s.Framed :=
    Machine.invariant_run (Coordinator.framed_start epoch none) fun s input hs => hs.step input
  have hstart : Tracked i (Remote.start s i) (⟨s, []⟩ : Local D) :=
    tracked_start hframed (Coordinator.allSendable_run epoch inputs) h
  -- every call that is asked is one of `acts`
  have hsound : Machine.Along (Remote.step i)
      (fun _ a => ∀ c, a = RemoteAct.asks c → c.Sound) (Remote.start s i) acts := by
    rw [Machine.along_iff]
    rintro pre a post rfl c rfl
    exact hacts c (List.mem_append_right pre List.mem_cons_self)
  -- by induction on the acts, with what they make the local caller do so far
  have htracked : Tracked i x (Machine.run Local.step (⟨s, []⟩ : Local D)
      ([] ++ Machine.trace (Remote.step i) (Remote.localActs i) (Remote.start s i) acts)) := by
    refine Machine.history_of_along
      (J := fun performed x => Tracked i x (Machine.run Local.step (⟨s, []⟩ : Local D) performed))
      hstart ?_ hsound
    intro performed x a hx ha
    rw [Machine.run_append]
    exact hx.step ha
  obtain ⟨requests, responses, hx⟩ := htracked
  exact ⟨hx.agree, hx.stage.performed_eq⟩

end Simulation

/-- A client that releases a composition, while another one connects. -/
def releases : List (RemoteAct Binary64) := [
  .asks (.release ⟨7⟩), .receives 9, .other (.accept 1), .receives 1000, .serves true, .hears 1000]

/-- It is told that there is none, as a caller in the process would be. -/
theorem releases_local :
    let s := (Coordinator.start Binary64 ⟨1⟩ none).run []
    let x := Machine.run (Remote.step 0) (Remote.start s 0) releases
    let y := Machine.run Local.step ⟨s, []⟩
      (Machine.trace (Remote.step 0) (Remote.localActs 0) (Remote.start s 0) releases)
    x.client.done.length = 1 ∧ Agree 0 x.coordinator y.coordinator ∧
      (y.performed = x.client.done ∨
        ∃ c a, x.client.waits = some c ∧ y.performed = x.client.done ++ [(c, a)]) := by
  refine ⟨by decide +kernel, remote_calls_are_local ⟨1⟩ [] rfl releases ?_⟩
  intro c hc
  obtain rfl : c = .release ⟨7⟩ := by simpa [releases] using hc
  exact ⟨trivial, by decide⟩

end Deploy

end DFabric
