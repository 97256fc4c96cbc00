import DisaggregationFabric.Deploy.Registration
import DisaggregationFabric.Deploy.Workers

/-!
# A worker and a coordinator

A worker on one connection of a coordinator, with the bytes that are under way between them, in
any interleaving with whatever the coordinator is asked on its other connections. The network
delivers the bytes in any pieces and may break at any time; the worker may die at any time, which
is a break. A socket takes what is sent at once: the loops of `SendSome` on the two sides, which do
not receive while they wait for room, are one act each.

The exchange is a run of the dialogue of `Deploy.Registration` (`Matches.step`), so

* what the coordinator registers for the connection is a beginning of the stamped descriptors of
  the nodes that the worker owns, in order (`registered_prefix_expected`);
* as long as the connection holds, the registration goes on until it is complete, and takes a
  bounded number of steps (`registration_completes`);
* no heartbeat is ever exchanged: neither side sends the first one (`no_heartbeats`).
-/

namespace DFabric

namespace Deploy

open Wire Proto

/-- The connection that an input concerns. -/
def Input.connection : Input → ℕ
  | .accept i | .received i _ | .lost i | .serve i _ | .finish i => i

/-- What a peer puts on a connection that takes all bytes. A writer that throws would end the
process. -/
def transmitted (replies : List Reply) : List UInt8 :=
  match sentBytes replies with
  | .ok bytes => bytes
  | .error _ => []

/-- A coordinator and a worker that has connected to it. -/
structure Exchange (D : Type) where
  coordinator : Coordinator D
  worker : Worker
  /-- The bytes on the way to the coordinator, and those on the way to the worker. -/
  up : List UInt8
  down : List UInt8
  /-- The connection is not broken. -/
  intact : Bool
  /-- What was registered for frames of this connection. -/
  published : List (Descriptor D)

/-- What can happen. -/
inductive Act where
  /-- `RecvSome` of the coordinator returns the first `n` bytes under way. -/
  | receives (n : ℕ)
  /-- The coordinator handles the next frame; `sent` tells whether the socket took the replies. -/
  | serves (sent : Bool)
  /-- `RecvSome` of the coordinator reports the end of the stream, or an error. -/
  | loses
  /-- The thread of the connection ends. -/
  | finishes
  /-- `RecvSome` of the worker returns the first `n` bytes under way, and it answers them. -/
  | hears (n : ℕ)
  /-- The connection breaks, or the worker dies: of what is under way, some bytes still
  arrive. -/
  | breaks (m n : ℕ)
  /-- Something happens on another connection. -/
  | other (input : Input)

namespace Exchange

variable {D : Type} [Double D] [DoubleBits D]

/-- A worker has connected and sent its opening. -/
def start (s : Coordinator D) (i : ℕ) (boot : UInt64) (ids : List NodeId) : Exchange D where
  coordinator := s.step (.accept i)
  worker := Worker.start boot
  up := transmitted (openingReplies boot ids)
  down := []
  intact := true
  published := []

/-- What an act does; an act that cannot happen does nothing. What is sent is all on its way at
once. -/
def step (i : ℕ) (x : Exchange D) : Act → Exchange D
  | .receives n =>
    match x.coordinator.connections.lookup i with
    | none => x
    | some c =>
      if c.session.done || !c.pending.isEmpty then x
      else
        { x with
          coordinator := x.coordinator.step (.received i (x.up.take n))
          up := x.up.drop n }
  | .serves sent =>
    match x.coordinator.connections.lookup i with
    | none => x
    | some c =>
      match c.pending with
      | [] => x
      | f :: _ =>
        let replies := (handle x.coordinator.engine c.session f).replies
        { x with
          coordinator := x.coordinator.step (.serve i sent)
          down := Dialogue.put x.intact x.down (transmitted replies)
          intact := x.intact && sent
          published := x.published ++ (publication D c.session f).toList }
  | .loses => { x with coordinator := x.coordinator.step (.lost i), intact := false }
  | .finishes => { x with coordinator := x.coordinator.step (.finish i) }
  | .hears n =>
    if !x.worker.alive then x
    else
      let r := x.worker.receive D (x.down.take n)
      { x with
        worker := r.1
        down := x.down.drop n
        up := Dialogue.put x.intact x.up (transmitted r.2) }
  | .breaks m n => { x with up := x.up.take m, down := x.down.take n, intact := false }
  | .other input =>
    if input.connection = i then x
    else { x with coordinator := x.coordinator.step input }

/-- The state that a list of acts leads to. -/
abbrev run (i : ℕ) (x : Exchange D) (acts : List Act) : Exchange D := Machine.run (step i) x acts

/-- An act of the two peers that has work to do. -/
def works (i : ℕ) (x : Exchange D) : Act → Bool
  | .receives n =>
    (x.coordinator.connections.lookup i).any (fun c => !c.session.done && c.pending.isEmpty) &&
      !(x.up.take n).isEmpty
  | .serves _ => (x.coordinator.connections.lookup i).any fun c => !c.pending.isEmpty
  | .hears n => x.worker.alive && !(x.down.take n).isEmpty
  | _ => false

end Exchange

/-! ### The bytes of replies -/

/-- Replies whose strings are written are sent as frames. -/
theorem transmitted_eq {replies : List Reply} (h : ∀ r ∈ replies, Writable wireLimits r.payload) :
    transmitted replies = (replies.map Reply.frame).flatMap Frame.encode := by
  -- each reply is written
  have hsent : replies.mapM Reply.bytes = .ok ((replies.map Reply.frame).map Frame.encode) := by
    induction replies with
    | nil => rfl
    | cons r rest ih =>
      obtain ⟨hr, hrest⟩ := List.forall_mem_cons.mp h
      have hbytes : r.bytes = .ok r.frame.encode := by
        rw [Reply.bytes, hr.write_eq]
        rfl
      rw [List.mapM_cons, hbytes, ih hrest]
      rfl
  rw [transmitted, sentBytes, hsent]
  show ((replies.map Reply.frame).map Frame.encode).flatten = _
  rw [List.flatMap_def]

section Written

variable {D : Type} [Double D] [DoubleBits D]

theorem writable_opening (boot : UInt64) (ids : List NodeId) :
    ∀ r ∈ openingReplies boot ids, Writable wireLimits r.payload := by
  refine List.forall_mem_cons.mpr ⟨writable_u64 boot, List.forall_mem_singleton.mpr ?_⟩
  exact writable_ids ids

theorem writable_served (f : Frame) : ∀ r ∈ served D f, Writable wireLimits r.payload := by
  unfold served
  split
  · exact List.forall_mem_singleton.mpr writable_nil
  · refine List.forall_mem_append.mpr ⟨?_, List.forall_mem_singleton.mpr writable_nil⟩
    intro r hr
    rw [descriptors_eq] at hr
    obtain ⟨d, hd, rfl⟩ := List.mem_map.mp hr
    exact (Descriptor.sound_inventory _ d hd).writable _
  · exact List.forall_mem_nil _

/-- What a worker answers is an answer to one of the frames. -/
theorem Worker.exists_of_mem_serve {w : Worker} {frames : List Frame} {r : Reply}
    (hr : r ∈ (w.serve D frames).2) : ∃ f ∈ frames, ∃ corr, echo D w.boot corr f = some r := by
  induction frames generalizing w with
  | nil => cases hr
  | cons f fs ih =>
    unfold Worker.serve at hr
    -- a frame is answered with its echo, or not at all
    rcases ha : echo D w.boot (w.corrNext + 1) f with _ | r'
    · rw [ha] at hr
      obtain ⟨g, hg, h⟩ := ih hr
      exact ⟨g, List.mem_cons_of_mem f hg, h⟩
    · rw [ha] at hr
      rcases List.mem_cons.mp hr with rfl | hr
      · exact ⟨f, List.mem_cons_self, _, ha⟩
      · obtain ⟨g, hg, h⟩ := ih hr
        exact ⟨g, List.mem_cons_of_mem f hg, h⟩

/-- What a coordinator answers is a descriptor or an acknowledgement. -/
theorem mem_answers {ids : List NodeId} {f : Frame} (hf : f ∈ answers D ids) :
    f.type = .ack ∨ ∃ d : Descriptor D, d.Sound 600 ∧ f = (d.reply 2).frame := by
  unfold answers at hf
  rcases List.mem_cons.mp hf with rfl | hf
  · exact Or.inl rfl
  · split at hf
    · rcases List.mem_append.mp hf with hf | hf
      · obtain ⟨d, hd, rfl⟩ := List.mem_map.mp hf
        exact Or.inr ⟨d, Descriptor.sound_inventory ids d hd, rfl⟩
      · cases List.mem_singleton.mp hf
        exact Or.inl rfl
    · cases hf

/-- What a worker says is its opening or a descriptor. -/
theorem ofWorker_of_mem_said [LawfulDoubleBits D] {boot : UInt64} {ids : List NodeId} {f : Frame}
    (hf : f ∈ (course D boot ids).said) : OfWorker f := by
  -- the opening is `HELLO` and, within its bound, `REGISTER`; the rest are echoes
  rcases List.mem_append.mp hf with hf | hf
  · rw [opening_eq] at hf
    rcases List.mem_cons.mp hf with rfl | hf
    · exact Or.inl rfl
    · split at hf
      · cases List.mem_singleton.mp hf
        exact Or.inr (Or.inl rfl)
      · cases hf
  · obtain ⟨d, -, c, rfl⟩ := exists_of_mem_echoes boot hf
    cases d with
    | node n => exact Or.inr (Or.inr (Or.inl rfl))
    | resource r => exact Or.inr (Or.inr (Or.inr rfl))

theorem writable_of_echo [LawfulDoubleBits D] {boot : UInt64} {ids : List NodeId} {f : Frame}
    (hf : f ∈ answers D ids) {corr : UInt64} {r : Reply} (hr : echo D boot corr f = some r) :
    Writable wireLimits r.payload := by
  rcases mem_answers hf with hack | ⟨d, hd, rfl⟩
  · rw [echo, hack, descriptor?, hack] at hr
    cases hr
  · rw [hd.echo boot 2 corr] at hr
    cases hr
    exact (hd.stamp boot).writable corr

end Written

/-! ### The exchange is the dialogue -/

section Simulation

variable {D : Type} [Double D] [DoubleBits D]

omit [Double D] [DoubleBits D] in
/-- The entry of a connection that is put back. -/
theorem Coordinator.lookup_put (s : Coordinator D) (i : ℕ) (c : Connection) :
    (s.put i c).connections.lookup i = some c := AList.lookup_insert _

omit [DoubleBits D] in
/-- The other connections have their own entries. -/
theorem Coordinator.lookup_of_other [DoubleBits D] (s : Coordinator D) {input : Input} {i : ℕ}
    (h : input.connection ≠ i) : (s.step input).connections.lookup i = s.connections.lookup i := by
  have hne : i ≠ input.connection := fun hc => h hc.symm
  -- each input writes the entry of its own connection
  cases input with
  | accept j =>
    simp only [Coordinator.step]
    split
    · rfl
    · exact AList.lookup_insert_ne hne
  | received j bytes =>
    simp only [Coordinator.step]
    split
    · rfl
    split
    · rfl
    split <;> exact AList.lookup_insert_ne hne
  | lost j =>
    simp only [Coordinator.step]
    split
    · rfl
    split
    · rfl
    · exact AList.lookup_insert_ne hne
  | serve j sent =>
    simp only [Coordinator.step]
    split
    · rfl
    split
    · rfl
    · exact AList.lookup_insert_ne hne
  | finish j =>
    simp only [Coordinator.step]
    split
    · rfl
    split
    · exact AList.lookup_erase_ne hne
    · rfl

/-- The dialogue that an exchange is. A connection that has ended is one on which nothing
happens any more. -/
structure Matches (i : ℕ) (boot : UInt64) (x : Exchange D)
    (d : Dialogue UInt8 Frame Frame Session UInt64) : Prop where
  up : d.up.wire = x.up
  down : d.down = ⟨x.down, x.worker.buffer⟩
  worker : x.worker = ⟨boot, x.worker.buffer, d.client, true⟩
  intact : d.intact = x.intact
  published : x.published = publications D d.handled
  opened : ∀ c, x.coordinator.connections.lookup i = some c → d.up.buffer = c.buffer ∧
    d.pending = c.pending ∧ d.server.boot = c.session.boot ∧
    d.server.isWorker = c.session.isWorker ∧ (x.intact = true → c.session.done = false)
  closed : x.coordinator.connections.lookup i = none → x.intact = false ∧ d.pending = []

variable [LawfulDoubleBits D] {i : ℕ} {boot : UInt64} {ids : List NodeId} {x : Exchange D}
  {d : Dialogue UInt8 Frame Frame Session UInt64}

/-- What an act of the exchange comes to in the dialogue. -/
def Simulated (i : ℕ) (boot : UInt64) (ids : List NodeId) (x : Exchange D) (a : Act)
    (d : Dialogue UInt8 Frame Frame Session UInt64) : Prop :=
  ∃ d', Dialogue.Coherent (course D boot ids) d' ∧ Matches i boot (x.step i a) d' ∧
    Dialogue.left (course D boot ids) d' + (x.works i a).toNat ≤
      Dialogue.left (course D boot ids) d

/-- An act that changes nothing. -/
theorem Simulated.stay {a : Act} (hc : Dialogue.Coherent (course D boot ids) d)
    (hm : Matches i boot x d) (hstep : x.step i a = x) (hworks : x.works i a = false) :
    Simulated i boot ids x a d := by
  refine ⟨d, hc, ?_, ?_⟩
  · rw [hstep]
    exact hm
  · rw [hworks]
    exact Nat.le_refl _

/-- An act that is one event. -/
theorem Simulated.of_event {a : Act} (hc : Dialogue.Coherent (course D boot ids) d)
    (e : DialogueEvent) (hm : Matches i boot (x.step i a) (d.step (registration D boot ids) e))
    (hworks : x.works i a = d.works e) : Simulated i boot ids x a d := by
  refine ⟨_, hc.step e, hm, ?_⟩
  rw [hworks]
  exact hc.left_step e

theorem simulated_receives (hc : Dialogue.Coherent (course D boot ids) d)
    (hm : Matches i boot x d) (n : ℕ) : Simulated i boot ids x (.receives n) d := by
  -- a thread that has ended does not read
  rcases hlook : x.coordinator.connections.lookup i with _ | c
  · refine .stay hc hm ?_ ?_
    · simp only [Exchange.step, hlook]
    · simp only [Exchange.works, hlook, Option.any_none, Bool.false_and]
  obtain ⟨hbuffer, hpending, hboot, hworker, hdone⟩ := hm.opened c hlook
  -- nor does one with frames to handle
  by_cases hbusy : (c.session.done || !c.pending.isEmpty) = true
  · refine .stay hc hm ?_ ?_
    · simp only [Exchange.step, hlook, if_pos hbusy]
    · have hno : (!c.session.done && c.pending.isEmpty) = false := by
        rw [← Bool.not_not (c.pending.isEmpty), ← Bool.not_or, hbusy]
        rfl
      simp only [Exchange.works, hlook, Option.any_some, hno, Bool.false_and]
  · -- the thread reads, and its decoder does not give up
    have hfree : c.session.done = false ∧ c.pending = [] := by simpa using hbusy
    have hnone := (hc.up.arrive n).1
    rw [hm.up, hbuffer] at hnone
    -- both sides feed the same bytes to the same decoder
    have hstep : x.step i (.receives n) = { x with
        coordinator := x.coordinator.put i { c with
          buffer := (frameDecoder.feed c.buffer (x.up.take n)).buffer
          pending := (frameDecoder.feed c.buffer (x.up.take n)).messages }
        up := x.up.drop n } := by
      simp only [Exchange.step, hlook, if_neg hbusy, Coordinator.step, hnone]
    have hdstep : d.step (registration D boot ids) (.arrive n) = { d with
        up := ⟨x.up.drop n, (frameDecoder.feed c.buffer (x.up.take n)).buffer⟩
        pending := (frameDecoder.feed c.buffer (x.up.take n)).messages } := by
      simp only [Dialogue.step, hpending, hfree.2, List.isEmpty_nil, if_true, hm.up, hbuffer]
    refine .of_event hc (.arrive n) ?_ ?_
    · rw [hstep, hdstep]
      refine ⟨rfl, hm.down, hm.worker, hm.intact, hm.published, ?_, ?_⟩
      · intro c' hc'
        rw [Coordinator.lookup_put] at hc'
        cases hc'
        exact ⟨rfl, rfl, hboot, hworker, hdone⟩
      · intro hc'
        rw [Coordinator.lookup_put] at hc'
        cases hc'
    · simp only [Exchange.works, Dialogue.works, hlook, Option.any_some, hfree.1, hfree.2, hpending,
        hm.up, Bool.not_false, Bool.true_and]

theorem simulated_hears (hc : Dialogue.Coherent (course D boot ids) d)
    (hm : Matches i boot x d) (n : ℕ) : Simulated i boot ids x (.hears n) d := by
  have harrive := hc.down.arrive n
  rw [hm.down] at harrive
  obtain ⟨hnone, hflows⟩ := harrive
  set r := frameDecoder.feed x.worker.buffer (x.down.take n) with hr
  -- the frames are answers of the coordinator
  have hmem : ∀ f ∈ r.messages, f ∈ answers D ids := by
    intro f hf
    have hle := hflows.arrived_le.trans hc.answered_le
    exact hle.subset (List.mem_append_right _ hf)
  have hreceive : x.worker.receive D (x.down.take n) =
      Worker.serve D ⟨boot, r.buffer, d.client, true⟩ r.messages := by
    rw [hm.worker]
    exact Worker.receive_of_accepted rfl hnone
  obtain ⟨hworker, hframes⟩ := Worker.serve_eq (D := D) ⟨boot, r.buffer, d.client, true⟩ r.messages
  have hbytes : transmitted (x.worker.receive D (x.down.take n)).2 =
      ((workerParty D boot).output d.client r.messages).flatMap Frame.encode := by
    rw [hreceive, transmitted_eq, hframes]
    intro reply hreply
    obtain ⟨f, hf, corr, ha⟩ := Worker.exists_of_mem_serve hreply
    exact writable_of_echo (hmem f hf) ha
  have halive : x.worker.alive = true := by rw [hm.worker]
  have hstep : x.step i (.hears n) = { x with
      worker := ⟨boot, r.buffer, (workerParty D boot).after d.client r.messages, true⟩
      down := x.down.drop n
      up := Dialogue.put x.intact x.up
        (((workerParty D boot).output d.client r.messages).flatMap Frame.encode) } := by
    simp only [Exchange.step, halive, Bool.not_true, Bool.false_eq_true, if_false, hbytes]
    rw [hreceive, hworker]
  have hdstep : d.step (registration D boot ids) (.hear n) = { d with
      up := ⟨Dialogue.put x.intact x.up
        (((workerParty D boot).output d.client r.messages).flatMap Frame.encode), d.up.buffer⟩
      down := ⟨x.down.drop n, r.buffer⟩
      client := (workerParty D boot).after d.client r.messages
      heard := d.heard ++ r.messages } := by
    simp only [Dialogue.step, hm.down, hm.up, hm.intact]
    rfl
  refine .of_event hc (.hear n) ?_ ?_
  · rw [hstep, hdstep]
    exact ⟨rfl, rfl, rfl, hm.intact, hm.published, hm.opened, hm.closed⟩
  · simp only [Exchange.works, Dialogue.works, halive, Bool.true_and, hm.down]

theorem simulated_serves (hc : Dialogue.Coherent (course D boot ids) d)
    (hm : Matches i boot x d) (sent : Bool) : Simulated i boot ids x (.serves sent) d := by
  rcases hlook : x.coordinator.connections.lookup i with _ | c
  · refine .stay hc hm ?_ ?_
    · simp only [Exchange.step, hlook]
    · simp only [Exchange.works, hlook, Option.any_none]
  rcases hpend : c.pending with _ | ⟨f, rest⟩
  · refine .stay hc hm ?_ ?_
    · simp only [Exchange.step, hlook, hpend]
    · simp only [Exchange.works, hlook, Option.any_some, hpend, List.isEmpty_nil, Bool.not_true]
  obtain ⟨hbuffer, hpending, hboot, hworker, hdone⟩ := hm.opened c hlook
  rw [hpend] at hpending
  -- the frame is one that the worker has said
  have hof : OfWorker f := by
    refine ofWorker_of_mem_said (hc.handled_le.subset ?_)
    rw [hpending]
    exact List.mem_append_right _ List.mem_cons_self
  have hbytes : transmitted (handle x.coordinator.engine c.session f).replies =
      ((served D f).map Reply.frame).flatMap Frame.encode := by
    rw [handle_replies hof, transmitted_eq (writable_served f)]
  have hpub : publication D c.session f = publication D d.server f := by
    rw [publication, publication, hboot, hworker]
  -- the event, and after it the break, if the replies were not taken
  have hserve : ∃ d', Dialogue.Coherent (course D boot ids) d' ∧
      d' = { d.step (registration D boot ids) .serve with intact := d.intact && sent } ∧
      Dialogue.left (course D boot ids) d' + 1 ≤ Dialogue.left (course D boot ids) d := by
    have hworks : d.works .serve = true := by simp [Dialogue.works, hpending]
    have hleft := hc.left_step .serve
    rw [hworks] at hleft
    cases sent with
    | true =>
      have hintact : (d.step (registration D boot ids) .serve).intact = d.intact := by
        simp only [Dialogue.step, hpending]
      refine ⟨_, hc.step .serve, ?_, hleft⟩
      rw [Bool.and_true, ← hintact]
    | false =>
      set d₁ := d.step (registration D boot ids) .serve
      have hcut : d₁.step (registration D boot ids)
          (.cut d₁.up.wire.length d₁.down.wire.length) = { d₁ with intact := false } := by
        simp only [Dialogue.step, List.take_length]
      have hleft₁ := (hc.step .serve).left_step (.cut d₁.up.wire.length d₁.down.wire.length)
      refine ⟨_, (hc.step .serve).step (.cut d₁.up.wire.length d₁.down.wire.length), ?_,
        (Nat.add_le_add_right (Nat.le_of_add_right_le hleft₁) 1).trans hleft⟩
      rw [hcut, Bool.and_false]
  obtain ⟨d', hc', rfl, hleft⟩ := hserve
  refine ⟨_, hc', ?_, ?_⟩
  · have hstep : x.step i (.serves sent) = { x with
        coordinator := x.coordinator.step (.serve i sent)
        down := Dialogue.put x.intact x.down (((served D f).map Reply.frame).flatMap Frame.encode)
        intact := x.intact && sent
        published := x.published ++ (publication D c.session f).toList } := by
      simp only [Exchange.step, hlook, hpend, hbytes]
    have hdstep : d.step (registration D boot ids) .serve = { d with
        down := ⟨Dialogue.put x.intact x.down
          (((served D f).map Reply.frame).flatMap Frame.encode), x.worker.buffer⟩
        server := d.server.after f
        pending := rest
        handled := d.handled ++ [f] } := by
      simp only [Dialogue.step, hpending, hm.down, hm.intact]
      rfl
    have hsession : (handle x.coordinator.engine c.session f).session = c.session.after f :=
      handle_session _ _ _
    have hafter : (d.server.after f).boot = (c.session.after f).boot ∧
        (d.server.after f).isWorker = (c.session.after f).isWorker ∧
        (c.session.after f).done = c.session.done := by
      rcases hof with h | h | h | h <;> simp [Session.after, h, hboot, hworker]
    have hlook' : (x.coordinator.step (.serve i sent)).connections.lookup i = some { c with
        pending := rest
        session := { c.session.after f with done := (c.session.after f).done || !sent } } := by
      simp only [Coordinator.step, hlook, hpend, hsession]
      exact AList.lookup_insert _
    rw [hstep, hdstep]
    refine ⟨hm.up, rfl, hm.worker, congrArg (· && sent) hm.intact, ?_, ?_, ?_⟩
    · -- the thread knows what the dialogue's server knows
      show x.published ++ (publication D c.session f).toList =
        (registrarParty D).output default (d.handled ++ [f])
      rw [Party.output_append, Party.output_singleton, hm.published, hpub]
      have hserver : (registrarParty D).after default d.handled = d.server := hc.server_eq.symm
      rw [hserver]
      rfl
    · intro c' hc''
      rw [hlook'] at hc''
      cases hc''
      refine ⟨hbuffer, rfl, hafter.1, hafter.2.1, ?_⟩
      intro hintact
      obtain ⟨hi, hs⟩ := Bool.and_eq_true_iff.mp hintact
      show ((c.session.after f).done || !sent) = false
      rw [hafter.2.2, hdone hi, hs]
      rfl
    · intro hc''
      rw [hlook'] at hc''
      cases hc''
  · have hworks : x.works i (.serves sent) = true := by
      simp only [Exchange.works, hlook, Option.any_some, hpend, List.isEmpty_cons, Bool.not_false]
    rw [hworks]
    exact hleft

/-- An act that breaks the connection. -/
theorem simulated_breaks (hc : Dialogue.Coherent (course D boot ids) d)
    (hm : Matches i boot x d) (m n : ℕ) : Simulated i boot ids x (.breaks m n) d := by
  refine .of_event hc (.cut m n) ?_ rfl
  -- what has arrived already stays, on both ends
  refine ⟨?_, ?_, hm.worker, rfl, hm.published, ?_, ?_⟩
  · show d.up.wire.take m = x.up.take m
    rw [hm.up]
  · show (⟨d.down.wire.take n, d.down.buffer⟩ : Link UInt8) = ⟨x.down.take n, x.worker.buffer⟩
    rw [hm.down]
  · intro c hlook
    obtain ⟨hbuffer, hpending, hboot, hworker, -⟩ := hm.opened c hlook
    exact ⟨hbuffer, hpending, hboot, hworker, fun h => absurd h Bool.false_ne_true⟩
  · intro hlook
    exact ⟨rfl, (hm.closed hlook).2⟩

theorem simulated_loses (hc : Dialogue.Coherent (course D boot ids) d)
    (hm : Matches i boot x d) : Simulated i boot ids x .loses d := by
  -- a loss is a break at which everything under way still arrives
  have hcut : d.step (registration D boot ids) (.cut d.up.wire.length d.down.wire.length) =
      { d with intact := false } := by
    simp only [Dialogue.step, List.take_length]
  refine .of_event hc (.cut d.up.wire.length d.down.wire.length) ?_ rfl
  rw [hcut]
  refine ⟨hm.up, hm.down, hm.worker, rfl, hm.published, ?_, ?_⟩
  · -- only the flag of the thread is set
    intro c' hc'
    have hold : ∃ c, x.coordinator.connections.lookup i = some c ∧ c'.buffer = c.buffer ∧
        c'.pending = c.pending ∧ c'.session.boot = c.session.boot ∧
        c'.session.isWorker = c.session.isWorker := by
      change (x.coordinator.step (.lost i)).connections.lookup i = some c' at hc'
      simp only [Coordinator.step] at hc'
      split at hc'
      · next hnone =>
        rw [hnone] at hc'
        cases hc'
      · next c hlook =>
        split at hc'
        · rw [hlook] at hc'
          cases hc'
          exact ⟨_, hlook, rfl, rfl, rfl, rfl⟩
        · rw [Coordinator.lookup_put] at hc'
          cases hc'
          exact ⟨c, hlook, rfl, rfl, rfl, rfl⟩
    obtain ⟨c, hlook, hb, hp, hboot', hw⟩ := hold
    obtain ⟨hbuffer, hpending, hboot, hworker, -⟩ := hm.opened c hlook
    exact ⟨hbuffer.trans hb.symm, hpending.trans hp.symm, hboot.trans hboot'.symm,
      hworker.trans hw.symm, fun h => absurd h Bool.false_ne_true⟩
  · -- the thread does not end by this
    intro hnone
    refine ⟨rfl, ?_⟩
    rcases hlook : x.coordinator.connections.lookup i with _ | c
    · exact (hm.closed hlook).2
    · change (x.coordinator.step (.lost i)).connections.lookup i = none at hnone
      simp only [Coordinator.step, hlook] at hnone
      split at hnone
      · rw [hlook] at hnone
        cases hnone
      · rw [Coordinator.lookup_put] at hnone
        cases hnone

theorem simulated_finishes (hc : Dialogue.Coherent (course D boot ids) d)
    (hm : Matches i boot x d) : Simulated i boot ids x .finishes d := by
  refine ⟨d, hc, ?_, Nat.le_refl _⟩
  -- there is no thread left to end
  rcases hlook : x.coordinator.connections.lookup i with _ | c
  · have hstep : x.step i .finishes = x := by
      simp only [Exchange.step, Coordinator.step, hlook]
    rw [hstep]
    exact hm
  by_cases hdone : (c.session.done && c.pending.isEmpty) = true
  · -- only a thread whose connection is broken is done
    have hlook' : (x.step i .finishes).coordinator.connections.lookup i = none := by
      simp only [Exchange.step, Coordinator.step, hlook, if_pos hdone]
      exact AList.lookup_erase _ _
    obtain ⟨-, hpending, -, -, hintact⟩ := hm.opened c hlook
    obtain ⟨hd, hp⟩ := Bool.and_eq_true_iff.mp hdone
    refine ⟨hm.up, hm.down, hm.worker, hm.intact, hm.published, ?_, ?_⟩
    · intro c' hc'
      rw [hlook'] at hc'
      cases hc'
    · intro _
      refine ⟨?_, hpending.trans (List.isEmpty_iff.mp hp)⟩
      by_contra hx
      rw [hintact (Bool.not_eq_false _ ▸ hx)] at hd
      cases hd
  · -- it is not done yet, and stays
    have hstep : x.step i .finishes = x := by
      simp only [Exchange.step, Coordinator.step, hlook, if_neg hdone]
    rw [hstep]
    exact hm

theorem simulated_other (hc : Dialogue.Coherent (course D boot ids) d)
    (hm : Matches i boot x d) (input : Input) : Simulated i boot ids x (.other input) d := by
  -- an input of this connection is not an act of another one
  by_cases hi : input.connection = i
  · exact .stay hc hm (if_pos hi) rfl
  · have hlook := x.coordinator.lookup_of_other hi
    have hstep : x.step i (.other input) = { x with coordinator := x.coordinator.step input } :=
      if_neg hi
    refine ⟨d, hc, ?_, Nat.le_refl _⟩
    rw [hstep]
    refine ⟨hm.up, hm.down, hm.worker, hm.intact, hm.published, ?_, ?_⟩
    · show ∀ c, (x.coordinator.step input).connections.lookup i = some c → _
      rw [hlook]
      exact hm.opened
    · show (x.coordinator.step input).connections.lookup i = none → _
      rw [hlook]
      exact hm.closed

/-- What is registered is what the worker is to publish, as far as it was handled. -/
theorem Matches.published_le (hc : Dialogue.Coherent (course D boot ids) d)
    (hm : Matches i boot x d) : x.published <+: expected D boot ids := by
  have hhandled : d.handled <+: (course D boot ids).said :=
    (List.prefix_append _ _).trans hc.handled_le
  rw [hm.published, ← publications_course boot ids]
  exact (registrarParty D).output_mono default hhandled

/-- **Every act of the exchange is what some events of the dialogue are.** -/
theorem Matches.step (hc : Dialogue.Coherent (course D boot ids) d) (hm : Matches i boot x d)
    (a : Act) : Simulated i boot ids x a d := by
  cases a with
  | receives n => exact simulated_receives hc hm n
  | serves sent => exact simulated_serves hc hm sent
  | loses => exact simulated_loses hc hm
  | finishes => exact simulated_finishes hc hm
  | hears n => exact simulated_hears hc hm n
  | breaks m n => exact simulated_breaks hc hm m n
  | other input => exact simulated_other hc hm input

omit [LawfulDoubleBits D] in
/-- A worker connects on a number that is free. -/
theorem matches_start {s : Coordinator D} (h : s.connections.lookup i = none) (boot : UInt64)
    (ids : List NodeId) : Matches i boot (Exchange.start s i boot ids)
      (Dialogue.start (registration D boot ids)) := by
  have haccept : s.step (.accept i) = s.put i ⟨[], [], default⟩ := by
    simp only [Coordinator.step, h]
  have hlook : (s.step (.accept i)).connections.lookup i = some ⟨[], [], default⟩ := by
    rw [haccept]
    exact AList.lookup_insert _
  -- what is too long is not encoded, in either of the two
  have hfilter : ∀ frames : List Frame,
      (frames.filter fun f => decide f.Fits).flatMap Frame.encode = frames.flatMap Frame.encode := by
    intro frames
    induction frames with
    | nil => rfl
    | cons f frames ih =>
      rw [List.filter_cons, List.flatMap_cons]
      split
      · rw [List.flatMap_cons, ih]
      · next hlong =>
        rw [ih, Socket.encode_of_not_fits (by simpa using hlong), List.nil_append]
  have hup : (registration D boot ids).opening.flatMap Frame.encode =
      transmitted (openingReplies boot ids) := by
    rw [transmitted_eq (writable_opening boot ids)]
    exact hfilter _
  refine ⟨hup, rfl, rfl, rfl, rfl, ?_, ?_⟩
  · intro c hc
    change (s.step (.accept i)).connections.lookup i = some c at hc
    rw [hlook] at hc
    cases hc
    exact ⟨rfl, rfl, rfl, rfl, fun _ => rfl⟩
  · intro hnone
    change (s.step (.accept i)).connections.lookup i = none at hnone
    rw [hlook] at hnone
    cases hnone

/-- **Every run of the exchange follows the dialogue**, and does the work of it. -/
theorem matches_run (hc : Dialogue.Coherent (course D boot ids) d) (hm : Matches i boot x d)
    (acts : List Act) :
    ∃ d', Dialogue.Coherent (course D boot ids) d' ∧ Matches i boot (x.run i acts) d' ∧
      Dialogue.left (course D boot ids) d' + Machine.count (Exchange.step i) (Exchange.works i) x acts ≤
        Dialogue.left (course D boot ids) d := by
  have hstep : ∀ (x : Exchange D) d a,
      Dialogue.Coherent (course D boot ids) d ∧ Matches i boot x d →
      ∃ d', (Dialogue.Coherent (course D boot ids) d' ∧ Matches i boot (x.step i a) d') ∧
        Dialogue.left (course D boot ids) d' + (x.works i a).toNat ≤
          Dialogue.left (course D boot ids) d := by
    rintro x d a ⟨hc, hm⟩
    obtain ⟨d', hc', hm', hleft⟩ := hm.step hc a
    exact ⟨d', ⟨hc', hm'⟩, hleft⟩
  obtain ⟨d', ⟨hc', hm'⟩, hleft⟩ := Machine.exists_simulated_run hstep ⟨hc, hm⟩ acts
  exact ⟨d', hc', hm', hleft⟩

end Simulation

namespace Exchange

variable {D : Type} [Double D] [DoubleBits D] [LawfulDoubleBits D] {s : Coordinator D} {i : ℕ}

/-- **What is registered for a worker.** Whatever the network does with the bytes, whenever the
connection breaks or the worker dies, and whatever happens on other connections: at every moment,
what the coordinator has registered for the connection is a beginning of the stamped descriptors
of the nodes that the worker announced. Nothing else is registered, nothing twice, and nothing
out of order. -/
theorem registered_prefix_expected (h : s.connections.lookup i = none) (boot : UInt64)
    (ids : List NodeId) (acts : List Act) :
    ((start s i boot ids).run i acts).published <+: expected D boot ids := by
  obtain ⟨d, hc, hm, -⟩ :=
    matches_run (Dialogue.coherent_start (course D boot ids)) (matches_start h boot ids) acts
  exact hm.published_le hc

/-- A worker that owns the fourth node registers it and its accelerator. -/
def registers : List Act := [
  .receives 1000, .serves true, .serves true, .hears 50, .hears 2000, .receives 2000,
  .serves true, .serves true]

theorem registers_prefix_expected :
    ((start (Coordinator.start Binary64 ⟨1⟩ none) 0 8 [⟨4⟩]).run 0 registers).published.length = 2 ∧
      ((start (Coordinator.start Binary64 ⟨1⟩ none) 0 8 [⟨4⟩]).run 0 registers).published <+:
        expected Binary64 8 [⟨4⟩] :=
  ⟨by decide +kernel, registered_prefix_expected rfl 8 [⟨4⟩] registers⟩

/-- The bytes and the frames of a registration. -/
def budget (D : Type) [Double D] [DoubleBits D] [LawfulDoubleBits D] (boot : UInt64)
    (ids : List NodeId) : ℕ :=
  ((course D boot ids).said.flatMap Frame.encode).length + (course D boot ids).said.length +
    ((course D boot ids).answered.flatMap Frame.encode).length

/-- **A registration is completed**, where the sockets take what is sent. As long as the
connection holds, either everything that the worker announced is registered, or one of the two
peers has something to do: the coordinator to receive a byte or to handle a frame, or the worker
to receive a byte. And they have something to do for a bounded number of acts only, whatever the
schedule. -/
theorem registration_completes (h : s.connections.lookup i = none) (boot : UInt64)
    (ids : List NodeId) (acts : List Act) :
    let x := (start s i boot ids).run i acts
    (x.intact = true → x.published = expected D boot ids ∨ x.works i (.receives 1) = true ∨
      x.works i (.serves true) = true ∨ x.works i (.hears 1) = true) ∧
    Machine.count (step i) (works i) (start s i boot ids) acts ≤ budget D boot ids := by
  intro x
  obtain ⟨d, hc, hm, hleft⟩ :=
    matches_run (Dialogue.coherent_start (course D boot ids)) (matches_start h boot ids) acts
  constructor
  · intro hintact
    by_cases hopen : d.handled = (course D boot ids).said ∧ d.heard = (course D boot ids).answered
    · refine Or.inl ?_
      rw [hm.published, hopen.1, publications_course]
    · refine Or.inr ?_
      -- the thread is alive, and has what the dialogue has
      have hsome : ∃ c, x.coordinator.connections.lookup i = some c := by
        rcases hlook : x.coordinator.connections.lookup i with _ | c
        · rw [(hm.closed hlook).1] at hintact
          cases hintact
        · exact ⟨c, rfl⟩
      obtain ⟨c, hlook⟩ := hsome
      obtain ⟨-, hpending, -, -, hdone⟩ := hm.opened c hlook
      have halive : x.worker.alive = true := congrArg Worker.alive hm.worker
      rcases hc.exists_works (hm.intact.trans hintact) hopen with hw | hw | hw
      · refine Or.inl ?_
        rw [Dialogue.works, hm.up, hpending] at hw
        simp only [works, hlook, Option.any_some, hdone hintact, Bool.not_false, Bool.true_and]
        exact hw
      · refine Or.inr (Or.inl ?_)
        rw [Dialogue.works, hpending] at hw
        simp only [works, hlook, Option.any_some]
        exact hw
      · refine Or.inr (Or.inr ?_)
        rw [Dialogue.works, hm.down] at hw
        simp only [works, halive, Bool.true_and]
        exact hw
  · have hstart : Dialogue.left (course D boot ids) (Dialogue.start (registration D boot ids)) =
        budget D boot ids := rfl
    rw [hstart] at hleft
    exact Nat.le_of_add_left_le hleft

theorem registers_completes :
    let x := (start (Coordinator.start Binary64 ⟨1⟩ none) 0 8 [⟨4⟩]).run 0 registers
    (x.intact = true → x.published = expected Binary64 8 [⟨4⟩] ∨ x.works 0 (.receives 1) = true ∨
      x.works 0 (.serves true) = true ∨ x.works 0 (.hears 1) = true) ∧
    Machine.count (step 0) (works 0) (start (Coordinator.start Binary64 ⟨1⟩ none) 0 8 [⟨4⟩])
      registers ≤ budget Binary64 8 [⟨4⟩] :=
  registration_completes rfl 8 [⟨4⟩] registers

/-- **Neither side ever sends a heartbeat.** In every run, the frames that wait at the
coordinator are those of a registration, and so are the frames that the worker may receive next.
A worker that has registered is silent from then on. -/
theorem no_heartbeats (h : s.connections.lookup i = none) (boot : UInt64) (ids : List NodeId)
    (acts : List Act) :
    let x := (start s i boot ids).run i acts
    (∀ c, x.coordinator.connections.lookup i = some c → ∀ f ∈ c.pending, OfWorker f) ∧
      ∀ n, ∀ f ∈ (frameDecoder.feed x.worker.buffer (x.down.take n)).messages,
        f.type = .ack ∨ f.type = .publishNode ∨ f.type = .publishResource := by
  intro x
  -- what is under way is a part of what the two courses say
  obtain ⟨d, hc, hm, -⟩ :=
    matches_run (Dialogue.coherent_start (course D boot ids)) (matches_start h boot ids) acts
  constructor
  · intro c hlook f hf
    obtain ⟨-, hpending, -⟩ := hm.opened c hlook
    refine ofWorker_of_mem_said (hc.handled_le.subset (List.mem_append_right _ ?_))
    rw [hpending]
    exact hf
  · intro n f hf
    have hle := (hc.down.arrive n).2.arrived_le.trans hc.answered_le
    rw [hm.down] at hle
    -- the worker is told acknowledgements and the echo of its entries
    rcases mem_answers (hle.subset (List.mem_append_right _ hf)) with hack | ⟨e, -, rfl⟩
    · exact Or.inl hack
    · cases e with
      | node n => exact Or.inr (Or.inl rfl)
      | resource r => exact Or.inr (Or.inr rfl)

theorem registers_no_heartbeats :
    let x := (start (Coordinator.start Binary64 ⟨1⟩ none) 0 8 [⟨4⟩]).run 0 registers
    (∀ c, x.coordinator.connections.lookup 0 = some c → ∀ f ∈ c.pending, OfWorker f) ∧
      ∀ n, ∀ f ∈ (frameDecoder.feed x.worker.buffer (x.down.take n)).messages,
        f.type = .ack ∨ f.type = .publishNode ∨ f.type = .publishResource :=
  no_heartbeats rfl 8 [⟨4⟩] registers

end Exchange

end Deploy

end DFabric
