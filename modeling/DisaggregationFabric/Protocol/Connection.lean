import DisaggregationFabric.Lib.Link
import DisaggregationFabric.Protocol.Framing

/-!
# One direction of a connection

A peer sends a frame in a loop around `SendSome`, which takes as many bytes as the socket has
room for; the other peer calls `RecvSome` with a buffer of its own and feeds what it gets to its
`FrameDecoder`. `Socket` is the state of the two and of the network between them, and its
events are the returns of the two calls.

Neither the pieces in which the bytes are taken nor those in which they arrive are seen by the
peers: the socket is a `Pipe` (`Socket.pipe_step`), so what is received is a beginning of what
was sent, frame by frame, and all of it once all bytes have arrived (`received_prefix_sent`).
A connection that breaks in the middle of a frame delivers the frames before it.
-/

namespace DFabric

namespace Proto

/-- The frames that `Encode` takes, and the decoder that undoes it. -/
def frameCode : MessageCode frameDecoder where
  encode := Frame.encode
  Fits := Frame.Fits
  scan_encode h rest := nextFrame_encode h rest
  take_eq_encode h := (take_eq_encode h).2
  scan_nil := rfl

/-- What `SendSome` returns: it would block, it took some bytes, or there was an error. -/
inductive SendResult where
  | wouldBlock
  | took (n : ℕ)
  | error

/-- One direction of a connection. -/
structure Socket where
  /-- What the loop of the sender has not handed to the socket. -/
  unsent : List UInt8
  /-- What the socket took and the receiver has not got. -/
  wire : List UInt8
  /-- The buffer of the receiver's decoder. -/
  buffer : List UInt8
  /-- `SendSome` has returned an error, as it will from then on. -/
  failed : Bool
  /-- The frames the sender has sent, and those the receiver's decoder has put out. -/
  sent : List Frame
  received : List Frame

/-- What happens on a connection. -/
inductive SocketEvent where
  /-- The sender enters its loop with an encoded frame. -/
  | write (f : Frame)
  | sendSome (r : SendResult)
  /-- `RecvSome` returns the first `n` bytes. -/
  | recvSome (n : ℕ)
  /-- The connection is cut: of what the socket took, `n` bytes still arrive. -/
  | cut (n : ℕ)

namespace Socket

/-- A connection that was just made. -/
def start : Socket := ⟨[], [], [], false, [], []⟩

/-- What an event does; an event that cannot happen does nothing. -/
def step (s : Socket) : SocketEvent → Socket
  | .write f =>
    if s.failed || !s.unsent.isEmpty then s
    -- of a frame beyond its bound nothing is encoded, so nothing is sent
    else { s with unsent := f.encode, sent := if f.Fits then s.sent ++ [f] else s.sent }
  | .sendSome r =>
    if s.failed then s
    else
      match r with
      | .wouldBlock => s
      | .took n => { s with unsent := s.unsent.drop n, wire := s.wire ++ s.unsent.take n }
      -- the loop is left
      | .error => { s with unsent := [], failed := true }
  | .recvSome n =>
    let d := frameDecoder.feed s.buffer (s.wire.take n)
    { s with wire := s.wire.drop n, buffer := d.buffer, received := s.received ++ d.messages }
  | .cut n => { s with unsent := [], wire := s.wire.take n, failed := true }

/-- The connection as a queue of bytes: what the sender's loop still holds is under way as
well. -/
def pipe (s : Socket) : Pipe UInt8 Frame := ⟨⟨s.wire ++ s.unsent, s.buffer⟩, !s.failed, s.sent,
  s.received⟩

/-- What an event is for the queue. -/
def pipeEvents (s : Socket) : SocketEvent → List (PipeEvent Frame)
  | .write f => if s.failed || !s.unsent.isEmpty || !decide f.Fits then [] else [.send f]
  | .sendSome r =>
    match r with
    | .error => if s.failed then [] else [.cut s.wire.length]
    | _ => []
  -- no more than the socket took
  | .recvSome n => [.arrive (min n s.wire.length)]
  | .cut n => [.cut (min n s.wire.length)]

/-- A frame that is too long is not encoded. -/
theorem encode_of_not_fits {f : Frame} (h : ¬ f.Fits) : f.encode = [] :=
  if_pos (Or.inr (not_le.mp h))

/-- **The socket refines the queue**: every event does to the queue what its events do. -/
theorem pipe_step (s : Socket) (e : SocketEvent) :
    (s.step e).pipe = Machine.run (Pipe.step frameCode) s.pipe (s.pipeEvents e) := by
  cases e with
  | write f =>
    by_cases hbusy : (s.failed || !s.unsent.isEmpty) = true
    · simp only [step, pipeEvents, hbusy, Bool.true_or, if_true, Machine.run_nil]
    · have hidle : s.failed = false ∧ s.unsent = [] := by simpa using hbusy
      by_cases hf : f.Fits
      · simp [step, pipeEvents, pipe, Pipe.step, frameCode, hidle.1, hidle.2, hf]
      · simp [step, pipeEvents, pipe, hidle.1, hidle.2, hf, encode_of_not_fits hf]
  | sendSome r =>
    cases hfailed : s.failed with
    | true =>
      cases r <;> simp [step, pipeEvents, pipe, hfailed]
    | false =>
      cases r with
      | wouldBlock => simp [step, pipeEvents, pipe, hfailed]
      -- what the socket takes stays under way
      | took n => simp [step, pipeEvents, pipe, hfailed]
      | error => simp [step, pipeEvents, pipe, Pipe.step, hfailed]
  | recvSome n =>
    have htake : (s.wire ++ s.unsent).take (min n s.wire.length) = s.wire.take n := by
      rw [List.take_append_of_le_length (Nat.min_le_right _ _), ← List.take_eq_take_min]
    have hdrop : (s.wire ++ s.unsent).drop (min n s.wire.length) = s.wire.drop n ++ s.unsent := by
      rw [List.drop_append_of_le_length (Nat.min_le_right _ _), ← List.drop_eq_drop_min]
    simp only [step, pipeEvents, pipe, Machine.run_cons, Machine.run_nil, Pipe.step, htake, hdrop]
  | cut n =>
    have htake : (s.wire ++ s.unsent).take (min n s.wire.length) = s.wire.take n := by
      rw [List.take_append_of_le_length (Nat.min_le_right _ _), ← List.take_eq_take_min]
    simp only [step, pipeEvents, pipe, Machine.run_cons, Machine.run_nil, Pipe.step, htake,
      List.append_nil, Bool.not_true]

/-- The queue sends only what fits. -/
theorem sendsFit_pipeEvents (s : Socket) (e : SocketEvent) :
    Pipe.SendsFit frameCode (s.pipeEvents e) := by
  intro m hm
  unfold pipeEvents at hm
  -- only a frame within its bound is put on the pipe
  split at hm
  · next f =>
    split at hm
    · cases hm
    · next hsends =>
      cases List.mem_singleton.mp hm
      simp only [Bool.or_eq_true, Bool.not_eq_true', decide_eq_false_iff_not, not_or] at hsends
      exact not_not.mp hsends.2
  · split at hm
    · split at hm
      · cases hm
      · cases List.mem_singleton.mp hm
    · cases hm
  · cases List.mem_singleton.mp hm
  · cases List.mem_singleton.mp hm

/-- A socket is a queue after every event. -/
theorem queue_step {s : Socket} (h : s.pipe.Queue frameCode) (e : SocketEvent) :
    (s.step e).pipe.Queue frameCode := by
  rw [pipe_step]
  exact Pipe.queue_run h (s.sendsFit_pipeEvents e)

/-- The decoder gives up over what `RecvSome` returns. -/
def GivesUp (s : Socket) (e : SocketEvent) : Prop :=
  ∃ n, e = .recvSome n ∧ (frameDecoder.feed s.buffer (s.wire.take n)).refusal ≠ none

theorem not_givesUp {s : Socket} (h : s.pipe.Queue frameCode) (e : SocketEvent) :
    ¬ s.GivesUp e := by
  rintro ⟨n, rfl, hrefusal⟩
  obtain ⟨queue, lost, -, hcarries, -⟩ := h
  have harrive := (hcarries.arrive (min n s.wire.length)).1
  change (frameDecoder.feed s.buffer ((s.wire ++ s.unsent).take (min n s.wire.length))).refusal =
    none at harrive
  rw [List.take_append_of_le_length (Nat.min_le_right _ _), ← List.take_eq_take_min] at harrive
  exact hrefusal harrive

/-- **A connection delivers what was sent, in order.** Whatever the pieces in which bytes are
taken and returned, and whenever the connection fails: the decoder never gives up and holds no
complete frame back, the frames received are a beginning of the frames sent, and as long as the
connection has not failed they are all of them once nothing is under way. -/
theorem received_prefix_sent (events : List SocketEvent) :
    Machine.Along step (fun s e => ¬ s.GivesUp e) start events ∧
      (Machine.run step start events).received <+: (Machine.run step start events).sent ∧
      nextFrame (Machine.run step start events).buffer = .short ∧
      ((Machine.run step start events).failed = false →
        (Machine.run step start events).unsent = [] →
        (Machine.run step start events).wire = [] →
        (Machine.run step start events).received = (Machine.run step start events).sent ∧
          (Machine.run step start events).buffer = []) := by
  have hstart : start.pipe.Queue frameCode := Pipe.queue_start
  have hinv : (Machine.run step start events).pipe.Queue frameCode :=
    Machine.invariant_run (I := fun s : Socket => s.pipe.Queue frameCode) hstart
      fun s e h => queue_step h e
  -- no give up, a prefix, a decoder that waits, and nothing missing at the end
  refine ⟨?_, ?_, ?_, ?_⟩
  · rw [Machine.along_iff]
    intro pre e post _
    have hpre : (Machine.run step start pre).pipe.Queue frameCode :=
      Machine.invariant_run (I := fun s : Socket => s.pipe.Queue frameCode) hstart
        fun s e h => queue_step h e
    exact not_givesUp hpre e
  · obtain ⟨queue, lost, hsent, -, -⟩ := hinv
    exact ⟨queue, hsent.symm⟩
  · obtain ⟨queue, lost, -, hcarries, -⟩ := hinv
    exact hcarries.waits
  · -- with nothing under way the queue is empty
    intro hfailed hunsent hwire
    obtain ⟨queue, lost, hsent, hcarries, hlost⟩ := hinv
    have hnone : lost = [] := hlost (by simp [pipe, hfailed])
    subst hnone
    obtain ⟨hqueue, hbuffer⟩ := hcarries.eq_nil (by simp [pipe, hunsent, hwire])
    rw [hqueue, List.append_nil] at hsent
    exact ⟨hsent.symm, hbuffer⟩

end Socket

end Proto

end DFabric
