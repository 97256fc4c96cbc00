import DisaggregationFabric.Lib.Stream

/-!
# Links: messages between a sender and an incremental decoder

A sender appends the encodings of messages to a stream; the network hands the stream on in
pieces of any length; the receiver feeds the pieces to a decoder. `Link` is what is under way:
the bytes that have not arrived, and the bytes that are in the decoder's buffer.

When the decoder undoes the encoding (`MessageCode`), the link is a queue of messages. `Carries`
relates the two: the bytes under way are the encodings of the messages in the queue, but for
what was lost behind them when the connection broke.

* `Carries.send` — to send a message is to append it to the queue;
* `Carries.arrive` — the arrival of a piece takes messages off the front of the queue, the ones
  that the decoder puts out, and the decoder does not give up;
* `Carries.cut` — a connection that breaks loses messages at the end of the queue only;
* `Carries.eq_nil` — a link with no bytes on the wire, on which nothing was lost, is empty.

`Pipe` is the whole connection as a machine, with what was sent and received beside it:
in every run what was received is a beginning of what was sent (`Pipe.queue_run`).
-/

/-- An encoding of messages that a scanner undoes. -/
structure MessageCode {B M E : Type} (sc : Scanner B M E) where
  encode : M → List B
  /-- The messages that can be encoded. -/
  Fits : M → Prop
  scan_encode : ∀ {m}, Fits m → ∀ rest, sc.scan (encode m ++ rest) = .message m (encode m).length
  take_eq_encode : ∀ {buf m len}, sc.scan buf = .message m len → buf.take len = encode m
  scan_nil : sc.scan [] = .short

namespace MessageCode

variable {B M E : Type} {sc : Scanner B M E} (code : MessageCode sc)

/-- Encodings are drained to the last byte. -/
theorem drain_encode {queue : List M} (h : ∀ m ∈ queue, code.Fits m) :
    sc.drain (queue.flatMap code.encode) = ⟨queue, none, []⟩ := by
  induction queue with
  | nil => exact Scanner.drain_of_short code.scan_nil
  | cons m queue ih =>
    obtain ⟨hm, hqueue⟩ := List.forall_mem_cons.mp h
    have hscan : sc.scan ((m :: queue).flatMap code.encode) = .message m (code.encode m).length :=
      code.scan_encode hm _
    rw [Scanner.drain_of_message hscan, List.flatMap_cons, List.drop_left, ih hqueue]

end MessageCode

/-- What is under way between a sender and a receiver. -/
structure Link (B : Type) where
  /-- The bytes that were sent and have not arrived. -/
  wire : List B
  /-- The bytes that have arrived and are in the decoder's buffer. -/
  buffer : List B

namespace Link

variable {B M E : Type} {sc : Scanner B M E} {code : MessageCode sc} {l : Link B}
  {queue : List M} {lost : List B}

/-- The link carries the messages of the queue, and `lost` is what is missing of the last of
them. -/
structure Carries (code : MessageCode sc) (l : Link B) (queue : List M) (lost : List B) :
    Prop where
  fits : ∀ m ∈ queue, code.Fits m
  bytes : l.buffer ++ l.wire ++ lost = queue.flatMap code.encode
  waits : sc.scan l.buffer = .short

/-- A link before anything is sent. -/
theorem carries_nil : Carries code ⟨[], []⟩ [] [] :=
  ⟨List.forall_mem_nil _, rfl, code.scan_nil⟩

/-- What is sent goes to the end of the queue. -/
theorem Carries.send (h : Carries code l queue []) {ms : List M} (hms : ∀ m ∈ ms, code.Fits m) :
    Carries code { l with wire := l.wire ++ ms.flatMap code.encode } (queue ++ ms) [] where
  fits := List.forall_mem_append.mpr ⟨h.fits, hms⟩
  bytes := by
    have hbytes := h.bytes
    rw [List.append_nil] at hbytes
    rw [List.append_nil, List.flatMap_append, ← hbytes, List.append_assoc]
  waits := h.waits

/-- A connection that breaks loses bytes at the end. -/
theorem Carries.cut (h : Carries code l queue lost) (n : ℕ) :
    Carries code { l with wire := l.wire.take n } queue (l.wire.drop n ++ lost) where
  fits := h.fits
  bytes := by
    rw [← h.bytes, List.append_assoc, List.append_assoc, ← List.append_assoc (l.wire.take n),
      List.take_append_drop]
  waits := h.waits

/-- **A piece arrives**: the decoder does not give up, what it puts out is the front of the
queue, and the link carries the rest. -/
theorem Carries.arrive (h : Carries code l queue lost) (n : ℕ) :
    (sc.feed l.buffer (l.wire.take n)).refusal = none ∧
      ∃ rest, queue = (sc.feed l.buffer (l.wire.take n)).messages ++ rest ∧
        Carries code ⟨l.wire.drop n, (sc.feed l.buffer (l.wire.take n)).buffer⟩ rest lost := by
  set d := sc.feed l.buffer (l.wire.take n) with hd
  -- the whole stream is drained, the piece being its first part
  have hwhole : l.buffer ++ l.wire.take n ++ (l.wire.drop n ++ lost) =
      queue.flatMap code.encode := by
    rw [← h.bytes, List.append_assoc, List.append_assoc, ← List.append_assoc (l.wire.take n),
      List.take_append_drop]
  have hdrain := sc.drain_append (l.buffer ++ l.wire.take n) (l.wire.drop n ++ lost)
  rw [hwhole, code.drain_encode h.fits] at hdrain
  change _ = Drained.mk (d.messages ++ (sc.drain (d.buffer ++ (l.wire.drop n ++ lost))).messages)
    (sc.drain (d.buffer ++ (l.wire.drop n ++ lost))).refusal
    (sc.drain (d.buffer ++ (l.wire.drop n ++ lost))).buffer at hdrain
  rw [Drained.mk.injEq] at hdrain
  obtain ⟨hmessages, hrefusal, -⟩ := hdrain
  have hnone : d.refusal = none := by
    rcases hr : d.refusal with _ | e
    · rfl
    -- a refused front would have refused the whole
    · have hscan : sc.scan d.buffer = .refused e := Scanner.scan_buffer_of_refusal hr
      have hfinal := Scanner.feed_of_refused hscan (l.wire.drop n ++ lost)
      rw [Scanner.feed] at hfinal
      rw [hfinal] at hrefusal
      cases hrefusal
  refine ⟨hnone, _, hmessages, ?_, ?_, Scanner.scan_buffer_of_refusal_none hnone⟩
  · intro m hm
    exact h.fits m (hmessages ▸ List.mem_append_right _ hm)
  · -- what was cut off is the encoding of what was put out
    have hcut : d.messages.flatMap code.encode ++ d.buffer = l.buffer ++ l.wire.take n :=
      Scanner.flatMap_encode_drain code.take_eq_encode _
    have hsplit : queue.flatMap code.encode = d.messages.flatMap code.encode ++
        (sc.drain (d.buffer ++ (l.wire.drop n ++ lost))).messages.flatMap code.encode := by
      rw [← List.flatMap_append, ← hmessages]
    rw [← hwhole, ← hcut, List.append_assoc] at hsplit
    rw [List.append_assoc]
    exact List.append_cancel_left hsplit

/-- When everything has arrived and nothing was lost, nothing is under way. -/
theorem Carries.eq_nil (h : Carries code l queue []) (hwire : l.wire = []) :
    queue = [] ∧ l.buffer = [] := by
  have hbytes := h.bytes
  rw [hwire, List.append_nil, List.append_nil] at hbytes
  cases queue with
  | nil => exact ⟨rfl, hbytes⟩
  | cons m queue =>
    -- the decoder would have put the message out
    have hwaits := h.waits
    rw [hbytes, List.flatMap_cons, code.scan_encode (h.fits m List.mem_cons_self)] at hwaits
    cases hwaits

end Link

/-! ### The connection as a machine -/

/-- A one-way connection, with what went in and what came out. -/
structure Pipe (B M : Type) where
  link : Link B
  /-- The connection is not broken. -/
  intact : Bool
  sent : List M
  received : List M

/-- What can happen on a connection. -/
inductive PipeEvent (M : Type) where
  | send (m : M)
  /-- The first `n` bytes under way arrive. -/
  | arrive (n : ℕ)
  /-- The connection breaks: of what is under way, `n` bytes still arrive. -/
  | cut (n : ℕ)

namespace Pipe

variable {B M E : Type} {sc : Scanner B M E} {code : MessageCode sc}

/-- A connection that was just made. -/
def start : Pipe B M := ⟨⟨[], []⟩, true, [], []⟩

/-- What an event does. On a broken connection nothing is sent any more. -/
def step (code : MessageCode sc) (p : Pipe B M) : PipeEvent M → Pipe B M
  | .send m =>
    if p.intact then
      { p with
        link := { p.link with wire := p.link.wire ++ code.encode m }
        sent := p.sent ++ [m] }
    else p
  | .arrive n =>
    let d := sc.feed p.link.buffer (p.link.wire.take n)
    { p with
      link := ⟨p.link.wire.drop n, d.buffer⟩
      received := p.received ++ d.messages }
  | .cut n => { p with link := { p.link with wire := p.link.wire.take n }, intact := false }

/-- Every message that is sent can be encoded. -/
def SendsFit (code : MessageCode sc) (events : List (PipeEvent M)) : Prop :=
  ∀ m, PipeEvent.send m ∈ events → code.Fits m

/-- The connection is a queue: what was sent is what was received, and then what is under way. -/
def Queue (code : MessageCode sc) (p : Pipe B M) : Prop :=
  ∃ queue lost, p.sent = p.received ++ queue ∧ p.link.Carries code queue lost ∧
    (p.intact = true → lost = [])

theorem queue_start : Queue code (start : Pipe B M) :=
  ⟨[], [], rfl, Link.carries_nil, fun _ => rfl⟩

theorem Queue.step {p : Pipe B M} (h : p.Queue code) {e : PipeEvent M}
    (hfits : ∀ m, e = .send m → code.Fits m) : (p.step code e).Queue code := by
  obtain ⟨queue, lost, hsent, hcarries, hlost⟩ := h
  cases e with
  | send m =>
    unfold Pipe.step
    dsimp only
    -- what is sent on a broken pipe is not under way
    split
    · next hintact =>
      cases hlost hintact
      have hm : ∀ m' ∈ [m], code.Fits m' := List.forall_mem_singleton.mpr (hfits m rfl)
      have hsend := hcarries.send hm
      rw [List.flatMap_singleton] at hsend
      exact ⟨queue ++ [m], [], by rw [hsent, List.append_assoc], hsend, fun _ => rfl⟩
    · exact ⟨queue, lost, hsent, hcarries, hlost⟩
  | arrive n =>
    -- what arrives was at the front of the queue
    obtain ⟨-, rest, hqueue, hrest⟩ := hcarries.arrive n
    refine ⟨rest, lost, ?_, hrest, hlost⟩
    change p.sent = p.received ++ _ ++ rest
    rw [List.append_assoc, ← hqueue, hsent]
  | cut n => exact ⟨queue, _, hsent, hcarries.cut n, fun h => absurd h Bool.false_ne_true⟩

/-- **A connection is a queue in every run**, whatever the pieces and whenever it breaks. -/
theorem queue_run {p : Pipe B M} (h : p.Queue code) {events : List (PipeEvent M)}
    (hfits : SendsFit code events) : (Machine.run (step code) p events).Queue code := by
  induction events generalizing p with
  | nil => exact h
  | cons e events ih =>
    refine ih (h.step fun m hm => ?_) fun m hm => hfits m (List.mem_cons_of_mem e hm)
    exact hfits m (hm ▸ List.mem_cons_self)

end Pipe
