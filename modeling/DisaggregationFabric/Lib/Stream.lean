import DisaggregationFabric.Lib.Run

/-!
# Incremental decoders of a stream

A decoder that is fed a stream in pieces keeps what it has not used in a buffer. After
every piece it looks at the front of the buffer and cuts messages off as long as there
is a complete one; it waits when the front is short, and it gives up when the front
cannot become a message any more.

A `Scanner` is the function that looks at the front, together with what makes the
pieces irrelevant: a verdict depends on a prefix of the buffer, so that nothing fed
later changes it. The decoder it drives (`feed`) is a machine over the pieces, with the
buffer as its state.

* `drain_append` — draining a buffer, and then what is left of it with more appended,
  is draining the whole;
* `trace_feed`, `run_feed`, `along_feed` — so the messages, the buffer and the verdict
  of a run depend on the concatenation of the pieces alone;
* `feed_of_refused` — a refusal is final;
* `flatMap_encode_drain` — when what is cut off is the encoding of the message, no byte
  is lost and none is invented.
-/

/-- What the front of a buffer comes to. -/
inductive Front (M E : Type) where
  /-- Nothing to be said before more has arrived. -/
  | short
  /-- The stream is malformed. -/
  | refused (e : E)
  /-- A message that takes up the first `len` bytes. -/
  | message (m : M) (len : ℕ)

/-- A function that looks at the front of a buffer. Its verdicts are about a prefix. -/
structure Scanner (B M E : Type) where
  /-- The verdict. -/
  scan : List B → Front M E
  /-- A message takes up something, and not more than there is. -/
  progress : ∀ {buf m len}, scan buf = .message m len → 0 < len ∧ len ≤ buf.length
  /-- A message stays what it is when more arrives. -/
  message_append : ∀ {buf m len}, scan buf = .message m len →
    ∀ more, scan (buf ++ more) = .message m len
  /-- A refused front stays refused. -/
  refused_append : ∀ {buf e}, scan buf = .refused e → ∀ more, scan (buf ++ more) = .refused e

/-- What a decoder has made of its buffer: the messages it cut off, why it gave up, if
it did, and what is left. -/
structure Drained (B M E : Type) where
  messages : List M
  refusal : Option E
  buffer : List B

namespace Scanner

variable {B M E : Type} (sc : Scanner B M E)

/-- Cut messages off until the front is short or refused. -/
def drain (buf : List B) : Drained B M E :=
  match h : sc.scan buf with
  | .short => ⟨[], none, buf⟩
  | .refused e => ⟨[], some e, buf⟩
  | .message m len =>
    have : 0 < len ∧ len ≤ buf.length := sc.progress h
    let r := drain (buf.drop len)
    ⟨m :: r.messages, r.refusal, r.buffer⟩
termination_by buf.length
decreasing_by
  rw [List.length_drop]
  omega

/-- Append a piece to the buffer and drain it. -/
def feed (buf piece : List B) : Drained B M E := sc.drain (buf ++ piece)

/-- The decoder as a machine over the pieces. -/
def feedStep (buf piece : List B) : List B := (sc.feed buf piece).buffer

/-- What the decoder puts out for a piece. -/
def feedOut (buf piece : List B) : List M := (sc.feed buf piece).messages

/-- The decoder does not give up over a piece. -/
def Accepts (buf piece : List B) : Prop := (sc.feed buf piece).refusal = none

/-! ### Draining -/

variable {sc} {buf : List B}

theorem drain_of_short (h : sc.scan buf = .short) : sc.drain buf = ⟨[], none, buf⟩ := by
  rw [drain]
  split <;> simp_all

theorem drain_of_refused {e : E} (h : sc.scan buf = .refused e) :
    sc.drain buf = ⟨[], some e, buf⟩ := by
  rw [drain]
  split <;> simp_all

theorem drain_of_message {m : M} {len : ℕ} (h : sc.scan buf = .message m len) :
    sc.drain buf = ⟨m :: (sc.drain (buf.drop len)).messages,
      (sc.drain (buf.drop len)).refusal, (sc.drain (buf.drop len)).buffer⟩ := by
  rw [drain]
  split <;> simp_all

/-- **Induction along a drain**: over the messages that are cut off one by one. -/
theorem drain_induction {P : List B → Prop}
    (hshort : ∀ buf, sc.scan buf = .short → P buf)
    (hrefused : ∀ buf e, sc.scan buf = .refused e → P buf)
    (hmessage : ∀ buf m len, sc.scan buf = .message m len → P (buf.drop len) → P buf)
    (buf : List B) : P buf :=
  drain.induct sc P hshort hrefused (fun buf m len h _ => hmessage buf m len h) buf

/-- **Draining in two goes.** Draining a buffer, and then what is left of it with more
appended, is draining the whole. -/
theorem drain_append (buf more : List B) :
    sc.drain (buf ++ more) =
      ⟨(sc.drain buf).messages ++ (sc.drain ((sc.drain buf).buffer ++ more)).messages,
        (sc.drain ((sc.drain buf).buffer ++ more)).refusal,
        (sc.drain ((sc.drain buf).buffer ++ more)).buffer⟩ := by
  induction buf using sc.drain_induction with
  | hshort buf h => rw [drain_of_short h, List.nil_append]
  | hrefused buf e h => rw [drain_of_refused h, List.nil_append]
  | hmessage buf m len h ih =>
    -- the message at the front is cut off the longer buffer just the same
    have hdrop : (buf ++ more).drop len = buf.drop len ++ more :=
      List.drop_append_of_le_length (sc.progress h).2
    rw [drain_of_message (sc.message_append h more), hdrop, ih, drain_of_message h]
    rfl

/-- What is left after draining is drained: it gives no message and the same refusal. -/
theorem drain_buffer (buf : List B) :
    sc.drain (sc.drain buf).buffer = ⟨[], (sc.drain buf).refusal, (sc.drain buf).buffer⟩ := by
  induction buf using sc.drain_induction with
  | hshort buf h => rw [drain_of_short h, drain_of_short h]
  | hrefused buf e h => rw [drain_of_refused h, drain_of_refused h]
  | hmessage buf m len h ih => rw [drain_of_message h, ih]

/-- A decoder that waits has a short front. -/
theorem scan_buffer_of_refusal_none (h : (sc.drain buf).refusal = none) :
    sc.scan (sc.drain buf).buffer = .short := by
  induction buf using sc.drain_induction with
  | hshort buf hs => rw [drain_of_short hs]; exact hs
  | hrefused buf e hr => rw [drain_of_refused hr] at h; cases h
  | hmessage buf m len hm ih =>
    rw [drain_of_message hm] at h ⊢
    exact ih h

/-- A decoder that gave up has a refused front. -/
theorem scan_buffer_of_refusal {e : E} (h : (sc.drain buf).refusal = some e) :
    sc.scan (sc.drain buf).buffer = .refused e := by
  induction buf using sc.drain_induction with
  | hshort buf hs => rw [drain_of_short hs] at h; cases h
  | hrefused buf e' hr =>
    rw [drain_of_refused hr] at h ⊢
    cases h
    exact hr
  | hmessage buf m len hm ih =>
    rw [drain_of_message hm] at h ⊢
    exact ih h

/-- **No byte is lost.** When what is cut off is the encoding of the message, the
buffer is the encodings of the messages followed by what is left. -/
theorem flatMap_encode_drain {encode : M → List B}
    (hencode : ∀ {buf m len}, sc.scan buf = .message m len → buf.take len = encode m)
    (buf : List B) : (sc.drain buf).messages.flatMap encode ++ (sc.drain buf).buffer = buf := by
  induction buf using sc.drain_induction with
  | hshort buf h => rw [drain_of_short h]; rfl
  | hrefused buf e h => rw [drain_of_refused h]; rfl
  | hmessage buf m len h ih =>
    rw [drain_of_message h]
    dsimp only
    rw [List.flatMap_cons, List.append_assoc, ih, ← hencode h, List.take_append_drop]

/-! ### Runs over the pieces -/

/-- **Refusals are final.** Over a refused front, whatever is fed, the decoder gives up
again and puts nothing out. -/
theorem feed_of_refused {e : E} (h : sc.scan buf = .refused e) (piece : List B) :
    sc.feed buf piece = ⟨[], some e, buf ++ piece⟩ :=
  drain_of_refused (sc.refused_append h piece)

/-- The front stays refused over a whole run. -/
theorem scan_run_of_refused {e : E} (h : sc.scan buf = .refused e) (pieces : List (List B)) :
    sc.scan (Machine.run sc.feedStep buf pieces) = .refused e := by
  induction pieces generalizing buf with
  | nil => exact h
  | cons p pieces ih =>
    refine ih ?_
    rw [feedStep, feed_of_refused h]
    exact sc.refused_append h p

/-- What a run leaves in the buffer depends on the concatenation of the pieces. -/
theorem run_feed (pieces : List (List B)) (hbuf : (sc.drain buf).buffer = buf) :
    Machine.run sc.feedStep buf pieces = (sc.drain (buf ++ pieces.flatten)).buffer := by
  induction pieces generalizing buf with
  | nil => rw [Machine.run_nil, List.flatten_nil, List.append_nil, hbuf]
  | cons p pieces ih =>
    have hleft : (sc.drain (sc.feedStep buf p)).buffer = sc.feedStep buf p := by
      rw [feedStep, feed, drain_buffer]
    rw [Machine.run_cons, ih hleft, List.flatten_cons, ← List.append_assoc, drain_append (buf ++ p)]
    rfl

/-- So do the messages of a run. -/
theorem trace_feed (pieces : List (List B)) (hbuf : (sc.drain buf).messages = []) :
    Machine.trace sc.feedStep sc.feedOut buf pieces = (sc.drain (buf ++ pieces.flatten)).messages := by
  induction pieces generalizing buf with
  | nil => rw [Machine.trace, List.flatten_nil, List.append_nil, hbuf]
  | cons p pieces ih =>
    have hleft : (sc.drain (sc.feedStep buf p)).messages = [] := by
      rw [feedStep, feed, drain_buffer]
    rw [Machine.trace, ih hleft, List.flatten_cons, ← List.append_assoc, drain_append (buf ++ p)]
    rfl

/-- And so does whether the decoder gives up over any piece of a run. -/
theorem along_feed (pieces : List (List B)) (hbuf : (sc.drain buf).refusal = none) :
    Machine.Along sc.feedStep sc.Accepts buf pieces ↔
      (sc.drain (buf ++ pieces.flatten)).refusal = none := by
  induction pieces generalizing buf with
  | nil =>
    rw [List.flatten_nil, List.append_nil]
    exact iff_of_true trivial hbuf
  | cons p pieces ih =>
    have hrest : (sc.drain (buf ++ (p :: pieces).flatten)).refusal =
        (sc.drain (sc.feedStep buf p ++ pieces.flatten)).refusal := by
      rw [List.flatten_cons, ← List.append_assoc, drain_append (buf ++ p)]
      rfl
    rw [Machine.Along, hrest]
    rcases hp : (sc.feed buf p).refusal with _ | e
    · -- accepted: the rest of the run decides
      have hleft : (sc.drain (sc.feedStep buf p)).refusal = none := by
        rw [feedStep, feed, drain_buffer]
        exact hp
      rw [ih hleft]
      exact and_iff_right hp
    · -- refused: the rest of the stream does not change that
      have hscan : sc.scan (sc.feedStep buf p) = .refused e := scan_buffer_of_refusal hp
      have hfinal := feed_of_refused hscan pieces.flatten
      rw [feed] at hfinal
      rw [hfinal]
      refine iff_of_false (fun hacc => ?_) (by simp)
      rw [Accepts, hp] at hacc
      cases hacc.1

end Scanner
