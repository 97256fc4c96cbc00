import DisaggregationFabric.Lib.Link

/-!
# Dialogues

Two parties talk over a pair of links. The client opens with some messages; from then on each
party handles what arrives, message by message, and says something in turn. When the bytes
arrive, in which pieces, and which party moves first, is up to the network and the scheduler.

What a party says depends on what it has heard alone, so the two parties compute the least
solution of a pair of equations between streams, whatever the schedule. `Course` is that
solution: all that is ever said.

* `coherent_start`, `Coherent.step` — at every moment what was handled, what waits and what is
  under way is a beginning of the course, in both directions, and no decoder gives up;
* `Coherent.complete` — when nothing is under way and the connection has not broken, all of it
  was said and handled;
* `Coherent.exists_works`, `Coherent.left_step` — until then some event has work to do, and each
  event that does work takes from what is left of it.
-/

/-- A party: it handles messages one after the other, and says messages in turn. -/
structure Party (S A B : Type) where
  next : S → A → S
  emit : S → A → List B

namespace Party

variable {S A B : Type} (p : Party S A B)

/-- The state of a party that has handled the messages. -/
abbrev after (s : S) (as : List A) : S := Machine.run p.next s as

/-- All that a party says while it handles the messages. -/
abbrev output (s : S) (as : List A) : List B := Machine.trace p.next p.emit s as

theorem output_cons (s : S) (a : A) (as : List A) :
    p.output s (a :: as) = p.emit s a ++ p.output (p.next s a) as := rfl

theorem output_append (s : S) (as bs : List A) :
    p.output s (as ++ bs) = p.output s as ++ p.output (p.after s as) bs := Machine.trace_append

theorem output_singleton (s : S) (a : A) : p.output s [a] = p.emit s a := List.append_nil _

/-- A party that hears more says more. -/
theorem output_mono (s : S) {as bs : List A} (h : as <+: bs) : p.output s as <+: p.output s bs := by
  obtain ⟨more, rfl⟩ := h
  rw [output_append]
  exact List.prefix_append _ _

end Party

section

variable {B M N E F S T : Type} {su : Scanner B M E} {sd : Scanner B N F}

/-- Two parties, how they start, and how their messages are encoded. -/
structure Protocol (su : Scanner B M E) (sd : Scanner B N F) (S T : Type) where
  upCode : MessageCode su
  downCode : MessageCode sd
  server : Party S M N
  client : Party T N M
  serverStart : S
  clientStart : T
  /-- What the client says before it hears anything. -/
  opening : List M

namespace Protocol

variable (p : Protocol su sd S T)

/-- All that the client says when it hears the messages. -/
def said (heard : List N) : List M := p.opening ++ p.client.output p.clientStart heard

/-- All that the server says when it handles the messages. -/
def answered (handled : List M) : List N := p.server.output p.serverStart handled

theorem said_mono {heard heard' : List N} (h : heard <+: heard') : p.said heard <+: p.said heard' :=
  (List.prefix_append_right_inj _).mpr (p.client.output_mono p.clientStart h)

theorem answered_mono {handled handled' : List M} (h : handled <+: handled') :
    p.answered handled <+: p.answered handled' := p.server.output_mono p.serverStart h

/-- What the client has said after some exchanges of all that there is to say. -/
def rounds : ℕ → List M
  | 0 => []
  | k + 1 => p.said (p.answered (rounds k))

/-- All that is ever said. -/
structure Course where
  said : List M
  answered : List N
  said_eq : said = p.said answered
  answered_eq : answered = p.answered said
  said_fits : ∀ m ∈ said, p.upCode.Fits m
  answered_fits : ∀ n ∈ answered, p.downCode.Fits n
  /-- It is said in finitely many exchanges. -/
  settles : ∃ k, said = p.rounds k

end Protocol

/-- The two parties and what is under way between them. -/
structure Dialogue (B M N S T : Type) where
  up : Link B
  down : Link B
  server : S
  client : T
  /-- The messages that the server has taken off its link and not handled. -/
  pending : List M
  /-- The messages that the server has handled, and those that the client has. -/
  handled : List M
  heard : List N
  /-- The connection is not broken. -/
  intact : Bool

/-- What can happen in a dialogue. -/
inductive DialogueEvent where
  /-- The first `n` bytes under way arrive at the server. -/
  | arrive (n : ℕ)
  /-- The server handles the next message. -/
  | serve
  /-- The first `n` bytes under way arrive at the client, which handles what they complete. -/
  | hear (n : ℕ)
  /-- The connection breaks: of what is under way, some bytes still arrive. -/
  | cut (m n : ℕ)

namespace Dialogue

variable (p : Protocol su sd S T)

/-- The client has connected and sent its opening. -/
def start : Dialogue B M N S T :=
  ⟨⟨p.opening.flatMap p.upCode.encode, []⟩, ⟨[], []⟩, p.serverStart, p.clientStart, [], [], [], true⟩

/-- What is put on a link; nothing, when the connection is broken. -/
def put (intact : Bool) (wire more : List B) : List B := if intact then wire ++ more else wire

/-- What an event does; an event that cannot happen does nothing. -/
def step (x : Dialogue B M N S T) : DialogueEvent → Dialogue B M N S T
  | .arrive n =>
    -- a server that has messages to handle does not look at its link
    if x.pending.isEmpty then
      let d := su.feed x.up.buffer (x.up.wire.take n)
      { x with up := ⟨x.up.wire.drop n, d.buffer⟩, pending := d.messages }
    else x
  | .serve =>
    match x.pending with
    | [] => x
    | m :: rest =>
      let bytes := (p.server.emit x.server m).flatMap p.downCode.encode
      { x with
        down := { x.down with wire := put x.intact x.down.wire bytes }
        server := p.server.next x.server m
        pending := rest
        handled := x.handled ++ [m] }
  | .hear n =>
    let d := sd.feed x.down.buffer (x.down.wire.take n)
    let bytes := (p.client.output x.client d.messages).flatMap p.upCode.encode
    { x with
      up := { x.up with wire := put x.intact x.up.wire bytes }
      down := ⟨x.down.wire.drop n, d.buffer⟩
      client := p.client.after x.client d.messages
      heard := x.heard ++ d.messages }
  | .cut m n =>
    { x with
      up := { x.up with wire := x.up.wire.take m }
      down := { x.down with wire := x.down.wire.take n }
      intact := false }

/-! ### One direction -/

/-- One direction of a dialogue: the messages that have arrived and those under way are what
was said, as long as the connection holds, and a beginning of it afterwards. -/
def Flows {M E : Type} {su : Scanner B M E} (code : MessageCode su) (l : Link B)
    (arrived said : List M) (intact : Bool) : Prop :=
  ∃ queue lost, l.Carries code queue lost ∧ arrived ++ queue <+: said ∧
    (intact = true → arrived ++ queue = said ∧ lost = [])

section Flows

variable {code : MessageCode su} {l : Link B} {arrived sent : List M} {intact : Bool}

theorem Flows.arrived_le (h : Flows code l arrived sent intact) : arrived <+: sent := by
  obtain ⟨queue, lost, -, hwithin, -⟩ := h
  exact (List.prefix_append arrived queue).trans hwithin

/-- A piece arrives. -/
theorem Flows.arrive (h : Flows code l arrived sent intact) (n : ℕ) :
    (su.feed l.buffer (l.wire.take n)).refusal = none ∧
      Flows code ⟨l.wire.drop n, (su.feed l.buffer (l.wire.take n)).buffer⟩
        (arrived ++ (su.feed l.buffer (l.wire.take n)).messages) sent intact := by
  obtain ⟨queue, lost, hcarries, hwithin, hwhole⟩ := h
  obtain ⟨hnone, rest, hqueue, hrest⟩ := hcarries.arrive n
  refine ⟨hnone, rest, lost, hrest, ?_, ?_⟩
  · rw [List.append_assoc, ← hqueue]
    exact hwithin
  · intro hintact
    rw [List.append_assoc, ← hqueue]
    exact hwhole hintact

/-- More is said. -/
theorem Flows.send (h : Flows code l arrived sent intact) {more : List M}
    (hmore : ∀ m ∈ more, code.Fits m) :
    Flows code { l with wire := put intact l.wire (more.flatMap code.encode) } arrived
      (sent ++ more) intact := by
  obtain ⟨queue, lost, hcarries, hwithin, hwhole⟩ := h
  cases intact with
  -- nothing is sent on a broken connection
  | false =>
    exact ⟨queue, lost, hcarries, hwithin.trans (List.prefix_append sent more),
      fun h => absurd h Bool.false_ne_true⟩
  | true =>
    obtain ⟨heq, rfl⟩ := hwhole rfl
    have hall : arrived ++ (queue ++ more) = sent ++ more := by rw [← List.append_assoc, heq]
    exact ⟨queue ++ more, [], hcarries.send hmore, hall ▸ List.prefix_rfl, fun _ => ⟨hall, rfl⟩⟩

/-- The connection breaks. -/
theorem Flows.cut (h : Flows code l arrived sent intact) (n : ℕ) :
    Flows code { l with wire := l.wire.take n } arrived sent false := by
  obtain ⟨queue, lost, hcarries, hwithin, -⟩ := h
  exact ⟨queue, _, hcarries.cut n, hwithin, fun h => absurd h Bool.false_ne_true⟩

/-- When nothing is under way on a connection that holds, everything has arrived. -/
theorem Flows.all_arrived (h : Flows code l arrived sent true) (hwire : l.wire = []) :
    arrived = sent := by
  obtain ⟨queue, lost, hcarries, -, hwhole⟩ := h
  obtain ⟨heq, rfl⟩ := hwhole rfl
  obtain ⟨rfl, -⟩ := hcarries.eq_nil hwire
  rw [List.append_nil] at heq
  exact heq

/-- The bytes that have arrived: of complete messages, and in the buffer. -/
def arrivedBytes (code : MessageCode su) (l : Link B) (arrived : List M) : List B :=
  arrived.flatMap code.encode ++ l.buffer

/-- What has arrived and what is under way is a beginning of what is ever sent. -/
theorem Flows.bytes_le (h : Flows code l arrived sent intact) {all : List M} (hall : sent <+: all) :
    arrivedBytes code l arrived ++ l.wire <+: all.flatMap code.encode := by
  obtain ⟨queue, lost, hcarries, hwithin, -⟩ := h
  obtain ⟨more, rfl⟩ := hwithin.trans hall
  refine ⟨lost ++ more.flatMap code.encode, ?_⟩
  calc arrivedBytes code l arrived ++ l.wire ++ (lost ++ more.flatMap code.encode)
      = arrived.flatMap code.encode ++ (l.buffer ++ l.wire ++ lost) ++ more.flatMap code.encode := by
        simp only [arrivedBytes, List.append_assoc]
    _ = (arrived ++ queue ++ more).flatMap code.encode := by
        rw [hcarries.bytes, List.flatMap_append, List.flatMap_append]

/-- A piece that arrives has arrived. -/
theorem arrivedBytes_arrive (code : MessageCode su) (l : Link B) (arrived : List M) (n : ℕ) :
    arrivedBytes code ⟨l.wire.drop n, (su.feed l.buffer (l.wire.take n)).buffer⟩
        (arrived ++ (su.feed l.buffer (l.wire.take n)).messages) =
      arrivedBytes code l arrived ++ l.wire.take n := by
  have hcut : (su.feed l.buffer (l.wire.take n)).messages.flatMap code.encode ++
      (su.feed l.buffer (l.wire.take n)).buffer = l.buffer ++ l.wire.take n :=
    Scanner.flatMap_encode_drain code.take_eq_encode _
  show (arrived ++ _).flatMap code.encode ++ (su.feed l.buffer (l.wire.take n)).buffer =
    arrived.flatMap code.encode ++ l.buffer ++ l.wire.take n
  rw [List.flatMap_append, List.append_assoc, hcut, List.append_assoc]

end Flows

/-! ### Both directions -/

variable {p}

/-- A dialogue that follows the course. -/
structure Coherent (c : p.Course) (x : Dialogue B M N S T) : Prop where
  server_eq : x.server = p.server.after p.serverStart x.handled
  client_eq : x.client = p.client.after p.clientStart x.heard
  up : Flows p.upCode x.up (x.handled ++ x.pending) (p.said x.heard) x.intact
  down : Flows p.downCode x.down x.heard (p.answered x.handled) x.intact
  said_le : p.said x.heard <+: c.said
  answered_le : p.answered x.handled <+: c.answered

variable {c : p.Course}

/-- What is handled is a beginning of the course. -/
theorem Coherent.handled_le {x : Dialogue B M N S T} (h : Coherent c x) :
    x.handled ++ x.pending <+: c.said := h.up.arrived_le.trans h.said_le

/-- A client that has heard a beginning of the course says a beginning of it. -/
theorem said_le_of_heard_le {heard : List N} (h : heard <+: c.answered) :
    p.said heard <+: c.said := by
  rw [c.said_eq]
  exact p.said_mono h

theorem answered_le_of_handled_le {handled : List M} (h : handled <+: c.said) :
    p.answered handled <+: c.answered := by
  rw [c.answered_eq]
  exact p.answered_mono h

theorem coherent_start (c : p.Course) : Coherent c (start p) := by
  have hsaid : p.said [] = p.opening := List.append_nil _
  have hle : p.said [] <+: c.said := said_le_of_heard_le (List.nil_prefix)
  have hfits : ∀ m ∈ p.opening, p.upCode.Fits m := fun m hm =>
    c.said_fits m (hle.subset (hsaid.symm ▸ hm))
  refine ⟨rfl, rfl, ?_, ?_, hle, List.nil_prefix⟩
  · show Flows p.upCode _ [] (p.said []) true
    rw [hsaid]
    have hsend := Link.carries_nil.send hfits
    exact ⟨p.opening, [], hsend, List.prefix_rfl, fun _ => ⟨rfl, rfl⟩⟩
  · exact ⟨[], [], Link.carries_nil, List.prefix_rfl, fun _ => ⟨rfl, rfl⟩⟩

/-- **One event follows the course.** -/
theorem Coherent.step {x : Dialogue B M N S T} (h : Coherent c x) (e : DialogueEvent) :
    Coherent c (x.step p e) := by
  cases e with
  | arrive n =>
    unfold Dialogue.step
    dsimp only
    split
    · next hidle =>
      have harrive := (h.up.arrive n).2
      rw [List.isEmpty_iff.mp hidle, List.append_nil] at harrive
      exact ⟨h.server_eq, h.client_eq, harrive, h.down, h.said_le, h.answered_le⟩
    · exact h
  | serve =>
    unfold Dialogue.step
    rcases hpending : x.pending with _ | ⟨m, rest⟩
    · exact h
    -- the message is the next one of the course, so its answers are the next ones
    have hshift : x.handled ++ x.pending = (x.handled ++ [m]) ++ rest := by
      rw [hpending, List.append_assoc, List.singleton_append]
    have hle : x.handled ++ [m] <+: c.said := by
      refine (List.prefix_append (x.handled ++ [m]) rest).trans ?_
      rw [← hshift]
      exact h.handled_le
    have houtput : p.answered (x.handled ++ [m]) =
        p.answered x.handled ++ p.server.emit x.server m := by
      rw [h.server_eq]
      exact (p.server.output_append _ _ _).trans
        (congrArg _ (p.server.output_singleton _ m))
    have hfits : ∀ n ∈ p.server.emit x.server m, p.downCode.Fits n := by
      intro n hn
      refine c.answered_fits n ((answered_le_of_handled_le hle).subset ?_)
      rw [houtput]
      exact List.mem_append_right _ hn
    refine ⟨?_, h.client_eq, ?_, ?_, h.said_le, answered_le_of_handled_le hle⟩
    · show p.server.next x.server m = p.server.after p.serverStart (x.handled ++ [m])
      rw [h.server_eq]
      exact (Machine.run_append _ _ [m]).symm
    · show Flows p.upCode x.up (x.handled ++ [m] ++ rest) (p.said x.heard) x.intact
      rw [← hshift]
      exact h.up
    · show Flows p.downCode _ x.heard (p.answered (x.handled ++ [m])) x.intact
      rw [houtput]
      exact h.down.send hfits
  | hear n =>
    have hdown := (h.down.arrive n).2
    set d := sd.feed x.down.buffer (x.down.wire.take n) with hd
    have hle : x.heard ++ d.messages <+: c.answered := hdown.arrived_le.trans h.answered_le
    have houtput : p.said (x.heard ++ d.messages) =
        p.said x.heard ++ p.client.output x.client d.messages := by
      rw [h.client_eq]
      show p.opening ++ p.client.output _ _ = p.opening ++ p.client.output _ _ ++ _
      rw [p.client.output_append, List.append_assoc]
    have hfits : ∀ m ∈ p.client.output x.client d.messages, p.upCode.Fits m := by
      intro m hm
      refine c.said_fits m ((said_le_of_heard_le hle).subset ?_)
      rw [houtput]
      exact List.mem_append_right _ hm
    refine ⟨h.server_eq, ?_, ?_, hdown, said_le_of_heard_le hle, h.answered_le⟩
    · show p.client.after x.client d.messages = p.client.after p.clientStart (x.heard ++ d.messages)
      rw [h.client_eq]
      exact (Machine.run_append _ _ _).symm
    · show Flows p.upCode _ (x.handled ++ x.pending) (p.said (x.heard ++ d.messages)) x.intact
      rw [houtput]
      exact h.up.send hfits
  | cut m n =>
    exact ⟨h.server_eq, h.client_eq, h.up.cut m, h.down.cut n, h.said_le, h.answered_le⟩

/-! ### The end of a dialogue -/

/-- Nothing is under way, and nothing waits. -/
structure Quiet (x : Dialogue B M N S T) : Prop where
  up : x.up.wire = []
  pending : x.pending = []
  down : x.down.wire = []

/-- **A quiet dialogue is over**: when nothing is under way on a connection that holds,
everything was said and handled. -/
theorem Coherent.complete {x : Dialogue B M N S T} (h : Coherent c x) (hintact : x.intact = true)
    (hquiet : Quiet x) : x.handled = c.said ∧ x.heard = c.answered := by
  have hup := h.up
  have hdown := h.down
  rw [hintact] at hup hdown
  rw [hquiet.pending, List.append_nil] at hup
  have hhandled : x.handled = p.said x.heard := hup.all_arrived hquiet.up
  have hheard : x.heard = p.answered x.handled := hdown.all_arrived hquiet.down
  -- both sides have heard each other out, so every exchange of the course has taken place
  have hrounds : ∀ k, p.rounds k <+: x.handled := by
    intro k
    induction k with
    | zero => exact List.nil_prefix
    | succ k ih =>
      rw [hhandled, hheard]
      exact p.said_mono (p.answered_mono ih)
  obtain ⟨k, hk⟩ := c.settles
  have hall : x.handled = c.said := by
    refine List.IsPrefix.eq_of_length_le ?_ ?_
    · rw [hhandled]
      exact h.said_le
    · rw [hk]
      exact (hrounds k).length_le
  exact ⟨hall, by rw [hheard, hall, ← c.answered_eq]⟩

/-- An event that has work to do. -/
def works (x : Dialogue B M N S T) : DialogueEvent → Bool
  | .arrive n => x.pending.isEmpty && !(x.up.wire.take n).isEmpty
  | .serve => !x.pending.isEmpty
  | .hear n => !(x.down.wire.take n).isEmpty
  | .cut _ _ => false

/-- **Some event has work to do** until everything was said and handled. -/
theorem Coherent.exists_works {x : Dialogue B M N S T} (h : Coherent c x)
    (hintact : x.intact = true) (hopen : ¬ (x.handled = c.said ∧ x.heard = c.answered)) :
    x.works (.arrive 1) = true ∨ x.works .serve = true ∨ x.works (.hear 1) = true := by
  by_cases hpending : x.pending = []
  · by_cases hup : x.up.wire = []
    · by_cases hdown : x.down.wire = []
      · exact absurd (h.complete hintact ⟨hup, hpending, hdown⟩) hopen
      · exact Or.inr (Or.inr (by simpa [works] using hdown))
    · exact Or.inl (by simpa [works, hpending] using hup)
  · exact Or.inr (Or.inl (by simpa [works] using hpending))

/-- The work that is left: the bytes of the course that have not arrived, on either side, and
the messages that the server has not handled. -/
def left (c : p.Course) (x : Dialogue B M N S T) : ℕ :=
  ((c.said.flatMap p.upCode.encode).length -
      (arrivedBytes p.upCode x.up (x.handled ++ x.pending)).length) +
    (c.said.length - x.handled.length) +
    ((c.answered.flatMap p.downCode.encode).length -
      (arrivedBytes p.downCode x.down x.heard).length)

/-- A piece that arrives is work unless it is empty. -/
theorem toNat_isEmpty_le (l : List B) : (!l.isEmpty).toNat ≤ l.length := by
  cases l with
  | nil => exact Nat.le_refl 0
  | cons b l => exact Nat.succ_pos l.length

/-- **An event does work that is left.** -/
theorem Coherent.left_step {x : Dialogue B M N S T} (h : Coherent c x) (e : DialogueEvent) :
    left c (x.step p e) + (x.works e).toNat ≤ left c x := by
  have hup : (arrivedBytes p.upCode x.up (x.handled ++ x.pending) ++ x.up.wire).length ≤
      (c.said.flatMap p.upCode.encode).length := (h.up.bytes_le h.said_le).length_le
  have hdown : (arrivedBytes p.downCode x.down x.heard ++ x.down.wire).length ≤
      (c.answered.flatMap p.downCode.encode).length := (h.down.bytes_le h.answered_le).length_le
  rw [List.length_append] at hup hdown
  cases e with
  | arrive n =>
    rcases hpending : x.pending with _ | ⟨m, rest⟩
    · have harrived := congrArg List.length
        (arrivedBytes_arrive p.upCode x.up (x.handled ++ x.pending) n)
      have hlen : (x.up.wire.take n).length ≤ x.up.wire.length := List.length_take_le' n _
      have hwork := toNat_isEmpty_le (x.up.wire.take n)
      simp only [works, left, Dialogue.step, hpending, List.isEmpty_nil, if_true, Bool.true_and,
        List.append_nil, List.length_append] at harrived hup ⊢
      omega
    · have hstep : x.step p (.arrive n) = x := by simp [Dialogue.step, hpending]
      have hidle : x.works (.arrive n) = false := by simp [works, hpending]
      rw [hstep, hidle]
      exact Nat.le_refl _
  | serve =>
    rcases hpending : x.pending with _ | ⟨m, rest⟩
    · have hstep : x.step p .serve = x := by simp [Dialogue.step, hpending]
      have hidle : x.works .serve = false := by simp [works, hpending]
      rw [hstep, hidle]
      exact Nat.le_refl _
    · -- the message was not handled, and what is answered has not arrived
      have hhandled := h.handled_le.length_le
      have hwork := Bool.toNat_le (x.works .serve)
      rw [hpending, List.length_append, List.length_cons] at hhandled
      simp only [left, Dialogue.step, hpending, List.append_assoc, List.singleton_append,
        List.length_append, List.length_singleton, arrivedBytes]
      omega
  | hear n =>
    have harrived := congrArg List.length (arrivedBytes_arrive p.downCode x.down x.heard n)
    have hlen : (x.down.wire.take n).length ≤ x.down.wire.length := List.length_take_le' n _
    have hwork := toNat_isEmpty_le (x.down.wire.take n)
    -- what the client says has not arrived
    have hbuffer : ∀ wire, arrivedBytes p.upCode ⟨wire, x.up.buffer⟩ (x.handled ++ x.pending) =
        arrivedBytes p.upCode x.up (x.handled ++ x.pending) := fun _ => rfl
    rw [List.length_append] at harrived
    simp only [works, left, Dialogue.step]
    rw [harrived, hbuffer]
    omega
  | cut m n => exact Nat.le_refl _

end Dialogue

end
