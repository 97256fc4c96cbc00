import DisaggregationFabric.Lib.Decoder

/-!
# Binary records: decoders as programs on a reader

A decoder touches its reader in a few ways only: it reads a word or a string, and it looks at
the flag. `Program` is the type of what can be done in these ways, with any use of what was
read, and a decoder is `Programmed` if it is one. There is one rule for each statement of
`Lib.Decoder`.

What holds of every program by induction holds of every decoder:

* `Program.exact` — the flag stays down once it is down, a program that ends with the flag up
  depends on the bytes it has used and on nothing behind them, and with fewer bytes than that
  it ends with the flag down;
* `Lib.Cursor` — a program that runs on a buffer with indices does not leave the buffer.
-/

namespace Wire

variable {A B R E : Type}

/-! ### Reads that use a prefix -/

/-- The reads that go by the bytes they use. -/
structure Exact (rd : Reader → A × Reader) : Prop where
  /-- The flag does not come up again. -/
  sticky : ∀ {r}, (rd r).2.ok = true → r.ok = true
  /-- With the flag up at the end: the bytes used, whatever follows them, give the same value,
  and fewer of them put the flag down. -/
  run : ∀ {r}, (rd r).2.ok = true → ∃ used, r.rest = used ++ (rd r).2.rest ∧
    (∀ more, rd ⟨used ++ more, r.pos, true⟩ =
      ((rd r).1, ⟨more, r.pos + used.length, true⟩)) ∧
    ∀ k < used.length, (rd ⟨used.take k, r.pos, true⟩).2.ok = false

namespace Exact

theorem ret (a : A) : Exact fun r => (a, r) where
  sticky h := h
  run _ := ⟨[], rfl, fun _ => rfl, fun k hk => absurd hk (Nat.not_lt_zero k)⟩

/-- What was used is what the position has moved by. -/
theorem pos_eq {rd : Reader → A × Reader} (h : Exact rd) {r : Reader}
    (hok : (rd r).2.ok = true) : ∃ used, r.rest = used ++ (rd r).2.rest ∧
      (rd r).2.pos = r.pos + used.length ∧
      (∀ more, rd ⟨used ++ more, r.pos, true⟩ =
        ((rd r).1, ⟨more, r.pos + used.length, true⟩)) ∧
      ∀ k < used.length, (rd ⟨used.take k, r.pos, true⟩).2.ok = false := by
  obtain ⟨used, hrest, hmore, hshort⟩ := h.run hok
  have hr : r = ⟨used ++ (rd r).2.rest, r.pos, true⟩ := by
    rw [← hrest, ← h.sticky hok]
  have hrun := hmore (rd r).2.rest
  rw [← hr] at hrun
  exact ⟨used, hrest, congrArg (·.2.pos) hrun, hmore, hshort⟩

/-- No byte is lost between the position and what is left. -/
theorem total {rd : Reader → A × Reader} (h : Exact rd) {r : Reader}
    (hok : (rd r).2.ok = true) :
    (rd r).2.pos + (rd r).2.rest.length = r.pos + r.rest.length := by
  obtain ⟨used, hrest, hpos, -⟩ := h.pos_eq hok
  rw [hpos, hrest, List.length_append, Nat.add_assoc]

/-- One read after the other. -/
theorem bind {rd : Reader → A × Reader} {f : A → Reader → B × Reader} (hrd : Exact rd)
    (hf : ∀ a, Exact (f a)) : Exact fun r => f (rd r).1 (rd r).2 where
  sticky h := hrd.sticky ((hf _).sticky h)
  run {r} h := by
    obtain ⟨used₁, hrest₁, hpos, hmore₁, hshort₁⟩ := hrd.pos_eq ((hf _).sticky h)
    obtain ⟨used₂, hrest₂, hmore₂, hshort₂⟩ := (hf _).run h
    -- the second read starts where the first one ended
    rw [hpos] at hmore₂ hshort₂
    refine ⟨used₁ ++ used₂, ?_, ?_, ?_⟩
    · rw [List.append_assoc, ← hrest₂, ← hrest₁]
    · intro more
      rw [List.append_assoc, hmore₁]
      dsimp only
      rw [hmore₂, List.length_append, Nat.add_assoc]
    · intro k hk
      rcases Nat.lt_or_ge k used₁.length with hlt | hge
      · -- the first read is cut short, and the second one leaves the flag down
        have hdown := hshort₁ k hlt
        rw [List.take_append_of_le_length hlt.le]
        by_contra hup
        rw [(hf _).sticky (Bool.eq_true_of_not_eq_false hup)] at hdown
        cases hdown
      · obtain ⟨j, rfl⟩ := Nat.exists_eq_add_of_le hge
        rw [List.length_append] at hk
        rw [List.take_length_add_append, hmore₁]
        exact hshort₂ j (by omega)

theorem map {rd : Reader → A × Reader} (f : A → B) (h : Exact rd) : Exact (Reader.map f rd) :=
  h.bind fun a => ret (f a)

/-- Split a prefix off. -/
theorem take (n : ℕ) : Exact (Reader.take n) where
  sticky {r} h := by
    by_contra hdown
    rw [Reader.take, if_neg hdown] at h
    exact hdown h
  run {r} h := by
    obtain ⟨rest, pos, ok⟩ := r
    -- the flag was up, and there were enough bytes
    have hok : ok = true := by
      by_contra hdown
      rw [Reader.take, if_neg hdown] at h
      exact hdown h
    subst hok
    have hle : n ≤ rest.length := by
      by_contra hc
      rw [Reader.take, if_pos rfl, splitPrefix_eq_none (not_le.mp hc)] at h
      cases h
    have hlen : (rest.take n).length = n := List.length_take_of_le hle
    rw [Reader.take_of_le hle]
    -- the first `n` bytes are used
    refine ⟨rest.take n, (List.take_append_drop n rest).symm, ?_, ?_⟩
    · intro more
      have hmore := Reader.take_append (rest.take n) more pos
      rw [hlen] at hmore
      rw [hmore, hlen]
    · intro k hk
      rw [hlen] at hk
      have hshort : ((rest.take n).take k).length < n := by
        rw [List.length_take]
        omega
      rw [Reader.take, if_pos rfl, splitPrefix_eq_none hshort]

theorem u8 : Exact Reader.u8 := (take 1).map fun b => UInt8.ofNat (ofLE b)

theorem u32 : Exact Reader.u32 := (take 4).map fun b => UInt32.ofNat (ofLE b)

theorem u64 : Exact Reader.u64 := (take 8).map fun b => UInt64.ofNat (ofLE b)

/-- The flag goes down. -/
theorem fail (a : A) : Exact fun r => (a, { r with ok := false }) where
  sticky h := absurd h Bool.false_ne_true
  run h := absurd h Bool.false_ne_true

/-- A string: the length decides how much is read behind it. -/
theorem str (lim : Limits) : Exact (Reader.str lim) := by
  -- behind the length: refuse, or split off so many bytes
  have hbody : ∀ n : UInt32, Exact fun r =>
      if !r.ok || decide (lim.maxLen < n) then ([], { r with ok := false })
      else r.take n.toNat := by
    intro n
    by_cases hlen : lim.maxLen < n
    · simp only [hlen, decide_true, Bool.or_true, if_true]
      exact fail []
    · simp only [hlen, decide_false, Bool.or_false]
      constructor
      · intro r h
        by_contra hdown
        rw [if_pos (by simp [hdown])] at h
        cases h
      · intro r h
        have hup : r.ok = true := by
          by_contra hdown
          rw [if_pos (by simp [hdown])] at h
          cases h
        simp only [hup, Bool.not_true, Bool.false_eq_true, if_false] at h ⊢
        exact (take n.toNat).run h
  exact u32.bind hbody

end Exact

/-! ### Reads that may be refused -/

/-- The same of a read that returns an error where it refuses: with a value and the flag up at
the end, the bytes used give the value, whatever follows them. -/
structure ExactOk (f : Reader → Except E (A × Reader)) : Prop where
  run : ∀ {r a r'}, f r = .ok (a, r') → r'.ok = true → r.ok = true ∧ ∃ used,
    r.rest = used ++ r'.rest ∧ r'.pos = r.pos + used.length ∧
    ∀ more, f ⟨used ++ more, r.pos, true⟩ = .ok (a, ⟨more, r'.pos, true⟩)

namespace ExactOk

theorem of_exact {rd : Reader → A × Reader} (h : Exact rd) :
    ExactOk fun r => (.ok (rd r) : Except E (A × Reader)) where
  run {r a r'} hrun hok := by
    have hout : rd r = (a, r') := Except.ok.inj hrun
    obtain ⟨used, hrest, hpos, hmore, -⟩ := h.pos_eq (r := r) (by rw [hout]; exact hok)
    have hup := h.sticky (r := r) (by rw [hout]; exact hok)
    rw [hout] at hrest hpos hmore
    refine ⟨hup, used, hrest, hpos, fun more => ?_⟩
    rw [hmore, hpos]

/-- One read after the other. -/
theorem bind {f : Reader → Except E (A × Reader)} {g : A → Reader → Except E (B × Reader)}
    (hf : ExactOk f) (hg : ∀ a, ExactOk (g a)) :
    ExactOk fun r => f r >>= fun o => g o.1 o.2 where
  run {r b r₃} hrun hok := by
    cases hfirst : f r with
    | error e =>
      rw [hfirst] at hrun
      cases hrun
    | ok out =>
      obtain ⟨a, r₂⟩ := out
      rw [hfirst] at hrun
      -- the flag is up at the end, so it was up between the two
      obtain ⟨hok₂, used₂, hrest₂, hpos₂, hmore₂⟩ := (hg a).run hrun hok
      obtain ⟨hok₁, used₁, hrest₁, hpos₁, hmore₁⟩ := hf.run hfirst hok₂
      refine ⟨hok₁, used₁ ++ used₂, ?_, ?_, fun more => ?_⟩
      · rw [List.append_assoc, ← hrest₂, ← hrest₁]
      · rw [hpos₂, hpos₁, List.length_append, Nat.add_assoc]
      · rw [List.append_assoc, hmore₁]
        exact hmore₂ more

/-- What was read does not change when bytes behind it are cut off or put there. -/
theorem run_of_take {f : Reader → Except E (A × Reader)} (h : ExactOk f) {bs bs' : List UInt8}
    {pos : ℕ} {a : A} {r : Reader} (hrun : f ⟨bs, pos, true⟩ = .ok (a, r)) (hok : r.ok = true)
    (htake : bs'.take (r.pos - pos) = bs.take (r.pos - pos)) :
    ∃ r', f ⟨bs', pos, true⟩ = .ok (a, r') ∧ r'.pos = r.pos := by
  obtain ⟨-, used, hrest, hpos, hmore⟩ := h.run hrun hok
  dsimp only at hrest hpos hmore
  have hlen : r.pos - pos = used.length := by omega
  rw [hlen, hrest, List.take_left] at htake
  have hsplit := List.take_append_drop used.length bs'
  rw [htake] at hsplit
  have hagain := hmore (bs'.drop used.length)
  rw [hsplit] at hagain
  exact ⟨_, hagain, rfl⟩

end ExactOk

/-! ### Programs -/

/-- What a reader offers to read. -/
inductive Prim where
  | u8
  | u32
  | u64
  | str (lim : Limits)

namespace Prim

/-- The type of the value. -/
def Val : Prim → Type
  | u8 => UInt8
  | u32 => UInt32
  | u64 => UInt64
  | str _ => List UInt8

/-- Read the value. -/
def read : (p : Prim) → Reader → p.Val × Reader
  | u8 => Reader.u8
  | u32 => Reader.u32
  | u64 => Reader.u64
  | str lim => Reader.str lim

theorem exact (p : Prim) : Exact p.read := by
  cases p with
  | u8 => exact .u8
  | u32 => exact .u32
  | u64 => exact .u64
  | str lim => exact .str lim

end Prim

/-- A program on a reader: return a value, read and go on with what was read, or test the
flag. -/
inductive Program (A : Type) : Type where
  | ret (a : A)
  | read (p : Prim) (next : p.Val → Program A)
  | test (next : Bool → Program A)

namespace Program

/-- Run the program. -/
def run : Program A → Reader → A × Reader
  | ret a, r => (a, r)
  | read p next, r => (next (p.read r).1).run (p.read r).2
  | test next, r => (next r.ok).run r

/-- One program after the other. -/
def bind : Program A → (A → Program B) → Program B
  | ret a, f => f a
  | read p next, f => read p fun v => (next v).bind f
  | test next, f => test fun b => (next b).bind f

theorem run_bind (p : Program A) (f : A → Program B) (r : Reader) :
    (p.bind f).run r = (f (p.run r).1).run (p.run r).2 := by
  induction p generalizing r with
  | ret a => rfl
  | read p next ih => exact ih _ _
  | test next ih => exact ih _ _

/-- **Every program goes by the bytes it uses.** -/
theorem exact (p : Program A) : Exact p.run := by
  induction p with
  | ret a => exact .ret a
  | read p next ih => exact p.exact.bind ih
  | test next ih =>
    -- where it matters the flag is up, and the program goes on as for a raised flag
    have hup : ∀ {r}, ((test next).run r).2.ok = true →
        r.ok = true ∧ (test next).run r = (next true).run r := by
      intro r h
      have hok : r.ok = true := (ih r.ok).sticky h
      exact ⟨hok, by rw [run, hok]⟩
    constructor
    · exact fun h => (hup h).1
    · intro r h
      have htrue := (hup h).2
      rw [htrue] at h ⊢
      exact (ih true).run h

/-- The decoder that runs a program for the record it is given. -/
def decoder (p : R → Program (Bool × R)) : Decoder R := fun x r =>
  (((p x).run r).1.1, ((p x).run r).1.2, ((p x).run r).2)

end Program

/-! ### Decoders that are programs -/

/-- The read touches its reader as a program does. -/
def ProgrammedRead (rd : Reader → A × Reader) : Prop := ∃ p : Program A, p.run = rd

/-- The decoder touches its reader as a program does. -/
def Programmed (d : Decoder R) : Prop := ∃ p : R → Program (Bool × R), Program.decoder p = d

namespace ProgrammedRead

theorem prim (p : Prim) : ProgrammedRead p.read := ⟨.read p .ret, rfl⟩

theorem map {rd : Reader → A × Reader} (f : A → B) (h : ProgrammedRead rd) :
    ProgrammedRead (Reader.map f rd) := by
  obtain ⟨p, rfl⟩ := h
  exact ⟨p.bind fun a => .ret (f a), funext fun r => Program.run_bind p _ r⟩

theorem pair {a : Reader → A × Reader} {b : Reader → B × Reader} (ha : ProgrammedRead a)
    (hb : ProgrammedRead b) : ProgrammedRead (Reader.pair a b) := by
  obtain ⟨p, rfl⟩ := ha
  obtain ⟨q, rfl⟩ := hb
  refine ⟨p.bind fun x => q.bind fun y => .ret (x, y), funext fun r => ?_⟩
  rw [Program.run_bind, Program.run_bind]
  rfl

theorem exact {rd : Reader → A × Reader} (h : ProgrammedRead rd) : Exact rd := by
  obtain ⟨p, rfl⟩ := h
  exact p.exact

end ProgrammedRead

namespace Programmed

variable {C : Type}

/-- A decoder whose runs are those of the programs. -/
theorem of_run {d : Decoder R} (p : R → Program (Bool × R))
    (h : ∀ x r, (p x).run r = (((d x r).1, (d x r).2.1), (d x r).2.2)) : Programmed d := by
  refine ⟨p, funext fun x => funext fun r => ?_⟩
  rw [Program.decoder, h x r]

theorem read {rd : Reader → A × Reader} (set : A → R → R) (h : ProgrammedRead rd) :
    Programmed (Decoder.read rd set) := by
  obtain ⟨p, rfl⟩ := h
  refine of_run (fun x => p.bind fun v => .ret (true, set v x)) fun x r => ?_
  rw [Program.run_bind]
  rfl

theorem check {rd : Reader → A × Reader} (valid : A → Option B) (set : B → R → R)
    (h : ProgrammedRead rd) : Programmed (Decoder.check rd valid set) := by
  obtain ⟨p, rfl⟩ := h
  refine of_run (fun x => p.bind fun v =>
    (valid v).elim (.ret (false, x)) fun b => .ret (true, set b x)) fun x r => ?_
  rw [Program.run_bind, Decoder.check]
  cases valid (p.run r).1 with
  | none => rfl
  | some b => rfl

theorem skip : Programmed (Decoder.skip : Decoder R) := ⟨fun x => .ret (true, x), rfl⟩

theorem done : Programmed (Decoder.done : Decoder R) := ⟨fun x => .test fun b => .ret (b, x), rfl⟩

theorem andThen {d e : Decoder R} (hd : Programmed d) (he : Programmed e) :
    Programmed (d.andThen e) := by
  obtain ⟨p, rfl⟩ := hd
  obtain ⟨q, rfl⟩ := he
  refine of_run (fun x => (p x).bind fun v => if v.1 then q v.2 else .ret (false, v.2))
    fun x r => ?_
  rw [Program.run_bind, Decoder.andThen]
  unfold Program.decoder
  rcases (p x).run r with ⟨⟨_ | _, y⟩, r'⟩
  · rfl
  · rfl

theorem into (get : R → A) (set : A → R → R) {d : Decoder A} (h : Programmed d) :
    Programmed (Decoder.into get set d) := by
  obtain ⟨p, rfl⟩ := h
  refine of_run (fun x => (p (get x)).bind fun v => .ret (v.1, set v.2 x)) fun x r => ?_
  rw [Program.run_bind]
  rfl

theorem addEntry [Inhabited A] (get : R → C) (set : C → R → R) (add : C → A → C) {d : Decoder A}
    (h : Programmed d) : Programmed (Decoder.addEntry get set add d) := by
  obtain ⟨p, rfl⟩ := h
  refine of_run (fun x => (p default).bind fun v =>
    .ret (if v.1 then (true, set (add (get x) v.2) x) else (false, x))) fun x r => ?_
  rw [Program.run_bind, Decoder.addEntry]
  unfold Program.decoder
  rcases (p default).run r with ⟨⟨_ | _, a⟩, r'⟩
  · rfl
  · rfl

theorem rounds {d : Decoder R} (h : Programmed d) (n : ℕ) : Programmed (Decoder.rounds n d) := by
  induction n with
  | zero => exact skip
  | succ n ih => exact h.andThen ih

theorem collect [Inhabited A] (max : UInt32) (get : R → C) (set : C → R → R) (add : C → A → C)
    {d : Decoder A} (h : Programmed d) : Programmed (Decoder.collect max get set add d) := by
  choose p hp using fun n => (h.addEntry get set add).rounds n
  refine of_run (fun x => .read .u32 fun n : UInt32 =>
    if max < n then .ret (false, x) else p n.toNat x) fun x r => ?_
  rw [Decoder.collect, ← hp]
  change (if max < r.u32.1 then (.ret (false, x) : Program (Bool × R))
    else p r.u32.1.toNat x).run r.u32.2 = _
  split
  · rfl
  · rfl

/-- A decoder that is a program goes by the bytes it uses. -/
theorem exact {d : Decoder R} (h : Programmed d) (x : R) :
    Exact fun r => (((d x r).1, (d x r).2.1), (d x r).2.2) := by
  obtain ⟨p, rfl⟩ := h
  exact (p x).exact

end Programmed

end Wire
