import DisaggregationFabric.Lib.Decoder

/-!
# Binary records: decoders that accept what was written

`Reads` says that a decoder accepts the bytes of given tokens; for that, everything written
has to be within the bounds of the reader. `Follows d ts x Q` asks less: on the bytes of the
tokens `ts`, followed by anything, `d` may stop, but if it accepts then it stops exactly
behind them and leaves a record with the property `Q`.

The one thing that could lead a reader astray is the count of a container, which is cut to
32 bits when it is written. The judgement is about fewer than `2 ^ 32` bytes, and there a
container whose entries take some bytes has a count that is not cut
(`Follows.collect`).
-/

namespace Wire

variable {R A B C : Type} {lim : Limits}

/-- Provided the tokens fit and are fewer than `2 ^ 32` bytes: if `d` accepts their bytes,
followed by anything, it stops behind them and leaves a record with the property `Q`. -/
structure Follows (lim : Limits) (d : Decoder R) (ts : List Token) (x : R) (Q : R → Prop) :
    Prop where
  run : Writable lim ts → size ts < 2 ^ 32 → ∀ rest pos y r,
    d x ⟨bytesOf ts ++ rest, pos, true⟩ = (true, y, r) → r = ⟨rest, pos + size ts, true⟩ ∧ Q y

namespace Follows

variable {x : R} {Q : R → Prop}

theorem mono {d : Decoder R} {ts : List Token} {P : R → Prop} (h : Follows lim d ts x P)
    (hPQ : ∀ y, P y → Q y) : Follows lim d ts x Q := by
  constructor
  intro hw hsize rest pos y r hd
  obtain ⟨hr, hy⟩ := h.run hw hsize rest pos y r hd
  exact ⟨hr, hPQ y hy⟩

theorem read {rd : Reader → A × Reader} {set : A → R → R} {ts : List Token} {v : A}
    (h : ReadsTo lim rd ts v) (hQ : Q (put set v x)) : Follows lim (Decoder.read rd set) ts x Q := by
  constructor
  intro hw _ rest pos y r hd
  rw [Decoder.read, h.run hw] at hd
  cases hd
  exact ⟨rfl, hQ⟩

theorem value {rd : Reader → A × Reader} {ts : List Token} {v x : A} {Q : A → Prop}
    (h : ReadsTo lim rd ts v) (hQ : Q v) : Follows lim (Decoder.value rd) ts x Q := read h hQ

theorem check {rd : Reader → A × Reader} {valid : A → Option B} {set : B → R → R}
    {ts : List Token} {v : A} (h : ReadsTo lim rd ts v)
    (hQ : ∀ b, valid v = some b → Q (put set b x)) :
    Follows lim (Decoder.check rd valid set) ts x Q := by
  constructor
  intro hw _ rest pos y r hd
  rw [Decoder.check, h.run hw] at hd
  dsimp only at hd
  rcases hv : valid v with _ | b
  · rw [hv] at hd
    cases hd
  · rw [hv] at hd
    cases hd
    exact ⟨rfl, hQ b hv⟩

theorem skip (hQ : Q x) : Follows lim Decoder.skip [] x Q := by
  constructor
  intro _ _ rest pos y r hd
  cases hd
  exact ⟨rfl, hQ⟩

theorem andThen {d e : Decoder R} {ts us : List Token}
    (h : Follows lim d ts x fun y => Follows lim e us y Q) :
    Follows lim (d.andThen e) (ts ++ us) x Q := by
  constructor
  intro hw hsize rest pos y r hde
  rw [writable_append] at hw
  rw [size_append] at hsize ⊢
  rw [Decoder.andThen, bytesOf_append, List.append_assoc] at hde
  -- the first part stops where the second one begins
  rcases hd : d x ⟨bytesOf ts ++ (bytesOf us ++ rest), pos, true⟩ with ⟨_ | _, z, r'⟩
  · rw [hd] at hde
    cases hde
  · rw [hd] at hde
    obtain ⟨rfl, hz⟩ := h.run hw.1 (by omega) _ _ z r' hd
    obtain ⟨hr, hy⟩ := hz.run hw.2 (by omega) _ _ y r hde
    exact ⟨by rw [hr, add_assoc], hy⟩

theorem nil (hQ : Q x) : Follows lim (Decoder.block []) [] x Q := skip hQ

/-- A block follows a list of pieces, statement by statement. -/
theorem cons {d : Decoder R} {ds : List (Decoder R)} {ts : List Token} {tss : List (List Token)}
    (h : Follows lim d ts x fun y => Follows lim (Decoder.block ds) tss.flatten y Q) :
    Follows lim (Decoder.block (d :: ds)) (ts :: tss).flatten x Q := andThen h

theorem closed {ds : List (Decoder R)} {ts : List Token}
    (h : Follows lim (Decoder.block ds) ts x Q) : Follows lim (Decoder.closed ds) ts x Q := by
  have hdone : Follows lim ((Decoder.block ds).andThen Decoder.done) (ts ++ []) x Q := by
    refine andThen (h.mono fun y hy => ⟨?_⟩)
    intro _ _ rest pos z r hd
    cases hd
    exact ⟨rfl, hy⟩
  rwa [List.append_nil] at hdone

/-- A size check that was passed leaves no bytes. -/
theorem limit {d : Decoder R} {n : ℕ} {max : UInt32} {text : List UInt8} {ts : List Token}
    (h : Follows lim d ts x Q) : Follows lim d (.limit n max text :: ts) x Q := by
  constructor
  intro hw hsize rest pos y r hd
  rw [writable_limit] at hw
  exact h.run hw.2 hsize rest pos y r hd

theorem into {get : R → A} {set : A → R → R} {d : Decoder A} {ts : List Token} {P : A → Prop}
    (h : Follows lim d ts (get x) P) (hQ : ∀ a, P a → Q (put set a x)) :
    Follows lim (Decoder.into get set d) ts x Q := by
  constructor
  intro hw hsize rest pos y r hd
  rw [Decoder.into] at hd
  rcases ha : d (get x) ⟨bytesOf ts ++ rest, pos, true⟩ with ⟨acc, a, r'⟩
  rw [ha] at hd
  cases hd
  obtain ⟨hr, hP⟩ := h.run hw hsize rest pos a r' ha
  exact ⟨hr, hQ a hP⟩

/-- One round per entry, each behind the one before; `P b a` relates an entry that was
written to the one that was read. -/
theorem addEntries [Inhabited A] {get : R → C} {set : C → R → R} {add : C → A → C}
    {d : Decoder A} {entry : B → List Token} {P : B → A → Prop} (hacc : Accessor get set)
    {l : List B} (hd : ∀ b ∈ l, Follows lim d (entry b) default (P b)) (x : R) :
    Follows lim (Decoder.rounds l.length (Decoder.addEntry get set add d)) (l.flatMap entry) x
      fun y => ∃ as, List.Forall₂ P l as ∧ y = put set (as.foldl add (get x)) x := by
  induction l generalizing x with
  | nil => exact skip ⟨[], .nil, hacc.set_get.symm⟩
  | cons b l ih =>
    rw [List.forall_mem_cons] at hd
    refine andThen ⟨?_⟩
    intro hw hsize rest pos y r hadd
    -- the entry is read, then added to what the record has
    rw [Decoder.addEntry] at hadd
    rcases ha : d default ⟨bytesOf (entry b) ++ rest, pos, true⟩ with ⟨_ | _, a, r'⟩
    · rw [ha] at hadd
      cases hadd
    · rw [ha] at hadd
      cases hadd
      obtain ⟨hr, hPa⟩ := hd.1.run hw hsize rest pos a r ha
      refine ⟨hr, (ih hd.2 _).mono ?_⟩
      rintro z ⟨as, hforall, rfl⟩
      refine ⟨a :: as, .cons hPa hforall, ?_⟩
      rw [put, hacc.set_set, hacc.get_set]
      rfl

/-- Entries that take some bytes are not more than the bytes. -/
theorem length_le_size {l : List B} {entry : B → List Token}
    (h : ∀ b ∈ l, 0 < size (entry b)) : l.length ≤ size (l.flatMap entry) := by
  induction l with
  | nil => exact Nat.zero_le _
  | cons b l ih =>
    rw [List.forall_mem_cons] at h
    have hrest := ih h.2
    have hfirst := h.1
    rw [List.flatMap_cons, size_append, List.length_cons]
    omega

/-- **A container whose entries take some bytes** is read entry by entry, if its count is
accepted at all. -/
theorem collect [Inhabited A] {max : UInt32} {get : R → C} {set : C → R → R} {add : C → A → C}
    {d : Decoder A} {l : List B} {entry : B → List Token} {P : B → A → Prop}
    (hacc : Accessor get set) (hpos : ∀ b ∈ l, 0 < size (entry b))
    (hd : ∀ b ∈ l, Follows lim d (entry b) default (P b))
    (hQ : ∀ as, List.Forall₂ P l as → Q (put set (as.foldl add (get x)) x)) :
    Follows lim (Decoder.collect max get set add d) (counted l entry) x Q := by
  constructor
  intro hw hsize rest pos y r hcol
  have hsplit : counted l entry = [.u32 (UInt32.ofNat l.length)] ++ l.flatMap entry := rfl
  rw [hsplit] at hw hsize ⊢
  rw [writable_append] at hw
  rw [size_append, size_u32] at hsize ⊢
  -- the count is not cut, so it is the number of entries
  have hlt : l.length < 2 ^ 32 := by
    have hle := length_le_size hpos
    omega
  have hn : (UInt32.ofNat l.length).toNat = l.length := by simpa using hlt
  rw [Decoder.collect, hsplit, bytesOf_append, List.append_assoc,
    (ReadsTo.u32 _).run hw.1] at hcol
  dsimp only at hcol
  split at hcol
  · cases hcol
  · rw [hn] at hcol
    obtain ⟨hr, as, hforall, hy⟩ := (addEntries hacc hd x).run hw.2 (by omega) _ _ y r hcol
    refine ⟨?_, by rw [hy]; exact hQ as hforall⟩
    have hword : (bytesOf [.u32 (UInt32.ofNat l.length)]).length = 4 := size_u32 _
    rw [hr, hword, add_assoc]

end Follows

end Wire
