import DisaggregationFabric.Lib.Wire

/-!
# Binary records: decoders

A `Decoder R` fills a record of type `R` in place from a reader and says whether
to go on; it stops at the first value it does not accept, with the record as far
as it was filled. `read`, `check`, `collect`, `into` and `done` are the statements
such decoders are made of, `block` their sequence.

Three judgements, with one rule for each statement:

* `Reads d ts x y` — on the bytes of the tokens `ts`, followed by anything, `d`
  accepts, takes the record `x` to `y`, and stops exactly behind them;
* `Yields d x Q` — whatever there is to read, if `d` accepts starting from `x`
  then the record it leaves has the property `Q`;
* `Keeps d f` — whatever there is to read, `d` leaves the part `f` of the record alone.
-/

namespace Wire

/-- Fill a record in place: whether to go on, the record, and the reader. -/
def Decoder (R : Type) : Type := R → Reader → Bool × R × Reader

namespace Decoder

variable {R A B C : Type}

/-- Assign what a read returns. -/
def read (rd : Reader → A × Reader) (set : A → R → R) : Decoder R := fun x r =>
  let v := rd r
  (true, set v.1 x, v.2)

/-- Assign what a read returns, provided it is valid. -/
def check (rd : Reader → A × Reader) (valid : A → Option B) (set : B → R → R) : Decoder R :=
  fun x r =>
    let v := rd r
    match valid v.1 with
    | some b => (true, set b x, v.2)
    | none => (false, x, v.2)

/-- A decoder of a single value. -/
def value (rd : Reader → A × Reader) : Decoder A := read rd fun v _ => v

/-- One decoder after the other, unless the first one stops. -/
def andThen (d e : Decoder R) : Decoder R := fun x r =>
  match d x r with
  | (true, x', r') => e x' r'
  | (false, x', r') => (false, x', r')

/-- Nothing to read. -/
def skip : Decoder R := fun x r => (true, x, r)

/-- A sequence of statements. -/
def block (ds : List (Decoder R)) : Decoder R := ds.foldr andThen skip

/-- A number of rounds. -/
def rounds : ℕ → Decoder R → Decoder R
  | 0, _ => skip
  | n + 1, d => d.andThen (rounds n d)

/-- Decode a member of the record. -/
def into (get : R → A) (set : A → R → R) (d : Decoder A) : Decoder R := fun x r =>
  let v := d (get x) r
  (v.1, set v.2.1 x, v.2.2)

/-- Decode a fresh entry and add it to a container of the record. -/
def addEntry [Inhabited A] (get : R → C) (set : C → R → R) (add : C → A → C) (d : Decoder A) :
    Decoder R := fun x r =>
  match d default r with
  | (true, a, r') => (true, set (add (get x) a) x, r')
  | (false, _, r') => (false, x, r')

/-- A container of the record: a count, bounded, and as many entries. -/
def collect [Inhabited A] (max : UInt32) (get : R → C) (set : C → R → R) (add : C → A → C)
    (d : Decoder A) : Decoder R := fun x r =>
  let n := r.u32
  if max < n.1 then (false, x, n.2) else rounds n.1.toNat (addEntry get set add d) x n.2

/-- The closing test of the reader's flag. -/
def done : Decoder R := fun x r => (r.ok, x, r)

/-- A sequence of statements with the closing test. -/
def closed (ds : List (Decoder R)) : Decoder R := (block ds).andThen done

/-! ### Accepted runs -/

section Accepts

variable {x : R} {r : Reader}

/-- A value that is accepted is valid. -/
theorem check_accepts {rd : Reader → A × Reader} {valid : A → Option B} {set : B → R → R}
    (h : (check rd valid set x r).1 = true) :
    ∃ b, valid (rd r).1 = some b ∧ check rd valid set x r = (true, set b x, (rd r).2) := by
  unfold check at h ⊢
  cases hv : valid (rd r).1 with
  | none => simp only [hv] at h; exact absurd h Bool.false_ne_true
  | some b => exact ⟨b, rfl, by simp only [hv]⟩

/-- In a sequence that is accepted the first decoder has gone on, and the second one is what is
left. -/
theorem andThen_accepts {d e : Decoder R} (h : (d.andThen e x r).1 = true) :
    ∃ y r', d x r = (true, y, r') ∧ d.andThen e x r = e y r' := by
  unfold andThen at h ⊢
  rcases hd : d x r with ⟨_ | _, y, r'⟩
  · rw [hd] at h
    exact absurd h Bool.false_ne_true
  · exact ⟨y, r', rfl, rfl⟩

variable [Inhabited A] {get : R → C} {set : C → R → R} {add : C → A → C} {d : Decoder A}

/-- An entry that is accepted is added. -/
theorem addEntry_accepts (h : (addEntry get set add d x r).1 = true) :
    ∃ a r', d default r = (true, a, r') ∧
      addEntry get set add d x r = (true, set (add (get x) a) x, r') := by
  unfold addEntry at h ⊢
  rcases hd : d default r with ⟨_ | _, a, r'⟩
  · rw [hd] at h
    exact absurd h Bool.false_ne_true
  · exact ⟨a, r', rfl, rfl⟩

/-- A container that is accepted is within its bound, and has as many rounds as its count
says. -/
theorem collect_accepts {max : UInt32} (h : (collect max get set add d x r).1 = true) :
    r.u32.1.toNat ≤ max.toNat ∧ collect max get set add d x r =
      rounds r.u32.1.toNat (addEntry get set add d) x r.u32.2 := by
  unfold collect at h ⊢
  dsimp only at h ⊢
  split at h
  · exact absurd h Bool.false_ne_true
  · next hmax =>
    rw [if_neg hmax]
    rw [UInt32.lt_iff_toNat_lt, not_lt] at hmax
    exact ⟨hmax, rfl⟩

end Accepts

end Decoder

variable {R A B C : Type}

/-- Pushing entries to the back one by one appends them. -/
theorem foldl_push (l m : List A) : l.foldl (fun l a => l ++ [a]) m = m ++ l := by
  induction l generalizing m with
  | nil => rw [List.foldl_nil, List.append_nil]
  | cons a l ih => rw [List.foldl_cons, ih, List.append_assoc, List.singleton_append]

/-! ### Reading back what was written -/

/-- The record after an assignment. The judgements speak of `put` rather than of
the assignment itself, so that a long block leaves a chain of assignments and not
a nested record. -/
def put (set : A → R → R) (v : A) (x : R) : R := set v x

/-- `get` and `set` give access to one part of a record: what was set is what is read,
the last assignment counts, and assigning what is there changes nothing. -/
structure Accessor (get : R → C) (set : C → R → R) : Prop where
  get_set : ∀ {c x}, get (set c x) = c
  set_set : ∀ {c c' x}, set c (set c' x) = set c x
  set_get : ∀ {x}, set (get x) x = x

/-- Provided the tokens `ts` fit: on their bytes, followed by anything, `d` accepts,
takes `x` to `y`, and stops behind them. -/
structure Reads (lim : Limits) (d : Decoder R) (ts : List Token) (x y : R) : Prop where
  run : (∀ t ∈ ts, t.Fits lim) → ∀ rest pos, d x ⟨bytesOf ts ++ rest, pos, true⟩ =
    (true, y, ⟨rest, pos + (bytesOf ts).length, true⟩)

namespace Reads

variable {lim : Limits}

theorem read {rd : Reader → A × Reader} {set : A → R → R} {ts : List Token} {v : A}
    (h : ReadsTo lim rd ts v) (x : R) : Reads lim (Decoder.read rd set) ts x (put set v x) := by
  constructor
  intro hts rest pos
  rw [Decoder.read, h.run hts]
  rfl

theorem value {rd : Reader → A × Reader} {ts : List Token} {v : A} (h : ReadsTo lim rd ts v)
    (x : A) : Reads lim (Decoder.value rd) ts x v := read h x

theorem check {rd : Reader → A × Reader} {valid : A → Option B} {set : B → R → R}
    {ts : List Token} {v : A} {b : B} (h : ReadsTo lim rd ts v) (hb : valid v = some b) (x : R) :
    Reads lim (Decoder.check rd valid set) ts x (put set b x) := by
  constructor
  intro hts rest pos
  rw [Decoder.check, h.run hts]
  simp only [hb]
  rfl

theorem skip (x : R) : Reads lim Decoder.skip [] x x := ⟨fun _ _ _ => rfl⟩

theorem done (x : R) : Reads lim Decoder.done [] x x := ⟨fun _ _ _ => rfl⟩

theorem andThen {d e : Decoder R} {ts us : List Token} {x y z : R} (hd : Reads lim d ts x y)
    (he : Reads lim e us y z) : Reads lim (d.andThen e) (ts ++ us) x z := by
  constructor
  intro hts rest pos
  rw [List.forall_mem_append] at hts
  rw [Decoder.andThen, bytesOf_append, List.append_assoc, hd.run hts.1]
  simp only
  rw [he.run hts.2, List.length_append, add_assoc]

theorem nil (x : R) : Reads lim (Decoder.block []) [] x x := skip x

/-- A block reads a list of pieces, statement by statement. -/
theorem cons {d : Decoder R} {ds : List (Decoder R)} {ts : List Token} {tss : List (List Token)}
    {x y z : R} (hd : Reads lim d ts x y) (hds : Reads lim (Decoder.block ds) tss.flatten y z) :
    Reads lim (Decoder.block (d :: ds)) (ts :: tss).flatten x z := andThen hd hds

/-- The closing test reads nothing. -/
theorem closed {ds : List (Decoder R)} {ts : List Token} {x y : R}
    (h : Reads lim (Decoder.block ds) ts x y) : Reads lim (Decoder.closed ds) ts x y := by
  have hd := andThen h (done y)
  rw [List.append_nil] at hd
  exact hd

/-- A size check that was passed reads nothing, and bounds the size. -/
theorem limit {d : Decoder R} {n : ℕ} {max : UInt32} {text : List UInt8} {ts : List Token}
    {x y : R} (h : n ≤ max.toNat → Reads lim d ts x y) :
    Reads lim d (.limit n max text :: ts) x y := by
  constructor
  intro hts rest pos
  obtain ⟨hhead, htail⟩ := List.forall_mem_cons.mp hts
  have hn : n ≤ max.toNat := by
    by_contra hc
    simp [Token.Fits, Token.refusal?, not_le.mp hc] at hhead
  exact (h hn).run htail rest pos

theorem into {get : R → A} {set : A → R → R} {d : Decoder A} {ts : List Token} {x : R} {a : A}
    (h : Reads lim d ts (get x) a) : Reads lim (Decoder.into get set d) ts x (put set a x) := by
  constructor
  intro hts rest pos
  rw [Decoder.into, h.run hts]
  rfl

theorem addEntries [Inhabited A] {get : R → C} {set : C → R → R} {add : C → A → C}
    {d : Decoder A} {entry : B → List Token} {f : B → A} (hacc : Accessor get set) {l : List B}
    (hd : ∀ b ∈ l, Reads lim d (entry b) default (f b)) (x : R) :
    Reads lim (Decoder.rounds l.length (Decoder.addEntry get set add d)) (l.flatMap entry) x
      (put set ((l.map f).foldl add (get x)) x) := by
  unfold put
  -- on the entries, for any record that they are added to
  induction l generalizing x with
  | nil => rw [List.map_nil, List.foldl_nil, hacc.set_get]; exact skip x
  | cons b l ih =>
    have hfirst : Reads lim (Decoder.addEntry get set add d) (entry b) x
        (set (add (get x) (f b)) x) := by
      constructor
      intro hts rest pos
      rw [Decoder.addEntry, (hd b List.mem_cons_self).run hts]
    have hrest := ih (fun b hb => hd b (List.mem_cons_of_mem _ hb)) (set (add (get x) (f b)) x)
    rw [hacc.get_set, hacc.set_set] at hrest
    exact andThen hfirst hrest

/-- A container within the bound is read back entry by entry. -/
theorem collect [Inhabited A] {max : UInt32} {get : R → C} {set : C → R → R} {add : C → A → C}
    {d : Decoder A} {l : List B} {entry : B → List Token} {f : B → A} {x : R}
    (hacc : Accessor get set) (hlen : l.length ≤ max.toNat)
    (hd : ∀ b ∈ l, Reads lim d (entry b) default (f b)) :
    Reads lim (Decoder.collect max get set add d) (counted l entry) x
      (put set ((l.map f).foldl add (get x)) x) := by
  have hlt : l.length < 2 ^ 32 := lt_of_le_of_lt hlen max.toNat_lt
  have hn : (UInt32.ofNat l.length).toNat = l.length := by simpa using hlt
  -- the count passes its test
  have hmax : ¬ max < UInt32.ofNat l.length := by
    rw [UInt32.lt_iff_toNat_lt, hn]
    exact not_lt.mpr hlen
  have hbytes : bytesOf (counted l entry) =
      bytesOf [.u32 (UInt32.ofNat l.length)] ++ bytesOf (l.flatMap entry) :=
    bytesOf_append [.u32 (UInt32.ofNat l.length)] (l.flatMap entry)
  constructor
  intro hts rest pos
  obtain ⟨hhead, htail⟩ := List.forall_mem_cons.mp hts
  rw [Decoder.collect, hbytes, List.append_assoc,
    (ReadsTo.u32 _).run (List.forall_mem_singleton.mpr hhead)]
  simp only [hmax, if_false, hn]
  rw [(addEntries hacc hd x).run htail, List.length_append, add_assoc]

end Reads

/-- Tokens with the same bytes are read in the same way. -/
theorem Reads.of_bytes {lim : Limits} {d : Decoder R} {ts us : List Token} {x y : R}
    (h : Reads lim d ts x y) (hbytes : bytesOf us = bytesOf ts)
    (hw : Writable lim us → Writable lim ts) : Reads lim d us x y := by
  constructor
  intro hus
  rw [hbytes]
  exact h.run (hw hus)

/-- **Written and read back.** The tokens are written, and from their bytes, wherever
they stand and whatever follows, a fresh record is filled as `y`; the reader stops
exactly behind them. -/
def ReadsBack [Inhabited R] (lim : Limits) (d : Decoder R) (ts : List Token) (y : R) : Prop :=
  ∃ bs, write lim ts = .ok bs ∧ ∀ rest pos,
    d default ⟨bs ++ rest, pos, true⟩ = (true, y, ⟨rest, pos + bs.length, true⟩)

theorem Reads.readsBack [Inhabited R] {lim : Limits} {d : Decoder R} {ts : List Token} {y : R}
    (h : Reads lim d ts default y) (hw : Writable lim ts) : ReadsBack lim d ts y :=
  ⟨bytesOf ts, hw.write_eq, h.run hw⟩

/-- What is read back is determined by what was written. -/
theorem ReadsBack.unique [Inhabited R] {lim : Limits} {d : Decoder R} {ts : List Token}
    {y y' : R} (h : ReadsBack lim d ts y) (h' : ReadsBack lim d ts y') : y = y' := by
  obtain ⟨bs, hbs, hd⟩ := h
  obtain ⟨bs', hbs', hd'⟩ := h'
  rw [hbs] at hbs'
  cases hbs'
  have heq := (hd [] 0).symm.trans (hd' [] 0)
  cases heq
  rfl

/-! ### What a decoder leaves alone -/

/-- Whatever there is to read, and whether it accepts or not, the decoder leaves the part `f` of
the record as it was. -/
def Keeps (d : Decoder R) (f : R → B) : Prop := ∀ x r, f (d x r).2.1 = f x

namespace Keeps

variable {f : R → B}

theorem read (rd : Reader → A × Reader) {set : A → R → R} (h : ∀ v x, f (set v x) = f x) :
    Keeps (Decoder.read rd set) f := fun x r => h (rd r).1 x

theorem check (rd : Reader → A × Reader) (valid : A → Option C) {set : C → R → R}
    (h : ∀ v x, f (set v x) = f x) : Keeps (Decoder.check rd valid set) f := by
  intro x r
  unfold Decoder.check
  dsimp only
  split
  · exact h _ x
  · rfl

theorem andThen {d e : Decoder R} (hd : Keeps d f) (he : Keeps e f) : Keeps (d.andThen e) f := by
  intro x r
  have hfirst := hd x r
  unfold Decoder.andThen
  rcases hdx : d x r with ⟨_ | _, y, r'⟩
  · rw [hdx] at hfirst
    exact hfirst
  · rw [hdx] at hfirst
    exact (he y r').trans hfirst

theorem into (get : R → A) {set : A → R → R} (d : Decoder A) (h : ∀ v x, f (set v x) = f x) :
    Keeps (Decoder.into get set d) f := fun x r => h (d (get x) r).2.1 x

theorem block {ds : List (Decoder R)} (h : ∀ d ∈ ds, Keeps d f) : Keeps (Decoder.block ds) f := by
  induction ds with
  | nil => exact fun _ _ => rfl
  | cons d ds ih =>
    rw [List.forall_mem_cons] at h
    exact h.1.andThen (ih h.2)

theorem rounds {d : Decoder R} (h : Keeps d f) (n : ℕ) : Keeps (Decoder.rounds n d) f := by
  induction n with
  | zero => exact fun _ _ => rfl
  | succ n ih => exact h.andThen ih

theorem collect [Inhabited A] (max : UInt32) (get : R → C) {set : C → R → R} (add : C → A → C)
    (d : Decoder A) (h : ∀ v x, f (set v x) = f x) :
    Keeps (Decoder.collect max get set add d) f := by
  -- an entry only writes the field
  have hentry : Keeps (Decoder.addEntry get set add d) f := by
    intro x r
    unfold Decoder.addEntry
    split
    · exact h _ x
    · rfl
  intro x r
  unfold Decoder.collect
  dsimp only
  -- the count may be refused
  split
  · rfl
  · exact hentry.rounds _ x _

end Keeps

/-! ### What an accepting decoder leaves behind -/

/-- If `d` accepts starting from `x`, the record it leaves has the property `Q`. -/
structure Yields (d : Decoder R) (x : R) (Q : R → Prop) : Prop where
  run : ∀ r, (d x r).1 = true → Q (d x r).2.1

namespace Yields

theorem mono {d : Decoder R} {x : R} {P Q : R → Prop} (h : Yields d x P) (hPQ : ∀ y, P y → Q y) :
    Yields d x Q := ⟨fun r hr => hPQ _ (h.run r hr)⟩

theorem trivially (d : Decoder R) (x : R) : Yields d x fun _ => True := ⟨fun _ _ => trivial⟩

theorem read {rd : Reader → A × Reader} {set : A → R → R} {x : R} {Q : R → Prop}
    (h : ∀ v, Q (put set v x)) : Yields (Decoder.read rd set) x Q := ⟨fun r _ => h (rd r).1⟩

theorem check {rd : Reader → A × Reader} {valid : A → Option B} {set : B → R → R} {x : R}
    {Q : R → Prop} (h : ∀ v b, valid v = some b → Q (put set b x)) :
    Yields (Decoder.check rd valid set) x Q := by
  constructor
  intro r hr
  obtain ⟨b, hb, heq⟩ := Decoder.check_accepts hr
  rw [heq]
  exact h _ b hb

theorem skip {x : R} {Q : R → Prop} (h : Q x) : Yields Decoder.skip x Q := ⟨fun _ _ => h⟩

theorem done {x : R} {Q : R → Prop} (h : Q x) : Yields Decoder.done x Q := ⟨fun _ _ => h⟩

theorem andThen {d e : Decoder R} {x : R} {Q : R → Prop}
    (h : Yields d x fun y => Yields e y Q) : Yields (d.andThen e) x Q := by
  constructor
  intro r hr
  have hd := h.run r
  obtain ⟨y, r', hx, heq⟩ := Decoder.andThen_accepts hr
  rw [heq] at hr ⊢
  rw [hx] at hd
  exact (hd rfl).run r' hr

theorem nil {x : R} {Q : R → Prop} (h : Q x) : Yields (Decoder.block []) x Q := skip h

theorem cons {d : Decoder R} {ds : List (Decoder R)} {x : R} {Q : R → Prop}
    (h : Yields d x fun y => Yields (Decoder.block ds) y Q) :
    Yields (Decoder.block (d :: ds)) x Q := andThen h

theorem closed {ds : List (Decoder R)} {x : R} {Q : R → Prop}
    (h : Yields (Decoder.block ds) x Q) : Yields (Decoder.closed ds) x Q :=
  andThen (h.mono fun _ hy => done hy)

theorem into {get : R → A} {set : A → R → R} {d : Decoder A} {x : R} {P : A → Prop}
    {Q : R → Prop} (hd : Yields d (get x) P) (h : ∀ a, P a → Q (put set a x)) :
    Yields (Decoder.into get set d) x Q := ⟨fun r hr => h _ (hd.run r hr)⟩

theorem addEntries [Inhabited A] {get : R → C} {set : C → R → R} {add : C → A → C}
    {d : Decoder A} {P : A → Prop} (hacc : Accessor get set) (hd : Yields d default P) (n : ℕ)
    (x : R) :
    Yields (Decoder.rounds n (Decoder.addEntry get set add d)) x fun y =>
      ∃ l : List A, l.length = n ∧ (∀ a ∈ l, P a) ∧ y = put set (l.foldl add (get x)) x := by
  -- on the rounds, for any record
  induction n generalizing x with
  | zero => exact skip ⟨[], rfl, fun a ha => absurd ha List.not_mem_nil, hacc.set_get.symm⟩
  | succ n ih =>
    refine andThen ⟨?_⟩
    intro r hr
    have hentry := hd.run r
    obtain ⟨a, r', ha, heq⟩ := Decoder.addEntry_accepts hr
    rw [ha] at hentry
    rw [heq]
    -- the other entries are added behind this one
    refine (ih _).mono ?_
    rintro y ⟨l, hl, hP, rfl⟩
    refine ⟨a :: l, by rw [List.length_cons, hl], List.forall_mem_cons.mpr ⟨hentry rfl, hP⟩, ?_⟩
    rw [put, hacc.set_set, hacc.get_set]
    rfl

/-- A container that was read has at most as many entries as the bound, each with
the property of an accepted entry. -/
theorem collect [Inhabited A] {max : UInt32} {get : R → C} {set : C → R → R} {add : C → A → C}
    {d : Decoder A} {x : R} {P : A → Prop} {Q : R → Prop} (hacc : Accessor get set)
    (hd : Yields d default P)
    (h : ∀ l : List A, l.length ≤ max.toNat → (∀ a ∈ l, P a) →
      Q (put set (l.foldl add (get x)) x)) :
    Yields (Decoder.collect max get set add d) x Q := by
  constructor
  intro r hr
  obtain ⟨hmax, hrounds⟩ := Decoder.collect_accepts hr
  rw [hrounds] at hr ⊢
  obtain ⟨l, hl, hP, heq⟩ := (addEntries hacc hd _ x).run _ hr
  rw [heq]
  exact h l (hl ▸ hmax) hP

end Yields

end Wire
