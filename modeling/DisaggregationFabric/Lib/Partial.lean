import DisaggregationFabric.Lib.Decoder

/-!
# Binary records: decoders that stop

Four further judgements about the decoders of `Lib.Decoder`, for what happens when one
of them does not go through:

* `Leaves d x P Q` — whatever there is to read, the record that `d` leaves has the
  property `P` when `d` accepts and the property `Q` when it stops;
* `Refuses d ts x` — on the bytes of the tokens `ts`, followed by anything, `d` stops;
* `Consumes d n` — a run of `d` that accepts and leaves the flag up has found it up, and
  has used at least `n` bytes of what there was;
* `Within n d x Q` — on an input of at most `n` bytes, a run of `d` that accepts and
  leaves the flag up leaves a record with the property `Q`. A counted list whose entries
  use some bytes is no longer than its input (`Within.list`).
-/

namespace Wire

variable {R A B C : Type}

/-- What two judgements say of an accepted record holds together. -/
theorem Yields.and {d : Decoder R} {x : R} {P Q : R → Prop} (hP : Yields d x P)
    (hQ : Yields d x Q) : Yields d x fun y => P y ∧ Q y :=
  ⟨fun r hr => ⟨hP.run r hr, hQ.run r hr⟩⟩

/-! ### What a decoder leaves behind, accepting or not -/

/-- The record `d` leaves, starting from `x`, has the property `P` if `d` accepts, and
`Q` if it stops. -/
structure Leaves (d : Decoder R) (x : R) (P Q : R → Prop) : Prop where
  accepted : ∀ r, (d x r).1 = true → P (d x r).2.1
  stopped : ∀ r, (d x r).1 = false → Q (d x r).2.1

namespace Leaves

variable {x : R} {P Q : R → Prop}

/-- One property, whatever the verdict. -/
theorem run {d : Decoder R} (h : Leaves d x Q Q) (r : Reader) : Q (d x r).2.1 := by
  rcases hv : (d x r).1 with _ | _
  · exact h.stopped r hv
  · exact h.accepted r hv

/-- A decoder that never stops. -/
theorem read {rd : Reader → A × Reader} {set : A → R → R} {V : A → Prop}
    (hrd : ∀ r, V (rd r).1) (h : ∀ v, V v → P (put set v x)) :
    Leaves (Decoder.read rd set) x P Q :=
  ⟨fun r _ => h _ (hrd r), fun _ hr => absurd hr Bool.noConfusion⟩

theorem check {rd : Reader → A × Reader} {valid : A → Option B} {set : B → R → R}
    (h : ∀ v b, valid v = some b → P (put set b x)) (hx : Q x) :
    Leaves (Decoder.check rd valid set) x P Q := by
  refine ⟨(Yields.check h).run, ?_⟩
  intro r hr
  unfold Decoder.check at hr ⊢
  cases hv : valid (rd r).1 with
  | none => simp only [hv]; exact hx
  | some b => simp only [hv] at hr; exact absurd hr Bool.noConfusion

theorem andThen {d e : Decoder R} (h : Leaves d x (fun y => Leaves e y P Q) Q) :
    Leaves (d.andThen e) x P Q := by
  refine ⟨?_, ?_⟩
  · exact (Yields.andThen ⟨fun r hr => ⟨(h.accepted r hr).accepted⟩⟩).run
  · intro r hr
    have hacc := h.accepted r
    have hstop := h.stopped r
    unfold Decoder.andThen at hr ⊢
    rcases hx : d x r with ⟨_ | _, y, r'⟩
    · rw [hx] at hstop; exact hstop rfl
    · rw [hx] at hr hacc; exact (hacc rfl).stopped r' hr

theorem nil (h : P x) : Leaves (Decoder.block []) x P Q :=
  ⟨fun _ _ => h, fun _ hr => absurd hr Bool.noConfusion⟩

theorem cons {d : Decoder R} {ds : List (Decoder R)}
    (h : Leaves d x (fun y => Leaves (Decoder.block ds) y P Q) Q) :
    Leaves (Decoder.block (d :: ds)) x P Q := andThen h

/-- The closing test may stop a decoder that has filled the whole record. -/
theorem closed {ds : List (Decoder R)} (h : Leaves (Decoder.block ds) x Q Q) :
    Leaves (Decoder.closed ds) x Q Q :=
  andThen ⟨fun r hr => ⟨fun _ _ => h.accepted r hr, fun _ _ => h.accepted r hr⟩, h.stopped⟩

theorem into {get : R → A} {set : A → R → R} {d : Decoder A} {P' Q' : A → Prop}
    (hd : Leaves d (get x) P' Q') (h : ∀ a, P' a → P (put set a x))
    (hstop : ∀ a, Q' a → Q (put set a x)) : Leaves (Decoder.into get set d) x P Q :=
  ⟨fun r hr => h _ (hd.accepted r hr), fun r hr => hstop _ (hd.stopped r hr)⟩

theorem addEntries [Inhabited A] {get : R → C} {set : C → R → R} {add : C → A → C}
    {d : Decoder A} {E : A → Prop} (hacc : Accessor get set) (hd : Yields d default E) (n : ℕ)
    (x : R) (r : Reader) :
    ∃ l : List A, l.length ≤ n ∧ (∀ a ∈ l, E a) ∧
      (Decoder.rounds n (Decoder.addEntry get set add d) x r).2.1 =
        put set (l.foldl add (get x)) x := by
  induction n generalizing x r with
  | zero => exact ⟨[], le_rfl, fun a ha => absurd ha List.not_mem_nil, hacc.set_get.symm⟩
  | succ n ih =>
    have hentry := hd.run r
    rw [Decoder.rounds, Decoder.andThen, Decoder.addEntry]
    rcases ha : d default r with ⟨_ | _, a, r'⟩
    · -- the round that stops adds nothing
      exact ⟨[], Nat.zero_le _, fun a ha => absurd ha List.not_mem_nil, hacc.set_get.symm⟩
    · rw [ha] at hentry
      obtain ⟨l, hl, hE, heq⟩ := ih (set (add (get x) a) x) r'
      refine ⟨a :: l, Nat.succ_le_succ hl, List.forall_mem_cons.mpr ⟨hentry rfl, hE⟩, ?_⟩
      dsimp only
      rw [heq, put, put, hacc.set_set, hacc.get_set]
      rfl

/-- A container has at most as many entries as the bound, each accepted, whether or not
all of them were. -/
theorem collect [Inhabited A] {max : UInt32} {get : R → C} {set : C → R → R} {add : C → A → C}
    {d : Decoder A} {E : A → Prop} (hacc : Accessor get set) (hd : Yields d default E)
    (h : ∀ l : List A, l.length ≤ max.toNat → (∀ a ∈ l, E a) →
      P (put set (l.foldl add (get x)) x))
    (hstop : ∀ l : List A, l.length ≤ max.toNat → (∀ a ∈ l, E a) →
      Q (put set (l.foldl add (get x)) x)) :
    Leaves (Decoder.collect max get set add d) x P Q := by
  refine ⟨(Yields.collect hacc hd h).run, ?_⟩
  intro r _
  unfold Decoder.collect
  dsimp only
  -- a count above the bound stops before the first round
  split
  · have hnone := hstop [] (Nat.zero_le _) (List.forall_mem_nil _)
    rwa [List.foldl_nil, put, hacc.set_get] at hnone
  · next hmax =>
    obtain ⟨l, hl, hE, heq⟩ := addEntries hacc hd r.u32.1.toNat x r.u32.2
    rw [UInt32.lt_iff_toNat_lt, not_lt] at hmax
    rw [heq]
    exact hstop l (hl.trans hmax) hE

end Leaves

/-! ### Refused input -/

/-- Provided the tokens `ts` fit: on their bytes, followed by anything, `d` stops. -/
structure Refuses (lim : Limits) (d : Decoder R) (ts : List Token) (x : R) : Prop where
  run : (∀ t ∈ ts, t.Fits lim) → ∀ rest pos, (d x ⟨bytesOf ts ++ rest, pos, true⟩).1 = false

namespace Refuses

variable {lim : Limits}

theorem check {rd : Reader → A × Reader} {valid : A → Option B} {set : B → R → R}
    {ts : List Token} {v : A} (h : ReadsTo lim rd ts v) (hv : valid v = none) (x : R) :
    Refuses lim (Decoder.check rd valid set) ts x := by
  constructor
  intro hts rest pos
  rw [Decoder.check, h.run hts]
  simp only [hv]

/-- The statement stops, whatever stands behind it. -/
theorem head {d : Decoder R} {ds : List (Decoder R)} {ts : List Token}
    {tss : List (List Token)} {x : R} (h : Refuses lim d ts x) :
    Refuses lim (Decoder.block (d :: ds)) (ts :: tss).flatten x := by
  constructor
  intro hts rest pos
  rw [List.flatten_cons, List.forall_mem_append] at hts
  have hd := h.run hts.1 (bytesOf tss.flatten ++ rest) pos
  rw [← List.append_assoc, ← bytesOf_append] at hd
  change (Decoder.andThen d (Decoder.block ds) x _).1 = false
  unfold Decoder.andThen
  rw [List.flatten_cons]
  rcases hx : d x ⟨bytesOf (ts ++ tss.flatten) ++ rest, pos, true⟩ with ⟨_ | _, y, r'⟩
  · rfl
  · rw [hx] at hd
    cases hd

/-- A later statement stops. -/
theorem cons {d : Decoder R} {ds : List (Decoder R)} {ts : List Token}
    {tss : List (List Token)} {x y : R} (hd : Reads lim d ts x y)
    (hds : Refuses lim (Decoder.block ds) tss.flatten y) :
    Refuses lim (Decoder.block (d :: ds)) (ts :: tss).flatten x := by
  constructor
  intro hts rest pos
  rw [List.flatten_cons, List.forall_mem_append] at hts
  change (Decoder.andThen d (Decoder.block ds) x _).1 = false
  rw [Decoder.andThen, List.flatten_cons, bytesOf_append, List.append_assoc, hd.run hts.1]
  exact hds.run hts.2 rest _

theorem closed {ds : List (Decoder R)} {ts : List Token} {x : R}
    (h : Refuses lim (Decoder.block ds) ts x) : Refuses lim (Decoder.closed ds) ts x := by
  constructor
  intro hts rest pos
  have hd := h.run hts rest pos
  rw [Decoder.closed, Decoder.andThen]
  rcases hx : Decoder.block ds x ⟨bytesOf ts ++ rest, pos, true⟩ with ⟨_ | _, y, r'⟩
  · rfl
  · rw [hx] at hd
    cases hd

theorem into {get : R → A} {set : A → R → R} {d : Decoder A} {ts : List Token} {x : R}
    (h : Refuses lim d ts (get x)) : Refuses lim (Decoder.into get set d) ts x :=
  ⟨fun hts rest pos => h.run hts rest pos⟩

/-- A container stops at the first entry that is refused. -/
theorem addEntries [Inhabited A] {get : R → C} {set : C → R → R} {add : C → A → C}
    {d : Decoder A} {entry : B → List Token} {f : B → A} {l : List B}
    (hd : ∀ b ∈ l, Reads lim d (entry b) default (f b) ∨ Refuses lim d (entry b) default)
    (hbad : ∃ b ∈ l, Refuses lim d (entry b) default) (x : R) :
    Refuses lim (Decoder.rounds l.length (Decoder.addEntry get set add d)) (l.flatMap entry) x := by
  constructor
  intro hts rest pos
  -- up to the first refused entry the loop runs, so the state it is in is general
  induction l generalizing x pos with
  | nil => exact absurd hbad (by simp)
  | cons b l ih =>
    rw [List.flatMap_cons, List.forall_mem_append] at hts
    rw [List.forall_mem_cons] at hd
    rw [List.length_cons, Decoder.rounds, Decoder.andThen, Decoder.addEntry, List.flatMap_cons,
      bytesOf_append, List.append_assoc]
    rcases hb : d default ⟨bytesOf (entry b) ++ (bytesOf (l.flatMap entry) ++ rest), pos, true⟩ with
      ⟨_ | _, a, r'⟩
    · rfl
    · -- the first entry went through, so it is not the one
      rcases hd.1 with hread | hrefused
      · rw [hread.run hts.1] at hb
        cases hb
        refine ih hd.2 ?_ _ hts.2 _
        obtain ⟨b', hb', hr'⟩ := hbad
        rcases List.mem_cons.mp hb' with rfl | hb'
        · have hfalse := hr'.run hts.1 (bytesOf (l.flatMap entry) ++ rest) pos
          rw [hread.run hts.1] at hfalse
          cases hfalse
        · exact ⟨b', hb', hr'⟩
      · have hfalse := hrefused.run hts.1 (bytesOf (l.flatMap entry) ++ rest) pos
        rw [hb] at hfalse
        cases hfalse

theorem collect [Inhabited A] {max : UInt32} {get : R → C} {set : C → R → R} {add : C → A → C}
    {d : Decoder A} {l : List B} {entry : B → List Token} {f : B → A} {x : R}
    (hlen : l.length < 2 ^ 32)
    (hd : ∀ b ∈ l, Reads lim d (entry b) default (f b) ∨ Refuses lim d (entry b) default)
    (hbad : ∃ b ∈ l, Refuses lim d (entry b) default) :
    Refuses lim (Decoder.collect max get set add d) (counted l entry) x := by
  have hn : (UInt32.ofNat l.length).toNat = l.length := by simpa using hlen
  have hbytes : bytesOf (counted l entry) =
      bytesOf [.u32 (UInt32.ofNat l.length)] ++ bytesOf (l.flatMap entry) :=
    bytesOf_append [.u32 (UInt32.ofNat l.length)] (l.flatMap entry)
  constructor
  intro hts rest pos
  obtain ⟨hhead, htail⟩ := List.forall_mem_cons.mp hts
  rw [Decoder.collect, hbytes, List.append_assoc,
    (ReadsTo.u32 _).run (List.forall_mem_singleton.mpr hhead)]
  -- the count may be refused, else one of the entries is
  dsimp only
  split
  · rfl
  · rw [hn]
    exact (addEntries hd hbad x).run htail rest _

end Refuses

/-! ### How much is read -/

/-- A sequence of statements, cut in two. -/
theorem block_append (ds es : List (Decoder R)) :
    Decoder.block (ds ++ es) = (Decoder.block ds).andThen (Decoder.block es) := by
  induction ds with
  | nil => rfl
  | cons d ds ih =>
    change d.andThen (Decoder.block (ds ++ es)) = (d.andThen (Decoder.block ds)).andThen _
    rw [ih]
    funext x r
    unfold Decoder.andThen
    rcases d x r with ⟨_ | _, y, r'⟩ <;> rfl

/-- A read that leaves the flag up has found it up, and has used `n` bytes at least. -/
def ReadConsumes (rd : Reader → A × Reader) (n : ℕ) : Prop :=
  ∀ r, (rd r).2.ok = true → r.ok = true ∧ (rd r).2.rest.length + n ≤ r.rest.length

/-- A string that is read is within the limit. -/
theorem length_str_le (lim : Limits) (r : Reader) :
    (Reader.str lim r).1.length ≤ lim.maxLen.toNat := by
  unfold Reader.str
  dsimp only
  -- a string that is refused is read as the empty one
  split
  · exact Nat.zero_le _
  next hn =>
  rw [Bool.or_eq_true, not_or, decide_eq_true_eq, UInt32.lt_iff_toNat_lt, not_lt] at hn
  unfold Reader.take
  split
  · rcases hsplit : splitPrefix r.u32.1.toNat r.u32.2.rest with _ | ⟨bs, rest⟩
    · exact Nat.zero_le _
    · exact (splitPrefix_eq_some hsplit).2.le.trans hn.2
  · exact Nat.zero_le _

namespace ReadConsumes

theorem take (n : ℕ) : ReadConsumes (Reader.take n) n := by
  intro r hr
  unfold Reader.take at hr ⊢
  -- with the flag up at the end it was up before, and the bytes were there
  split at hr
  · next hok =>
    rw [if_pos hok]
    rcases hsplit : splitPrefix n r.rest with _ | ⟨bs, rest⟩
    · rw [hsplit] at hr
      cases hr
    · obtain ⟨hrest, hlen⟩ := splitPrefix_eq_some hsplit
      have htotal := congrArg List.length hrest
      rw [List.length_append, hlen, Nat.add_comm] at htotal
      exact ⟨hok, htotal.ge⟩
  · next hok => exact absurd hr hok

theorem u8 : ReadConsumes Reader.u8 1 := take 1

theorem u32 : ReadConsumes Reader.u32 4 := take 4

theorem u64 : ReadConsumes Reader.u64 8 := take 8

theorem flag : ReadConsumes Reader.flag 1 := u8

theorem str (lim : Limits) : ReadConsumes (Reader.str lim) 4 := by
  intro r hr
  unfold Reader.str at hr ⊢
  dsimp only at hr ⊢
  split at hr
  · cases hr
  · next hn =>
    rw [if_neg hn]
    obtain ⟨hok, hrest⟩ := take _ _ hr
    obtain ⟨hok', hlen⟩ := u32 r hok
    exact ⟨hok', by omega⟩

theorem map {f : A → B} {rd : Reader → A × Reader} {n : ℕ} (h : ReadConsumes rd n) :
    ReadConsumes (Reader.map f rd) n := h

theorem pair {a : Reader → A × Reader} {b : Reader → B × Reader} {n m : ℕ}
    (ha : ReadConsumes a n) (hb : ReadConsumes b m) : ReadConsumes (Reader.pair a b) (n + m) := by
  intro r hr
  obtain ⟨hok, hrest⟩ := hb _ hr
  obtain ⟨hok', hrest'⟩ := ha _ hok
  refine ⟨hok', ?_⟩
  change (b (a r).2).2.rest.length + (n + m) ≤ _
  omega

end ReadConsumes

/-- A run that accepts and leaves the flag up has found it up, and has used `n` bytes at
least. -/
structure Consumes (d : Decoder R) (n : ℕ) : Prop where
  run : ∀ x r, (d x r).1 = true → (d x r).2.2.ok = true →
    r.ok = true ∧ (d x r).2.2.rest.length + n ≤ r.rest.length

namespace Consumes

variable {n m : ℕ}

theorem mono {d : Decoder R} (h : Consumes d n) (hle : m ≤ n) : Consumes d m := by
  constructor
  intro x r hacc hok
  obtain ⟨hok', hrest⟩ := h.run x r hacc hok
  exact ⟨hok', by omega⟩

theorem read {rd : Reader → A × Reader} (h : ReadConsumes rd n) (set : A → R → R) :
    Consumes (Decoder.read rd set) n := ⟨fun _ r _ hok => h r hok⟩

theorem check {rd : Reader → A × Reader} (h : ReadConsumes rd n) (valid : A → Option B)
    (set : B → R → R) : Consumes (Decoder.check rd valid set) n := by
  constructor
  intro x r hacc hok
  obtain ⟨b, -, heq⟩ := Decoder.check_accepts hacc
  rw [heq] at hok ⊢
  exact h r hok

theorem andThen {d e : Decoder R} (hd : Consumes d n) (he : Consumes e m) :
    Consumes (d.andThen e) (n + m) := by
  constructor
  intro x r hacc hok
  have hdr := hd.run x r
  obtain ⟨y, r', hx, heq⟩ := Decoder.andThen_accepts hacc
  rw [heq] at hacc hok ⊢
  rw [hx] at hdr
  obtain ⟨hok', hrest⟩ := he.run y r' hacc hok
  obtain ⟨hok'', hrest'⟩ := hdr rfl hok'
  dsimp only at hrest'
  exact ⟨hok'', by omega⟩

theorem skip : Consumes (Decoder.skip : Decoder R) 0 := ⟨fun _ _ _ hok => ⟨hok, le_rfl⟩⟩

theorem nil : Consumes (Decoder.block [] : Decoder R) 0 := skip

theorem cons {d : Decoder R} {ds : List (Decoder R)} (hd : Consumes d n)
    (hds : Consumes (Decoder.block ds) m) : Consumes (Decoder.block (d :: ds)) (n + m) :=
  andThen hd hds

/-- When only that the flag is sticky matters. -/
theorem block {ds : List (Decoder R)} (h : ∀ d ∈ ds, Consumes d 0) :
    Consumes (Decoder.block ds) 0 := by
  induction ds with
  | nil => exact nil
  | cons d ds ih =>
    rw [List.forall_mem_cons] at h
    exact cons h.1 (ih h.2)

theorem closed {ds : List (Decoder R)} (h : Consumes (Decoder.block ds) n) :
    Consumes (Decoder.closed ds) n := by
  have hdone : Consumes (Decoder.done : Decoder R) 0 := ⟨fun _ _ _ hok => ⟨hok, le_rfl⟩⟩
  exact andThen h hdone

theorem into {get : R → A} {set : A → R → R} {d : Decoder A} (h : Consumes d n) :
    Consumes (Decoder.into get set d) n := ⟨fun x r hacc hok => h.run (get x) r hacc hok⟩

theorem addEntry [Inhabited A] {get : R → C} {set : C → R → R} {add : C → A → C} {d : Decoder A}
    (h : Consumes d n) : Consumes (Decoder.addEntry get set add d) n := by
  constructor
  intro x r hacc hok
  have hd := h.run default r
  obtain ⟨a, r', ha, heq⟩ := Decoder.addEntry_accepts hacc
  rw [heq] at hok ⊢
  rw [ha] at hd
  exact hd rfl hok

theorem rounds {d : Decoder R} (h : Consumes d n) (k : ℕ) :
    Consumes (Decoder.rounds k d) (k * n) := by
  induction k with
  | zero =>
    rw [Nat.zero_mul]
    exact skip
  | succ k ih =>
    rw [Nat.succ_mul, Nat.add_comm (k * n)]
    exact andThen h ih

/-- Of a container it matters here that the flag is sticky. -/
theorem collect [Inhabited A] {max : UInt32} {get : R → C} {set : C → R → R} {add : C → A → C}
    {d : Decoder A} (h : Consumes d 0) : Consumes (Decoder.collect max get set add d) 4 := by
  constructor
  intro x r haccept hok
  obtain ⟨-, hrounds⟩ := Decoder.collect_accepts haccept
  rw [hrounds] at haccept hok ⊢
  obtain ⟨hok', hrest⟩ := ((addEntry h).rounds r.u32.1.toNat).run x r.u32.2 haccept hok
  obtain ⟨hok'', hrest'⟩ := ReadConsumes.u32 r hok'
  exact ⟨hok'', by omega⟩

end Consumes

/-- On an input of at most `n` bytes: if `d` accepts starting from `x` and leaves the flag
up, the record it leaves has the property `Q`. -/
structure Within (n : ℕ) (d : Decoder R) (x : R) (Q : R → Prop) : Prop where
  run : ∀ r, r.rest.length ≤ n → (d x r).1 = true → (d x r).2.2.ok = true → Q (d x r).2.1

namespace Within

variable {n : ℕ} {x : R} {Q : R → Prop}

theorem of_yields {d : Decoder R} (h : Yields d x Q) : Within n d x Q :=
  ⟨fun r _ hacc _ => h.run r hacc⟩

theorem andThen {d e : Decoder R} (hd : Consumes d 0) (he : Consumes e 0)
    (h : Within n d x fun y => Within n e y Q) : Within n (d.andThen e) x Q := by
  constructor
  intro r hr hacc hok
  have hdr := hd.run x r
  have hyr := h.run r hr
  obtain ⟨y, r', hx, heq⟩ := Decoder.andThen_accepts hacc
  rw [heq] at hacc hok ⊢
  rw [hx] at hdr hyr
  -- the flag was up in between, so the rest is no longer than the input
  obtain ⟨hok', -⟩ := he.run y r' hacc hok
  obtain ⟨-, hrest⟩ := hdr rfl hok'
  dsimp only at hrest
  exact (hyr rfl hok').run r' (by omega) hacc hok

theorem nil (h : Q x) : Within n (Decoder.block []) x Q := ⟨fun _ _ _ _ => h⟩

theorem cons {d : Decoder R} {ds : List (Decoder R)} (hd : Consumes d 0)
    (hds : Consumes (Decoder.block ds) 0)
    (h : Within n d x fun y => Within n (Decoder.block ds) y Q) :
    Within n (Decoder.block (d :: ds)) x Q := andThen hd hds h

/-- The closing test tells that the flag is up. -/
theorem closed {ds : List (Decoder R)} (h : Within n (Decoder.block ds) x Q) {r : Reader}
    (hr : r.rest.length ≤ n) (hacc : (Decoder.closed ds x r).1 = true) :
    Q (Decoder.closed ds x r).2.1 := by
  have hrun := h.run r hr
  unfold Decoder.closed at hacc ⊢
  obtain ⟨y, r', hx, heq⟩ := Decoder.andThen_accepts hacc
  rw [heq] at hacc ⊢
  rw [hx] at hrun
  exact hrun rfl hacc

/-- **A counted list is no longer than its input.** -/
theorem list [Inhabited A] {max : UInt32} {get : R → List A} {set : List A → R → R}
    {d : Decoder A} {k : ℕ} (hacc : Accessor get set) (hd : Consumes d k)
    (h : ∀ l : List A, l.length * k ≤ n → Q (put set (get x ++ l) x)) :
    Within n (Decoder.collect max get set (fun l a => l ++ [a]) d) x Q := by
  constructor
  intro r hr haccept hok
  -- each entry has used up some bytes, so there are not more than fit
  obtain ⟨-, hrounds⟩ := Decoder.collect_accepts haccept
  rw [hrounds] at haccept hok ⊢
  obtain ⟨l, hl, -, heq⟩ := (Yields.addEntries hacc (Yields.trivially d default) r.u32.1.toNat
    x).run _ haccept
  obtain ⟨hok', hrest⟩ := (hd.addEntry.rounds r.u32.1.toNat).run x r.u32.2 haccept hok
  obtain ⟨-, hrest'⟩ := ReadConsumes.u32 r hok'
  rw [heq, foldl_push]
  refine h l ?_
  rw [hl]
  omega

end Within

end Wire
