import DisaggregationFabric.Lib.Program

/-!
# Binary records: layouts

A `Layout` says how a text of bytes is divided, without saying what the bytes mean: a number of
bytes, an identity that is not zero, a string behind its length, a table behind its count.
`skip` walks over a text of the layout at the front of a byte string, and a byte string is a
`Text` of the layout if nothing is left then.

A decoder is `Formatted` by a layout if it is a program on its reader and, where it accepts with
the flag up, has read exactly what the layout skips. There is one rule for each statement of
`Lib.Decoder`, so that the layout of a record is read off the list of its statements.
-/

namespace Wire

variable {A B C R : Type}

/-- How a text of bytes is divided. -/
inductive Layout where
  /-- A number of bytes. -/
  | bytes (n : ℕ)
  /-- Eight bytes that are not all zero. -/
  | ident
  /-- A string behind its length. -/
  | str (max : UInt32)
  /-- A number of texts behind their count. -/
  | table (max : UInt32) (entry : Layout)
  /-- Nothing. -/
  | nil
  /-- One text behind the other. -/
  | seq (first second : Layout)

/-- Go over a number of texts. -/
def skipTimes (f : List UInt8 → Option (List UInt8)) : ℕ → List UInt8 → Option (List UInt8)
  | 0, b => some b
  | n + 1, b => (f b).bind (skipTimes f n)

namespace Layout

/-- Go over a text at the front. -/
def skip : Layout → List UInt8 → Option (List UInt8)
  | bytes n, b => (splitPrefix n b).bind fun w => some w.2
  | ident, b => (splitPrefix 8 b).bind fun w => if ofLE w.1 = 0 then none else some w.2
  | str max, b => (splitPrefix 4 b).bind fun w =>
    if max.toNat < ofLE w.1 then none else (splitPrefix (ofLE w.1) w.2).bind fun v => some v.2
  | table max entry, b => (splitPrefix 4 b).bind fun w =>
    if max.toNat < ofLE w.1 then none else skipTimes entry.skip (ofLE w.1) w.2
  | nil, b => some b
  | seq first second, b => (first.skip b).bind second.skip

/-- The texts of a layout. -/
def Text (l : Layout) (b : List UInt8) : Prop := l.skip b = some []

instance (l : Layout) (b : List UInt8) : Decidable (l.Text b) :=
  inferInstanceAs (Decidable (_ = _))

/-- A list of texts. -/
def all (ls : List Layout) : Layout := ls.foldr seq nil

end Layout

/-! ### What is skipped -/

/-- A walk over a prefix: it goes by the bytes it has gone over. -/
structure Walk (f : List UInt8 → Option (List UInt8)) : Prop where
  run : ∀ {b rest}, f b = some rest →
    ∃ used, b = used ++ rest ∧ ∀ more, f (used ++ more) = some more

namespace Walk

theorem stay : Walk some where
  run h := ⟨[], Option.some.inj h, fun _ => rfl⟩

theorem guard (p : Prop) [Decidable p] {f : List UInt8 → Option (List UInt8)} (hf : Walk f) :
    Walk fun b => if p then none else f b := by
  by_cases hp : p
  · simp only [hp, if_true]
    exact ⟨fun h => by cases h⟩
  · simp only [hp, if_false]
    exact hf

theorem bind {f g : List UInt8 → Option (List UInt8)} (hf : Walk f) (hg : Walk g) :
    Walk fun b => (f b).bind g := by
  constructor
  intro b rest h
  obtain ⟨mid, hmid, hrest⟩ := Option.bind_eq_some_iff.mp h
  obtain ⟨used₁, rfl, hmore₁⟩ := hf.run hmid
  obtain ⟨used₂, rfl, hmore₂⟩ := hg.run hrest
  refine ⟨used₁ ++ used₂, (List.append_assoc _ _ _).symm, fun more => ?_⟩
  rw [List.append_assoc, hmore₁, Option.bind_some, hmore₂]

theorem times {f : List UInt8 → Option (List UInt8)} (hf : Walk f) (n : ℕ) :
    Walk (skipTimes f n) := by
  induction n with
  | zero => exact stay
  | succ n ih => exact hf.bind ih

/-- A prefix that is split off, and what follows by it. -/
theorem split {n : ℕ} {f : List UInt8 → List UInt8 → Option (List UInt8)}
    (hf : ∀ w, Walk (f w)) : Walk fun b => (splitPrefix n b).bind fun w => f w.1 w.2 := by
  constructor
  intro b rest h
  obtain ⟨⟨w, tail⟩, hw, hrest⟩ := Option.bind_eq_some_iff.mp h
  obtain ⟨rfl, hlen⟩ := splitPrefix_eq_some hw
  obtain ⟨used, rfl, hmore⟩ := (hf w).run hrest
  refine ⟨w ++ used, (List.append_assoc _ _ _).symm, fun more => ?_⟩
  rw [List.append_assoc, ← hlen, splitPrefix_append, Option.bind_some, hmore]

end Walk

/-- **A layout goes by the bytes it goes over.** -/
theorem Layout.walk_skip (l : Layout) : Walk l.skip := by
  -- each layout splits words off, and may refuse what they say
  induction l with
  | bytes n => exact .split (f := fun _ => some) fun _ => .stay
  | ident =>
    exact .split (f := fun w rest => if ofLE w = 0 then none else some rest) fun w =>
      .guard (ofLE w = 0) .stay
  | str max =>
    refine .split (f := fun w rest => if max.toNat < ofLE w then none
      else (splitPrefix (ofLE w) rest).bind fun v => some v.2) fun w => .guard _ ?_
    exact .split (f := fun _ => some) fun _ => .stay
  -- a table is its entry so many times
  | table max entry ih =>
    exact .split (f := fun w rest => if max.toNat < ofLE w then none
      else skipTimes entry.skip (ofLE w) rest) fun w => .guard _ (ih.times _)
  | nil => exact .stay
  | seq first second ih₁ ih₂ => exact ih₁.bind ih₂

/-- A text, whatever follows it, is skipped; and only a text is. -/
theorem Layout.text_iff {l : Layout} {b more : List UInt8} :
    l.Text b ↔ l.skip (b ++ more) = some more := by
  constructor
  · -- what is skipped goes by the bytes used
    intro h
    obtain ⟨used, hb, hused⟩ := l.walk_skip.run h
    rw [List.append_nil] at hb
    rw [hb]
    exact hused more
  · -- the text is all that was used
    intro h
    obtain ⟨used, hb, hused⟩ := l.walk_skip.run h
    have hempty := hused []
    rw [List.append_nil, ← List.append_cancel_right hb] at hempty
    exact hempty

/-! ### Reads and decoders of a layout -/

/-- The read is a program, and with the flag up at the end it has read what the layout skips. -/
structure FormattedRead (rd : Reader → A × Reader) (l : Layout) : Prop where
  programmed : ProgrammedRead rd
  skip : ∀ {r}, (rd r).2.ok = true → l.skip r.rest = some (rd r).2.rest

/-- The decoder is a program, and where it accepts with the flag up it has read what the layout
skips. -/
structure Formatted (d : Decoder R) (l : Layout) : Prop where
  programmed : Programmed d
  skip : ∀ {x r}, (d x r).1 = true → (d x r).2.2.ok = true →
    l.skip r.rest = some (d x r).2.2.rest

/-- A prefix that was split off with the flag up at the end. -/
theorem Reader.splitPrefix_of_ok {n : ℕ} {r : Reader} (h : (r.take n).2.ok = true) :
    splitPrefix n r.rest = some ((r.take n).1, (r.take n).2.rest) := by
  have hok := (Exact.take n).sticky h
  rw [Reader.take, if_pos hok] at h ⊢
  cases hsplit : splitPrefix n r.rest with
  | none => rw [hsplit] at h; cases h
  | some w => rfl

/-- A word that was read with the flag up at the end. -/
theorem Reader.u32_of_ok {r : Reader} (h : r.u32.2.ok = true) :
    ∃ w, splitPrefix 4 r.rest = some (w, r.u32.2.rest) ∧ ofLE w = r.u32.1.toNat := by
  have hsplit := Reader.splitPrefix_of_ok (n := 4) h
  have hlt := ofLE_lt (r.take 4).1
  rw [(splitPrefix_eq_some hsplit).2] at hlt
  exact ⟨_, hsplit, (UInt32.toNat_ofNat_of_lt' hlt).symm⟩

theorem Reader.u64_of_ok {r : Reader} (h : r.u64.2.ok = true) :
    ∃ w, splitPrefix 8 r.rest = some (w, r.u64.2.rest) ∧ ofLE w = r.u64.1.toNat := by
  have hsplit := Reader.splitPrefix_of_ok (n := 8) h
  have hlt := ofLE_lt (r.take 8).1
  rw [(splitPrefix_eq_some hsplit).2] at hlt
  exact ⟨_, hsplit, (UInt64.toNat_ofNat_of_lt' hlt).symm⟩

namespace FormattedRead

theorem u8 : FormattedRead Reader.u8 (.bytes 1) where
  programmed := .prim .u8
  skip h := by rw [Layout.skip, Reader.splitPrefix_of_ok h]; rfl

theorem u32 : FormattedRead Reader.u32 (.bytes 4) where
  programmed := .prim .u32
  skip h := by rw [Layout.skip, Reader.splitPrefix_of_ok h]; rfl

theorem u64 : FormattedRead Reader.u64 (.bytes 8) where
  programmed := .prim .u64
  skip h := by rw [Layout.skip, Reader.splitPrefix_of_ok h]; rfl

theorem map {rd : Reader → A × Reader} {l : Layout} (f : A → B) (h : FormattedRead rd l) :
    FormattedRead (Reader.map f rd) l := ⟨h.programmed.map f, h.skip⟩

theorem flag : FormattedRead Reader.flag (.bytes 1) := u8.map (· != 0)

theorem str (lim : Limits) : FormattedRead (Reader.str lim) (.str lim.maxLen) where
  programmed := .prim (.str lim)
  skip {r} h := by
    unfold Reader.str at h ⊢
    dsimp only at h ⊢
    split at h
    · cases h
    next hlen =>
    rw [if_neg hlen]
    rw [Bool.or_eq_true, not_or, decide_eq_true_eq, UInt32.lt_iff_toNat_lt] at hlen
    -- the length, and then as many bytes
    obtain ⟨w, hw, hnat⟩ := Reader.u32_of_ok ((Exact.take _).sticky h)
    rw [Layout.skip, hw, Option.bind_some, hnat, if_neg hlen.2, Reader.splitPrefix_of_ok h]
    rfl

theorem pair {a : Reader → A × Reader} {b : Reader → B × Reader} {l m : Layout}
    (ha : FormattedRead a l) (hb : FormattedRead b m) :
    FormattedRead (Reader.pair a b) (.seq l m) where
  programmed := ha.programmed.pair hb.programmed
  skip h := by
    rw [Layout.skip, ha.skip (hb.programmed.exact.sticky h), Option.bind_some]
    exact hb.skip h

end FormattedRead

namespace Formatted

/-- A decoder that accepts with the flag up has found it up. -/
theorem ok_of_ok {d : Decoder R} {l : Layout} (h : Formatted d l) {x : R} {r : Reader}
    (hok : (d x r).2.2.ok = true) : r.ok = true := (h.programmed.exact x).sticky hok

theorem read {rd : Reader → A × Reader} {l : Layout} (set : A → R → R) (h : FormattedRead rd l) :
    Formatted (Decoder.read rd set) l := ⟨.read set h.programmed, fun _ hok => h.skip hok⟩

theorem value {rd : Reader → A × Reader} {l : Layout} (h : FormattedRead rd l) :
    Formatted (Decoder.value rd) l := read _ h

theorem check {rd : Reader → A × Reader} {l : Layout} (valid : A → Option B) (set : B → R → R)
    (h : FormattedRead rd l) : Formatted (Decoder.check rd valid set) l where
  programmed := .check valid set h.programmed
  skip {x r} hacc hok := by
    obtain ⟨b, -, heq⟩ := Decoder.check_accepts hacc
    rw [heq] at hok ⊢
    exact h.skip hok

theorem done : Formatted (Decoder.done : Decoder R) .nil := ⟨.done, fun _ _ => rfl⟩

theorem andThen {d e : Decoder R} {l m : Layout} (hd : Formatted d l) (he : Formatted e m) :
    Formatted (d.andThen e) (.seq l m) where
  programmed := hd.programmed.andThen he.programmed
  skip {x r} hacc hok := by
    have hfirst := @hd.skip x r
    obtain ⟨y, r', hdx, heq⟩ := Decoder.andThen_accepts hacc
    rw [heq] at hacc hok ⊢
    rw [hdx] at hfirst
    rw [Layout.skip, hfirst rfl (he.ok_of_ok hok), Option.bind_some]
    exact he.skip hacc hok

theorem into (get : R → A) (set : A → R → R) {d : Decoder A} {l : Layout} (h : Formatted d l) :
    Formatted (Decoder.into get set d) l :=
  ⟨h.programmed.into get set, fun hacc hok => h.skip hacc hok⟩

/-- A sequence of statements is laid out as they are, one by one. -/
theorem block {ds : List (Decoder R)} {ls : List Layout} (h : List.Forall₂ Formatted ds ls) :
    Formatted (Decoder.block ds) (.all ls) := by
  induction h with
  | nil => exact ⟨.skip, fun _ _ => rfl⟩
  | cons hd _ ih => exact hd.andThen ih

/-- The closing test reads nothing. -/
theorem closed {ds : List (Decoder R)} {l : Layout} (h : Formatted (Decoder.block ds) l) :
    Formatted (Decoder.closed ds) l where
  programmed := h.programmed.andThen .done
  skip {x r} hacc hok := by
    have hskip : (l.skip r.rest).bind some = some (Decoder.closed ds x r).2.2.rest :=
      (h.andThen done).skip hacc hok
    rwa [Option.bind_fun_some] at hskip

theorem addEntry [Inhabited A] (get : R → C) (set : C → R → R) (add : C → A → C) {d : Decoder A}
    {l : Layout} (h : Formatted d l) : Formatted (Decoder.addEntry get set add d) l where
  programmed := h.programmed.addEntry get set add
  skip {x r} hacc hok := by
    have hentry := @h.skip default r
    obtain ⟨a, r', hd, heq⟩ := Decoder.addEntry_accepts hacc
    rw [heq] at hok ⊢
    rw [hd] at hentry
    exact hentry rfl hok

/-- As many texts as there are rounds. -/
theorem skip_rounds {d : Decoder R} {l : Layout} (h : Formatted d l) (n : ℕ) {x : R} {r : Reader}
    (hacc : (Decoder.rounds n d x r).1 = true) (hok : (Decoder.rounds n d x r).2.2.ok = true) :
    skipTimes l.skip n r.rest = some (Decoder.rounds n d x r).2.2.rest := by
  induction n generalizing x r with
  | zero => rfl
  | succ n ih =>
    have hfirst := @h.skip x r
    rw [Decoder.rounds] at hacc hok ⊢
    obtain ⟨y, r', hd, heq⟩ := Decoder.andThen_accepts hacc
    rw [heq] at hacc hok ⊢
    rw [hd] at hfirst
    -- the flag was up between the rounds, since it is up behind them
    have hup : r'.ok = true := ((h.programmed.rounds n).exact y).sticky hok
    rw [skipTimes, hfirst rfl hup, Option.bind_some]
    exact ih hacc hok

/-- A container is a table. -/
theorem collect [Inhabited A] (max : UInt32) (get : R → C) (set : C → R → R) (add : C → A → C)
    {d : Decoder A} {l : Layout} (h : Formatted d l) :
    Formatted (Decoder.collect max get set add d) (.table max l) where
  programmed := .collect max get set add h.programmed
  skip {x r} hacc hok := by
    obtain ⟨hmax, hrounds⟩ := Decoder.collect_accepts hacc
    rw [hrounds] at hacc hok ⊢
    have hentry := h.addEntry get set add
    have hcount : r.u32.2.ok = true := ((hentry.programmed.rounds _).exact x).sticky hok
    obtain ⟨w, hw, hnat⟩ := Reader.u32_of_ok hcount
    rw [Layout.skip, hw, Option.bind_some, hnat, if_neg (not_lt.mpr hmax)]
    exact hentry.skip_rounds _ hacc hok

end Formatted

/-! ### Identities -/

/-- The decoder is a program, and where it accepts a fresh record with the flag up, the layout
skips what was read if the record has the property, and nothing otherwise. -/
structure Guards [Inhabited R] (d : Decoder R) (l : Layout) (P : R → Prop) [DecidablePred P] :
    Prop where
  programmed : Programmed d
  skip : ∀ {r y r'}, d default r = (true, y, r') → r'.ok = true →
    l.skip r.rest = if P y then some r'.rest else none

/-- A decoder of a layout guards nothing else. -/
theorem Formatted.guards [Inhabited R] {d : Decoder R} {l : Layout} (h : Formatted d l) :
    Guards d l fun _ => True := by
  refine ⟨h.programmed, ?_⟩
  intro r y r' hd hok
  have hskip := @h.skip default r
  rw [hd] at hskip
  rw [if_pos trivial]
  exact hskip rfl hok

/-- A word that was read with the flag up at the end is skipped as an identity unless it is
zero. -/
theorem skip_ident {r : Reader} (h : r.u64.2.ok = true) :
    Layout.ident.skip r.rest = if r.u64.1 ≠ 0 then some r.u64.2.rest else none := by
  obtain ⟨w, hw, hnat⟩ := Reader.u64_of_ok h
  have hzero : r.u64.1.toNat = 0 ↔ r.u64.1 = 0 := UInt64.toNat_inj (b := 0)
  rw [Layout.skip, hw, Option.bind_some, hnat]
  by_cases hid : r.u64.1 = 0
  · rw [if_pos (hzero.mpr hid), if_neg (not_not.mpr hid)]
  · rw [if_neg (mt hzero.mp hid), if_pos hid]

/-- A record that starts with its identity. -/
theorem guards_ident [Inhabited R] (set : UInt64 → R → R) (ident : R → UInt64)
    {ds : List (Decoder R)} {ls : List Layout} (hds : List.Forall₂ Formatted ds ls)
    (hset : ∀ v x, ident (set v x) = v) (hkeeps : ∀ d ∈ ds, Keeps d ident) :
    Guards (.closed (.read Reader.u64 set :: ds)) (.all (.ident :: ls)) fun y => ident y ≠ 0 := by
  -- what follows the identity is a record of its own, which leaves the identity alone
  have hrest : Formatted (Decoder.closed ds) (.all ls) := .closed (.block hds)
  refine ⟨(Formatted.closed (.block (.cons (.read set .u64) hds))).programmed, ?_⟩
  intro r y r' hd hok
  have hkept : Keeps (Decoder.closed ds) ident :=
    (Keeps.block hkeeps).andThen fun _ _ => rfl
  have hsplit : Decoder.closed (.read Reader.u64 set :: ds) default r =
      Decoder.closed ds (set r.u64.1 default) r.u64.2 := rfl
  rw [hsplit] at hd
  have hid := hkept (set r.u64.1 default) r.u64.2
  have hskip := @hrest.skip (set r.u64.1 default) r.u64.2
  have hword : (Decoder.closed ds (set r.u64.1 default) r.u64.2).2.2.ok = true →
      r.u64.2.ok = true := hrest.ok_of_ok
  rw [hd] at hid hskip hword
  dsimp only at hid hskip hword
  rw [hset] at hid
  change (Layout.ident.skip r.rest).bind (Layout.all ls).skip =
    if ident y ≠ 0 then some r'.rest else none
  rw [skip_ident (hword hok), hid]
  by_cases hzero : r.u64.1 = 0
  · rw [if_neg (not_not.mpr hzero), Option.bind_none, if_neg (not_not.mpr hzero)]
  · rw [if_pos hzero, Option.bind_some, if_pos hzero]
    exact hskip rfl hok

/-- The entries of a table, pushed one after the other. -/
theorem Guards.rounds [Inhabited A] {d : Decoder A} {l : Layout} {P : A → Prop}
    [DecidablePred P] (h : Guards d l P) (n : ℕ) {entries out : List A}
    {r r' : Reader}
    (hrun : Decoder.rounds n (Decoder.addEntry (fun l => l) (fun l _ => l) (fun l a => l ++ [a]) d)
      entries r = (true, out, r'))
    (hok : r'.ok = true) :
    ∃ new, out = entries ++ new ∧
      skipTimes l.skip n r.rest = if ∀ a ∈ new, P a then some r'.rest else none := by
  induction n generalizing entries r with
  | zero =>
    cases hrun
    refine ⟨[], (List.append_nil _).symm, ?_⟩
    rw [if_pos (fun a ha => absurd ha List.not_mem_nil)]
    rfl
  | succ n ih =>
    rw [Decoder.rounds] at hrun
    obtain ⟨y, mid, hadd, hrest⟩ := Decoder.andThen_accepts (by rw [hrun])
    obtain ⟨a, r₁, hfirst, hentry⟩ := Decoder.addEntry_accepts (by rw [hadd])
    rw [hentry] at hadd
    cases hadd
    rw [hrest] at hrun
    obtain ⟨new, rfl, hnew⟩ := ih hrun
    -- the flag was up behind the first entry, so its guard decides there
    have hmid : mid.ok = true := by
      have hentry := h.programmed.addEntry (fun l => l) (fun l _ => l) (fun l a => l ++ [a])
      have hrounds := (hentry.rounds n).exact (entries ++ [a])
      refine hrounds.sticky (r := mid) ?_
      dsimp only
      rw [hrun]
      exact hok
    have hguard := h.skip hfirst hmid
    refine ⟨a :: new, by rw [List.append_assoc, List.singleton_append], ?_⟩
    rw [skipTimes, hguard]
    by_cases ha : P a
    · rw [if_pos ha, Option.bind_some, hnew]
      simp only [List.forall_mem_cons, ha, true_and]
    · rw [if_neg ha, Option.bind_none, if_neg (fun hall => ha (hall a List.mem_cons_self))]

end Wire
