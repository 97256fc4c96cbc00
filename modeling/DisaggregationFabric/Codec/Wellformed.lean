import DisaggregationFabric.Codec.Corruption
import DisaggregationFabric.Codec.Layouts

/-!
# Well-formed files

`LoadImpl` compares the magic number, the version and the checksum, and reads the epoch and four
tables. It does not compare the position it has reached with the place of the checksum, and it
looks at no identity. So it accepts more than the format has: a file with bytes between its last
table and the checksum, and records whose identity is zero (`trailing_and_zero_accepted`).

When it does accept a well-formed file only is a property of the bytes between the header and
the checksum: they are a text of `stateLayout`, divided into an epoch and four tables with
nothing behind them, where the epoch and the first word of every node, resource and composition
are not zero (`loaded_well_iff`).
-/

namespace DFabric

open Wire

variable {D : Type} [Double D] [DoubleBits D]

/-! ### The parse -/

/-- `loadBody`, with the reader as it is left. -/
def parseBody (r : Reader) : Except Str (DurableState D × Reader) := do
  let (epoch, r) := r.u64
  let (nodes, r) ← loadTable (str "node count overflow") (str "malformed node") readNode r
  let (resources, r) ←
    loadTable (str "resource count overflow") (str "malformed resource") readResource r
  let (policies, r) ← loadTable (str "policy count overflow") [] readPolicy r
  let (compositions, r) ←
    loadTable (str "composition count overflow") (str "malformed composition") readComposition r
  if !r.ok then .error (str "truncated payload")
  else .ok ({
    epoch := ⟨epoch⟩
    nodes := nodes
    resources := resources
    policies := policies.foldl (fun m e => m.insert e.1 e.2) default
    compositions := compositions }, r)

theorem loadBody_eq (r : Reader) :
    (loadBody r : Except Str (DurableState D)) = (parseBody r).map Prod.fst := by
  unfold loadBody parseBody
  dsimp only [bind, Except.bind]
  -- step by step the same, the reader aside
  split
  · rfl
  split
  · rfl
  split
  · rfl
  split
  · rfl
  split
  · rfl
  · rfl

theorem loadBody_eq_ok {r : Reader} {s : DurableState D} :
    loadBody r = .ok s ↔ ∃ r', parseBody r = .ok (s, r') := by
  rw [loadBody_eq]
  cases hparse : (parseBody r : Except Str (DurableState D × Reader)) with
  | error text => simp [Except.map]
  | ok out => simp [Except.map, Prod.ext_iff]

/-! ### What is asked of a file -/

/-- The parse of the body ends where the checksum starts. -/
def ParsedExactly (file : List UInt8) (s : DurableState D) : Prop :=
  ∃ r, parseBody ⟨file.drop 8, 8, true⟩ = .ok (s, r) ∧ r.pos + 8 = file.length

/-- The epoch and the identities of the records are valid. -/
def DurableState.IdsValid (s : DurableState D) : Prop :=
  s.epoch.value ≠ 0 ∧ (∀ n ∈ s.nodes, n.id.value ≠ 0) ∧
    (∀ r ∈ s.resources, r.id.value ≠ 0) ∧ ∀ c ∈ s.compositions, c.id.value ≠ 0

/-- The body of a file. -/
def stateLayout : Layout := .all [
  .ident,
  .table persistLimits.maxCount (.all (nodeLayout persistLimits .ident)),
  .table persistLimits.maxCount (.all (resourceLayout persistLimits .ident)),
  .table persistLimits.maxCount (.seq (.bytes 8) (.bytes 8)),
  .table persistLimits.maxCount (.all (compositionLayout persistLimits .ident 5))]

/-- The bytes between the header and the checksum. -/
def bodyOf (file : List UInt8) : List UInt8 := (file.drop 8).take (file.length - 16)

/-! ### The records -/

section Keeps

variable {R A B : Type} {f : R → B}

@[simp] theorem keeps_u64 {set : UInt64 → R → R} (h : ∀ v x, f (set v x) = f x) :
    Keeps (Fill.u64 set) f := .read _ h

@[simp] theorem keeps_str (lim : Limits) {set : Str → R → R} (h : ∀ v x, f (set v x) = f x) :
    Keeps (Fill.str lim set) f := .read _ h

@[simp] theorem keeps_flag {set : Bool → R → R} (h : ∀ v x, f (set v x) = f x) :
    Keeps (Fill.flag set) f := .read _ h

omit [Double D] in
@[simp] theorem keeps_dbl {set : D → R → R} (h : ∀ v x, f (set v x) = f x) :
    Keeps (Fill.dbl set) f := .read _ h

@[simp] theorem keeps_enum {E : Type} [EnumTraits E] [Inhabited E] {set : E → R → R}
    (h : ∀ v x, f (set v x) = f x) : Keeps (Fill.enum set) f := .check _ _ h

@[simp] theorem keeps_into (get : R → A) {set : A → R → R} (d : Decoder A)
    (h : ∀ v x, f (set v x) = f x) : Keeps (.into get set d) f := .into get d h

@[simp] theorem keeps_list [Inhabited A] (lim : Limits) (get : R → List A) {set : List A → R → R}
    (d : Decoder A) (h : ∀ v x, f (set v x) = f x) : Keeps (Fill.list lim get set d) f :=
  .collect _ get _ d h

@[simp] theorem keeps_ids {T : Tag} (lim : Limits) (get : R → List (StrongId T))
    {set : List (StrongId T) → R → R} (h : ∀ v x, f (set v x) = f x) :
    Keeps (Fill.ids lim get set) f := .collect _ get _ _ h

end Keeps

theorem guards_readNode : Guards (readNode : Decoder (Node D))
    (.all (nodeLayout persistLimits .ident)) fun n => n.id.value ≠ 0 := by
  have hformat := formatted_nodeFields (D := D) persistLimits
  rw [nodeFields, nodeLayout, List.forall₂_cons] at hformat
  exact guards_ident (fun v n => { n with id := ⟨v⟩ }) (·.id.value) hformat.2 (fun _ _ => rfl)
    (by simp)

theorem guards_readResource : Guards (readResource : Decoder (Resource D))
    (.all (resourceLayout persistLimits .ident)) fun r => r.id.value ≠ 0 := by
  have hformat := formatted_resourceFields (D := D) persistLimits
    (formatted_evidenceFields _) (formatted_capabilityFields _) (formatted_compatibilityFields _)
  rw [resourceFields, resourceLayout, List.forall₂_cons] at hformat
  exact guards_ident (fun v r => { r with id := ⟨v⟩ }) (·.id.value) hformat.2 (fun _ _ => rfl)
    (by simp)

theorem guards_readComposition : Guards (readComposition : Decoder (Composition D))
    (.all (compositionLayout persistLimits .ident 5)) fun c => c.id.value ≠ 0 := by
  have hformat := formatted_compositionFields (D := D)
  rw [compositionFields, compositionLayout, List.forall₂_cons] at hformat
  exact guards_ident (fun v c => { c with id := ⟨v⟩ }) (·.id.value) hformat.2 (fun _ _ => rfl)
    (by simp)

/-- A policy is two words, and none of them is guarded. -/
theorem formatted_readPolicy : Formatted readPolicy (.seq (.bytes 8) (.bytes 8)) :=
  .value ((FormattedRead.u64.map StrongId.mk).pair (FormattedRead.u64.map StrongGeneration.mk))

/-! ### The tables and the body -/

/-- What a parse with the flag up at the end says of its start: the flag was up, no byte was
lost, and the layout skips what was read if the guard holds. -/
structure Parsed (l : Layout) (guard : Prop) [Decidable guard] (r r' : Reader) : Prop where
  ok : r.ok = true
  flag : r'.ok = true
  total : r'.pos + r'.rest.length = r.pos + r.rest.length
  skip : l.skip r.rest = if guard then some r'.rest else none

/-- One part behind the other. -/
theorem Parsed.seq {l m : Layout} {p q : Prop} [Decidable p] [Decidable q] {r₁ r₂ r₃ : Reader}
    (h : Parsed l p r₁ r₂) (h' : Parsed m q r₂ r₃) : Parsed (.seq l m) (p ∧ q) r₁ r₃ where
  ok := h.ok
  flag := h'.flag
  total := h'.total.trans h.total
  skip := by
    rw [Layout.skip, h.skip]
    by_cases hp : p
    · rw [if_pos hp, Option.bind_some, h'.skip]
      simp only [hp, true_and]
    · rw [if_neg hp, Option.bind_none, if_neg (fun hpq => hp hpq.1)]

theorem Parsed.nil {r : Reader} (h : r.ok = true) : Parsed .nil True r r :=
  ⟨h, h, rfl, (if_pos trivial).symm⟩

theorem Parsed.of_iff {l : Layout} {p q : Prop} [Decidable p] [Decidable q] {r r' : Reader}
    (h : Parsed l p r r') (hpq : p ↔ q) : Parsed l q r r' where
  ok := h.ok
  flag := h.flag
  total := h.total
  skip := by rw [h.skip, if_congr hpq rfl rfl]

theorem parsed_u64 {r : Reader} (h : r.u64.2.ok = true) :
    Parsed .ident (r.u64.1 ≠ 0) r r.u64.2 where
  ok := Exact.u64.sticky h
  flag := h
  total := Exact.u64.total h
  skip := skip_ident h

theorem parsed_loadTable {A : Type} [Inhabited A] {overflow malformed : Str} {d : Decoder A}
    {l : Layout} {P : A → Prop} [DecidablePred P] (hguard : Guards d l P)
    {entries : List A} {r r' : Reader}
    (hload : loadTable overflow malformed d r = .ok (entries, r')) (hok : r'.ok = true) :
    Parsed (.table persistLimits.maxCount l) (∀ a ∈ entries, P a) r r' := by
  rw [loadTable_eq_ok] at hload
  obtain ⟨hmax, hrounds⟩ := Decoder.collect_accepts (by rw [hload])
  have hentry := hguard.programmed.addEntry (fun l : List A => l) (fun l _ => l)
    (fun l a => l ++ [a])
  have htable := hguard.programmed.collect persistLimits.maxCount (fun l : List A => l)
    (fun l _ => l) (fun l a => l ++ [a])
  have htotal := (htable.exact []).total (r := r) (by rw [hload]; exact hok)
  rw [hload] at htotal
  -- the count, and then as many entries
  rw [hrounds] at hload
  have hcount : r.u32.2.ok = true := by
    refine ((hentry.rounds r.u32.1.toNat).exact []).sticky ?_
    rw [hload]
    exact hok
  obtain ⟨new, rfl, hskip⟩ := hguard.rounds _ hload hok
  obtain ⟨w, hw, hnat⟩ := Reader.u32_of_ok hcount
  refine ⟨Exact.u32.sticky hcount, hok, htotal, ?_⟩
  rw [Layout.skip, hw, Option.bind_some, hnat, if_neg (not_lt.mpr hmax)]
  exact hskip

instance (s : DurableState D) : Decidable s.IdsValid :=
  inferInstanceAs (Decidable (_ ∧ _ ∧ _ ∧ _))

/-- **The body**, table by table. -/
theorem parsed_parseBody {s : DurableState D} {r r' : Reader}
    (h : parseBody r = .ok (s, r')) : Parsed stateLayout s.IdsValid r r' := by
  unfold parseBody at h
  dsimp only [bind, Except.bind] at h
  split at h
  · cases h
  next _ nodes hnodes =>
  split at h
  · cases h
  next _ resources hresources =>
  split at h
  · cases h
  next _ policies hpolicies =>
  split at h
  · cases h
  next _ compositions hcompositions =>
  split at h
  · cases h
  next hflag =>
  cases h
  -- the flag is up at the end, so it was up in front of every table
  have hend : compositions.2.ok = true := by simpa using hflag
  have h5 := parsed_loadTable guards_readComposition hcompositions hend
  have h4 := parsed_loadTable formatted_readPolicy.guards hpolicies h5.ok
  have h3 := parsed_loadTable guards_readResource hresources h4.ok
  have h2 := parsed_loadTable guards_readNode hnodes h3.ok
  have h1 := parsed_u64 h2.ok
  refine (h1.seq (h2.seq (h3.seq (h4.seq (h5.seq (.nil hend)))))).of_iff ?_
  rw [DurableState.IdsValid]
  simp only [implies_true, true_and, and_true]

/-! ### The bytes that are used -/

theorem exactOk_loadTable {A : Type} [Inhabited A] (overflow malformed : Str) {d : Decoder A}
    (hd : Programmed d) : ExactOk (loadTable overflow malformed d) where
  run {r l r'} hload hok := by
    -- a table is a container, whose decoder is a program
    rw [loadTable_eq_ok] at hload
    have hexact := (hd.collect persistLimits.maxCount (fun l : List A => l) (fun l _ => l)
      (fun l a => l ++ [a])).exact []
    obtain ⟨used, hrest, hpos, hmore, -⟩ := hexact.pos_eq (r := r) (by rw [hload]; exact hok)
    have hup := hexact.sticky (r := r) (by rw [hload]; exact hok)
    rw [hload] at hrest hpos hmore
    refine ⟨hup, used, hrest, hpos, fun more => loadTable_eq_ok.mpr ?_⟩
    have hrun := hmore more
    rw [← hpos, Prod.ext_iff, Prod.ext_iff] at hrun
    exact Prod.ext hrun.1.1 (Prod.ext hrun.1.2 hrun.2)

/-- **The body goes by the bytes it has used**: one rule for each table, and the test of the
flag at the end uses none. -/
theorem exactOk_parseBody :
    ExactOk (parseBody : Reader → Except Str (DurableState D × Reader)) := by
  -- the flag is tested, and nothing read
  have hend : ∀ s : DurableState D, ExactOk fun r =>
      (if !r.ok then .error (str "truncated payload") else .ok (s, r) : Except Str _) := by
    refine fun s => ⟨fun {r s' r'} hrun hok => ?_⟩
    split at hrun
    · cases hrun
    · cases hrun
      exact ⟨hok, [], rfl, rfl, fun more => rfl⟩
  have hbody := fun epoch : UInt64 =>
    (exactOk_loadTable (str "node count overflow") (str "malformed node")
      (guards_readNode (D := D)).programmed).bind fun nodes =>
    (exactOk_loadTable (str "resource count overflow") (str "malformed resource")
      (guards_readResource (D := D)).programmed).bind fun resources =>
    (exactOk_loadTable (str "policy count overflow") []
      formatted_readPolicy.programmed).bind fun policies =>
    (exactOk_loadTable (str "composition count overflow") (str "malformed composition")
      (guards_readComposition (D := D)).programmed).bind fun compositions =>
    hend ⟨⟨epoch⟩, nodes, resources, policies.foldl (fun m e => m.insert e.1 e.2) default,
      compositions⟩
  exact (ExactOk.of_exact Exact.u64).bind hbody

/-! ### The file -/

/-- A file is long enough for the header and the checksum if its body is a text. -/
theorem le_length_of_text {file : List UInt8} (h : stateLayout.Text (bodyOf file)) :
    16 ≤ file.length := by
  by_contra hc
  have hempty : bodyOf file = [] := by
    rw [bodyOf, Nat.sub_eq_zero_of_le (by omega), List.take_zero]
  rw [hempty] at h
  cases h

/-- **When a loaded file is well-formed.** Of every file that is loaded: the parse ends exactly at
the checksum and the epoch and all identities are valid, if and only if the bytes between the
header and the checksum are divided as `stateLayout` says. -/
theorem loaded_well_iff (file : List UInt8) (s : DurableState D) (hload : loadImpl file = .ok s) :
    (ParsedExactly file s ∧ s.IdsValid) ↔ stateLayout.Text (bodyOf file) := by
  obtain ⟨-, -, hlen, hbody⟩ := loadImpl_iff.mp hload
  obtain ⟨r, hr⟩ := loadBody_eq_ok.mp hbody
  obtain ⟨-, -, htotal, hskip⟩ := parsed_parseBody hr
  dsimp only at htotal hskip
  rw [List.length_drop] at htotal
  -- the parse is exact if eight bytes are left
  have hexact : ParsedExactly file s ↔ r.rest.length = 8 := by
    constructor
    · rintro ⟨r', hr', hpos⟩
      rw [hr] at hr'
      cases hr'
      omega
    · exact fun hrest => ⟨r, hr, by omega⟩
  have hsplit : bodyOf file ++ (file.drop 8).drop (file.length - 16) = file.drop 8 :=
    List.take_append_drop _ _
  rw [hexact]
  constructor
  · rintro ⟨hrest, hids⟩
    rw [if_pos hids] at hskip
    obtain ⟨used, hused, -⟩ := stateLayout.walk_skip.run hskip
    have hbodyof : bodyOf file = used := by
      have hlength := congrArg List.length hused
      rw [List.length_append, List.length_drop] at hlength
      rw [bodyOf, hused]
      exact List.take_left' (by omega)
    rw [hbodyof, Layout.text_iff, ← hused]
    exact hskip
  · intro htext
    have hlong := le_length_of_text htext
    rw [Layout.text_iff, hsplit, hskip] at htext
    by_cases hids : s.IdsValid
    · rw [if_pos hids] at htext
      refine ⟨?_, hids⟩
      rw [Option.some.inj htext, List.length_drop, List.length_drop]
      omega
    · rw [if_neg hids] at htext
      cases htext

/-- The file of a state with a resource, a policy and a composition is well-formed. -/
theorem sampleDurable_well :
    ∃ file, saveImpl sampleDurable = .ok file ∧
      ParsedExactly file sampleDurable.persisted ∧ sampleDurable.persisted.IdsValid := by
  have hstorable : sampleDurable.Storable := by decide +kernel
  have hsave := saveImpl_eq hstorable (by decide +kernel)
  have hload := loadImpl_saveImpl hstorable hsave
  exact ⟨_, hsave, (loaded_well_iff _ _ hload).mpr (by decide +kernel)⟩

/-- The file of an epoch and four empty tables with a byte behind the last of them, and the
checksum of that. -/
def trailingFile : List UInt8 :=
  epochFile.take 32 ++ [0xaa, 0xe8, 0x23, 0x01, 0x99, 0x76, 0x96, 0x7a, 0xaa]

/-- A state with a resource whose identity is zero. -/
def zeroIdState : DurableState Binary64 :=
  { sampleDurable with resources := [{ sampleAccelerator with id := ⟨0⟩ }] }

/-- **Neither is checked.** A file is loaded with a byte left over in front of the checksum, and a
file is loaded whose resource has no identity. -/
theorem trailing_and_zero_accepted :
    (¬ ∀ (file : List UInt8) (s : DurableState Binary64),
        loadImpl file = .ok s → ParsedExactly file s) ∧
      ¬ ∀ (file : List UInt8) (s : DurableState Binary64),
        loadImpl file = .ok s → s.IdsValid := by
  constructor
  · intro h
    obtain ⟨r, hr, hpos⟩ := h trailingFile ⟨⟨3⟩, [], [], default, []⟩ rfl
    -- the parse ends at byte 32 of 41
    have hparse : (parseBody ⟨trailingFile.drop 8, 8, true⟩ : Except Str
        (DurableState Binary64 × Reader)) =
          .ok (⟨⟨3⟩, [], [], default, []⟩, ⟨trailingFile.drop 32, 32, true⟩) := rfl
    rw [hparse] at hr
    cases hr
    exact absurd hpos (by decide)
  · intro h
    have hstorable : zeroIdState.Storable := by decide +kernel
    have hsave := saveImpl_eq hstorable (by decide +kernel)
    have hids := h _ _ (loadImpl_saveImpl hstorable hsave)
    exact absurd hids (by decide +kernel)

end DFabric
