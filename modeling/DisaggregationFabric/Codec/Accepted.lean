import DisaggregationFabric.Lib.Following
import DisaggregationFabric.Codec.Roundtrip

/-!
# What a file that is accepted was saved from

`LoadImpl` need not accept what `SaveImpl` has written: a count beyond its bound or an
enumerator it does not know is refused. If it accepts a file of fewer than `2 ^ 32` bytes,
its reader has stayed in step with the writer, and each composition it returns has the id,
the generation and the lifecycle of one that was saved (`compositions_of_loadImpl`). The state
need not be storable.

As in `Codec.Roundtrip`, the proofs of `follows_*` are the field lists again.
-/

namespace DFabric

open Wire

/-! ### Rules for the statements of the codecs -/

section Rules

variable {R D : Type} {lim : Limits} {x : R} {Q : R → Prop}

theorem follows_u64 {set : UInt64 → R → R} {v : UInt64} (h : Q (put set v x)) :
    Follows lim (Fill.u64 set) (Write.u64 v) x Q := .read (.u64 v) h

theorem follows_u32 {set : UInt32 → R → R} {v : UInt32} (h : Q (put set v x)) :
    Follows lim (Fill.u32 set) (Write.u32 v) x Q := .read (.u32 v) h

theorem follows_flag {set : Bool → R → R} {v : Bool} (h : Q (put set v x)) :
    Follows lim (Fill.flag set) (Write.flag v) x Q := .read (.flag v) h

theorem follows_str {set : Str → R → R} {v : Str} (h : Q (put set v x)) :
    Follows lim (Fill.str lim set) (Write.str v) x Q := .read (.str v) h

theorem follows_dbl [DoubleBits D] {set : D → R → R} {d : D} (h : Q (put set (rebits d) x)) :
    Follows lim (Fill.dbl set) (Write.dbl d) x Q := .read (readsTo_dbl d) h

/-- An enumerator may be refused; if it is not, something was assigned. -/
theorem follows_enum {E : Type} [EnumTraits E] [Inhabited E] {set : E → R → R} {e : E}
    (h : ∀ e', Q (put set e' x)) : Follows lim (Fill.enum set) (Write.enum e) x Q :=
  .check (.u32 (EnumTraits.value e)) fun e' _ => h e'

/-- A canonical enumerator is read as it was written. -/
theorem follows_enum_canonical {E : Type} [EnumTraits E] [Inhabited E] {set : E → R → R} {e : E}
    (hc : EnumTraits.Canonical e) (h : Q (put set e x)) :
    Follows lim (Fill.enum set) (Write.enum e) x Q := by
  refine .check (.u32 (EnumTraits.value e)) fun e' he' => ?_
  rw [Fill.validEnum?, if_pos (show EnumTraits.valid E (EnumTraits.value e) = true from hc),
    EnumTraits.ofValue_value, Option.some.injEq] at he'
  rw [← he']
  exact h

theorem follows_list {A B : Type} [Inhabited A] {get : R → List A} {set : List A → R → R}
    {d : Decoder A} {l : List B} {entry : B → List Token} (hacc : Accessor get set)
    (hpos : ∀ b ∈ l, 0 < size (entry b))
    (hd : ∀ b ∈ l, Follows lim d (entry b) default fun _ => True)
    (h : ∀ as, Q (put set as x)) : Follows lim (Fill.list lim get set d) (counted l entry) x Q :=
  .collect hacc hpos hd fun _ _ => h _

theorem follows_ids {T : Tag} {get : R → List (StrongId T)} {set : List (StrongId T) → R → R}
    {l : List (StrongId T)} (hacc : Accessor get set) (h : ∀ as, Q (put set as x)) :
    Follows lim (Fill.ids lim get set) (Write.ids l) x Q := by
  refine follows_list hacc ?_ ?_ h
  · exact fun i _ => (size_u64 i.value).symm ▸ Nat.succ_pos 7
  · exact fun i _ => .value (.map StrongId.mk (.u64 i.value)) trivial

theorem follows_generations {T : Tag} {get : R → List (StrongGeneration T)}
    {set : List (StrongGeneration T) → R → R} {l : List (StrongGeneration T)}
    (hacc : Accessor get set) (h : ∀ as, Q (put set as x)) :
    Follows lim (Fill.generations lim get set) (Write.generations l) x Q := by
  refine follows_list hacc ?_ ?_ h
  · exact fun i _ => (size_u64 i.value).symm ▸ Nat.succ_pos 7
  · exact fun i _ => .value (.map StrongGeneration.mk (.u64 i.value)) trivial

theorem follows_numbers [DoubleBits D] [Inhabited D] {get : R → OrdMap Str D}
    {set : OrdMap Str D → R → R} {m : OrdMap Str D} (hacc : Accessor get set)
    (h : ∀ m, Q (put set m x)) : Follows lim (Fill.numbers lim get set) (Write.numbers m) x Q := by
  refine .collect (P := fun _ _ => True) hacc ?_ ?_ fun _ _ => h _
  · intro e _
    rw [size_append, Write.str, size_str]
    omega
  · exact fun e _ => .value (.pair (.str e.1) (readsTo_dbl e.2)) trivial

theorem follows_classes {get : R → OrdSet ResourceClass} {set : OrdSet ResourceClass → R → R}
    {m : OrdSet ResourceClass} (hacc : Accessor get set) (h : ∀ m, Q (put set m x)) :
    Follows lim (Fill.classes lim get set) (Write.classes m) x Q := by
  refine .collect (P := fun _ _ => True) hacc ?_ ?_ fun _ _ => h _
  · exact fun e _ => (size_u32 (EnumTraits.value e.1)).symm ▸ Nat.succ_pos 3
  · exact fun e _ => follows_enum fun _ => trivial

/-- A record that begins with a word takes some bytes. -/
theorem size_flatten_u64 (v : UInt64) (tss : List (List Token)) :
    0 < size (Write.u64 v :: tss).flatten := by
  rw [List.flatten_cons, size_append, Write.u64, size_u64]
  omega

end Rules

/-! ### Records -/

section Records

variable {D : Type} [Double D] [DoubleBits D]

omit [Double D] in
theorem follows_evidenceFields (e x : Evidence D) :
    Follows persistLimits (.block (evidenceFields persistLimits)) (writeEvidence e) x
      fun _ => True := by
  iterate 2 refine .cons (follows_u64 ?_)
  iterate 2 refine .cons (follows_enum fun _ => ?_)
  iterate 2 refine .cons (follows_u64 ?_)
  refine .cons (follows_dbl ?_)
  iterate 2 refine .cons (follows_str ?_)
  refine .cons (follows_flag ?_)
  exact .nil trivial

theorem follows_capabilityFields (c x : Capability) :
    Follows persistLimits (.block (capabilityFields persistLimits)) (writeCapability c) x
      fun _ => True := by
  iterate 2 refine .cons (follows_enum fun _ => ?_)
  iterate 2 refine .cons (follows_u64 ?_)
  refine .cons (follows_str ?_)
  exact .nil trivial

theorem follows_pinFields (p x : CompatibilityPin) :
    Follows persistLimits (.block (pinFields persistLimits)) (writePin p) x fun _ => True := by
  iterate 2 refine .cons (follows_str ?_)
  refine .cons (follows_u64 ?_)
  exact .nil trivial

theorem follows_compatibilityFields (c x : Compatibility) :
    Follows persistLimits (.block (compatibilityFields persistLimits)) (writeCompatibility c) x
      fun _ => True := by
  iterate 2 refine .cons (follows_u64 ?_)
  refine .cons (follows_list ⟨rfl, rfl, rfl⟩ ?_ (fun p _ => follows_pinFields p default)
    fun _ => ?_)
  · intro p _
    rw [writePin, List.flatten_cons, size_append, Write.str, size_str]
    omega
  · exact .nil trivial

theorem follows_capacityFields (c x : Capacity D) :
    Follows persistLimits (.block (capacityFields persistLimits)) (writeCapacity c) x
      fun _ => True := by
  iterate 7 refine .cons (follows_dbl ?_)
  refine .cons (.limit (follows_numbers ⟨rfl, rfl, rfl⟩ fun _ => ?_))
  exact .nil trivial

theorem follows_localityFields (l x : Locality D) :
    Follows persistLimits (.block (localityFields persistLimits)) (writeLocality l) x
      fun _ => True := by
  refine .cons (follows_list ⟨rfl, rfl, rfl⟩ ?_ (fun d _ => .value (readsTo_dbl d) trivial)
    fun _ => ?_)
  · exact fun d _ => (size_u64 (DoubleBits.toBits d)).symm ▸ Nat.succ_pos 7
  refine .cons (follows_numbers ⟨rfl, rfl, rfl⟩ fun _ => ?_)
  exact .nil trivial

omit [Double D] [DoubleBits D] in
theorem follows_failureDomainFields (f x : FailureDomain D) :
    Follows persistLimits (.block (failureDomainFields persistLimits)) (writeFailureDomain f) x
      fun _ => True := by
  refine .cons (follows_u64 ?_)
  refine .cons (follows_enum fun _ => ?_)
  refine .cons (follows_str ?_)
  refine .cons (follows_flag ?_)
  exact .nil trivial

theorem follows_readResource (r x : Resource D) :
    Follows persistLimits readResource (writeResource r) x fun _ => True := by
  refine .closed ?_
  iterate 2 refine .cons (follows_u64 ?_)
  refine .cons (follows_enum fun _ => ?_)
  refine .cons (follows_u64 ?_)
  iterate 2 refine .cons (follows_str ?_)
  refine .cons (follows_flag ?_)
  iterate 3 refine .cons (follows_enum fun _ => ?_)
  -- the records inside the record
  refine .cons (.into (follows_capacityFields ..) fun _ _ => ?_)
  refine .cons (.into (follows_localityFields ..) fun _ _ => ?_)
  refine .cons (.into (follows_failureDomainFields ..) fun _ _ => ?_)
  refine .cons (.into (follows_evidenceFields ..) fun _ _ => ?_)
  refine .cons (follows_list ⟨rfl, rfl, rfl⟩ ?_ (fun c _ => follows_capabilityFields c default)
    fun _ => ?_)
  · -- an entry takes bytes, so the count cannot run ahead of them
    intro c _
    rw [writeCapability, List.flatten_cons, size_append, Write.enum, size_u32]
    omega
  refine .cons (follows_list ⟨rfl, rfl, rfl⟩ (fun c _ => size_flatten_u64 c.id.value _)
    (fun c _ => follows_compatibilityFields c default) fun _ => ?_)
  exact .nil trivial

theorem follows_readNode (n x : Node D) :
    Follows persistLimits readNode (writeNode n) x fun _ => True := by
  -- the fields in the order of `WriteNode`
  refine .closed ?_
  iterate 2 refine .cons (follows_u64 ?_)
  iterate 2 refine .cons (follows_str ?_)
  refine .cons (follows_enum fun _ => ?_)
  refine .cons (follows_ids ⟨rfl, rfl, rfl⟩ fun _ => ?_)
  refine .cons (.into (follows_failureDomainFields ..) fun _ _ => ?_)
  refine .cons (.into (follows_localityFields ..) fun _ _ => ?_)
  iterate 2 refine .cons (follows_enum fun _ => ?_)
  refine .cons (follows_str ?_)
  iterate 2 refine .cons (follows_u64 ?_)
  refine .cons (follows_enum fun _ => ?_)
  refine .cons (follows_flag ?_)
  exact .nil trivial

omit [Double D] in
theorem follows_readPath (p x : PathEvidence D) :
    Follows persistLimits readPath (writePath p) x fun _ => True := by
  iterate 4 refine .cons (follows_u64 ?_)
  iterate 2 refine .cons (follows_dbl ?_)
  iterate 2 refine .cons (follows_flag ?_)
  refine .cons (follows_str ?_)
  refine .cons (follows_flag ?_)
  iterate 2 refine .cons (follows_dbl ?_)
  refine .cons (follows_flag ?_)
  iterate 2 refine .cons (follows_str ?_)
  refine .cons (.into (.closed (follows_evidenceFields ..)) fun _ _ => ?_)
  exact .nil trivial

omit [Double D] in
theorem follows_edgeFields (e x : GraphEdge D) :
    Follows persistLimits (.block (edgeFields persistLimits)) (writeEdge e) x fun _ => True := by
  iterate 2 refine .cons (follows_u64 ?_)
  refine .cons (follows_enum fun _ => ?_)
  refine .cons (follows_flag ?_)
  iterate 2 refine .cons (follows_dbl ?_)
  iterate 2 refine .cons (follows_str ?_)
  exact .nil trivial

theorem follows_readGraph (g x : ResourceGraph D) :
    Follows persistLimits readGraph (writeGraph g) x fun _ => True := by
  refine .closed ?_
  refine .cons (follows_ids ⟨rfl, rfl, rfl⟩ fun _ => ?_)
  refine .cons (follows_list ⟨rfl, rfl, rfl⟩ (fun e _ => size_flatten_u64 e.source.value _)
    (fun e _ => follows_edgeFields e default) fun _ => ?_)
  exact .nil trivial

omit [Double D] [DoubleBits D] in
theorem follows_readAuthority (a x : AuthorityTuple) :
    Follows persistLimits readAuthority (writeAuthority a) x fun _ => True := by
  refine .closed ?_
  refine .cons (follows_u64 ?_)
  refine .cons (follows_ids ⟨rfl, rfl, rfl⟩ fun _ => ?_)
  iterate 5 refine .cons (follows_generations ⟨rfl, rfl, rfl⟩ fun _ => ?_)
  refine .cons (follows_u64 ?_)
  iterate 2 refine .cons (follows_generations ⟨rfl, rfl, rfl⟩ fun _ => ?_)
  refine .cons (follows_u64 ?_)
  exact .nil trivial

omit [Double D] in
theorem follows_readRequest (q x : CompositionRequest D) :
    Follows persistLimits readRequest (writeRequest q) x fun _ => True := by
  refine .closed ?_
  refine .cons (follows_u64 ?_)
  refine .cons (follows_u32 ?_)
  refine .cons (follows_list ⟨rfl, rfl, rfl⟩ ?_ (fun a _ => .value (.str a) trivial) fun _ => ?_)
  · -- an architecture takes bytes
    intro a _
    rw [Write.str, size_str]
    omega
  iterate 4 refine .cons (follows_dbl ?_)
  refine .cons (follows_u32 ?_)
  iterate 2 refine .cons (follows_dbl ?_)
  iterate 2 refine .cons (follows_classes ⟨rfl, rfl, rfl⟩ fun _ => ?_)
  iterate 5 refine .cons (follows_flag ?_)
  iterate 5 refine .cons (follows_u64 ?_)
  exact .nil trivial

/-- The id and the generation are the first two words of a composition, and nothing that is
read behind them is assigned to them; nor is anything to the lifecycle. -/
theorem follows_readComposition (c : Composition D) :
    Follows persistLimits readComposition (writeComposition c) (default : Composition D) fun c' =>
      c'.id = c.id ∧ c'.generation = c.generation ∧ c'.lifecycle = c.lifecycle := by
  refine .closed ?_
  iterate 4 refine .cons (follows_u64 ?_)
  refine .cons (follows_ids ⟨rfl, rfl, rfl⟩ fun _ => ?_)
  refine .cons (.into (follows_readRequest ..) fun _ _ => ?_)
  refine .cons (.into (follows_readGraph ..) fun _ _ => ?_)
  refine .cons (.into (follows_readAuthority ..) fun _ _ => ?_)
  -- from here on nothing writes the three fields
  refine .cons (follows_enum_canonical c.lifecycle.canonical ?_)
  refine .cons (follows_u64 ?_)
  refine .cons (follows_enum fun _ => ?_)
  refine .cons (follows_dbl ?_)
  refine .cons (follows_list ⟨rfl, rfl, rfl⟩ (fun p _ => size_flatten_u64 p.id.value _)
    (fun p _ => follows_readPath p default) fun _ => ?_)
  dsimp only [put]
  exact .nil ⟨rfl, rfl, rfl⟩

/-! ### The file -/

omit [Double D] [DoubleBits D] in
/-- A table that is loaded from what was written is read entry by entry. -/
theorem loadTable_follows {A B : Type} [Inhabited A] {overflow malformed : Str} {d : Decoder A}
    {l : List B} {entry : B → List Token} {P : B → A → Prop}
    (hpos : ∀ b ∈ l, 0 < size (entry b))
    (hd : ∀ b ∈ l, Follows persistLimits d (entry b) default (P b))
    (hw : Writable persistLimits (counted l entry)) (hsize : size (counted l entry) < 2 ^ 32)
    {rest : List UInt8} {pos : ℕ} {as : List A} {r : Reader}
    (h : loadTable overflow malformed d ⟨bytesOf (counted l entry) ++ rest, pos, true⟩ =
      .ok (as, r)) :
    r = ⟨rest, pos + size (counted l entry), true⟩ ∧ List.Forall₂ P l as := by
  have hfollows : Follows persistLimits
      (Decoder.collect persistLimits.maxCount (fun l : List A => l) (fun l _ => l)
        (fun l a => l ++ [a]) d) (counted l entry) [] (List.Forall₂ P l) := by
    refine .collect ⟨rfl, rfl, rfl⟩ hpos hd fun as has => ?_
    rw [put, foldl_push, List.nil_append]
    exact has
  exact hfollows.run hw hsize rest pos as r (loadTable_eq_ok.mp h)

theorem follows_readPolicy (e : (_ : PolicyId) × PolicyGeneration) :
    Follows persistLimits readPolicy (Write.u64 e.1.value ++ Write.u64 e.2.value) default
      fun _ => True := by
  have hread : ReadsTo persistLimits (Reader.pair (Reader.map StrongId.mk Reader.u64)
      (Reader.map StrongGeneration.mk Reader.u64))
      (Write.u64 e.1.value ++ Write.u64 e.2.value) (e.1, e.2) :=
    .pair (.map StrongId.mk (.u64 e.1.value)) (.map StrongGeneration.mk (.u64 e.2.value))
  exact .value hread trivial

theorem size_policy_pos (e : (_ : PolicyId) × PolicyGeneration) :
    0 < size (Write.u64 e.1.value ++ Write.u64 e.2.value) := by
  rw [size_append, Write.u64, size_u64]
  omega

/-- Every entry that was read stands for one that was written. -/
theorem exists_of_forall₂ {A B : Type} {P : B → A → Prop} {l : List B} {as : List A}
    (h : List.Forall₂ P l as) : ∀ a ∈ as, ∃ b ∈ l, P b a := by
  induction h with
  | nil => exact List.forall_mem_nil _
  | cons hP _ ih =>
    intro a ha
    rcases List.mem_cons.mp ha with rfl | ha
    · exact ⟨_, List.mem_cons_self, hP⟩
    · obtain ⟨b, hb, hPb⟩ := ih a ha
      exact ⟨b, List.mem_cons_of_mem _ hb, hPb⟩

theorem loadBody_follows {s d : DurableState D} (hw : Writable persistLimits (writeBody s))
    (hsize : size (writeBody s) < 2 ^ 32) {rest : List UInt8} {pos : ℕ}
    (h : loadBody ⟨bytesOf (writeBody s) ++ rest, pos, true⟩ = .ok d) :
    ∀ c ∈ d.compositions, ∃ c₀ ∈ s.compositions,
      c.id = c₀.id ∧ c.generation = c₀.generation ∧ c.lifecycle = c₀.lifecycle := by
  simp only [writeBody, List.flatten_cons, List.flatten_nil, List.append_nil,
    writable_append] at hw
  obtain ⟨hepoch, hnodes, hresources, hpolicies, hcompositions⟩ := hw
  have hparts : size (writeBody s) = size (Write.u64 s.epoch.value) +
      (size (counted s.nodes writeNode) + (size (counted s.resources writeResource) +
      (size (counted s.policies.entries fun e => Write.u64 e.1.value ++ Write.u64 e.2.value) +
      size (counted s.compositions writeComposition)))) := by
    simp only [writeBody, List.flatten_cons, List.flatten_nil, List.append_nil, size_append]
  simp only [writeBody, List.flatten_cons, List.flatten_nil, List.append_nil, bytesOf_append,
    List.append_assoc] at h
  obtain ⟨⟨nodes, r₁⟩, ⟨resources, r₂⟩, ⟨policies, r₃⟩, ⟨compositions, r₄⟩, hn, hr, hp, hc, -,
    rfl⟩ := loadBody_ok h
  rw [Write.u64, (ReadsTo.u64 s.epoch.value).run hepoch] at hn
  -- behind each table the reader stands at the next one
  obtain ⟨rfl, -⟩ := loadTable_follows (fun n _ => size_flatten_u64 n.id.value _)
    (fun n _ => follows_readNode n default) hnodes (by omega) hn
  obtain ⟨rfl, -⟩ := loadTable_follows (fun r _ => size_flatten_u64 r.id.value _)
    (fun r _ => follows_readResource r default) hresources (by omega) hr
  obtain ⟨rfl, -⟩ := loadTable_follows (fun e _ => size_policy_pos e)
    (fun e _ => follows_readPolicy e) hpolicies (by omega) hp
  obtain ⟨-, hforall⟩ := loadTable_follows (fun c _ => size_flatten_u64 c.id.value _)
    (fun c _ => follows_readComposition c) hcompositions (by omega) hc
  exact exists_of_forall₂ hforall

/-- **What an accepted file was saved from.** Of a file of fewer than `2 ^ 32` bytes that was
saved and is accepted, each composition has the id, the generation and the lifecycle of one
that was saved. -/
theorem compositions_of_loadImpl {s d : DurableState D} {file : List UInt8}
    (hsave : saveImpl s = .ok file) (hsize : file.length < 2 ^ 32)
    (hload : loadImpl file = .ok d) :
    ∀ c ∈ d.compositions, ∃ c₀ ∈ s.compositions,
      c.id = c₀.id ∧ c.generation = c₀.generation ∧ c.lifecycle = c₀.lifecycle := by
  obtain ⟨hw, hle, sum, pos, heq⟩ := loadImpl_of_saveImpl hsave
  rw [heq] at hload
  exact loadBody_follows hw (lt_of_le_of_lt hle hsize) hload

end Records

end DFabric
