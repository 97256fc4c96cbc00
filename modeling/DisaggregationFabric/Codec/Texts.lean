import DisaggregationFabric.Codec.Messages
import DisaggregationFabric.Codec.Storable

/-!
# The strings of a record

A writer refuses a string that is too long, and throws. `texts` lists the strings of a
record; a record is written exactly when all of them are within the limit
(`writable_*`), apart from the one count that `WriteResource` checks.
-/

namespace DFabric

open Wire

/-! ### Texts -/

section Texts

variable {D : Type}

/-- The strings of an evidence record. -/
def Evidence.texts (e : Evidence D) : List Str := [e.provenance, e.owner]

/-- The strings of a compatibility claim. -/
def Compatibility.texts (c : Compatibility) : List Str :=
  c.pins.flatMap fun p => [p.name, p.value]

/-- The names of a map from names to numbers. -/
def names (m : OrdMap Str D) : List Str := m.entries.map fun e => e.1

/-- The strings of a resource. -/
def Resource.texts (r : Resource D) : List Str :=
  [r.provider, r.authorityOwner] ++ names r.capacity.extra ++ names r.locality.tags ++
    [r.failureDomain.name] ++ r.evidence.texts ++ r.capabilities.map Capability.detail ++
    r.compatibility.flatMap Compatibility.texts

/-- The strings of a node. -/
def Node.texts (n : Node D) : List Str :=
  [n.hostname, n.provider, n.failureDomain.name] ++ names n.locality.tags ++ [n.workerOwner]

/-- The strings of a path. -/
def PathEvidence.texts (p : PathEvidence D) : List Str :=
  [p.requirement.protocol, p.provider, p.source] ++ p.evidence.texts

/-- The strings of a graph. -/
def ResourceGraph.texts (g : ResourceGraph D) : List Str :=
  g.edges.flatMap fun e => [e.protocol, e.compatFacet]

/-- The strings of a plan. -/
def CompositionPlan.texts (p : CompositionPlan D) : List Str :=
  p.graph.texts ++ p.request.acceleratorArchitectures ++
    (p.rank.factors.flatMap fun f => [f.name, f.detail]) ++ p.paths.flatMap PathEvidence.texts

/-- The strings of a composition, the explanation aside. -/
def Composition.texts (c : Composition D) : List Str :=
  c.request.acceleratorArchitectures ++ c.graph.texts ++ c.paths.flatMap PathEvidence.texts

/-- The strings of a durable state. -/
def DurableState.texts (s : DurableState D) : List Str :=
  s.nodes.flatMap Node.texts ++ s.resources.flatMap Resource.texts ++
    s.compositions.flatMap Composition.texts

end Texts

/-- All strings are within the limit. -/
def Short (l : List Str) : Prop := ∀ s ∈ l, s.length ≤ 32768

instance (l : List Str) : Decidable (Short l) := inferInstanceAs (Decidable (∀ s ∈ l, _))

section Short

variable {l l' : List Str}

@[simp] theorem short_nil : Short [] := List.forall_mem_nil _

@[simp] theorem short_cons {s : Str} : Short (s :: l) ↔ s.length ≤ 32768 ∧ Short l :=
  List.forall_mem_cons

@[simp] theorem short_append : Short (l ++ l') ↔ Short l ∧ Short l' := List.forall_mem_append

@[simp] theorem short_map {A : Type} {xs : List A} {f : A → Str} :
    Short (xs.map f) ↔ ∀ x ∈ xs, (f x).length ≤ 32768 := List.forall_mem_map

@[simp] theorem short_flatMap {A : Type} {xs : List A} {f : A → List Str} :
    Short (xs.flatMap f) ↔ ∀ x ∈ xs, Short (f x) := List.forall_mem_flatMap

end Short

/-! ### What is written -/

section Writable

variable {D : Type} [DoubleBits D] {lim : Limits}

@[simp] theorem writable_dbl (d : D) : Writable lim (Write.dbl d) := writable_u64 _

@[simp] theorem writable_enum {E : Type} [EnumTraits E] (e : E) : Writable lim (Write.enum e) :=
  writable_u32 _

@[simp] theorem writable_ids {T : Tag} (l : List (StrongId T)) : Writable lim (Write.ids l) :=
  writable_counted.mpr fun _ _ => writable_u64 _

@[simp] theorem writable_generations {T : Tag} (l : List (StrongGeneration T)) :
    Writable lim (Write.generations l) := writable_counted.mpr fun _ _ => writable_u64 _

@[simp] theorem writable_classes (m : OrdSet ResourceClass) : Writable lim (Write.classes m) :=
  writable_counted.mpr fun e _ => writable_enum e.1

@[simp] theorem writable_word (v : UInt64) : Writable lim (Write.u64 v) := writable_u64 v

@[simp] theorem writable_half (v : UInt32) : Writable lim (Write.u32 v) := writable_u32 v

@[simp] theorem writable_bit (b : Bool) : Writable lim (Write.flag b) := writable_flag b

@[simp] theorem writable_writeAuthority (a : AuthorityTuple) :
    Writable lim (writeAuthority a) := by
  simp [writeAuthority]

variable (hlim : lim.maxLen = 32768)

include hlim

theorem writable_text {s : Str} : Writable lim (Write.str s) ↔ s.length ≤ 32768 := by
  have hmax : lim.maxLen.toNat = 32768 := by rw [hlim]; rfl
  rw [Write.str, writable_str, hmax]

theorem writable_numbers {m : OrdMap Str D} : Writable lim (Write.numbers m) ↔ Short (names m) := by
  simp [Write.numbers, names, writable_text hlim]

theorem writable_writeEvidence {e : Evidence D} :
    Writable lim (writeEvidence e) ↔ Short e.texts := by
  simp [writeEvidence, Evidence.texts, writable_text hlim]

theorem writable_writeCapability {c : Capability} :
    Writable lim (writeCapability c) ↔ c.detail.length ≤ 32768 := by
  simp [writeCapability, writable_text hlim]

theorem writable_writeCompatibility {c : Compatibility} :
    Writable lim (writeCompatibility c) ↔ Short c.texts := by
  simp [writeCompatibility, writePin, Compatibility.texts, writable_text hlim]

/-- The capacity of a resource is all that differs between the two writers. -/
theorem writable_encodeResource {r : Resource D} :
    Writable lim (encodeResource r) ↔ Short r.texts := by
  simp [encodeResource, encodeCapacity, writeLocality, writeFailureDomain, Resource.texts,
    writable_text hlim, writable_numbers hlim, writable_writeEvidence hlim,
    writable_writeCapability hlim, writable_writeCompatibility hlim]

/-- `WriteResource` checks the size of one map as well. -/
theorem writable_writeResource {r : Resource D} :
    Writable lim (writeResource r) ↔ r.capacity.extra.size ≤ maxCount ∧ Short r.texts := by
  have hmax : persistLimits.maxCount.toNat = maxCount := rfl
  simp [writeResource, writeCapacity, writeLocality, writeFailureDomain, Resource.texts,
    writable_text hlim, writable_numbers hlim, writable_writeEvidence hlim,
    writable_writeCapability hlim, writable_writeCompatibility hlim, hmax,
    and_left_comm]

theorem writable_writeNode {n : Node D} : Writable lim (writeNode n) ↔ Short n.texts := by
  simp [writeNode, writeLocality, writeFailureDomain, Node.texts, writable_text hlim,
    writable_numbers hlim]

theorem writable_writePath {p : PathEvidence D} : Writable lim (writePath p) ↔ Short p.texts := by
  simp [writePath, PathEvidence.texts, writable_text hlim, writable_writeEvidence hlim]

theorem writable_writeGraph {g : ResourceGraph D} :
    Writable lim (writeGraph g) ↔ Short g.texts := by
  simp [writeGraph, writeEdge, ResourceGraph.texts, writable_text hlim]

theorem writable_writeRequest {q : CompositionRequest D} :
    Writable lim (writeRequest q) ↔ Short q.acceleratorArchitectures := by
  simp [writeRequest, Short, writable_text hlim]

theorem writable_encodeRequest {q : CompositionRequest D} :
    Writable lim (encodeRequest q) ↔ Short q.acceleratorArchitectures := by
  simp [encodeRequest, Short, writable_text hlim]

theorem writable_encodePlan {p : CompositionPlan D} :
    Writable lim (encodePlan p) ↔ Short p.texts := by
  simp [encodePlan, encodeFactor, CompositionPlan.texts, writable_text hlim,
    writable_writeGraph hlim, writable_encodeRequest hlim, writable_writePath hlim]

theorem writable_writeComposition {c : Composition D} :
    Writable lim (writeComposition c) ↔ Short c.texts := by
  simp [writeComposition, Composition.texts, writable_writeGraph hlim, writable_writeRequest hlim,
    writable_writePath hlim]

theorem writable_encodeComposition {c : Composition D} :
    Writable lim (encodeComposition c) ↔ Short c.texts ∧ c.explanation.length ≤ 32768 := by
  simp [encodeComposition, Composition.texts, writable_text hlim, writable_writeGraph hlim,
    writable_encodeRequest hlim, writable_writePath hlim, and_assoc]

omit hlim in
theorem writable_encodeReservation (r : Reservation D) : Writable lim (encodeReservation r) := by
  simp [encodeReservation, encodeItem]

omit hlim in
/-- `SaveImpl` succeeds on a storable state with short strings. -/
theorem saveImpl_eq {s : DurableState D} (h : s.Storable) (ht : Short s.texts) :
    saveImpl s = .ok (bytesOf (writeState s) ++
      Token.bytes (.u64 (checksum (bytesOf (writeState s))))) := by
  simp only [DurableState.texts, short_append, short_flatMap] at ht
  obtain ⟨⟨hnodes, hresources⟩, hcompositions⟩ := ht
  -- no string is too long, and nothing else is refused
  have hwritable : Writable persistLimits (writeState s) := by
    simp only [writeState, writeBody, List.flatten_cons, List.flatten_nil, writable_append,
      writable_half, writable_word, writable_counted, writable_nil, and_true, true_and,
      implies_true]
    refine ⟨?_, ?_, ?_⟩
    · intro n hn
      exact (writable_writeNode rfl).mpr (hnodes n hn)
    · intro r hr
      exact (writable_writeResource rfl).mpr ⟨(h.resources r hr).extra, hresources r hr⟩
    · intro c hc
      exact (writable_writeComposition rfl).mpr (hcompositions c hc)
  rw [saveImpl, hwritable.write_eq]

end Writable

end DFabric
