import DisaggregationFabric.Codec.Messages

/-!
# How much a record takes on the wire

The number of bytes that the encoders of `codec.hpp` append for a record, as a function of
the lengths of its strings and lists alone. A string takes its length and four bytes for it,
a list its entries and four bytes for their number; all other fields are of fixed width.

`size_*` says that the encoders append as many bytes as that.
-/

namespace DFabric

open Wire

/-! ### Sizes -/

/-- A string behind its length. -/
def textSize (s : Str) : ℕ := 4 + s.length

/-- A list of words behind its length. -/
def wordsSize {A : Type} (l : List A) : ℕ := 4 + 8 * l.length

/-- A list behind its length. -/
def listSize {A : Type} (entry : A → ℕ) (l : List A) : ℕ := 4 + (l.map entry).sum

section Sizes

variable {D : Type}

/-- A map from names to numbers. -/
def numbersSize (m : OrdMap Str D) : ℕ := listSize (fun e => textSize e.1 + 8) m.entries

/-- An evidence record. -/
def Evidence.wireSize (e : Evidence D) : ℕ := 49 + textSize e.provenance + textSize e.owner

/-- A capability claim. -/
def Capability.wireSize (c : Capability) : ℕ := 24 + textSize c.detail

/-- A compatibility claim. -/
def Compatibility.wireSize (c : Compatibility) : ℕ :=
  16 + listSize (fun p => textSize p.name + textSize p.value + 8) c.pins

/-- A resource. -/
def Resource.wireSize (r : Resource D) : ℕ :=
  41 + textSize r.provider + textSize r.authorityOwner +
    (56 + numbersSize r.capacity.extra) +
    (wordsSize r.locality.coords + numbersSize r.locality.tags) +
    (13 + textSize r.failureDomain.name) + r.evidence.wireSize +
    listSize Capability.wireSize r.capabilities + listSize Compatibility.wireSize r.compatibility

/-- A node. -/
def Node.wireSize (n : Node D) : ℕ :=
  49 + textSize n.hostname + textSize n.provider + wordsSize n.inventory +
    (13 + textSize n.failureDomain.name) +
    (wordsSize n.locality.coords + numbersSize n.locality.tags) + textSize n.workerOwner

/-- A path. -/
def PathEvidence.wireSize (p : PathEvidence D) : ℕ :=
  68 + textSize p.requirement.protocol + textSize p.provider + textSize p.source +
    p.evidence.wireSize

/-- An edge. -/
def GraphEdge.wireSize (e : GraphEdge D) : ℕ := 37 + textSize e.protocol + textSize e.compatFacet

/-- A graph. -/
def ResourceGraph.wireSize (g : ResourceGraph D) : ℕ :=
  wordsSize g.vertices + listSize GraphEdge.wireSize g.edges

/-- An authority tuple. -/
def AuthorityTuple.wireSize (a : AuthorityTuple) : ℕ :=
  24 + wordsSize a.workerBoots + wordsSize a.nodeGenerations + wordsSize a.resourceGenerations +
    wordsSize a.pathGenerations + wordsSize a.capabilityGenerations +
    wordsSize a.compatibilityGenerations + wordsSize a.evidenceGenerations +
    wordsSize a.reservationGenerations

/-- A request. -/
def CompositionRequest.wireSize (q : CompositionRequest D) : ℕ :=
  110 + listSize textSize q.acceleratorArchitectures +
    (4 + 4 * q.mandatoryClasses.size) + (4 + 4 * q.optionalClasses.size)

/-- A factor of the rank. -/
def RankingFactor.wireSize (f : RankingFactor D) : ℕ := 16 + textSize f.name + textSize f.detail

/-- A plan. -/
def CompositionPlan.wireSize (p : CompositionPlan D) : ℕ :=
  28 + p.graph.wireSize + wordsSize p.nodes + p.request.wireSize +
    listSize RankingFactor.wireSize p.rank.factors + p.authority.wireSize +
    listSize PathEvidence.wireSize p.paths

/-- A composition. -/
def Composition.wireSize (c : Composition D) : ℕ :=
  56 + wordsSize c.nodes + c.request.wireSize + c.graph.wireSize + c.authority.wireSize +
    listSize PathEvidence.wireSize c.paths + textSize c.explanation

/-- A reservation. -/
def Reservation.wireSize (r : Reservation D) : ℕ := 32 + 20 * r.items.length

end Sizes

/-! ### What the encoders append -/

section Encoders

variable {D : Type} [DoubleBits D]

@[simp] theorem size_word (v : UInt64) : size (Write.u64 v) = 8 := rfl

@[simp] theorem size_half (v : UInt32) : size (Write.u32 v) = 4 := rfl

@[simp] theorem size_bit (b : Bool) : size (Write.flag b) = 1 := rfl

@[simp] theorem size_dbl (d : D) : size (Write.dbl d) = 8 := rfl

@[simp] theorem size_enum {E : Type} [EnumTraits E] (e : E) : size (Write.enum e) = 4 := rfl

@[simp] theorem size_text (s : Str) : size (Write.str s) = textSize s := size_str s

/-- A list whose entries take as much as `f` says. -/
theorem size_list {A : Type} {l : List A} {entry : A → List Token} {f : A → ℕ}
    (h : ∀ a ∈ l, size (entry a) = f a) : size (counted l entry) = listSize f l := by
  rw [size_counted, listSize, List.map_congr_left h]

/-- A list of entries of one width. -/
theorem size_uniform {A : Type} {l : List A} {entry : A → List Token} {n : ℕ}
    (h : ∀ a ∈ l, size (entry a) = n) : size (counted l entry) = 4 + n * l.length := by
  rw [size_counted, List.map_congr_left h, List.map_const', List.sum_replicate_nat, Nat.mul_comm]

@[simp] theorem size_ids {T : Tag} (l : List (StrongId T)) :
    size (Write.ids l) = wordsSize l := size_uniform fun _ _ => rfl

@[simp] theorem size_generations {T : Tag} (l : List (StrongGeneration T)) :
    size (Write.generations l) = wordsSize l := size_uniform fun _ _ => rfl

@[simp] theorem size_classes (m : OrdSet ResourceClass) :
    size (Write.classes m) = 4 + 4 * m.size := size_uniform fun _ _ => rfl

@[simp] theorem size_numbers (m : OrdMap Str D) : size (Write.numbers m) = numbersSize m :=
  size_list fun e _ => by rw [size_append, size_text, size_dbl]

@[simp] theorem size_writeEvidence (e : Evidence D) : size (writeEvidence e) = e.wireSize := by
  simp only [writeEvidence, Evidence.wireSize, List.flatten_cons, List.flatten_nil, size_append,
    size_word, size_enum, size_dbl, size_text, size_bit, size_nil]
  omega

@[simp] theorem size_writeCapability (c : Capability) :
    size (writeCapability c) = c.wireSize := by
  simp only [writeCapability, Capability.wireSize, List.flatten_cons, List.flatten_nil,
    size_append, size_word, size_enum, size_text, size_nil]
  omega

@[simp] theorem size_writeCompatibility (c : Compatibility) :
    size (writeCompatibility c) = c.wireSize := by
  have hpins : size (counted c.pins writePin) =
      listSize (fun p => textSize p.name + textSize p.value + 8) c.pins := by
    refine size_list fun p _ => ?_
    simp only [writePin, List.flatten_cons, List.flatten_nil, size_append, size_word, size_text,
      size_nil]
    omega
  simp only [writeCompatibility, Compatibility.wireSize, List.flatten_cons, List.flatten_nil,
    size_append, size_word, hpins, size_nil]
  omega

@[simp] theorem size_encodeCapacity (c : Capacity D) :
    size (encodeCapacity c) = 56 + numbersSize c.extra := by
  simp only [encodeCapacity, List.flatten_cons, List.flatten_nil, size_append, size_dbl,
    size_numbers, size_nil]
  omega

@[simp] theorem size_writeLocality (l : Locality D) :
    size (writeLocality l) = wordsSize l.coords + numbersSize l.tags := by
  have hcoords : size (counted l.coords Write.dbl) = wordsSize l.coords :=
    size_uniform fun _ _ => rfl
  simp only [writeLocality, List.flatten_cons, List.flatten_nil, size_append, hcoords,
    size_numbers, size_nil, Nat.add_zero]

omit [DoubleBits D] in
@[simp] theorem size_writeFailureDomain (f : FailureDomain D) :
    size (writeFailureDomain f) = 13 + textSize f.name := by
  simp only [writeFailureDomain, List.flatten_cons, List.flatten_nil, size_append, size_word,
    size_enum, size_text, size_bit, size_nil]
  omega

@[simp] theorem size_encodeResource (r : Resource D) : size (encodeResource r) = r.wireSize := by
  have hcaps : size (counted r.capabilities writeCapability) =
      listSize Capability.wireSize r.capabilities := size_list fun c _ => size_writeCapability c
  have hcomps : size (counted r.compatibility writeCompatibility) =
      listSize Compatibility.wireSize r.compatibility :=
    size_list fun c _ => size_writeCompatibility c
  simp only [encodeResource, Resource.wireSize, List.flatten_cons, List.flatten_nil, size_append,
    size_word, size_enum, size_text, size_bit, size_encodeCapacity, size_writeLocality,
    size_writeFailureDomain, size_writeEvidence, hcaps, hcomps, size_nil]
  ring

@[simp] theorem size_writeNode (n : Node D) : size (writeNode n) = n.wireSize := by
  simp only [writeNode, Node.wireSize, List.flatten_cons, List.flatten_nil, size_append, size_word,
    size_enum, size_text, size_bit, size_ids, size_writeLocality, size_writeFailureDomain, size_nil]
  ring

@[simp] theorem size_writePath (p : PathEvidence D) : size (writePath p) = p.wireSize := by
  simp only [writePath, PathEvidence.wireSize, List.flatten_cons, List.flatten_nil, size_append,
    size_word, size_dbl, size_text, size_bit, size_writeEvidence, size_nil]
  ring

@[simp] theorem size_writeGraph (g : ResourceGraph D) : size (writeGraph g) = g.wireSize := by
  have hedges : size (counted g.edges writeEdge) = listSize GraphEdge.wireSize g.edges := by
    refine size_list fun e _ => ?_
    simp only [writeEdge, GraphEdge.wireSize, List.flatten_cons, List.flatten_nil, size_append,
      size_word, size_enum, size_dbl, size_text, size_bit, size_nil]
    ring
  simp only [writeGraph, ResourceGraph.wireSize, List.flatten_cons, List.flatten_nil, size_append,
    size_ids, hedges, size_nil]
  ring

@[simp] theorem size_writeAuthority (a : AuthorityTuple) :
    size (writeAuthority a) = a.wireSize := by
  simp only [writeAuthority, AuthorityTuple.wireSize, List.flatten_cons, List.flatten_nil,
    size_append, size_word, size_ids, size_generations, size_nil]
  ring

@[simp] theorem size_encodeRequest (q : CompositionRequest D) :
    size (encodeRequest q) = q.wireSize := by
  have harchs : size (counted q.acceleratorArchitectures Write.str) =
      listSize textSize q.acceleratorArchitectures := size_list fun s _ => size_text s
  simp only [encodeRequest, CompositionRequest.wireSize, List.flatten_cons, List.flatten_nil,
    size_append, size_word, size_half, size_dbl, size_bit, size_classes, harchs, size_nil]
  ring

@[simp] theorem size_encodePlan (p : CompositionPlan D) : size (encodePlan p) = p.wireSize := by
  have hfactors : size (counted p.rank.factors encodeFactor) =
      listSize RankingFactor.wireSize p.rank.factors := by
    refine size_list fun f _ => ?_
    simp only [encodeFactor, RankingFactor.wireSize, List.flatten_cons, List.flatten_nil,
      size_append, size_dbl, size_text, size_nil]
    ring
  have hpaths : size (counted p.paths writePath) = listSize PathEvidence.wireSize p.paths :=
    size_list fun e _ => size_writePath e
  simp only [encodePlan, CompositionPlan.wireSize, List.flatten_cons, List.flatten_nil,
    size_append, size_word, size_enum, size_dbl, size_ids, size_writeGraph, size_encodeRequest,
    size_writeAuthority, hfactors, hpaths, size_nil]
  ring

@[simp] theorem size_encodeComposition (c : Composition D) :
    size (encodeComposition c) = c.wireSize := by
  have hpaths : size (counted c.paths writePath) = listSize PathEvidence.wireSize c.paths :=
    size_list fun e _ => size_writePath e
  simp only [encodeComposition, Composition.wireSize, List.flatten_cons, List.flatten_nil,
    size_append, size_word, size_enum, size_dbl, size_text, size_ids, size_writeGraph,
    size_encodeRequest, size_writeAuthority, hpaths, size_nil]
  ring

@[simp] theorem size_encodeReservation (r : Reservation D) :
    size (encodeReservation r) = r.wireSize := by
  have hitems : size (counted r.items encodeItem) = 4 + 20 * r.items.length :=
    size_uniform fun _ _ => rfl
  simp only [encodeReservation, Reservation.wireSize, List.flatten_cons, List.flatten_nil,
    size_append, size_word, size_enum, hitems, size_nil]
  ring

end Encoders

end DFabric
