import DisaggregationFabric.Codec.Transfer

/-!
# The round trip of the durable state

`SaveImpl` and `LoadImpl` in full: a state within the limits is encoded without a
refusal, and what is loaded from the bytes is the state again, record by record and in
order (`durable_state_reads_back`). Three things are not in the file: the coordinates of
failure domains, the factors of a rank with the explanation of a composition, and part
of its request. The last one matters for what is planned later (`Safety.Constraints`).
-/

namespace DFabric

open Wire

variable {D : Type} [Double D] [DoubleBits D]

/-- The compositions agree in what the file holds of them, the request aside. -/
structure Composition.Agrees (c c' : Composition D) : Prop where
  id : c'.id = c.id
  generation : c'.generation = c.generation
  resourceSetId : c'.resourceSetId = c.resourceSetId
  resourceSetGeneration : c'.resourceSetGeneration = c.resourceSetGeneration
  nodes : c'.nodes = c.nodes
  graph : c'.graph = c.graph
  authority : c'.authority = c.authority
  lifecycle : c'.lifecycle = c.lifecycle
  reservation : c'.reservation = c.reservation
  outcome : c'.outcome = c.outcome
  total : c'.rank.total = c.rank.total
  paths : c'.paths = c.paths

/-- The node without the coordinates of its failure domain. -/
def Node.withoutCoords (n : Node D) : Node D :=
  { n with failureDomain := { n.failureDomain with localityCoords := default } }

/-- The resource without the coordinates of its failure domain. -/
def Resource.withoutCoords (r : Resource D) : Resource D :=
  { r with failureDomain := { r.failureDomain with localityCoords := default } }

section Lawful

variable [LawfulDoubleBits D]

omit [Double D] in
theorem Node.persisted_eq_withoutCoords (n : Node D) : n.persisted = n.withoutCoords := by
  simp [persisted, withoutCoords, FailureDomain.persisted]

omit [Double D] in
theorem Resource.persisted_eq_withoutCoords (r : Resource D) :
    r.persisted = r.withoutCoords := by
  simp [persisted, withoutCoords, FailureDomain.persisted]

omit [Double D] in
/-- What comes back of a composition. -/
theorem Composition.agrees_persisted (c : Composition D) : c.Agrees c.persisted where
  id := rfl
  generation := rfl
  resourceSetId := rfl
  resourceSetGeneration := rfl
  nodes := rfl
  graph := c.graph.persisted_eq
  authority := rfl
  lifecycle := rfl
  reservation := rfl
  outcome := rfl
  total := rebits_eq c.rank.total
  paths := List.map_id'' PathEvidence.persisted_eq c.paths

/-- **The durable state comes back.** A state whose enumerators are canonical and whose
strings, lists and maps are within the limits is encoded, and loading the bytes returns
its epoch, its nodes and resources in order (without the coordinates of their failure
domains), its policies, and its compositions in order, equal in everything but request,
rank factors and explanation. -/
theorem durable_state_reads_back (s : DurableState D) (h : s.Storable) (ht : Short s.texts) :
    ∃ file s', saveImpl s = .ok file ∧ loadImpl file = .ok s' ∧
      s'.epoch = s.epoch ∧
      s'.nodes = s.nodes.map Node.withoutCoords ∧
      s'.resources = s.resources.map Resource.withoutCoords ∧
      s'.policies = s.policies ∧
      List.Forall₂ Composition.Agrees s.compositions s'.compositions := by
  have hsave := saveImpl_eq h ht
  refine ⟨_, s.persisted, hsave, loadImpl_saveImpl h hsave, rfl, ?_, ?_, rfl, ?_⟩
  · exact List.map_congr_left fun n _ => n.persisted_eq_withoutCoords
  · exact List.map_congr_left fun r _ => r.persisted_eq_withoutCoords
  · change List.Forall₂ _ s.compositions (s.compositions.map Composition.persisted)
    rw [List.forall₂_map_right_iff]
    exact List.forall₂_same.mpr fun c _ => c.agrees_persisted

end Lawful

/-- A composition of the sample accelerator. -/
def sampleComposition : Composition Binary64 :=
  { (default : Composition Binary64) with
    id := ⟨1⟩
    graph := ⟨[⟨1⟩], []⟩
    nodes := [⟨1⟩]
    request := acceleratorRequest
    lifecycle := .active
    rank := ⟨Double.ofRat 3, []⟩
    reservation := ⟨1⟩
    outcome := .success }

/-- A state with the sample accelerator, a policy and a composition. -/
def sampleDurable : DurableState Binary64 where
  epoch := ⟨3⟩
  nodes := []
  resources := [sampleAccelerator]
  policies := OrdMap.insert default ⟨1⟩ ⟨2⟩
  compositions := [sampleComposition]

/-- The sample state comes back. -/
theorem sampleDurable_reads_back :
    ∃ file s', saveImpl sampleDurable = .ok file ∧ loadImpl file = .ok s' ∧
      s'.epoch = ⟨3⟩ ∧ s'.resources = [sampleAccelerator.withoutCoords] ∧
      List.Forall₂ Composition.Agrees [sampleComposition] s'.compositions := by
  obtain ⟨file, s', hsave, hload, hepoch, -, hresources, -, hcompositions⟩ :=
    durable_state_reads_back sampleDurable (by decide +kernel) (by decide +kernel)
  exact ⟨file, s', hsave, hload, hepoch, hresources, hcompositions⟩

end DFabric
