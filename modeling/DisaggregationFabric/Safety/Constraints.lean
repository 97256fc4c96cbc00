import DisaggregationFabric.Codec.Durable
import DisaggregationFabric.Engine.Effects

/-!
# Hard constraints across a restart

A recomposition plans under the request that is stored with the composition. After a
restart that request comes from the file, and `WriteRequest` leaves three fields out:
the reachability waiver, the constraint on failure domains and the extra constraints.
They come back as their defaults, and nothing reports it (`restart_drops_constraint`).
`request_after_load_iff` says for which compositions the restart changes nothing.
-/

namespace DFabric

open Wire

namespace Engine

variable {D : Type} [Double D] [DoubleBits D]

omit [Double D] in
/-- Of compositions stored under their own ids, each is found again after a load. -/
theorem Keyed.lookup_importState {s : Engine D} (hs : s.Keyed) (s' : Engine D)
    {id : CompositionId} {c : Composition D} (hc : s.compositions.lookup id = some c) :
    (s'.importState s.snapshot.persisted).compositions.lookup id =
      some (importComposition c.persisted) := by
  have hid : c.id = id := hs id c hc
  have hmem : importComposition c.persisted ∈
      (s.compositions.values.map Composition.persisted).map importComposition :=
    List.mem_map_of_mem (List.mem_map_of_mem (UMap.mem_values_of_lookup hc))
  obtain ⟨w, hw⟩ : ∃ w, (UMap.ofValues Composition.id
      ((s.compositions.values.map Composition.persisted).map importComposition)).lookup
        (importComposition c.persisted).id = some w := UMap.exists_lookup_ofValues hmem
  -- what is found is one of the saved records, and no other one has this id
  obtain ⟨hwmem, hwid⟩ := UMap.lookup_ofValues hw
  obtain ⟨c₁, hc₁, rfl⟩ := List.mem_map.mp hwmem
  obtain ⟨c₀, hc₀, rfl⟩ := List.mem_map.mp hc₁
  obtain ⟨id₀, hlook⟩ := UMap.exists_lookup_of_mem_values hc₀
  have hsame : id₀ = id := by
    rw [← hs id₀ c₀ hlook, ← hid]
    exact hwid
  rw [hsame, hc] at hlook
  cases hlook
  rw [← hid]
  exact hw

variable [LawfulDoubleBits D]

omit [Double D] in
/-- A request comes back from the file unchanged when it waives nothing and constrains
neither the failure domains nor anything else. -/
theorem persisted_request_eq_iff {q : CompositionRequest D} :
    q.persisted = q ↔
      q.ignoreReachability = false ∧ q.failureDomain = default ∧ q.constraints = default := by
  constructor
  · intro h
    rw [← h]
    exact ⟨rfl, rfl, rfl⟩
  · rintro ⟨hignore, hdomain, hconstraints⟩
    simp only [CompositionRequest.persisted, rebits_eq]
    rw [← hignore, ← hdomain, ← hconstraints]

/-- **Which requests survive a restart.** A storable engine reached by any run is saved,
and any engine loads the file: then every composition is stored again under its id, with
the request it had exactly when that request waives no reachability and has neither a
constraint on failure domains nor extra constraints. -/
theorem request_after_load_iff (cfg : EngineConfig) (ops : List (Op D)) (s' : Engine D)
    (file : List UInt8) (hstorable : ((fresh cfg).run ops).snapshot.Storable)
    (hsave : ((fresh cfg).run ops).save = .ok file) :
    (s'.load file).2 = .ok () ∧
      ∀ id c, ((fresh cfg).run ops).compositions.lookup id = some c →
        ∃ c', (s'.load file).1.compositions.lookup id = some c' ∧
          (c'.request = c.request ↔ c.request.ignoreReachability = false ∧
            c.request.failureDomain = default ∧ c.request.constraints = default) := by
  have hload : loadImpl file = .ok ((fresh cfg).run ops).snapshot.persisted :=
    loadImpl_saveImpl hstorable hsave
  have hkeyed : ((fresh cfg).run ops).Keyed := keyed_run (keyed_fresh cfg) ops
  rw [load, hload]
  refine ⟨rfl, ?_⟩
  intro id c hc
  exact ⟨_, hkeyed.lookup_importState s' hc, persisted_request_eq_iff⟩

/-! ### Two requests -/

/-- A request for 32 bytes of host memory, with a constraint on failure domains. -/
def constrainedRequest (fd : FailureDomainConstraint) : CompositionRequest Binary64 :=
  { (default : CompositionRequest Binary64) with
    hostMemoryBytes := Double.ofRat 32
    failureDomain := fd }

/-- A resource that satisfies it. -/
def constrainedMemory : Resource Binary64 :=
  { sampleAccelerator with
    resourceClass := .hostMemory
    capacity := { (default : Capacity Binary64) with hostMemoryBytes := Double.ofRat 64 } }

/-- The resource is registered, and the request is composed and reserved. -/
def constrainedOps (fd : FailureDomainConstraint) : List (Op Binary64) :=
  let s := (fresh ⟨⟨1⟩, ⟨1⟩⟩ : Engine Binary64).step (.registerResource constrainedMemory)
  [.registerResource constrainedMemory, .compose (constrainedRequest fd),
    .reserve (s.compose (constrainedRequest fd)).2.payload]

/-- The engine after that. -/
def constrainedEngine (fd : FailureDomainConstraint) : Engine Binary64 :=
  (fresh ⟨⟨1⟩, ⟨1⟩⟩).run (constrainedOps fd)

/-- The unconstrained request survives the restart. -/
theorem unconstrained_request_after_load :
    ∃ c c', (constrainedEngine default).compositions.lookup ⟨1⟩ = some c ∧
      ((fresh ⟨⟨1⟩, ⟨1⟩⟩ : Engine Binary64).load
        (constrainedEngine default).savedFile).1.compositions.lookup ⟨1⟩ = some c' ∧
      c'.request = c.request := by
  obtain ⟨c, hc⟩ : ∃ c, (constrainedEngine default).compositions.lookup ⟨1⟩ = some c :=
    Option.isSome_iff_exists.mp (by decide +kernel)
  obtain ⟨-, hall⟩ := request_after_load_iff ⟨⟨1⟩, ⟨1⟩⟩ (constrainedOps default)
    (fresh ⟨⟨1⟩, ⟨1⟩⟩) (constrainedEngine default).savedFile (by decide +kernel)
    (save_eq_savedFile (by decide +kernel))
  obtain ⟨c', hc', hiff⟩ := hall ⟨1⟩ c hc
  -- none of the three fields is set in that request
  have hplain : ∀ c ∈ (constrainedEngine default).compositions.values,
      c.request.ignoreReachability = false ∧ c.request.failureDomain = default ∧
        c.request.constraints.entries = [] := by decide +kernel
  obtain ⟨hignore, hdomain, hentries⟩ := hplain c (UMap.mem_values_of_lookup hc)
  refine ⟨c, c', hc, hc', hiff.mpr ⟨hignore, hdomain, ?_⟩⟩
  exact OrdMap.ext hentries

/-- At most one member in a failure domain. -/
def oneAtRisk : FailureDomainConstraint := ⟨.maxSharedRisk, 1, []⟩

/-- **A restart drops a hard constraint.** The composition was planned with at most one
member in a failure domain; the loaded one has no such constraint. -/
theorem restart_drops_constraint :
    ¬ ∀ (cfg : EngineConfig) (ops : List (Op Binary64)) (s' : Engine Binary64)
      (file : List UInt8), ((fresh cfg).run ops).snapshot.Storable →
      ((fresh cfg).run ops).save = .ok file →
      ∀ id c, ((fresh cfg).run ops).compositions.lookup id = some c →
        ∃ c', (s'.load file).1.compositions.lookup id = some c' ∧ c'.request = c.request := by
  intro h
  obtain ⟨c, hc⟩ : ∃ c, (constrainedEngine oneAtRisk).compositions.lookup ⟨1⟩ = some c :=
    Option.isSome_iff_exists.mp (by decide +kernel)
  obtain ⟨c', hc', hsame⟩ := h ⟨⟨1⟩, ⟨1⟩⟩ (constrainedOps oneAtRisk) (fresh ⟨⟨1⟩, ⟨1⟩⟩)
    (constrainedEngine oneAtRisk).savedFile (by decide +kernel)
    (save_eq_savedFile (by decide +kernel)) ⟨1⟩ c hc
  -- the constraint was there, and it is not in what was loaded
  have hbefore : ∀ c ∈ (constrainedEngine oneAtRisk).compositions.values,
      c.request.failureDomain.topology = .maxSharedRisk := by decide +kernel
  have hafter : ∀ c ∈ ((fresh ⟨⟨1⟩, ⟨1⟩⟩ : Engine Binary64).load
      (constrainedEngine oneAtRisk).savedFile).1.compositions.values,
      c.request.failureDomain.topology = .none := by decide +kernel
  have htopology := hbefore c (UMap.mem_values_of_lookup hc)
  rw [← hsame, hafter c' (UMap.mem_values_of_lookup hc')] at htopology
  cases htopology

end Engine

end DFabric
