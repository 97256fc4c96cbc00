import DisaggregationFabric.Engine.Combinations
import DisaggregationFabric.Engine.Completeness

/-!
# Engines with nothing to spare

An engine is exact for a request (`Exact`) if it has, for each mandatory demand, as many
candidates as a selection for it can have, and candidates that share a positive amount
equally. All candidates together are then one of the choices (`Exact.everyone_mem`), the
choices are few enough for the bound, and `Compose` succeeds if the graph and the failure
domains of everyone pass (`Exact.compose_ok`).

The last part registers resources and publishes paths in a fresh engine, so that such
engines can be reached.
-/

namespace DFabric

namespace Engine

/-! ### Selecting everything -/

/-- The number of candidates that a demand can take: two for a positive amount, as many as
it counts otherwise. -/
def wanted (d : ClassDemand ℚ) : ℕ :=
  if d.amountBased then if 0 < d.amount then 2 else 1
  else if d.count ≠ 0 then d.count.toNat else 1

theorem wanted_pos (d : ClassDemand ℚ) : 0 < wanted d := by
  unfold wanted
  split
  · split <;> decide
  · split
    · next hne => exact Nat.pos_of_ne_zero fun hzero => hne (UInt32.toNat_inj.mp hzero)
    · exact Nat.one_pos

variable {items : List (Resource ℚ)} {d : ClassDemand ℚ}

/-- By count there is one selection of all candidates. -/
theorem enumerateSelections_counted (hbased : d.amountBased = false)
    (hlength : items.length = wanted d) (hsmall : wanted d ≤ 8) :
    enumerateSelections items d 24 = [items.map (·.id)] := by
  have hwant : max d.count.toNat 1 = items.length := by
    rw [hlength, wanted, hbased, if_neg Bool.false_ne_true, want_eq]
  have hmin : min items.length 8 = items.length := by omega
  -- of as many indices as are wanted there is one choice
  have hchoices := Combinations.choices_length_self (List.range items.length)
  rw [List.length_range] at hchoices
  rw [enumerateSelections_eq_choices hbased, hwant, hmin, hchoices,
    List.take_of_length_le (Nat.le_add_left 1 23), List.map_singleton, idsAt_range]

/-- By amount, one candidate alone. -/
theorem enumerateSelections_one (hbased : d.amountBased = true) (hcount : d.count = 0)
    (a : Resource ℚ) : enumerateSelections [a] d 24 = [[a.id]] := by
  simp [enumerateSelections, hbased, hcount]

/-- By amount, each of two candidates and both together. -/
theorem enumerateSelections_two (hbased : d.amountBased = true) (hcount : d.count = 0)
    (hpos : 0 < d.amount) {a b : Resource ℚ}
    (hpair : d.amount ≤ capacityForDimension a d.dimension + capacityForDimension b d.dimension) :
    enumerateSelections [a, b] d 24 = [[a.id], [b.id], [a.id, b.id]] := by
  have hle : Double.le d.amount
      (capacityForDimension a d.dimension + capacityForDimension b d.dimension) = true :=
    decide_eq_true hpair
  simp [enumerateSelections, hbased, hcount, hpos, hle, List.zipIdx]

/-- **All candidates are one of the selections**, when they are as many as the demand can
take and two of them reach the amount. -/
theorem all_mem_enumerateSelections (hlength : items.length = wanted d)
    (hcount : d.amountBased = true → d.count = 0) (hsmall : wanted d ≤ 8)
    (hpair : d.amountBased = true → ∀ a ∈ items, ∀ b ∈ items,
      d.amount ≤ capacityForDimension a d.dimension + capacityForDimension b d.dimension) :
    items.map (·.id) ∈ enumerateSelections items d 24 ∧
      (enumerateSelections items d 24).length ≤ if d.amountBased then 3 else 1 := by
  cases hbased : d.amountBased with
  | false =>
    rw [enumerateSelections_counted hbased hlength hsmall]
    exact ⟨List.mem_singleton_self _, le_rfl⟩
  | true =>
    rw [wanted, hbased, if_pos rfl] at hlength
    split at hlength
    · -- the pair comes after the two single candidates
      next hpos =>
      obtain ⟨a, b, rfl⟩ := List.length_eq_two.mp hlength
      rw [enumerateSelections_two hbased (hcount hbased) hpos
        (hpair hbased a List.mem_cons_self b (List.mem_cons_of_mem _ List.mem_cons_self))]
      exact ⟨List.mem_cons_of_mem _ (List.mem_cons_of_mem _ List.mem_cons_self), le_rfl⟩
    · obtain ⟨a, rfl⟩ := List.length_eq_one_iff.mp hlength
      rw [enumerateSelections_one hbased (hcount hbased)]
      exact ⟨List.mem_cons_self, Nat.le_of_ble_eq_true rfl⟩

/-! ### Taking everyone -/

variable {s : Engine ℚ} {req : CompositionRequest ℚ}

/-- All candidates of all mandatory demands. -/
def everyone (s : Engine ℚ) (req : CompositionRequest ℚ) : List (Resource ℚ) :=
  ((computeDemands req).filter (·.mandatory)).flatMap (s.candidates req)

/-- The demands by amount do not count. -/
theorem count_of_amountBased {d : ClassDemand ℚ} (hd : d ∈ computeDemands req)
    (hbased : d.amountBased = true) : d.count = 0 := by
  -- the six demands in their order, the second and the last of them by count
  obtain ⟨⟨i, hi⟩, rfl⟩ := List.mem_iff_get.mp hd
  rcases i with _ | _ | _ | _ | _ | _ | i
  · rfl
  · cases hbased
  · rfl
  · rfl
  · rfl
  · cases hbased
  · exact absurd hi (Nat.not_lt.mpr (Nat.le_add_left 6 i))

/-- **The state has what the request can take, and no more**: for each mandatory demand as
many candidates as it wants, which share a positive amount equally. -/
structure Exact (s : Engine ℚ) (req : CompositionRequest ℚ) : Prop where
  keyed : s.ResourcesKeyed
  nonneg : s.CapacitiesNonneg
  demanded : ∃ d ∈ computeDemands req, d.mandatory = true
  length : ∀ d ∈ computeDemands req, d.mandatory = true →
    (s.candidates req d).length = wanted d ∧ wanted d ≤ 8
  shares : ∀ d ∈ computeDemands req, d.amountBased = true → ∀ r ∈ s.candidates req d,
    capacityForDimension r d.dimension = max d.amount 0 / 2

theorem Exact.pair (h : s.Exact req) {d : ClassDemand ℚ} (hd : d ∈ computeDemands req)
    (hbased : d.amountBased = true) :
    ∀ a ∈ s.candidates req d, ∀ b ∈ s.candidates req d,
      d.amount ≤ capacityForDimension a d.dimension + capacityForDimension b d.dimension := by
  intro a ha b hb
  rw [h.shares d hd hbased a ha, h.shares d hd hbased b hb, add_halves]
  exact le_max_left _ _

/-- What is enumerated for a demand. -/
theorem Exact.selections (h : s.Exact req) {d : ClassDemand ℚ} (hd : d ∈ computeDemands req)
    (hmandatory : d.mandatory = true) :
    (s.candidates req d).map (·.id) ∈ enumerateSelections (s.candidates req d) d 24 ∧
      (enumerateSelections (s.candidates req d) d 24).length ≤
        if d.amountBased then 3 else 1 :=
  all_mem_enumerateSelections (h.length d hd hmandatory).1 (count_of_amountBased hd)
    (h.length d hd hmandatory).2 (h.pair hd)

theorem prod_filter_le {α : Type} {p : α → Bool} {f g : α → ℕ} {l : List α}
    (hfg : ∀ a ∈ l, p a = true → f a ≤ g a) (hg : ∀ a ∈ l, 1 ≤ g a) :
    ((l.filter p).map f).prod ≤ (l.map g).prod := by
  induction l with
  | nil => exact le_rfl
  | cons a l ih =>
    rw [List.forall_mem_cons] at hfg hg
    rw [List.map_cons, List.prod_cons]
    -- a factor that is left out was at least one
    cases hp : p a with
    | false =>
      rw [List.filter_cons_of_neg (by rw [hp]; decide), ← Nat.one_mul (List.prod _)]
      exact Nat.mul_le_mul hg.1 (ih hfg.2 hg.2)
    | true =>
      rw [List.filter_cons_of_pos hp, List.map_cons, List.prod_cons]
      exact Nat.mul_le_mul (hfg.1 hp) (ih hfg.2 hg.2)

/-- There are few enough choices for the bound. -/
theorem Exact.length_choices_le (h : s.Exact req) : (s.choices req).length ≤ comboCap := by
  have hlengths : ((s.selectionsOf req).map Selection.picks).map List.length =
      ((computeDemands req).filter (·.mandatory)).map fun d =>
        (enumerateSelections (s.candidates req d) d 24).length := by
    rw [selectionsOf, List.map_map, List.map_map]
    rfl
  rw [choices, List.length_map, Bounded.length_product, hlengths]
  -- three selections of each class that is counted by amount, and there are four
  calc _ ≤ ((computeDemands req).map fun d => if d.amountBased then 3 else 1).prod := by
        refine prod_filter_le (fun d hd hmandatory => (h.selections hd hmandatory).2) ?_
        intro d _
        split <;> decide
    _ = 81 := rfl
    _ ≤ comboCap := by decide

/-- Taking everyone is a choice. -/
theorem Exact.everyone_mem (h : s.Exact req) : (s.everyone req).map (·.id) ∈ s.choices req := by
  refine mem_choices.mpr ⟨((computeDemands req).filter (·.mandatory)).map fun d =>
    (s.candidates req d).map (·.id), ?_, ?_⟩
  · rw [selectionsOf, List.forall₂_map_left_iff, List.forall₂_map_right_iff, List.forall₂_same]
    intro d hd
    obtain ⟨hd, hmandatory⟩ := List.mem_filter.mp hd
    exact (h.selections hd hmandatory).1
  · rw [everyone, List.map_flatMap, List.flatMap_def]

/-- The members of a class among everyone are the candidates of its demand. -/
theorem ofClass_everyone (hkeyed : s.ResourcesKeyed) {d : ClassDemand ℚ}
    (hd : d ∈ computeDemands req) (hmandatory : d.mandatory = true) :
    ofClass (s.everyone req) d.cls = s.candidates req d := by
  have hmem : d ∈ (computeDemands req).filter (·.mandatory) :=
    List.mem_filter.mpr ⟨hd, hmandatory⟩
  have hnodup : (((computeDemands req).filter (·.mandatory)).map (·.cls)).Nodup :=
    (List.filter_sublist.map _).nodup (nodup_classes_computeDemands req)
  rw [ofClass, everyone]
  generalize (computeDemands req).filter (·.mandatory) = ds at hmem hnodup
  -- the candidates of one demand are of its class, so they stay or go together
  have hall : ∀ d', (s.candidates req d').filter (fun r => r.resourceClass = d.cls) =
      if d'.cls = d.cls then s.candidates req d' else [] := by
    intro d'
    split
    · next heq =>
      refine List.filter_eq_self.mpr fun r hr => ?_
      rw [(lookup_of_mem_candidates hkeyed hr).2.2, heq]
      exact decide_eq_true rfl
    · next hne =>
      refine List.filter_eq_nil_iff.mpr fun r hr => ?_
      rw [(lookup_of_mem_candidates hkeyed hr).2.2]
      simpa using hne
  induction ds with
  | nil => exact absurd hmem List.not_mem_nil
  | cons d' ds ih =>
    rw [List.map_cons, List.nodup_cons] at hnodup
    rw [List.flatMap_cons, List.filter_append, hall]
    rcases List.mem_cons.mp hmem with rfl | hmem
    · -- no later demand is for the same class
      have hrest : (ds.flatMap (s.candidates req)).filter (fun r => r.resourceClass = d.cls) = [] := by
        refine List.filter_eq_nil_iff.mpr fun r hr => ?_
        obtain ⟨d', hd', hr'⟩ := List.mem_flatMap.mp hr
        rw [(lookup_of_mem_candidates hkeyed hr').2.2, decide_eq_true_eq]
        intro heq
        exact hnodup.1 (heq ▸ List.mem_map_of_mem hd')
      rw [if_pos rfl, hrest, List.append_nil]
    · have hne : d'.cls ≠ d.cls := fun heq => hnodup.1 (heq ▸ List.mem_map_of_mem hmem)
      rw [if_neg hne, List.nil_append, ih hmem hnodup.2]

/-- The candidates of a demand meet it together. -/
theorem Exact.meets (h : s.Exact req) {d : ClassDemand ℚ} (hd : d ∈ computeDemands req)
    (hmandatory : d.mandatory = true) : meetsDemand (s.candidates req d) d = true := by
  obtain ⟨hlength, -⟩ := h.length d hd hmandatory
  refine meetsDemand_iff.mpr ⟨?_, fun hbased => ?_, fun hbased => ?_⟩
  · rw [← List.length_pos_iff, hlength]
    exact wanted_pos d
  · have hshares := h.shares d hd hbased
    rw [wanted, hbased, if_pos rfl] at hlength
    split at hlength
    · -- two halves of a positive amount
      next hpos =>
      obtain ⟨a, b, heq⟩ := List.length_eq_two.mp hlength
      rw [heq] at hshares ⊢
      rw [List.foldl_cons, List.foldl_cons, List.foldl_nil, hshares a List.mem_cons_self,
        hshares b (List.mem_cons_of_mem _ List.mem_cons_self)]
      refine decide_eq_true (?_ : d.amount ≤ 0 + max d.amount 0 / 2 + max d.amount 0 / 2)
      rw [zero_add, add_halves]
      exact le_max_left _ _
    · next hpos =>
      obtain ⟨a, heq⟩ := List.length_eq_one_iff.mp hlength
      rw [heq] at hshares ⊢
      rw [List.foldl_cons, List.foldl_nil, hshares a List.mem_cons_self]
      refine decide_eq_true (?_ : d.amount ≤ 0 + max d.amount 0 / 2)
      rw [max_eq_right (not_lt.mp hpos), zero_div, add_zero]
      exact not_lt.mp hpos
  · -- a count of zero is met by the single candidate
    rw [hlength, wanted, hbased, if_neg Bool.false_ne_true]
    split
    · exact le_of_eq (UInt32.ofNat_toNat).symm
    · next hzero =>
      rw [not_not.mp hzero]
      decide

/-- **Everyone is accepted** if their graph and failure domains pass. -/
theorem Exact.compose_ok (h : s.Exact req)
    (hvalid : (validateGraph (buildGraph req (s.everyone req)) s.resources s.paths).isOk = true)
    (hdomains : (validateFailureDomains (s.everyone req) req).isOk = true)
    (hcoherent : ∀ r ∈ s.everyone req, capabilitySupported r .coherentMemoryAccess = true) :
    (s.compose req).2.ok = true := by
  have hne : s.selectionsOf req ≠ [] := by
    obtain ⟨d, hd, hmandatory⟩ := h.demanded
    exact List.ne_nil_of_mem (List.mem_map_of_mem (List.mem_filter.mpr ⟨hd, hmandatory⟩))
  have hmem : (s.everyone req).map (·.id) ∈ (s.choices req).take comboCap := by
    rw [List.take_of_length_le h.length_choices_le]
    exact h.everyone_mem
  -- the records of the combination are everyone again
  have hrecords : ((s.everyone req).map (·.id)).filterMap s.resources.lookup = s.everyone req := by
    rw [List.filterMap_map]
    refine (List.filterMap_congr fun r hr => ?_).trans List.filterMap_some
    obtain ⟨d, -, hrd⟩ := List.mem_flatMap.mp hr
    exact (lookup_of_mem_candidates h.keyed hrd).1
  refine compose_ok_of_choice h.keyed h.nonneg hne hmem ?_
  rw [hrecords, feasible, hvalid, hdomains, Bool.and_true, Bool.and_true, Bool.and_eq_true]
  refine ⟨List.all_eq_true.mpr fun sel hsel => ?_, ?_⟩
  · obtain ⟨d, hd, rfl⟩ := List.mem_map.mp hsel
    obtain ⟨hd, hmandatory⟩ := List.mem_filter.mp hd
    have hclass := ofClass_everyone h.keyed hd hmandatory
    rw [ofClass] at hclass
    dsimp only
    rw [hclass]
    exact h.meets hd hmandatory
  · rw [Bool.or_eq_true]
    exact Or.inr (List.all_eq_true.mpr hcoherent)

/-! ### Registering a list of resources -/

/-- Registering new resources puts them into the table, in order, and changes nothing
else. -/
theorem run_registerResource {l : List (Resource ℚ)} {s : Engine ℚ}
    (hvalid : ∀ r ∈ l, r.id.isValid = true) (hnodup : (l.map (·.id)).Nodup)
    (hnew : ∀ r ∈ l, s.resources.lookup r.id = none) :
    ∃ resources, s.run (l.map .registerResource) = { s with resources := resources } ∧
      resources.values = l.reverse ++ s.resources.values := by
  induction l generalizing s with
  | nil => exact ⟨s.resources, rfl, rfl⟩
  | cons r l ih =>
    rw [List.forall_mem_cons] at hvalid hnew
    rw [List.map_cons, List.nodup_cons] at hnodup
    have hinvalid : ¬ (!r.id.isValid) = true := by
      rw [hvalid.1]
      decide
    have hstep : s.step (.registerResource r) =
        { s with resources := s.resources.insert r.id r } := by
      change (s.registerResource r).1 = _
      rw [registerResource, if_neg hinvalid, ingestResource, if_neg hinvalid, hnew.1]
    -- the others are still new
    have hrest : ∀ r' ∈ l, (s.resources.insert r.id r).lookup r'.id = none := by
      intro r' hr'
      have hne : r'.id ≠ r.id := by
        intro heq
        exact hnodup.1 (List.mem_map.mpr ⟨r', hr', heq⟩)
      rw [AList.lookup_insert_ne hne]
      exact hnew.2 r' hr'
    have hinsert : UMap.values (s.resources.insert r.id r) = r :: s.resources.values := by
      rw [UMap.values, AList.entries_insert_of_notMem (AList.lookup_eq_none.mp hnew.1)]
      rfl
    obtain ⟨resources, hrun, hvalues⟩ :=
      ih (s := { s with resources := s.resources.insert r.id r }) hvalid.2 hnodup.2 hrest
    refine ⟨resources, ?_, ?_⟩
    · rw [← hrun, ← hstep]
      rfl
    · rw [hvalues, List.reverse_cons, List.append_assoc, List.singleton_append]
      exact congrArg _ hinsert

/-- Publishing paths puts each under its pair, a later one over an earlier one, and changes
no resource and no backend. -/
theorem run_onPathUpdate (l : List (PathEvidence ℚ)) (s : Engine ℚ) :
    (s.run (l.map .onPathUpdate)).resources = s.resources ∧
      (s.run (l.map .onPathUpdate)).backends = s.backends ∧
      (s.run (l.map .onPathUpdate)).paths = l.foldl (fun paths pe =>
        paths.insert (pathKey pe.requirement.source pe.requirement.target) pe) s.paths := by
  induction l generalizing s with
  | nil => exact ⟨rfl, rfl, rfl⟩
  | cons pe l ih => exact ih (s.step (.onPathUpdate pe))

/-- A published pair has its path, whatever else is published. -/
theorem find?_foldl_published {path : NodeId × NodeId → PathEvidence ℚ}
    (hpath : ∀ q, (path q).requirement.source = q.1 ∧ (path q).requirement.target = q.2)
    {pairs : List (NodeId × NodeId)} {a b : NodeId} {paths : OrdMap Str (PathEvidence ℚ)}
    (h : (a, b) ∈ pairs ∨ paths.find? (pathKey a b) = some (path (a, b))) :
    ((pairs.map path).foldl (fun paths pe =>
      paths.insert (pathKey pe.requirement.source pe.requirement.target) pe) paths).find?
        (pathKey a b) = some (path (a, b)) := by
  induction pairs generalizing paths with
  | nil => exact h.resolve_left List.not_mem_nil
  | cons q pairs ih =>
    rw [List.map_cons, List.foldl_cons]
    refine ih ?_
    rw [(hpath q).1, (hpath q).2, OrdMap.find?_insert]
    split
    · -- a later entry for the pair is the same again
      next hkey =>
      obtain ⟨rfl, rfl⟩ := pathKey_injective hkey
      exact Or.inr rfl
    · next hkey =>
      refine h.imp_left fun hmem => (List.mem_cons.mp hmem).resolve_left ?_
      rintro rfl
      exact hkey rfl

end Engine

end DFabric
