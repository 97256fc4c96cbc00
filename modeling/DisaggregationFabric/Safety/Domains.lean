import DisaggregationFabric.Engine.Acceptance

/-!
# Failure domains of a plan

A request may constrain where the members of its plan are. `ValidateFailureDomains` tests
the constraint once for each candidate, by the size of a set of strings:

* COLOCATE and SPREAD count nodes, and mean what they say;
* MAX_SHARED_RISK counts the members of each failure domain, but a bound of zero is taken
  for no bound;
* DISTINCT_FAILURE_DOMAINS is satisfied by two different pairs of a node and a domain, so
  two nodes of one rack pass;
* the list of allowed types is read by no check.

`failure_domains_respected_iff` says for which requests every plan respects the constraint:
those that ask for nothing that is not enforced, and those that no engine accepts.
-/

namespace DFabric

namespace Engine

variable {s : Engine ℚ} {req : CompositionRequest ℚ}

/-- **The members respect the constraint on failure domains.** A failure domain is known by
its name. -/
structure DomainsRespected {D : Type} (req : CompositionRequest D) (members : List (Resource D)) :
    Prop where
  colocate : req.failureDomain.topology = .colocate →
    ∀ a ∈ members, ∀ b ∈ members, a.nodeId = b.nodeId
  spread : req.failureDomain.topology = .spread →
    ∃ a ∈ members, ∃ b ∈ members, a.nodeId ≠ b.nodeId
  distinct : req.failureDomain.topology = .distinctFailureDomains →
    members.Pairwise fun a b => a.failureDomain.name ≠ b.failureDomain.name
  risk : req.failureDomain.topology = .maxSharedRisk →
    ∀ name, (inDomain members name).length ≤ req.failureDomain.maxSharedRisk.toNat
  types : req.failureDomain.allowedTypes ≠ [] →
    ∀ r ∈ members, r.failureDomain.type ∈ req.failureDomain.allowedTypes

/-- The constraint asks for nothing but what is enforced: no failure domain type is
excluded, members of different failure domains are not asked for, and a bound on the
shared risk is positive. -/
def DomainsEnforced (c : FailureDomainConstraint) : Prop :=
  (c.allowedTypes = [] ∨ ∀ t, t ∈ c.allowedTypes) ∧ c.topology ≠ .distinctFailureDomains ∧
    (c.topology = .maxSharedRisk → 0 < c.maxSharedRisk)

/-- What is enforced is respected. -/
theorem domainsRespected_of_checked {members : List (Resource ℚ)}
    (h : PlacementChecked req members) (henforced : DomainsEnforced req.failureDomain) :
    DomainsRespected req members := by
  obtain ⟨htypes, hdistinct, hrisk⟩ := henforced
  unfold PlacementChecked at h
  refine ⟨fun htopology => ?_, fun htopology => ?_, fun htopology => absurd htopology hdistinct,
    fun htopology name => ?_, fun hne r _ => (htypes.resolve_left hne) _⟩
  · rw [htopology] at h
    exact h
  · rw [htopology] at h
    exact h
  · rw [htopology] at h
    rcases hmembers : inDomain members name with _ | ⟨r, rest⟩
    · exact Nat.zero_le _
    · -- a failure domain with a member is the one of that member
      have hr : r ∈ inDomain members name := hmembers ▸ List.mem_cons_self
      obtain ⟨hr, hname⟩ := List.mem_filter.mp hr
      rw [← hmembers, ← of_decide_eq_true hname]
      exact h (hrisk htopology) r hr

/-! ### Plans that do not respect the constraint -/

/-- A plan on a site made for the request, with failure domains of the given type, that
respects the constraint. -/
theorem exists_respected (hreq : Acceptable req)
    (h : ∀ (cfg : EngineConfig) (ops : List (Op ℚ)),
      (((fresh cfg).run ops).compose req).2.ok = true →
      DomainsRespected req (((fresh cfg).run ops).planMembers
        (((fresh cfg).run ops).compose req).2.payload)) (type : FailureDomainType) :
    ∃ members, DomainsRespected req members ∧ PlacementChecked req members ∧ members ≠ [] ∧
      ∀ r ∈ members, ∃ i, r.failureDomain = zone req type r.resourceClass i := by
  have hsuits := siteFor_suits hreq type 0 []
  obtain ⟨-, -, before, members, -, hplanned, hpieces, hne⟩ := hsuits.planned hreq
  have hrespected := h sampleConfig (siteOps req (siteFor req type 0 [])) (hsuits.compose_ok hreq)
  change DomainsRespected req ((built req (siteFor req type 0 [])).planMembers
    ((built req (siteFor req type 0 [])).compose req).2.payload) at hrespected
  -- the members of the plan are pieces of the site
  rw [hplanned.planMembers_eq] at hrespected
  refine ⟨members, hrespected, isOk_validateFailureDomains_iff.mp hplanned.domains, hne, ?_⟩
  intro r hr
  obtain ⟨d, -, -, i, -, rfl⟩ := mem_pieces.mp (hpieces r hr)
  exact ⟨i, rfl⟩

/-- **Which constraints on failure domains are respected.** For every request: every plan
that an engine returns for it, after whatever operations, respects the constraint exactly
if the constraint asks for nothing but what is enforced, or no engine can accept the
request. -/
theorem failure_domains_respected_iff (req : CompositionRequest ℚ) :
    (∀ (cfg : EngineConfig) (ops : List (Op ℚ)),
        (((fresh cfg).run ops).compose req).2.ok = true →
        DomainsRespected req (((fresh cfg).run ops).planMembers
          (((fresh cfg).run ops).compose req).2.payload)) ↔
      ¬ Acceptable req ∨ DomainsEnforced req.failureDomain := by
  constructor
  · intro h
    by_contra hnot
    rw [not_or, not_not] at hnot
    obtain ⟨hreq, henforced⟩ := hnot
    refine henforced ⟨?_, fun htopology => ?_, fun htopology => ?_⟩
    · -- all members in failure domains of a type that is not listed
      by_contra htypes
      push Not at htypes
      obtain ⟨hne, type, htype⟩ := htypes
      obtain ⟨members, hrespected, -, hmembers, hzone⟩ := exists_respected hreq h type
      obtain ⟨r, hr⟩ := List.exists_mem_of_ne_nil members hmembers
      obtain ⟨i, hdomain⟩ := hzone r hr
      have hlisted := hrespected.types hne r hr
      rw [hdomain] at hlisted
      exact htype hlisted
    · -- two members in one failure domain
      obtain ⟨members, hrespected, hchecked, -, hzone⟩ := exists_respected hreq h .host
      rw [PlacementChecked, htopology] at hchecked
      obtain ⟨a, ha, b, hb, hkey⟩ := hchecked
      have hname : ∀ r ∈ members, r.failureDomain.name = [] := by
        intro r hr
        obtain ⟨i, hdomain⟩ := hzone r hr
        rw [hdomain]
        exact if_neg (by rw [htopology]; decide)
      have hnodup : (members.map fun r => r.failureDomain.name).Nodup :=
        List.pairwise_map.mpr (hrespected.distinct htopology)
      have heq : a = b :=
        List.inj_on_of_nodup_map hnodup ha hb ((hname a ha).trans (hname b hb).symm)
      exact hkey (congrArg domainKey heq)
    · -- one member where none is allowed
      obtain ⟨members, hrespected, -, hmembers, -⟩ := exists_respected hreq h .host
      obtain ⟨r, hr⟩ := List.exists_mem_of_ne_nil members hmembers
      have hmem : r ∈ inDomain members r.failureDomain.name :=
        List.mem_filter.mpr ⟨hr, decide_eq_true rfl⟩
      calc 0 < (inDomain members r.failureDomain.name).length := List.length_pos_of_mem hmem
        _ ≤ _ := hrespected.risk htopology r.failureDomain.name
  · rintro (hreq | henforced) cfg ops hok
    · exact absurd (acceptable_of_compose_ok (resourcesKeyed_run cfg ops) hok) hreq
    · obtain ⟨-, -, before, members, -, hplanned⟩ :=
        compose_planned (resourcesKeyed_run cfg ops) hok
      rw [hplanned.planMembers_eq]
      exact domainsRespected_of_checked (isOk_validateFailureDomains_iff.mp hplanned.domains)
        henforced

/-! ### Two nodes of one rack -/

/-- Half of the memory that is asked for, on a node of the rack `r`. -/
def rackMemory (id : ResourceId) (node : NodeId) : Resource ℚ :=
  { sampleMemory id 32 with
    nodeId := node
    failureDomain := { (default : FailureDomain ℚ) with type := .rack, name := str "r" } }

/-- An engine with two nodes in one rack. -/
def oneRack : Engine ℚ :=
  (fresh sampleConfig).run
    [.registerResource (rackMemory ⟨1⟩ ⟨1⟩), .registerResource (rackMemory ⟨2⟩ ⟨2⟩)]

/-- A request for 64 bytes in different failure domains, none of them a rack. -/
def distinctRequest : CompositionRequest ℚ :=
  { sampleRequest 64 with failureDomain := ⟨.distinctFailureDomains, 0, [.powerDomain]⟩ }

/-- **Two members of one rack are accepted as distinct failure domains**, although racks are
not among the allowed types either. -/
theorem oneRack_accepted :
    (oneRack.compose distinctRequest).2.ok = true ∧
      ¬ DomainsRespected distinctRequest
        (oneRack.planMembers (oneRack.compose distinctRequest).2.payload) := by
  have hnames : (oneRack.planMembers (oneRack.compose distinctRequest).2.payload).map
      (fun r => r.failureDomain.name) = [str "r", str "r"] := by decide +kernel
  refine ⟨by decide +kernel, fun h => ?_⟩
  have hpairwise := List.pairwise_map.mpr (h.distinct rfl)
  rw [hnames] at hpairwise
  exact (List.pairwise_cons.mp hpairwise).1 (str "r") List.mem_cons_self rfl

end Engine

end DFabric
