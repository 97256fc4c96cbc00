import DisaggregationFabric.Engine.Discovery
import DisaggregationFabric.Safety.Evidence

/-!
# Connectivity after a discovery

`Discover` asks for the path between any two nodes and writes the answers into the table. It
takes nothing out: where no backend answers any more the old entry stays, available as it
was, and `Compose` joins members over it (`unlinked_joined`).

`discover_live_iff` says for which runs this does not happen. The table part holds step by
step (`tableLive_discover_iff`). That plans keep to it needs the run: planning writes only
pairs that have an entry (`grounded_compose`), so without `OnPathUpdate` every entry is
between nodes that are known (`EntriesKnown`), and of these the discovery speaks.
-/

namespace DFabric

namespace Engine

variable {s : Engine ℚ} {req : CompositionRequest ℚ}

/-! ### Connectivity -/

/-- **The table has the connectivity of the moment**: between different known nodes there is
an available entry exactly if some backend resolves the path, and it is the first answer. -/
def TableLive (s : Engine ℚ) : Prop :=
  ∀ a b, s.Known a → s.Known b → a ≠ b →
    ((∃ p, s.paths.find? (pathKey a b) = some p ∧ p.available = true) ↔
      ∃ pe, s.resolvePath (pairRequirement a b) = some pe) ∧
    ∀ pe, s.resolvePath (pairRequirement a b) = some pe → s.paths.find? (pathKey a b) = some pe

/-- Every plan joins its members over paths that some backend resolves. -/
def PlansLive (s : Engine ℚ) : Prop :=
  ∀ req, (s.compose req).2.ok = true → ∀ e ∈ (s.compose req).2.payload.graph.edges,
    ∀ a b, s.Crosses e a b → ∃ pe, s.resolvePath (pairRequirement a b) = some pe

/-- Between different nodes that are registered or reported: what the backends answer is
available, and where they do not answer the table has nothing available. -/
def Settled (s : Engine ℚ) : Prop :=
  ∀ a b, s.Reported a → s.Reported b → a ≠ b →
    match s.resolvePath (pairRequirement a b) with
    | some pe => pe.available = true
    | none => ∀ p, s.paths.find? (pathKey a b) = some p → p.available = false

/-- **When a `Discover` leaves the connectivity of the moment.** -/
theorem tableLive_discover_iff (s : Engine ℚ) : s.discover.1.TableLive ↔ s.Settled := by
  have hresolve : s.discover.1.resolvePath = s.resolvePath := by
    funext pr
    rw [resolvePath, resolvePath, backends_discover]
  unfold TableLive Settled
  simp only [known_discover, hresolve]
  refine forall_congr' fun a => forall_congr' fun b => forall_congr' fun ha =>
    forall_congr' fun hb => forall_congr' fun hne => ?_
  rw [find?_discover, if_pos ⟨ha, hb, hne⟩]
  rcases s.resolvePath (pairRequirement a b) with _ | pe
  · -- no answer: the old entry stays
    simp
  · simp

/-! ### Entries of known nodes -/

/-- The table has entries between known nodes only. -/
def EntriesKnown (s : Engine ℚ) : Prop :=
  ∀ a b p, s.paths.find? (pathKey a b) = some p → s.Known a ∧ s.Known b

/-- A file that is loaded has the nodes that the table has entries for. -/
def KeepsNodes (s : Engine ℚ) (op : Op ℚ) : Prop :=
  ∀ file (d : DurableState ℚ), op = .load file → loadImpl file = .ok d → ∀ a b p,
    s.paths.find? (pathKey a b) = some p → a ∈ d.nodes.map (·.id) ∧ b ∈ d.nodes.map (·.id)

/-- A known node stays known, unless a file without it is loaded. -/
theorem Known.step {a : NodeId} (h : s.Known a) {op : Op ℚ} (hdiscover : op.isDiscover = false)
    (hload : ∀ file (d : DurableState ℚ), op = .load file → loadImpl file = .ok d →
      a ∈ d.nodes.map (·.id)) : (s.step op).Known a := by
  rw [Known] at h ⊢
  cases s.step_tables hdiscover with
  | same _ hn => rwa [hn]
  | resource _ _ _ hn => rwa [hn]
  | status _ _ _ _ hn => rwa [hn]
  | policy _ _ _ _ hn => rwa [hn]
  | node n _ _ hn =>
    -- a node replaces at most its own entry
    rw [hn]
    by_cases hid : a = n.id
    · rw [hid, AList.lookup_insert]
      rfl
    · rwa [AList.lookup_insert_ne hid]
  | loaded file d hop hd hs =>
    -- the table is made anew from the file
    obtain ⟨n, hn, rfl⟩ := List.mem_map.mp (hload file d hop hd)
    obtain ⟨w, hw⟩ : ∃ w, (UMap.ofValues Node.id d.nodes).lookup n.id = some w :=
      UMap.exists_lookup_ofValues hn
    rw [hs]
    exact Option.isSome_iff_exists.mpr ⟨w, hw⟩

/-- **Without path updates, the table keeps to known nodes.** -/
theorem EntriesKnown.step (h : s.EntriesKnown) {op : Op ℚ} (hupdate : op.isPathUpdate = false)
    (hload : KeepsNodes s op) : (s.step op).EntriesKnown := by
  intro a b p hp
  -- an entry for the pair was there before, or a `Discover` has brought it
  by_cases hdiscover : op.isDiscover = true
  · cases op with
    | discover =>
      change s.discover.1.paths.find? (pathKey a b) = some p at hp
      change s.discover.1.Known a ∧ s.discover.1.Known b
      rw [known_discover, known_discover]
      rw [find?_discover] at hp
      split at hp
      · next hpair => exact ⟨hpair.1, hpair.2.1⟩
      · obtain ⟨ha, hb⟩ := h a b p hp
        exact ⟨Or.inl ha, Or.inl hb⟩
    | _ => cases hdiscover
  rw [Bool.not_eq_true] at hdiscover
  have hold : ∃ p, s.paths.find? (pathKey a b) = some p := by
    rcases s.step_paths hdiscover hupdate with heq | ⟨req, rfl⟩
    · exact ⟨p, heq ▸ hp⟩
    · rcases s.grounded_compose req a b with heq | ⟨q, hq⟩
      · exact ⟨p, heq.symm.trans hp⟩
      · exact ⟨q, hq.found⟩
  obtain ⟨q, hq⟩ := hold
  obtain ⟨ha, hb⟩ := h a b q hq
  exact ⟨ha.step hdiscover fun file d hop hd => (hload file d hop hd a b q hq).1,
    hb.step hdiscover fun file d hop hd => (hload file d hop hd a b q hq).2⟩

theorem EntriesKnown.run (h : s.EntriesKnown) {ops : List (Op ℚ)}
    (hupdates : ∀ op ∈ ops, op.isPathUpdate = false) (hloads : Along KeepsNodes s ops) :
    (s.run ops).EntriesKnown := by
  induction ops generalizing s with
  | nil => exact h
  | cons op ops ih =>
    rw [List.forall_mem_cons] at hupdates
    exact ih (h.step hupdates.1 hloads.1) hupdates.2 hloads.2

/-! ### Every discovery of a run -/

/-- A plan uses entries that are available, and so the connectivity of the moment. -/
theorem TableLive.plansLive (h : s.TableLive) (hkeyed : s.ResourcesKeyed)
    (hknown : s.EntriesKnown) : s.PlansLive := by
  intro req hok e he a b hcross
  obtain ⟨p, hp⟩ := usablePath_of_compose hkeyed hok he hcross
  obtain ⟨ha, hb⟩ := hknown a b p hp.found
  have hne : a ≠ b := by
    obtain ⟨_, _, _, _, rfl, rfl, hne⟩ := hcross
    exact hne
  exact (h a b ha hb hne).1.mp ⟨p, hp.found, hp.available⟩

/-- **When a discovery keeps no dead connectivity.** In every run without `OnPathUpdate`,
whatever the backends answer from one call to the next, whose loads keep the nodes of the
table: right after every `Discover` the table has the connectivity of the moment and every
plan keeps to it, if and only if at every `Discover`, between different nodes known by
then, what the backends answer is available and where they do not answer the table has
nothing available. -/
theorem discover_live_iff (cfg : EngineConfig) (ops : List (Op ℚ))
    (hupdates : ∀ op ∈ ops, op.isPathUpdate = false)
    (hloads : Along KeepsNodes (fresh cfg) ops) :
    Along (fun s op => op = .discover → s.discover.1.TableLive ∧ s.discover.1.PlansLive)
        (fresh cfg) ops ↔
      Along (fun s op => op = .discover → s.Settled) (fresh cfg) ops := by
  rw [Along, Along, Machine.along_iff, Machine.along_iff]
  refine forall_congr' fun pre => forall_congr' fun op => forall_congr' fun post =>
    forall_congr' fun hops => forall_congr' fun hop => ?_
  rw [← tableLive_discover_iff]
  refine and_iff_left_of_imp fun hlive => ?_
  -- the run up to this discovery, and with it
  subst hop
  have hpre : ((fresh cfg).run pre).EntriesKnown := by
    refine EntriesKnown.run (fun a b p hp => by cases hp) (fun op hop => ?_) ?_
    · exact hupdates op (hops ▸ List.mem_append_left _ hop)
    · rw [hops] at hloads
      exact (Machine.along_append.mp hloads).1
  have hknown : (((fresh cfg).run pre).step .discover).EntriesKnown :=
    hpre.step rfl fun file d hload _ => by cases hload
  have hkeyed := resourcesKeyed_run cfg (pre ++ [Op.discover])
  rw [run, Machine.run_append] at hkeyed
  exact hlive.plansLive hkeyed hknown

/-! ### A path that goes away -/

/-- Two nodes whose path is discovered. -/
def linked : List (Op ℚ) := twoNodes ++ [.addBackend (linkBackend 1000), .discover]

/-- As long as the backend answers, discoveries are live. -/
theorem linked_live :
    Along (fun s op => op = .discover → s.discover.1.TableLive ∧ s.discover.1.PlansLive)
      (fresh sampleConfig) linked := by
  refine (discover_live_iff sampleConfig linked (by decide) ?_).mpr ?_
  · exact ⟨by rintro _ _ ⟨⟩, by rintro _ _ ⟨⟩, by rintro _ _ ⟨⟩, by rintro _ _ ⟨⟩,
      by rintro _ _ ⟨⟩, by rintro _ _ ⟨⟩, trivial⟩
  · refine ⟨by rintro ⟨⟩, by rintro ⟨⟩, by rintro ⟨⟩, by rintro ⟨⟩, by rintro ⟨⟩, fun _ => ?_,
      trivial⟩
    exact fun a b _ _ _ => rfl

/-- The path is discovered, then no backend resolves it, and `Discover` is called again. -/
def unlinked : Engine ℚ :=
  (fresh sampleConfig).run (linked ++ [.backendsAnswer [], .discover])

/-- **A path that no backend resolves is kept and used.** -/
theorem unlinked_joined :
    (∀ op ∈ linked ++ [.backendsAnswer [], .discover], op.isPathUpdate = false) ∧
      ¬ unlinked.TableLive ∧ ¬ unlinked.PlansLive := by
  have hnone : ¬ ∃ pe, unlinked.resolvePath (pairRequirement ⟨1⟩ ⟨2⟩) = some pe := by
    rintro ⟨pe, hpe⟩
    cases hpe
  refine ⟨by decide, fun h => hnone ?_, fun h => hnone ?_⟩
  · -- the entry of the first discovery is still there
    have hentry : (unlinked.paths.find? (pathKey ⟨1⟩ ⟨2⟩)).map (·.available) = some true := by
      decide +kernel
    exact (h ⟨1⟩ ⟨2⟩ (by decide +kernel) (by decide +kernel) (by decide)).1.mp
      (Option.map_eq_some_iff.mp hentry)
  · -- and an edge of a plan relies on it
    have hedge : ∃ e ∈ (unlinked.compose linkRequest).2.payload.graph.edges,
        e.source = ⟨1⟩ ∧ e.target = ⟨2⟩ := by decide +kernel
    have hsource : (unlinked.resources.lookup ⟨1⟩).map (·.nodeId) = some ⟨1⟩ := by decide +kernel
    have htarget : (unlinked.resources.lookup ⟨2⟩).map (·.nodeId) = some ⟨2⟩ := by decide +kernel
    obtain ⟨e, he, hes, het⟩ := hedge
    obtain ⟨source, hs, hsnode⟩ := Option.map_eq_some_iff.mp hsource
    obtain ⟨target, ht, htnode⟩ := Option.map_eq_some_iff.mp htarget
    exact h linkRequest (by decide +kernel) e he ⟨1⟩ ⟨2⟩
      ⟨source, target, hes ▸ hs, het ▸ ht, hsnode, htnode, by decide⟩

end Engine

end DFabric
