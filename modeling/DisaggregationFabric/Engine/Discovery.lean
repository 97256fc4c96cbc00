import DisaggregationFabric.Engine.Tables

/-!
# What a discovery does

A `Discover` takes in what the backends publish and then asks them for the path between any
two different nodes it knows by then. It makes known the nodes that are reported
(`known_discover`), and writes an answer over the entry of the pair; where there is no
answer the entry stays (`find?_discover`).
-/

namespace DFabric

namespace Engine

variable {D : Type}

/-! ### The nodes -/

/-- The node is registered. -/
def Known (s : Engine D) (a : NodeId) : Prop := (s.nodes.lookup a).isSome = true

/-- The node is registered, or one of the backends reports it. -/
def Reported (s : Engine D) (a : NodeId) : Prop :=
  s.Known a ∨ ∃ b ∈ s.backends, ∃ n ∈ b.discoverNodes, n.id = a ∧ n.id.isValid = true

instance (s : Engine D) (a : NodeId) : Decidable (s.Known a) :=
  inferInstanceAs (Decidable (_ = true))

instance (s : Engine D) (a : NodeId) : Decidable (s.Reported a) :=
  inferInstanceAs (Decidable (_ ∨ ∃ b ∈ s.backends, ∃ n ∈ b.discoverNodes, _))

theorem nodes_ingestNode (s : Engine D) (n : Node D) :
    (s.ingestNode n).nodes = if n.id.isValid then s.nodes.insert n.id n else s.nodes := by
  unfold ingestNode
  cases n.id.isValid with
  | false => rfl
  | true =>
    rw [if_neg (by decide), if_pos rfl]
    dsimp only
    split
    · split <;> rfl
    · rfl

/-- What a publication makes known. -/
theorem known_publish (s : Engine D) (p : Publication D) (a : NodeId) :
    (s.publish p).Known a ↔ s.Known a ∨ ∃ n, p = .node n ∧ n.id = a ∧ n.id.isValid = true := by
  cases p with
  | node n =>
    have hknown : (s.publish (.node n)).Known a ↔ s.Known a ∨ n.id = a ∧ n.id.isValid = true := by
      rw [Known, publish, nodes_ingestNode]
      split
      · next hvalid =>
        by_cases hid : n.id = a
        · rw [hid, AList.lookup_insert]
          exact iff_of_true rfl (Or.inr ⟨rfl, hid ▸ hvalid⟩)
        · rw [AList.lookup_insert_ne (Ne.symm hid)]
          exact (or_iff_left fun h => hid h.1).symm
      · next hvalid => exact (or_iff_left fun h => hvalid h.2).symm
    rw [hknown]
    refine or_congr_right ⟨fun h => ⟨n, rfl, h⟩, ?_⟩
    rintro ⟨n', heq, h⟩
    cases heq
    exact h
  | resource r =>
    -- a resource brings no node
    obtain ⟨resources, compositions, heq⟩ := s.ingestResource_eq (s.labelSynthetic r)
    rw [publish, heq]
    refine (or_iff_left ?_).symm
    rintro ⟨n, hn, -⟩
    cases hn

/-- The nodes that are known after some publications. -/
theorem known_publications (ps : List (Publication D)) (s : Engine D) (a : NodeId) :
    (Machine.run publish s ps).Known a ↔
      s.Known a ∨ ∃ n, Publication.node n ∈ ps ∧ n.id = a ∧ n.id.isValid = true := by
  induction ps generalizing s with
  | nil => simp
  | cons p ps ih =>
    rw [Machine.run_cons, ih, known_publish, or_assoc, ← exists_or]
    refine or_congr_right (exists_congr fun n => ?_)
    rw [List.mem_cons, or_and_right, eq_comm]

/-- Publications leave the backends and the paths alone. -/
theorem run_publish_eq (ps : List (Publication D)) (s : Engine D) :
    (Machine.run publish s ps).backends = s.backends ∧ (Machine.run publish s ps).paths = s.paths := by
  induction ps generalizing s with
  | nil => exact ⟨rfl, rfl⟩
  | cons p ps ih =>
    obtain ⟨hbackends, hpaths⟩ := ih (s.publish p)
    -- a publication writes nodes or resources, and sweeps
    have hone : (s.publish p).backends = s.backends ∧ (s.publish p).paths = s.paths := by
      cases p with
      | node n =>
        obtain ⟨nodes, compositions, heq⟩ := s.ingestNode_eq n
        rw [publish, heq]
        exact ⟨rfl, rfl⟩
      | resource r =>
        obtain ⟨resources, compositions, heq⟩ := s.ingestResource_eq (s.labelSynthetic r)
        rw [publish, heq]
        exact ⟨rfl, rfl⟩
    exact ⟨hbackends.trans hone.1, hpaths.trans hone.2⟩

variable [Double D]

/-- **What is known after a `Discover`.** -/
theorem known_discover (s : Engine D) (a : NodeId) : s.discover.1.Known a ↔ s.Reported a := by
  obtain ⟨paths, heq⟩ := s.discover_eq
  rw [heq]
  change (Machine.run publish s (publications s.backends)).Known a ↔ _
  rw [known_publications, Reported]
  refine or_congr_right ⟨?_, ?_⟩
  · -- the publications of a backend are its nodes, then its resources
    rintro ⟨n, hn, hid⟩
    obtain ⟨b, hb, hn⟩ := List.mem_flatMap.mp hn
    rcases List.mem_append.mp hn with hn | hn
    · obtain ⟨n', hn', heq⟩ := List.mem_map.mp hn
      cases heq
      exact ⟨b, hb, n, hn', hid⟩
    · obtain ⟨r, -, heq⟩ := List.mem_map.mp hn
      cases heq
  · rintro ⟨b, hb, n, hn, hid⟩
    exact ⟨n, List.mem_flatMap.mpr ⟨b, hb, List.mem_append_left _ (List.mem_map_of_mem hn)⟩, hid⟩

/-! ### The paths -/

/-- The requirement `Discover` asks the backends for. -/
def pairRequirement (a b : NodeId) : PathRequirement D :=
  { (default : PathRequirement D) with source := a, target := b, required := true }

/-- Asking for the path of one pair. -/
theorem find?_discoverPath (s : Engine D) (q : NodeId × NodeId) (a b : NodeId) :
    (s.discoverPath q.1 q.2).paths.find? (pathKey a b) =
      if (a, b) = q ∧ a ≠ b then
        (s.resolvePath (pairRequirement a b)).or (s.paths.find? (pathKey a b))
      else s.paths.find? (pathKey a b) := by
  by_cases hpair : (a, b) = q ∧ a ≠ b
  · obtain ⟨rfl, hne⟩ := hpair
    rw [if_pos ⟨rfl, hne⟩, discoverPath, if_neg hne]
    split
    · next pe hpe =>
      have hanswer : s.resolvePath (pairRequirement a b) = some pe := hpe
      rw [hanswer, OrdMap.find?_insert, if_pos rfl]
      rfl
    · next hnone =>
      have hanswer : s.resolvePath (pairRequirement a b) = none := hnone
      rw [hanswer]
      rfl
  · -- another pair, or no pair of different nodes
    rw [if_neg hpair, discoverPath]
    split
    · rfl
    next hne =>
    split
    · rw [OrdMap.find?_insert, if_neg]
      intro hkey
      obtain ⟨rfl, rfl⟩ := pathKey_injective hkey
      exact hpair ⟨rfl, hne⟩
    · rfl

/-- Asking for the paths of some pairs gives each of them the answer, if there is one. -/
theorem find?_foldl_discoverPath (l : List (NodeId × NodeId)) (s : Engine D) (a b : NodeId) :
    (l.foldl (fun s q => s.discoverPath q.1 q.2) s).paths.find? (pathKey a b) =
      if (a, b) ∈ l ∧ a ≠ b then
        (s.resolvePath (pairRequirement a b)).or (s.paths.find? (pathKey a b))
      else s.paths.find? (pathKey a b) := by
  induction l generalizing s with
  | nil => exact (if_neg fun h => List.not_mem_nil h.1).symm
  | cons q l ih =>
    have hresolve : (s.discoverPath q.1 q.2).resolvePath = s.resolvePath := by
      obtain ⟨paths, heq⟩ := s.discoverPath_eq q.1 q.2
      rw [heq]
      rfl
    rw [List.foldl_cons, ih, hresolve, find?_discoverPath]
    -- asking twice makes no difference
    by_cases hq : (a, b) = q <;> by_cases hl : (a, b) ∈ l <;> by_cases hab : a = b <;>
      simp [hq, hl, hab, ← Option.or_assoc]

/-- **What `Discover` does to the table**: a pair of different nodes that are known then has
the answer of the backends, if there is one, and every other pair what it had. -/
theorem find?_discover (s : Engine D) (a b : NodeId) :
    s.discover.1.paths.find? (pathKey a b) =
      if s.Reported a ∧ s.Reported b ∧ a ≠ b then
        (s.resolvePath (pairRequirement a b)).or (s.paths.find? (pathKey a b))
      else s.paths.find? (pathKey a b) := by
  obtain ⟨hbackends, hpaths⟩ := run_publish_eq (publications s.backends) s
  have hknown : ∀ a, (Machine.run publish s (publications s.backends)).Known a ↔ s.Reported a := by
    intro a
    obtain ⟨paths, heq⟩ := s.discover_eq
    rw [← known_discover, heq]
    rfl
  rw [discover_fst]
  dsimp only
  unfold Machine.run at hbackends hpaths hknown
  generalize (publications s.backends).foldl publish s = t at hbackends hpaths hknown ⊢
  have hresolve : t.resolvePath = s.resolvePath := by
    funext pr
    rw [resolvePath, resolvePath, hbackends]
  -- the two loops run over the pairs of known nodes
  have hloops : t.nodes.keys.foldl (fun s a => t.nodes.keys.foldl (fun s b => s.discoverPath a b) s)
      t = (t.nodes.keys.flatMap fun a => t.nodes.keys.map fun b => (a, b)).foldl
        (fun s q => s.discoverPath q.1 q.2) t := by
    rw [List.foldl_flatMap]
    simp only [List.foldl_map]
  have hkey : ∀ a, a ∈ t.nodes.keys ↔ s.Reported a := fun a =>
    AList.mem_keys.symm.trans (AList.lookup_isSome.symm.trans (hknown a))
  have hpairs : (a, b) ∈ (t.nodes.keys.flatMap fun a => t.nodes.keys.map fun b => (a, b)) ↔
      s.Reported a ∧ s.Reported b := by
    simp [hkey]
  rw [hloops, find?_foldl_discoverPath, hresolve, hpaths]
  simp only [hpairs, and_assoc]

theorem backends_discover (s : Engine D) : s.discover.1.backends = s.backends := by
  obtain ⟨paths, heq⟩ := s.discover_eq
  rw [heq]
  exact (run_publish_eq (publications s.backends) s).1

end Engine

end DFabric
