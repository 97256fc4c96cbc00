import DisaggregationFabric.Safety.Backing

/-!
# Identities after a load

The engine issues identities from four counters, and `Load` moves counters past what
it has loaded, "so new identities never collide with loaded ones". It does so for
three of them, and one of these by the wrong table:

* the counter of reservations is not moved at all (`reservation_id_reissued`);
* the counter of resource sets is moved past the ids of the nodes, not past those of
  the loaded resource sets;
* the counter of compositions is moved past the loaded ids, but one past the last
  64-bit value is zero.

A counter that is ahead of what was loaded stays ahead until it wraps around to zero
(`Ahead`). Where the engine's own counter of reservations is ahead of the file, and
its counter of resource sets or the nodes of the file are, no identity issued until
then is zero or one of the loaded ones (`ids_fresh_after_load`).
-/

namespace DFabric

namespace Op

variable {D : Type}

/-- The operation is a `Compose`. -/
def isCompose : Op D → Bool
  | .compose _ => true
  | _ => false

end Op

namespace Engine

variable {D : Type}

/-! ### Restored counters -/

/-- Restoring a counter never moves it back, unless a key is the last value. -/
theorem le_restoreCounter {keys : List UInt64} (h : ∀ k ∈ keys, k + 1 ≠ 0) (next : UInt64) :
    next ≤ restoreCounter next keys := by
  induction keys generalizing next with
  | nil => exact UInt64.le_refl next
  | cons k keys ih =>
    rw [List.forall_mem_cons] at h
    -- one round of the loop
    have hstep : next ≤ if next ≤ k then k + 1 else next := by
      split
      · next hle => exact (lt_of_le_of_lt hle (UInt64.lt_succ_of_ne_zero h.1)).le
      · exact le_rfl
    exact hstep.trans (ih h.2 _)

/-- Restoring a counter moves it past every key, unless a key is the last value. -/
theorem lt_restoreCounter {keys : List UInt64} (h : ∀ k ∈ keys, k + 1 ≠ 0) (next : UInt64)
    {k : UInt64} (hk : k ∈ keys) : k < restoreCounter next keys := by
  induction keys generalizing next with
  | nil => exact absurd hk List.not_mem_nil
  | cons k₁ keys ih =>
    rw [List.forall_mem_cons] at h
    rcases List.mem_cons.mp hk with rfl | hk
    · -- past this key now, and never back
      have hpast : k < if next ≤ k then k + 1 else next := by
        split
        · exact UInt64.lt_succ_of_ne_zero h.1
        · next hle => exact lt_of_not_ge hle
      exact lt_of_lt_of_le hpast (le_restoreCounter h.2 _)
    · exact ih h.2 _ hk

/-- The keys of a map built from records are those of the records. -/
theorem exists_of_mem_keys {K V : Type} [DecidableEq K] {key : V → K} {l : List V} {k : K}
    (h : k ∈ (UMap.ofValues key l).keys) :
    ∃ v ∈ l, v ∈ (UMap.ofValues key l).values ∧ key v = k := by
  obtain ⟨v, hv⟩ := Option.isSome_iff_exists.mp (AList.lookup_isSome.mpr (AList.mem_keys.mpr h))
  obtain ⟨hmem, hk⟩ := UMap.lookup_ofValues hv
  exact ⟨v, hmem, UMap.mem_values_of_lookup hv, hk⟩

/-- A record of the map is stored under its key. -/
theorem mem_keys_of_mem_values {K V : Type} [DecidableEq K] {key : V → K} {l : List V} {v : V}
    (h : v ∈ (UMap.ofValues key l).values) : key v ∈ (UMap.ofValues key l).keys := by
  obtain ⟨k, hk⟩ := UMap.exists_lookup_of_mem_values h
  have hsome : ((UMap.ofValues key l).lookup k).isSome = true := by rw [hk]; rfl
  rw [(UMap.lookup_ofValues hk).2]
  exact AList.mem_keys.mp (AList.lookup_isSome.mp hsome)

section Records

variable {T : Tag} {V : Type} {key : V → StrongId T} {l : List V}

/-- A counter restored from a table of records is not moved back, unless a record has
the last id. -/
theorem le_restoreCounter_ids
    (h : ∀ v ∈ (UMap.ofValues key l).values, (key v).value + 1 ≠ 0) (next : UInt64) :
    next ≤ restoreCounter next ((UMap.ofValues key l).keys.map StrongId.value) := by
  refine le_restoreCounter ?_ next
  intro k hk
  obtain ⟨id, hid, rfl⟩ := List.mem_map.mp hk
  obtain ⟨v, -, hv, rfl⟩ := exists_of_mem_keys hid
  exact h v hv

/-- A counter restored from a table of records is past the id of every record, unless a
record has the last id. -/
theorem lt_restoreCounter_ids
    (h : ∀ v ∈ (UMap.ofValues key l).values, (key v).value + 1 ≠ 0) (next : UInt64) {v : V}
    (hv : v ∈ (UMap.ofValues key l).values) :
    (key v).value < restoreCounter next ((UMap.ofValues key l).keys.map StrongId.value) := by
  refine lt_restoreCounter (fun k hk => ?_) next
    (List.mem_map.mpr ⟨key v, mem_keys_of_mem_values hv, rfl⟩)
  obtain ⟨id, hid, rfl⟩ := List.mem_map.mp hk
  obtain ⟨v', -, hv', rfl⟩ := exists_of_mem_keys hid
  exact h v' hv'

end Records

variable [Double D] [DoubleBits D]

/-! ### Counters ahead of what was loaded -/

/-- The file holds neither a composition nor a node with the last 64-bit id. -/
def TopFree (D : Type) [Double D] [DoubleBits D] (file : List UInt8) : Prop :=
  ∀ d ∈ (loadImpl file : Except Str (DurableState D)).toOption,
    (∀ c ∈ d.compositions, c.id.value + 1 ≠ 0) ∧ ∀ n ∈ d.nodes, n.id.value + 1 ≠ 0

instance (file : List UInt8) : Decidable (TopFree D file) :=
  inferInstanceAs (Decidable (∀ d ∈ _, _ ∧ _))

/-- The operation uses no counter that has wrapped around to zero, and loads no file
that makes one wrap around. -/
structure Unwrapped (s : Engine D) (op : Op D) : Prop where
  compose : op.isCompose = true → s.nextComp ≠ 0
  reserve : ∀ plan ∈ op.plan?, s.nextResv ≠ 0 ∧ s.nextRs ≠ 0
  load : ∀ file ∈ op.file?, s.nextComp ≠ 0 ∧ s.nextRs ≠ 0 ∧ TopFree D file

instance (s : Engine D) (op : Op D) : Decidable (Unwrapped s op) :=
  decidable_of_iff
    ((op.isCompose = true → s.nextComp ≠ 0) ∧
      (∀ plan ∈ op.plan?, s.nextResv ≠ 0 ∧ s.nextRs ≠ 0) ∧
      ∀ file ∈ op.file?, s.nextComp ≠ 0 ∧ s.nextRs ≠ 0 ∧ TopFree D file)
    ⟨fun h => ⟨h.1, h.2.1, h.2.2⟩, fun h => ⟨h.compose, h.reserve, h.load⟩⟩

/-- Until it wraps around, each counter is ahead of what was loaded. -/
structure Ahead (loaded : List (Composition D)) (s : Engine D) : Prop where
  comp : s.nextComp ≠ 0 → ∀ c ∈ loaded, c.id.value < s.nextComp
  resv : s.nextResv ≠ 0 → ∀ c ∈ loaded, c.reservation.value < s.nextResv
  rs : s.nextRs ≠ 0 → ∀ c ∈ loaded, c.resourceSetId.value < s.nextRs

omit [Double D] [DoubleBits D] in
theorem Ahead.congr {loaded : List (Composition D)} {s s' : Engine D} (h : Ahead loaded s)
    (hc : s'.nextComp = s.nextComp) (hv : s'.nextResv = s.nextResv) (hr : s'.nextRs = s.nextRs) :
    Ahead loaded s' where
  comp := by rw [hc]; exact h.comp
  resv := by rw [hv]; exact h.resv
  rs := by rw [hr]; exact h.rs

omit [DoubleBits D] in
/-- Ending a composition uses no counter. -/
theorem counters_endComposition (s : Engine D) (id : CompositionId) (c : Composition D) :
    (s.endComposition id c).nextComp = s.nextComp ∧
      (s.endComposition id c).nextResv = s.nextResv ∧
      (s.endComposition id c).nextRs = s.nextRs := by
  obtain ⟨held, resvs, heq⟩ := s.endReservation_eq c.reservation
  rw [endComposition, heq]
  exact ⟨rfl, rfl, rfl⟩

/-- **One step keeps the counters ahead.** -/
theorem Ahead.step {loaded : List (Composition D)} {s : Engine D} (h : Ahead loaded s) {op : Op D}
    (hop : Unwrapped s op) : Ahead loaded (s.step op) := by
  have hsucc : ∀ {n k : UInt64}, n + 1 ≠ 0 → k < n → k < n + 1 :=
    fun hn hk => hk.trans (UInt64.lt_succ_of_ne_zero hn)
  have heff := s.step_effect op
  generalize s.step op = s' at heff ⊢
  -- each counter is used by one operation at most, and counts up by one there
  cases heff with
  | quiet hq => exact h.congr hq.nextComp hq.nextResv hq.nextRs
  | composed req paths _ =>
    exact { comp := fun hne c hc => hsucc hne (h.comp (hop.compose rfl) c hc)
            resv := h.resv
            rs := h.rs }
  | reserveFailed plan held items e _ =>
    obtain ⟨hv, -⟩ := hop.reserve plan rfl
    exact { comp := h.comp
            resv := fun hne c hc => hsucc hne (h.resv hv c hc)
            rs := h.rs }
  | reserved plan held items _ _ _ =>
    obtain ⟨hv, hr⟩ := hop.reserve plan rfl
    exact { comp := h.comp
            resv := fun hne c hc => hsucc hne (h.resv hv c hc)
            rs := fun hne c hc => hsucc hne (h.rs hr c hc) }
  | rolledBack resIn resv comp held reason _ _ _ _ _ => exact h.congr rfl rfl rfl
  | committed resIn resv comp held _ _ _ _ _ _ => exact h.congr rfl rfl rfl
  | activated id comp _ _ _ _ _ => exact h.congr rfl rfl rfl
  | ended id comp fenced draining _ _ _ _ _ =>
    obtain ⟨hc, hv, hr⟩ := s.counters_endComposition id comp
    exact h.congr hc hv hr
  | loaded file d hd =>
    -- a later load moves the counters up, as its file is free of the last id
    obtain ⟨hc, hr, hfree⟩ := hop.load file rfl
    obtain ⟨hcomps, hnodes⟩ := hfree d (by rw [hd]; rfl)
    refine ⟨?_, h.resv, ?_⟩
    · intro _ c hmem
      refine lt_of_lt_of_le (h.comp hc c hmem) (le_restoreCounter (fun k hk => ?_) _)
      obtain ⟨cid, hcid, rfl⟩ := List.mem_map.mp hk
      obtain ⟨c₁, hc₁, -, rfl⟩ := exists_of_mem_keys hcid
      obtain ⟨c₀, hc₀, rfl⟩ := List.mem_map.mp hc₁
      exact hcomps c₀ hc₀
    · intro _ c hmem
      refine lt_of_lt_of_le (h.rs hr c hmem) (le_restoreCounter (fun k hk => ?_) _)
      obtain ⟨nid, hnid, rfl⟩ := List.mem_map.mp hk
      obtain ⟨n, hn, -, rfl⟩ := exists_of_mem_keys hnid
      exact hnodes n hn

/-- **The counters right after a load.** That of compositions has been moved past the
loaded ids. That of reservations is the one of before, and that of resource sets has
been moved past the nodes: they are ahead where these were. -/
theorem ahead_load {s : Engine D} {file : List UInt8} (hload : (s.load file).2 = .ok ())
    (hcomps : ∀ c ∈ (s.load file).1.compositions.values, c.id.value + 1 ≠ 0 ∧
      c.reservation.value < s.nextResv ∧ (c.resourceSetId.value < s.nextRs ∨
        ∃ n ∈ (s.load file).1.nodes.values, c.resourceSetId.value ≤ n.id.value))
    (hnodes : ∀ n ∈ (s.load file).1.nodes.values, n.id.value + 1 ≠ 0) :
    Ahead (s.load file).1.compositions.values (s.load file).1 := by
  unfold load at hload hcomps hnodes ⊢
  split at hload
  · next d hd =>
    simp only [hd] at hcomps hnodes ⊢
    -- compositions are counted on from their own ids, resource sets from the ids of the nodes
    refine ⟨?_, fun _ c hc => (hcomps c hc).2.1, ?_⟩
    · intro _ c hc
      exact lt_restoreCounter_ids (fun c hc => (hcomps c hc).1) s.nextComp hc
    · intro _ c hc
      rcases (hcomps c hc).2.2 with hown | ⟨n, hn, hle⟩
      · exact lt_of_lt_of_le hown (le_restoreCounter_ids hnodes s.nextRs)
      · exact lt_of_le_of_lt hle (lt_restoreCounter_ids hnodes s.nextRs hn)
  · cases hload

omit [DoubleBits D] in
/-- A plan carries the counter as its id. -/
theorem compose_id {s : Engine D} {req : CompositionRequest D}
    (hok : (s.compose req).2.ok = true) : (s.compose req).2.payload.id = ⟨s.nextComp⟩ := by
  obtain ⟨paths, ⟨hfail, -⟩ | ⟨-, -, plan, hplan⟩⟩ := s.compose_cases req
  · rw [hfail] at hok; cases hok
  · rw [hplan]; rfl

/-- **Identities issued after a load are fresh.** Take any engine and any file it
accepts. If the engine's counter of reservations is ahead of the loaded compositions,
each of their resource set ids is behind its counter of resource sets or not beyond
some loaded node, and no loaded composition or node has the last 64-bit id, then in
every run in which no counter is used after it has wrapped around, each id a
`Compose` returns and each id a `Reserve` assigns is valid and differs from the
loaded ones. -/
theorem ids_fresh_after_load (s : Engine D) (file : List UInt8) (ops : List (Op D)) :
    let s₁ := (s.load file).1
    let s₂ := s₁.run ops
    (s.load file).2 = .ok () →
    (∀ c ∈ s₁.compositions.values, c.id.value + 1 ≠ 0 ∧ c.reservation.value < s.nextResv ∧
      (c.resourceSetId.value < s.nextRs ∨
        ∃ n ∈ s₁.nodes.values, c.resourceSetId.value ≤ n.id.value)) →
    (∀ n ∈ s₁.nodes.values, n.id.value + 1 ≠ 0) →
    Along Unwrapped s₁ ops →
    (∀ req, Unwrapped s₂ (.compose req) → (s₂.compose req).2.ok = true →
      (s₂.compose req).2.payload.id.isValid = true ∧
        ∀ c ∈ s₁.compositions.values, (s₂.compose req).2.payload.id ≠ c.id) ∧
    ∀ plan, Unwrapped s₂ (.reserve plan) → (s₂.reserve plan).2.ok = true →
      (s₂.reserve plan).2.payload.id.isValid = true ∧
      (∀ c ∈ s₁.compositions.values, (s₂.reserve plan).2.payload.id ≠ c.reservation) ∧
      ∃ c', (s₂.reserve plan).1.compositions.lookup plan.id = some c' ∧
        c'.resourceSetId.isValid = true ∧
        ∀ c ∈ s₁.compositions.values, c'.resourceSetId ≠ c.resourceSetId := by
  intro s₁ s₂ hload hcomps hnodes hops
  -- the counters are ahead of everything loaded, and no step moves them back
  have hstart : Ahead s₁.compositions.values s₁ := ahead_load hload hcomps hnodes
  have hend : Ahead s₁.compositions.values s₂ :=
    Machine.invariant_of_along hstart (fun _ _ hs hop => hs.step hop) hops
  refine ⟨?_, ?_⟩
  · intro req hop hok
    have hne := hop.compose rfl
    rw [compose_id hok]
    refine ⟨StrongId.isValid_iff.mpr hne, fun c hc heq => ?_⟩
    have hlt := hend.comp hne c hc
    rw [← heq] at hlt
    exact lt_irrefl _ hlt
  · intro plan hop hok
    obtain ⟨hv, hr⟩ := hop.reserve plan rfl
    obtain ⟨held, items, -, hres⟩ := reserve_ok hok
    rw [hres]
    refine ⟨StrongId.isValid_iff.mpr hv, fun c hc heq => ?_, s₂.newComposition plan, ?_,
      StrongId.isValid_iff.mpr hr, fun c hc heq => ?_⟩
    · have hlt := hend.resv hv c hc
      rw [← heq] at hlt
      exact lt_irrefl _ hlt
    · change (s₂.compositions.insert _ _).lookup plan.id = _
      rw [UMap.lookup_insert_eq_ite, if_pos rfl]
    · have hlt := hend.rs hr c hc
      rw [← heq] at hlt
      exact lt_irrefl _ hlt

/-- The file of the sample engine after its transaction. -/
def sampleFile : List UInt8 :=
  ((fresh sampleConfig).run (sampleOps ++ sampleTransaction)).savedFile

/-- The sample engine loads its own file back: its counters are ahead of the loaded
composition, and the next plan is given a fresh id. -/
theorem sample_ids_fresh_after_load :
    let s := (fresh sampleConfig).run (sampleOps ++ sampleTransaction)
    let s₁ := (s.load sampleFile).1
    let s₂ := s₁.run sampleOps
    ∀ c ∈ s₁.compositions.values, (s₂.compose (sampleRequest 32)).2.payload.id ≠ c.id :=
  ((ids_fresh_after_load ((fresh sampleConfig).run (sampleOps ++ sampleTransaction)) sampleFile
    sampleOps (by decide +kernel) (by decide +kernel) (by decide +kernel) (by decide +kernel)).1
    (sampleRequest 32) (by decide +kernel) (by decide +kernel)).2

/-- **A reservation id is issued again.** A fresh engine loads the file of the sample
engine, and the next reservation is given the id the loaded composition refers to. -/
theorem reservation_id_reissued :
    ¬ ∀ (s : Engine ℚ) (file : List UInt8) (ops : List (Op ℚ)),
      (s.load file).2 = .ok () →
      ∀ plan, (((s.load file).1.run ops).reserve plan).2.ok = true →
        ∀ c ∈ (s.load file).1.compositions.values,
          (((s.load file).1.run ops).reserve plan).2.payload.id ≠ c.reservation := by
  intro h
  have hfresh := h (fresh sampleConfig) sampleFile (sampleOps ++ [.compose (sampleRequest 32)])
    (by decide +kernel) (restarted.compose (sampleRequest 32)).2.payload (by decide +kernel)
  revert hfresh
  decide +kernel

end Engine

end DFabric
