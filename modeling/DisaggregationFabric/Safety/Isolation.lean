import DisaggregationFabric.Engine.Footprints
import DisaggregationFabric.Lib.Interleaving
import DisaggregationFabric.Safety.Authority

/-!
# Transactions over different resources

Any number of clients share an engine. Each has a plan of its own, calls `Reserve` until it has
succeeded, and from then on drives the composition with the other calls of the transaction, in
any order and number. The calls of different clients interleave in any way.

The order within a client matters: an id that was not reserved by the caller may be that of a
stored composition, and its `Release` would free members that others plan with.

When the plans have different ids and no member in common, no client can tell that it is not
alone (`isolated_clients`): every call returns to it what it would return if the other clients
kept still, and its composition goes through the same lifecycles.

`Concurrent` relates the shared engine to one private engine for each client: they are
`Twins` for the client's plan. A call moves the shared engine and the caller's private one,
and writes nothing that another plan reads. What the engine hands out are ids of
reservations, which repeat after `2 ^ 64` calls of `Reserve` only.
-/

namespace DFabric

namespace Engine

variable {D : Type} [Double D]

/-! ### The clients -/

/-- An engine with its clients: what `Reserve` has returned to each of them. -/
structure Clients (ι D : Type) where
  engine : Engine D
  reservation : ι → Option (Reservation D)

namespace Clients

variable {ι : Type} [DecidableEq ι]

/-- Clients that have not called yet. -/
def start (ι : Type) (s : Engine D) : Clients ι D := ⟨s, fun _ => none⟩

/-- A client makes a call, if it is its turn in the transaction: `Reserve` without a
reservation, the others with one. Any other call is not made. -/
def call (plans : ι → CompositionPlan D) (σ : Clients ι D) (a : ι × Call) :
    Clients ι D × Verdict :=
  match σ.reservation a.1 with
  | some r =>
    let asked := ask (plans a.1) r σ.engine a.2
    ({ σ with engine := asked.1 }, asked.2)
  | none =>
    match a.2 with
    | .reserve =>
      let rr := σ.engine.reserve (plans a.1)
      (⟨rr.1, if rr.2.ok then Function.update σ.reservation a.1 (some rr.2.payload)
        else σ.reservation⟩, rr.2.verdict)
    -- there is nothing of its own to commit, activate or release
    | _ => (σ, .idle)

/-- The engine and the clients after a call. -/
def step (plans : ι → CompositionPlan D) (σ : Clients ι D) (a : ι × Call) : Clients ι D :=
  (call plans σ a).1

/-- What a call returns. -/
def verdict (plans : ι → CompositionPlan D) (σ : Clients ι D) (a : ι × Call) : Verdict :=
  (call plans σ a).2

end Clients

/-! ### Frames -/

section Frames

variable {s s' t : Engine D} {plan other : CompositionPlan D} {rid rid' ridₒ : ReservationId}

omit [Double D] in
/-- What another plan writes is not seen. -/
theorem View.of_within (h : View plan s t) (hw : Within other ridₒ s s')
    (hid : plan.id ≠ other.id)
    (hdisjoint : ∀ v ∈ plan.graph.vertices, v ∉ other.graph.vertices) : View plan s' t where
  resources := hw.resources.trans h.resources
  epoch := hw.epoch.trans h.epoch
  ledger := h.ledger.of_eq fun k hk => hw.ledger k (hdisjoint k hk)
  fenced := (hw.fenced plan.id hid).trans h.fenced

omit [Double D] in
theorem Twins.of_within (h : Twins plan rid rid' s t) (hw : Within other ridₒ s s')
    (hid : plan.id ≠ other.id)
    (hdisjoint : ∀ v ∈ plan.graph.vertices, v ∉ other.graph.vertices) (hrid : rid ≠ ridₒ) :
    Twins plan rid rid' s' t := by
  obtain ⟨c, v, setId, hs, ht⟩ := h.recorded
  have hview := h.toView.of_within hw hid hdisjoint
  refine { hview with recorded := ⟨c, v, setId, ?_, ht⟩ }
  exact ⟨(hw.compositions plan.id hid).trans hs.composition, hs.own_id, hs.reservation,
    (hw.reservations rid hrid).trans hs.stored, hs.own_plan, hs.items⟩

omit [Double D] in
/-- Records that are twins have the same lifecycle. -/
theorem Twins.lifecycleOf (h : Twins plan rid rid' s t) :
    s.lifecycleOf plan.id = t.lifecycleOf plan.id := by
  obtain ⟨c, v, setId, hs, ht⟩ := h.recorded
  rw [Engine.lifecycleOf, Engine.lifecycleOf, hs.composition, ht.composition]
  rfl

end Frames

/-- `Reserve` hands out the counter, or nothing. -/
theorem nextResv_reserve (s : Engine D) (plan : CompositionPlan D) :
    ((s.reserve plan).1.nextResv = s.nextResv ∨ (s.reserve plan).1.nextResv = s.nextResv + 1) ∧
      ((s.reserve plan).2.ok = true → (s.reserve plan).1.nextResv = s.nextResv + 1 ∧
        (s.reserve plan).2.payload.id = ⟨s.nextResv⟩) := by
  unfold reserve
  split
  · exact ⟨Or.inl rfl, fun hok => by cases hok⟩
  split
  · exact ⟨Or.inl rfl, fun hok => by cases hok⟩
  split
  · exact ⟨Or.inr rfl, fun hok => by cases hok⟩
  · exact ⟨Or.inr rfl, fun _ => ⟨rfl, rfl⟩⟩

/-- A rejected `Reserve` stores no composition. -/
theorem compositions_reserve_rejected {s : Engine D} {plan : CompositionPlan D}
    (h : (s.reserve plan).2.ok = false) :
    (s.reserve plan).1.compositions = s.compositions := by
  unfold reserve at h ⊢
  -- the two guards, then a member that is refused
  split
  · rfl
  split
  · rfl
  next hplanned hid =>
  rw [if_neg hplanned, if_neg hid] at h
  rcases hm : s.reserveMembers plan.request plan.graph.vertices s.reservedAmount with
    ⟨held, items, _ | e⟩
  · rw [hm] at h
    cases h
  · rfl

namespace Clients

variable {ι : Type} [DecidableEq ι] {plans : ι → CompositionPlan D} {base : UInt64}

/-- How far the counter of reservations has come. -/
def issued (base : UInt64) (id : UInt64) : ℕ := (id - base).toNat

theorem issued_succ {id : UInt64} (h : issued base id + 1 < 2 ^ 64) :
    issued base (id + 1) = issued base id + 1 := by
  have hsub : id + 1 - base = id - base + 1 := by grind
  show (id + 1 - base).toNat = _
  rw [hsub, UInt64.toNat_add]
  exact Nat.mod_eq_of_lt h

/-- **The clients together, and each of them alone.** After `n` calls the shared engine looks
to every client like its private one. -/
structure Concurrent (plans : ι → CompositionPlan D) (base : UInt64) (n : ℕ) (σ : Clients ι D)
    (τ : ι → Clients ι D) : Prop where
  view : ∀ i, View (plans i) σ.engine (τ i).engine
  records : ∀ i, Option.Rel
    (fun r r' : Reservation D => Twins (plans i) r.id r'.id σ.engine (τ i).engine)
    (σ.reservation i) ((τ i).reservation i)
  lifecycle : ∀ i, σ.engine.lifecycleOf (plans i).id = (τ i).engine.lifecycleOf (plans i).id
  counted : issued base σ.engine.nextResv ≤ n
  older : ∀ i r, σ.reservation i = some r →
    issued base r.id.value < issued base σ.engine.nextResv
  distinct : ∀ i j r r', σ.reservation i = some r → σ.reservation j = some r' → i ≠ j →
    r.id ≠ r'.id

omit [Double D] [DecidableEq ι] in
theorem concurrent_start (s : Engine D) :
    Concurrent plans s.nextResv 0 (start ι s) fun _ => start ι s where
  view _ := ⟨rfl, rfl, fun _ _ => rfl, Iff.rfl⟩
  records _ := .none
  lifecycle _ := rfl
  counted := by
    show (s.nextResv - s.nextResv).toNat ≤ 0
    rw [UInt64.sub_self]
    exact le_rfl
  older _ _ h := by cases h
  distinct _ _ _ _ h := by cases h

section Steps

variable {n : ℕ} {σ : Clients ι D} {τ : ι → Clients ι D}
  (hids : ∀ i j, i ≠ j → (plans i).id ≠ (plans j).id)
  (hdisjoint : ∀ i j, i ≠ j → ∀ v ∈ (plans i).graph.vertices, v ∉ (plans j).graph.vertices)

include hids hdisjoint in
omit [Double D] in
/-- **A client writes within its plan**: the others see what they saw. -/
theorem Concurrent.write (h : Concurrent plans base n σ τ) {i : ι} {σ' τᵢ : Clients ι D}
    {rid : ReservationId} (hw : Within (plans i) rid σ.engine σ'.engine)
    (hothers : ∀ j, j ≠ i → σ'.reservation j = σ.reservation j)
    (hrid : ∀ j r, j ≠ i → σ.reservation j = some r → r.id ≠ rid)
    (hview : View (plans i) σ'.engine τᵢ.engine)
    (hrecords : Option.Rel
      (fun r r' : Reservation D => Twins (plans i) r.id r'.id σ'.engine τᵢ.engine)
      (σ'.reservation i) (τᵢ.reservation i))
    (hlifecycle : σ'.engine.lifecycleOf (plans i).id = τᵢ.engine.lifecycleOf (plans i).id)
    (hmore : issued base σ.engine.nextResv ≤ issued base σ'.engine.nextResv)
    (hcounted : issued base σ'.engine.nextResv ≤ n + 1)
    (hown : ∀ r, σ'.reservation i = some r →
      r.id = rid ∧ issued base r.id.value < issued base σ'.engine.nextResv) :
    Concurrent plans base (n + 1) σ' (Function.update τ i τᵢ) where
  view j := by
    by_cases hj : j = i
    · subst hj
      rw [Function.update_self]
      exact hview
    · rw [Function.update_of_ne hj]
      exact (h.view j).of_within hw (hids j i hj) (hdisjoint j i hj)
  records j := by
    by_cases hj : j = i
    · subst hj
      rw [Function.update_self]
      exact hrecords
    · rw [Function.update_of_ne hj, hothers j hj]
      -- a client has a reservation here if it has one alone
      have hold := h.records j
      revert hold
      rcases hr : σ.reservation j with _ | r <;> rcases (τ j).reservation j with _ | r'
      · exact fun _ => .none
      · exact fun hold => by cases hold
      · exact fun hold => by cases hold
      · rintro (htwins | _)
        exact .some (htwins.of_within hw (hids j i hj) (hdisjoint j i hj) (hrid j r hj hr))
  lifecycle j := by
    by_cases hj : j = i
    · subst hj
      rw [Function.update_self]
      exact hlifecycle
    · rw [Function.update_of_ne hj, ← h.lifecycle j]
      exact congrArg (Option.map Composition.lifecycle) (hw.compositions _ (hids j i hj))
  counted := hcounted
  older j r hr := by
    by_cases hj : j = i
    · subst hj
      exact (hown r hr).2
    · rw [hothers j hj] at hr
      exact (h.older j r hr).trans_le hmore
  distinct j k r r' hr hr' hne := by
    by_cases hj : j = i
    -- the id that is written is in use by the client of the call only
    · subst hj
      rw [hothers k (Ne.symm hne)] at hr'
      rw [(hown r hr).1]
      exact (hrid k r' (Ne.symm hne) hr').symm
    · rw [hothers j hj] at hr
      by_cases hk : k = i
      · subst hk
        rw [(hown r' hr').1]
        exact hrid j r hj hr
      · rw [hothers k hk] at hr'
        exact h.distinct j k r r' hr hr' hne

theorem call_of_some {σ : Clients ι D} {i : ι} {r : Reservation D} (asked : Call)
    (hr : σ.reservation i = some r) : call plans σ (i, asked) =
      ({ σ with engine := (ask (plans i) r σ.engine asked).1 },
        (ask (plans i) r σ.engine asked).2) := by
  simp only [call, hr]

theorem call_reserve {σ : Clients ι D} {i : ι} (hr : σ.reservation i = none) :
    call plans σ (i, .reserve) =
      (⟨(σ.engine.reserve (plans i)).1, if (σ.engine.reserve (plans i)).2.ok then
          Function.update σ.reservation i (some (σ.engine.reserve (plans i)).2.payload)
        else σ.reservation⟩, (σ.engine.reserve (plans i)).2.verdict) := by
  simp only [call, hr]

theorem call_of_none {σ : Clients ι D} {i : ι} {asked : Call} (hr : σ.reservation i = none)
    (hne : asked ≠ .reserve) : call plans σ (i, asked) = (σ, .idle) := by
  simp only [call, hr]

include hids hdisjoint in
/-- A call with a reservation. -/
theorem Concurrent.ask (h : Concurrent plans base n σ τ) {i : ι} {r r' : Reservation D}
    (hr : σ.reservation i = some r) (hr' : (τ i).reservation i = some r')
    (htwins : Twins (plans i) r.id r'.id σ.engine (τ i).engine) (asked : Call) :
    Concurrent plans base (n + 1) (Clients.step plans σ (i, asked))
        (Function.update τ i (Clients.step plans (τ i) (i, asked))) ∧
      verdict plans σ (i, asked) = verdict plans (τ i) (i, asked) := by
  obtain ⟨htold, htwins'⟩ := htwins.ask asked
  obtain ⟨c, v, setId, hs, -⟩ := htwins.recorded
  obtain ⟨hw, hnext⟩ := within_ask hs asked
  rw [Clients.step, Clients.step, verdict, verdict, call_of_some asked hr, call_of_some asked hr']
  -- the call writes under ids that the client has already, so the counter stays
  refine ⟨h.write hids hdisjoint hw (fun _ _ => rfl) ?_ htwins'.toView ?_ htwins'.lifecycleOf ?_ ?_
    ?_, htold⟩
  · exact fun j r₀ hj hr₀ => h.distinct j i r₀ r hr₀ hr hj
  · show Option.Rel _ (σ.reservation i) ((τ i).reservation i)
    rw [hr, hr']
    exact .some htwins'
  · exact (congrArg (issued base) hnext).ge
  · exact (congrArg (issued base) hnext).le.trans (h.counted.trans (Nat.le_succ n))
  · intro r₀ hr₀
    have hsame : r = r₀ := Option.some.inj (hr.symm.trans hr₀)
    subst hsame
    exact ⟨rfl, (h.older i r hr).trans_le (congrArg (issued base) hnext).ge⟩

include hids hdisjoint in
/-- A call of `Reserve`. -/
theorem Concurrent.reserve (h : Concurrent plans base n σ τ) (hn : n + 1 < 2 ^ 64) {i : ι}
    (hr : σ.reservation i = none) (hr' : (τ i).reservation i = none) :
    Concurrent plans base (n + 1) (Clients.step plans σ (i, .reserve))
        (Function.update τ i (Clients.step plans (τ i) (i, .reserve))) ∧
      verdict plans σ (i, .reserve) = verdict plans (τ i) (i, .reserve) := by
  obtain ⟨htold, hok', hview, htwins⟩ := (h.view i).reserve
  have hw := within_reserve (s := σ.engine) (plans i)
  obtain ⟨hnext, hissued⟩ := nextResv_reserve σ.engine (plans i)
  -- the counter moves by one at most, and what it was is not in use
  have hsucc : issued base (σ.engine.nextResv + 1) = issued base σ.engine.nextResv + 1 :=
    issued_succ ((Nat.succ_le_succ h.counted).trans_lt hn)
  have hmove : issued base σ.engine.nextResv ≤
      issued base (σ.engine.reserve (plans i)).1.nextResv ∧
      issued base (σ.engine.reserve (plans i)).1.nextResv ≤ n + 1 := by
    have hcounted := h.counted
    rcases hnext with heq | heq
    · rw [heq]
      omega
    · rw [heq, hsucc]
      omega
  have hunused : ∀ j r, j ≠ i → σ.reservation j = some r → r.id ≠ ⟨σ.engine.nextResv⟩ := by
    intro j r _ hj heq
    have hlt := h.older j r hj
    rw [heq] at hlt
    exact absurd hlt (lt_irrefl _)
  rw [Clients.step, Clients.step, verdict, verdict, call_reserve hr, call_reserve hr']
  by_cases hok : (σ.engine.reserve (plans i)).2.ok = true
  · rw [if_pos hok, if_pos (hok'.symm.trans hok)]
    obtain ⟨hlast, hid⟩ := hissued hok
    refine ⟨h.write hids hdisjoint hw (fun j hj => Function.update_of_ne hj _ _) hunused hview ?_
      (htwins hok).lifecycleOf hmove.1 hmove.2 ?_, htold⟩
    · dsimp only
      rw [Function.update_self, Function.update_self]
      exact .some (htwins hok)
    · intro r hr₀
      dsimp only at hr₀
      rw [Function.update_self] at hr₀
      cases hr₀
      refine ⟨hid, ?_⟩
      dsimp only
      rw [hid, hlast, hsucc]
      exact Nat.lt_succ_self _
  · rw [Bool.not_eq_true] at hok
    have hok₂ := hok'.symm.trans hok
    rw [if_neg (by rw [hok]; exact Bool.false_ne_true),
      if_neg (by rw [hok₂]; exact Bool.false_ne_true)]
    refine ⟨h.write hids hdisjoint hw (fun _ _ => rfl) hunused hview ?_ ?_ hmove.1 hmove.2 ?_,
      htold⟩
    · dsimp only
      rw [hr, hr']
      exact .none
    · show Option.map _ ((σ.engine.reserve (plans i)).1.compositions.lookup _) =
        Option.map _ (((τ i).engine.reserve (plans i)).1.compositions.lookup _)
      rw [compositions_reserve_rejected hok, compositions_reserve_rejected hok₂]
      exact h.lifecycle i
    · intro r hr₀
      exact absurd (hr.symm.trans hr₀) (Option.some_ne_none r).symm

include hids hdisjoint in
/-- **A call.** The client is told what it is told alone, and nobody else notices. -/
theorem Concurrent.step (h : Concurrent plans base n σ τ) (hn : n + 1 < 2 ^ 64) (a : ι × Call) :
    Concurrent plans base (n + 1) (Clients.step plans σ a)
        (Function.update τ a.1 (Clients.step plans (τ a.1) a)) ∧
      verdict plans σ a = verdict plans (τ a.1) a := by
  obtain ⟨i, asked⟩ := a
  have hrec := h.records i
  rcases hr : σ.reservation i with _ | r <;> rcases hr' : (τ i).reservation i with _ | r' <;>
    rw [hr, hr'] at hrec
  · -- no reservation yet: only `Reserve` does something
    by_cases hasked : asked = .reserve
    · subst hasked
      exact h.reserve hids hdisjoint hn hr hr'
    · rw [Clients.step, Clients.step, verdict, verdict, call_of_none hr hasked,
        call_of_none hr' hasked, Function.update_eq_self]
      exact ⟨{ h with counted := h.counted.trans (Nat.le_succ n) }, rfl⟩
  · cases hrec
  · cases hrec
  · rcases hrec with htwins | _
    exact h.ask hids hdisjoint hr hr' htwins asked

end Steps

/-- **Transactions over different resources are isolated.** From any engine, in any
interleaving of fewer than `2 ^ 64` calls of any number of clients, each with a plan that it
reserves before its other calls, where the plans have different ids and no member in common,
every client is told what it would be told if it were alone, and its composition ends in the
lifecycle it would end in. -/
theorem isolated_clients (s : Engine D) (plans : ι → CompositionPlan D)
    (hids : ∀ i j, i ≠ j → (plans i).id ≠ (plans j).id)
    (hdisjoint : ∀ i j, i ≠ j → ∀ v ∈ (plans i).graph.vertices, v ∉ (plans j).graph.vertices)
    (calls : List (ι × Call)) (hlen : calls.length < 2 ^ 64) (i : ι) :
    Machine.told (step plans) (verdict plans) i (start ι s) calls =
        Machine.told (step plans) (verdict plans) i (start ι s) (Machine.alone i calls) ∧
      (Machine.run (step plans) (start ι s) calls).engine.lifecycleOf (plans i).id =
        (Machine.run (step plans) (start ι s) (Machine.alone i calls)).engine.lifecycleOf
          (plans i).id := by
  have hisolated := Machine.isolated (I := Concurrent plans s.nextResv) (N := 2 ^ 64 - 1)
    (fun n σ τ a hn h => h.step hids hdisjoint (by omega) a) (concurrent_start s)
    (show 0 + calls.length ≤ _ by omega)
  exact ⟨hisolated.1 i, hisolated.2.lifecycle i⟩

/-- Two registered resources. -/
def pairEngine : Engine ℚ :=
  (fresh sampleConfig).run (sampleOps ++ [.registerResource (sampleMemory ⟨2⟩ 16)])

/-- Two clients, each with a plan over one of the resources. -/
def pairPlans (isFirst : Bool) : CompositionPlan ℚ :=
  { samplePlan with
    id := if isFirst then ⟨1⟩ else ⟨2⟩
    graph := { samplePlan.graph with vertices := [if isFirst then ⟨1⟩ else ⟨2⟩] } }

/-- The transactions of the two clients, interleaved. -/
def pairCalls : List (Bool × Call) := [
  (true, .reserve), (false, .reserve), (false, .commit), (true, .commit), (false, .release),
  (true, .activate), (false, .activate)]

/-- The first client gets its composition active, whatever the second one does. -/
theorem pair_isolated :
    Machine.told (step pairPlans) (verdict pairPlans) true (start Bool pairEngine) pairCalls =
      List.replicate 3 (.result .success [] []) :=
  (isolated_clients pairEngine pairPlans (by decide) (by decide) pairCalls (by decide) true).1.trans
    (by decide +kernel)

end Clients

end Engine

end DFabric