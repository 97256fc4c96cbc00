import Mathlib.Data.List.Basic

/-!
# Runs of a deterministic machine

A machine is a total step function `S → A → S`; a run is a list of actions.
The file fixes the vocabulary the safety results are stated in:

* `run` — the state a list of actions leads to;
* `Along` — a condition on single steps that every step of the run meets;
* `trace` — what the steps of a run emit, in order;
* `count` — how many steps meet a condition;

and the induction rules over them: `invariant_run` for a state invariant,
`invariant_of_along` for one that needs the step condition, `history_run` and
`history_of_along` for an invariant that relates the state to what has been emitted so far,
`count_of_along` for steps that are paid for by a potential, and `exists_simulated_run` for a
simulation that pays for the steps it simulates.
-/

namespace Machine

variable {S A E : Type} (step : S → A → S)

/-- The state reached by performing the actions in order. -/
def run (s : S) (as : List A) : S := as.foldl step s

/-- Every step of the run meets the condition `C`, read at the state the step
is taken in. -/
def Along (C : S → A → Prop) : S → List A → Prop
  | _, [] => True
  | s, a :: as => C s a ∧ Along C (step s a) as

/-- What the run emits. -/
def trace (emit : S → A → List E) : S → List A → List E
  | _, [] => []
  | s, a :: as => emit s a ++ trace emit (step s a) as

/-- The number of steps that meet a condition. -/
def count (w : S → A → Bool) : S → List A → ℕ
  | _, [] => 0
  | s, a :: as => (w s a).toNat + count w (step s a) as

instance Along.decidable (C : S → A → Prop) [∀ s a, Decidable (C s a)] :
    ∀ s as, Decidable (Along step C s as)
  | _, [] => inferInstanceAs (Decidable True)
  | s, a :: as =>
    have := Along.decidable C (step s a) as
    inferInstanceAs (Decidable (C s a ∧ Along step C (step s a) as))

variable {step}

@[simp] theorem run_nil (s : S) : run step s [] = s := rfl

@[simp] theorem run_cons (s : S) (a : A) (as : List A) :
    run step s (a :: as) = run step (step s a) as := rfl

theorem run_append (s : S) (as bs : List A) :
    run step s (as ++ bs) = run step (run step s as) bs := List.foldl_append

theorem along_append {C : S → A → Prop} {s : S} {as bs : List A} :
    Along step C s (as ++ bs) ↔ Along step C s as ∧ Along step C (run step s as) bs := by
  induction as generalizing s with
  | nil => simp [Along]
  | cons a as ih => simp only [List.cons_append, Along, run_cons, ih, and_assoc]

theorem trace_append {emit : S → A → List E} {s : S} {as bs : List A} :
    trace step emit s (as ++ bs) = trace step emit s as ++ trace step emit (run step s as) bs := by
  induction as generalizing s with
  | nil => rfl
  | cons a as ih =>
    show emit s a ++ trace step emit (step s a) (as ++ bs) = _
    rw [ih, ← List.append_assoc]
    rfl

/-- What is emitted whatever the state. -/
theorem trace_const (emit : A → List E) (s : S) (as : List A) :
    trace step (fun _ => emit) s as = as.flatMap emit := by
  induction as generalizing s with
  | nil => rfl
  | cons a as ih =>
    show emit a ++ trace step (fun _ => emit) (step s a) as = _
    rw [ih, List.flatMap_cons]

/-- **A condition along a run** is a condition on every step, at the state the steps before
it lead to. -/
theorem along_iff {C : S → A → Prop} {s : S} {as : List A} :
    Along step C s as ↔ ∀ pre a post, as = pre ++ a :: post → C (run step s pre) a := by
  -- the first action, or one behind it
  induction as generalizing s with
  | nil =>
    refine iff_of_true trivial fun pre a post h => ?_
    exact absurd h.symm (List.append_ne_nil_of_right_ne_nil pre (List.cons_ne_nil a post))
  | cons a as ih =>
    constructor
    · rintro ⟨ha, has⟩ pre a' post h
      rcases pre with _ | ⟨a₀, pre⟩
      · cases h
        exact ha
      · cases h
        exact ih.mp has pre a' post rfl
    · intro h
      refine ⟨h [] a as rfl, ih.mpr fun pre a' post heq => ?_⟩
      exact h (a :: pre) a' post (by rw [heq, List.cons_append])

/-- A condition that every step meets is met along every run. -/
theorem along_of_forall {C : S → A → Prop} (h : ∀ s a, C s a) (s : S) (as : List A) :
    Along step C s as := by
  induction as generalizing s with
  | nil => trivial
  | cons a as ih => exact ⟨h s a, ih (step s a)⟩

/-- **Invariants under a step condition.** What every step meeting `C`
preserves holds at the end of every run whose steps all meet `C`. -/
theorem invariant_of_along {I : S → Prop} {C : S → A → Prop} {s : S} {as : List A}
    (hI : I s) (hstep : ∀ s a, I s → C s a → I (step s a)) (h : Along step C s as) :
    I (run step s as) := by
  induction as generalizing s with
  | nil => exact hI
  | cons a as ih => exact ih (hstep s a hI h.1) h.2

/-- **Invariants.** What every step preserves holds at the end of every run. -/
theorem invariant_run {I : S → Prop} {s : S} {as : List A}
    (hI : I s) (hstep : ∀ s a, I s → I (step s a)) : I (run step s as) := by
  induction as generalizing s with
  | nil => exact hI
  | cons a as ih => exact ih (hstep s a hI)

/-- **Invariants over the history.** `J es s` relates the state to what the run
has emitted so far. -/
theorem history_run {J : List E → S → Prop} {emit : S → A → List E} {es : List E} {s : S}
    {as : List A} (hJ : J es s) (hstep : ∀ es s a, J es s → J (es ++ emit s a) (step s a)) :
    J (es ++ trace step emit s as) (run step s as) := by
  induction as generalizing s es with
  | nil => rw [trace, List.append_nil]; exact hJ
  | cons a as ih =>
    rw [trace, ← List.append_assoc]
    exact ih (hstep es s a hJ)

/-- **Invariants over the history, under a step condition.** -/
theorem history_of_along {J : List E → S → Prop} {C : S → A → Prop} {emit : S → A → List E}
    {es : List E} {s : S} {as : List A} (hJ : J es s)
    (hstep : ∀ es s a, J es s → C s a → J (es ++ emit s a) (step s a)) (h : Along step C s as) :
    J (es ++ trace step emit s as) (run step s as) := by
  induction as generalizing s es with
  | nil => rw [trace, List.append_nil]; exact hJ
  | cons a as ih =>
    rw [trace, ← List.append_assoc]
    exact ih (hstep es s a hJ h.1) h.2

/-- **Steps that are paid for.** Where no step raises the potential `φ`, and every step that
meets the condition `w` lowers it, the potential bounds the number of these steps. -/
theorem count_of_along {I : S → Prop} {C : S → A → Prop} {φ : S → ℕ} {w : S → A → Bool} {s : S}
    {as : List A} (hI : I s) (hstep : ∀ s a, I s → C s a → I (step s a))
    (hφ : ∀ s a, I s → C s a → φ (step s a) + (w s a).toNat ≤ φ s) (h : Along step C s as) :
    φ (run step s as) + count step w s as ≤ φ s := by
  induction as generalizing s with
  | nil => exact Nat.le_refl _
  | cons a as ih =>
    calc φ (run step (step s a) as) + ((w s a).toNat + count step w (step s a) as)
        = φ (run step (step s a) as) + count step w (step s a) as + (w s a).toNat := by omega
      _ ≤ φ (step s a) + (w s a).toNat := Nat.add_le_add_right (ih (hstep s a hI h.1) h.2) _
      _ ≤ φ s := hφ s a hI h.1

/-- **Simulations that pay for the steps.** Where every step is simulated by one that pays, from
the potential of the simulating state, for the steps that meet the condition `w`, so is every
run. -/
theorem exists_simulated_run {X : Type} {R : S → X → Prop} {φ : X → ℕ} {w : S → A → Bool}
    (hstep : ∀ s x a, R s x → ∃ x', R (step s a) x' ∧ φ x' + (w s a).toNat ≤ φ x) {s : S} {x : X}
    (hR : R s x) (as : List A) :
    ∃ x', R (run step s as) x' ∧ φ x' + count step w s as ≤ φ x := by
  induction as generalizing s x with
  | nil => exact ⟨x, hR, Nat.le_refl _⟩
  | cons a as ih =>
    obtain ⟨x₁, hR₁, hφ₁⟩ := hstep s x a hR
    obtain ⟨x', hR', hφ⟩ := ih hR₁
    refine ⟨x', hR', ?_⟩
    calc φ x' + ((w s a).toNat + count step w (step s a) as)
        = φ x' + count step w (step s a) as + (w s a).toNat := by omega
      _ ≤ φ x₁ + (w s a).toNat := Nat.add_le_add_right hφ _
      _ ≤ φ x := hφ₁

end Machine
