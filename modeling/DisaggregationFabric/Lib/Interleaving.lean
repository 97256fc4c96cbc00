import DisaggregationFabric.Lib.Run
import Mathlib.Logic.Function.Basic

/-!
# Parties that do not disturb each other

Several parties drive one machine: an action is tagged with the party that takes it, and a
run is any interleaving. `told i` is what the party `i` is told along a run, and `alone i` is
the run that is left when all other parties keep still.

`isolated` is the rule for showing that a party cannot tell the difference. It asks for an
invariant between the shared machine and one private machine for each party: an action keeps
it when the shared machine and the private machine of the acting party take it, and both tell
the same. The invariant may use a number that counts the actions, up to a bound: what the
machine hands out may be limited.
-/

namespace Machine

variable {ι S A E : Type} [DecidableEq ι] (step : S → ι × A → S) (emit : S → ι × A → E)

/-- The actions of one party. -/
def alone (i : ι) (as : List (ι × A)) : List (ι × A) := as.filter fun a => a.1 = i

/-- What one party is told along a run. -/
def told (i : ι) (s : S) (as : List (ι × A)) : List E :=
  trace step (fun s a => if a.1 = i then [emit s a] else []) s as

variable {step emit}

theorem alone_cons_self (a : ι × A) (as : List (ι × A)) :
    alone a.1 (a :: as) = a :: alone a.1 as :=
  List.filter_cons_of_pos (decide_eq_true rfl)

theorem alone_cons_of_ne {i : ι} {a : ι × A} (h : a.1 ≠ i) (as : List (ι × A)) :
    alone i (a :: as) = alone i as :=
  List.filter_cons_of_neg (fun h' => h (of_decide_eq_true h'))

theorem told_cons_self (s : S) (a : ι × A) (as : List (ι × A)) :
    told step emit a.1 s (a :: as) = emit s a :: told step emit a.1 (step s a) as := by
  show (if a.1 = a.1 then [emit s a] else []) ++ _ = _
  rw [if_pos rfl]
  rfl

theorem told_cons_of_ne {i : ι} {a : ι × A} (h : a.1 ≠ i) (s : S) (as : List (ι × A)) :
    told step emit i s (a :: as) = told step emit i (step s a) as := by
  show (if a.1 = i then [emit s a] else []) ++ _ = _
  rw [if_neg h]
  rfl

/-- **Isolation.** What a party is told in an interleaving is what it is told alone. -/
theorem isolated {I : ℕ → S → (ι → S) → Prop} {N : ℕ}
    (hstep : ∀ n s t a, n < N → I n s t →
      I (n + 1) (step s a) (Function.update t a.1 (step (t a.1) a)) ∧
        emit s a = emit (t a.1) a)
    {n : ℕ} {s : S} {t : ι → S} {as : List (ι × A)} (hI : I n s t) (hlen : n + as.length ≤ N) :
    (∀ i, told step emit i s as = told step emit i (t i) (alone i as)) ∧
      I (n + as.length) (run step s as) fun i => run step (t i) (alone i as) := by
  induction as generalizing n s t with
  | nil => exact ⟨fun _ => rfl, hI⟩
  | cons a as ih =>
    rw [List.length_cons] at hlen ⊢
    obtain ⟨hnext, hemit⟩ := hstep n s t a (by omega) hI
    obtain ⟨htold, hrun⟩ := ih hnext (by omega)
    -- only the private machine of the acting party has moved
    have hprivate : ∀ i, run step (Function.update t a.1 (step (t a.1) a) i) (alone i as) =
        run step (t i) (alone i (a :: as)) := by
      intro i
      by_cases hi : a.1 = i
      · subst hi
        rw [Function.update_self, alone_cons_self, run_cons]
      · rw [Function.update_of_ne (Ne.symm hi), alone_cons_of_ne hi]
    refine ⟨fun i => ?_, ?_⟩
    · by_cases hi : a.1 = i
      · subst hi
        rw [told_cons_self, alone_cons_self, told_cons_self, htold a.1, hemit,
          Function.update_self]
      · rw [told_cons_of_ne hi, alone_cons_of_ne hi, htold i, Function.update_of_ne (Ne.symm hi)]
    · rw [funext hprivate] at hrun
      rw [run_cons, show n + (as.length + 1) = n + 1 + as.length by omega]
      exact hrun

end Machine
