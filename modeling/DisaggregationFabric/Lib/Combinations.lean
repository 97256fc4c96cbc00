import Mathlib.Data.List.Lex
import Mathlib.Data.List.Sort
import Mathlib.Data.List.Sublists

/-!
# Combinations in lexicographic order

`choices n l` lists the ways to choose `n` elements of a list, keeping their order, such that
those with an early element come first. They are the sublists of length `n`
(`List.sublistsLen`, which lists them from the back), so there are `choose` many; and over an
increasing list they are in lexicographic order (`pairwise_choices`).

A program that chooses indices does so by a loop over the first index and a recursion over
the others. The loop may stop as soon as fewer indices are left than are needed:
`choices_range'` is its equation.
-/

namespace Combinations

variable {α : Type}

/-- The ways to choose `n` elements of `l`, in lexicographic order of their places. -/
def choices (n : ℕ) (l : List α) : List (List α) := (l.sublistsLen n).reverse

@[simp] theorem choices_zero (l : List α) : choices 0 l = [[]] := by
  rw [choices, List.sublistsLen_zero, List.reverse_singleton]

@[simp] theorem choices_succ_nil (n : ℕ) : choices (n + 1) ([] : List α) = [] := by
  rw [choices, List.sublistsLen_succ_nil, List.reverse_nil]

/-- With the first element, or without it. -/
theorem choices_succ_cons (n : ℕ) (a : α) (l : List α) :
    choices (n + 1) (a :: l) = (choices n l).map (a :: ·) ++ choices (n + 1) l := by
  rw [choices, List.sublistsLen_succ_cons, List.reverse_append, ← List.map_reverse, choices,
    choices]

theorem mem_choices {n : ℕ} {l c : List α} : c ∈ choices n l ↔ c.Sublist l ∧ c.length = n := by
  rw [choices, List.mem_reverse, List.mem_sublistsLen]

theorem length_choices (n : ℕ) (l : List α) : (choices n l).length = l.length.choose n := by
  rw [choices, List.length_reverse, List.length_sublistsLen]

/-- There is nothing to choose from a list that is too short. -/
theorem choices_eq_nil {n : ℕ} {l : List α} (h : l.length < n) : choices n l = [] := by
  rw [← List.length_eq_zero_iff, length_choices, Nat.choose_eq_zero_of_lt h]

/-- All elements are chosen in one way. -/
theorem choices_length_self (l : List α) : choices l.length l = [l] := by
  rw [choices, List.sublistsLen_length, List.reverse_singleton]

/-- **The order is lexicographic.** -/
theorem pairwise_choices [LinearOrder α] (n : ℕ) {l : List α} (h : l.Pairwise (· < ·)) :
    (choices n l).Pairwise (· < ·) := by
  induction l generalizing n with
  | nil =>
    cases n with
    | zero => simp
    | succ n => simp
  | cons a l ih =>
    obtain ⟨ha, hl⟩ := List.pairwise_cons.mp h
    cases n with
    | zero => simp
    | succ n =>
      rw [choices_succ_cons, List.pairwise_append]
      refine ⟨?_, ih (n + 1) hl, ?_⟩
      · exact List.pairwise_map.mpr ((ih n hl).imp fun hlt => List.cons_lt_cons_iff.mpr
          (Or.inr ⟨rfl, hlt⟩))
      · -- a choice without the first element starts with a later one
        intro c hc c' hc'
        obtain ⟨tail, -, rfl⟩ := List.mem_map.mp hc
        obtain ⟨hsub, hlen⟩ := mem_choices.mp hc'
        cases c' with
        | nil => cases hlen
        | cons b c' =>
          have hb : b ∈ l := hsub.subset List.mem_cons_self
          exact List.cons_lt_cons_iff.mpr (Or.inl (ha b hb))

/-- Sublists of a range are the increasing lists within it. -/
theorem sublist_range {c : List ℕ} {m : ℕ} :
    c.Sublist (List.range m) ↔ c.Pairwise (· < ·) ∧ ∀ i ∈ c, i < m := by
  constructor
  · intro h
    exact ⟨List.Pairwise.sublist h List.pairwise_lt_range,
      fun i hi => List.mem_range.mp (h.subset hi)⟩
  · rintro ⟨hsorted, hlt⟩
    have hnodup : c.Nodup := hsorted.imp fun hij => hij.ne
    have hsub : c ⊆ List.range m := fun i hi => List.mem_range.mpr (hlt i hi)
    exact List.sublist_of_subperm_of_pairwise (hnodup.subperm hsub) hsorted List.pairwise_lt_range

/-- **The loop over the first index.** It ends where fewer indices are left than are needed. -/
theorem choices_range' (n start stop : ℕ) :
    choices (n + 1) (List.range' start (stop - start)) =
      (List.range' start (stop - n - start)).flatMap fun i =>
        (choices n (List.range' (i + 1) (stop - (i + 1)))).map (i :: ·) := by
  generalize hk : stop - start = k
  induction k generalizing start with
  | zero =>
    have hend : stop - n - start = 0 := by omega
    rw [hend, List.range'_zero, choices_succ_nil, List.flatMap_nil]
  | succ k ih =>
    rcases Nat.eq_zero_or_pos (stop - n - start) with hend | hend
    · -- too few are left, with the first one and without it
      rw [hend, List.range'_zero, List.flatMap_nil]
      exact choices_eq_nil (by rw [List.length_range']; omega)
    · obtain ⟨j, hj⟩ : ∃ j, stop - n - start = j + 1 := ⟨stop - n - start - 1, by omega⟩
      have hrest : stop - n - (start + 1) = j := by omega
      have hfirst : stop - (start + 1) = k := by omega
      rw [hj, List.range'_succ, List.range'_succ, List.flatMap_cons, choices_succ_cons,
        ih (start + 1) hfirst, hrest, hfirst]

end Combinations
