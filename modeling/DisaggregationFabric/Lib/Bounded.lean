import Mathlib.Algebra.BigOperators.Group.List.Basic
import Mathlib.Data.List.Forall2

/-!
# Enumeration up to a bound

A program that forms a product of lists of options one list at a time, and stops adding to
the list it builds once that list has `n` elements, keeps the first `n` elements of the
whole product: the loop that adds is `List.take` (`foldl_push`, `foldl_append_take`), and a
bound after every list comes to the same as one bound at the end, because each partial
choice can be continued in some way (`take_flatMap_take`, `foldl_extend_take`).

`product` lists the choices of one option from each list in lexicographic order, the first
list being the slowest.
-/

namespace Bounded

variable {α β : Type}

/-! ### Bounded loops -/

/-- Cutting an initial part first makes no difference. -/
theorem take_take_append (n : ℕ) (l m : List α) : (l.take n ++ m).take n = (l ++ m).take n := by
  rw [List.take_append, List.take_append, List.take_take, Nat.min_self, List.length_take]
  rcases Nat.le_total n l.length with h | h
  · rw [Nat.min_eq_left h, Nat.sub_self, Nat.sub_eq_zero_of_le h]
  · rw [Nat.min_eq_right h]

/-- A loop that appends the values of the elements it does not skip, until the bound is
reached. -/
theorem foldl_push (n : ℕ) (skip : β → Bool) (f : β → α) (l : List β) {out : List α}
    (hout : out.length ≤ n) :
    l.foldl (fun out b => if n ≤ out.length then out else if skip b then out else out ++ [f b])
      out = (out ++ (l.filter fun b => !skip b).map f).take n := by
  induction l generalizing out with
  | nil =>
    rw [List.foldl_nil, List.filter_nil, List.map_nil, List.append_nil, List.take_of_length_le hout]
  | cons b l ih =>
    rw [List.foldl_cons]
    by_cases hfull : n ≤ out.length
    · -- nothing more is added
      rw [if_pos hfull, ih hout, List.take_append_of_le_length hfull,
        List.take_append_of_le_length hfull]
    · rw [if_neg hfull]
      cases hskip : skip b with
      | true =>
        rw [if_pos rfl, ih hout, List.filter_cons_of_neg (by simp [hskip])]
      | false =>
        rw [if_neg Bool.false_ne_true, List.filter_cons_of_pos (by simp [hskip]), List.map_cons]
        have hlen : (out ++ [f b]).length ≤ n := by
          rw [List.length_append, List.length_singleton]
          omega
        rw [ih hlen, List.append_assoc, List.singleton_append]

/-- A loop whose body appends up to the bound. -/
theorem foldl_eq_take (n : ℕ) {step : List α → β → List α} {f : β → List α} {l : List β}
    (hstep : ∀ b ∈ l, ∀ out : List α, out.length ≤ n → step out b = (out ++ f b).take n)
    {out : List α} (hout : out.length ≤ n) :
    l.foldl step out = (out ++ l.flatMap f).take n := by
  induction l generalizing out with
  | nil => rw [List.foldl_nil, List.flatMap_nil, List.append_nil, List.take_of_length_le hout]
  | cons b l ih =>
    rw [List.forall_mem_cons] at hstep
    rw [List.foldl_cons, hstep.1 out hout, ih hstep.2 (List.length_take_le n _), take_take_append,
      List.append_assoc, List.flatMap_cons]

/-- A loop over bounded appends. -/
theorem foldl_append_take (n : ℕ) (f : β → List α) (l : List β) {out : List α}
    (hout : out.length ≤ n) :
    l.foldl (fun out b => (out ++ f b).take n) out = (out ++ l.flatMap f).take n :=
  foldl_eq_take n (fun _ _ _ _ => rfl) hout

/-- Only the first `n` elements matter for the first `n` results, if each has a result. -/
theorem take_flatMap_take (n : ℕ) (f : β → List α) {l : List β} (h : ∀ b ∈ l, f b ≠ []) :
    ((l.take n).flatMap f).take n = (l.flatMap f).take n := by
  induction l generalizing n with
  | nil => rw [List.take_nil]
  | cons b l ih =>
    rw [List.forall_mem_cons] at h
    cases n with
    | zero => rw [List.take_zero, List.take_zero]
    | succ n =>
      rw [List.take_succ_cons, List.flatMap_cons, List.flatMap_cons, List.take_append,
        List.take_append]
      congr 1
      -- at most `n` places are left for the results of the rest
      have hle : n + 1 - (f b).length ≤ n := by
        have := List.length_pos_of_ne_nil h.1
        omega
      calc ((l.take n).flatMap f).take (n + 1 - (f b).length)
          = (((l.take n).flatMap f).take n).take (n + 1 - (f b).length) := by
            rw [List.take_take, Nat.min_eq_left hle]
        _ = ((l.flatMap f).take n).take (n + 1 - (f b).length) := by rw [ih n h.2]
        _ = (l.flatMap f).take (n + 1 - (f b).length) := by
            rw [List.take_take, Nat.min_eq_left hle]

/-! ### Products -/

/-- The choices of one option from each list, in lexicographic order. -/
def product : List (List α) → List (List α)
  | [] => [[]]
  | l :: ls => l.flatMap fun a => (product ls).map (a :: ·)

/-- **A choice is one option from each list.** -/
theorem mem_product {ls : List (List α)} {c : List α} :
    c ∈ product ls ↔ List.Forall₂ (· ∈ ·) c ls := by
  induction ls generalizing c with
  | nil => rw [product, List.mem_singleton, List.forall₂_nil_right_iff]
  | cons l ls ih =>
    rw [product, List.mem_flatMap, List.forall₂_cons_right_iff]
    constructor
    · rintro ⟨a, ha, hc⟩
      obtain ⟨c', hc', rfl⟩ := List.mem_map.mp hc
      exact ⟨a, c', ha, ih.mp hc', rfl⟩
    · rintro ⟨a, c', ha, hc', rfl⟩
      exact ⟨a, ha, List.mem_map.mpr ⟨c', ih.mpr hc', rfl⟩⟩

theorem length_product (ls : List (List α)) : (product ls).length = (ls.map List.length).prod := by
  induction ls with
  | nil => rfl
  | cons l ls ih =>
    rw [product, List.length_flatMap, List.map_cons, List.prod_cons, ← ih]
    simp only [List.length_map, List.map_const', List.sum_replicate]
    rfl

/-- Each option of a choice is from one of the lists, and each list has an option. -/
theorem exists_of_mem_left {R : α → β → Prop} {l : List α} {l' : List β}
    (h : List.Forall₂ R l l') {a : α} (ha : a ∈ l) : ∃ b ∈ l', R a b := by
  induction h with
  | nil => exact absurd ha List.not_mem_nil
  | @cons a' b' l l' hR _ ih =>
    rcases List.mem_cons.mp ha with rfl | ha
    · exact ⟨b', List.mem_cons_self, hR⟩
    · obtain ⟨b, hb, hab⟩ := ih ha
      exact ⟨b, List.mem_cons_of_mem b' hb, hab⟩

/-- Continue every partial choice by every option of one more list. -/
def extend (cs ps : List (List α)) : List (List α) := cs.flatMap fun c => ps.map (c ++ ·)

/-- Continuing list by list goes through the choices in their order. -/
theorem foldl_extend (lss : List (List (List α))) (cs : List (List α)) :
    lss.foldl extend cs = cs.flatMap fun c => (product lss).map (c ++ List.flatten ·) := by
  -- on the levels, for any list that they extend
  induction lss generalizing cs with
  | nil =>
    have hnil : ∀ c : List α, (product []).map (c ++ List.flatten ·) = [c] := by
      intro c
      rw [product, List.map_singleton, List.flatten_nil, List.append_nil]
    rw [List.foldl_nil, funext hnil, List.flatMap_singleton']
  | cons ps lss ih =>
    -- both sides take a pick of the first level, then one of the rest
    rw [List.foldl_cons, ih, extend, List.flatMap_assoc]
    congr 1
    ext1 c
    rw [List.flatMap_map, product, List.map_flatMap]
    congr 1
    ext1 p
    rw [List.map_map]
    congr 1
    ext1 rest
    simp only [Function.comp_apply, List.flatten_cons, List.append_assoc]

/-- **A bound after every list is a bound at the end.** -/
theorem foldl_extend_take (n : ℕ) {lss : List (List (List α))} (h : ∀ ps ∈ lss, ps ≠ [])
    (cs : List (List α)) :
    lss.foldl (fun cs ps => (extend cs ps).take n) (cs.take n) = (lss.foldl extend cs).take n := by
  induction lss generalizing cs with
  | nil => rfl
  | cons ps lss ih =>
    rw [List.forall_mem_cons] at h
    rw [List.foldl_cons, List.foldl_cons, ← ih h.2]
    congr 1
    refine take_flatMap_take n _ fun c _ hnil => h.1 ?_
    exact List.map_eq_nil_iff.mp hnil

end Bounded
