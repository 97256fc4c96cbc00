import Mathlib.Data.List.Sort

/-!
# Sorting by a strict order

Mathlib's results on `List.insertionSort` are about a total relation. A comparator in the
style of `std::sort` is a strict one: it is transitive, never holds both ways, and decides
between any two elements that differ. On a list without repetitions that is enough for the
sorted list to be determined by the elements alone (`insertionSort_eq_of_perm`).
-/

namespace Sorting

variable {α : Type} {r : α → α → Prop} [DecidableRel r]

/-- The relation decides between any two different elements of the list. -/
def Decides (r : α → α → Prop) (l : List α) : Prop := ∀ a ∈ l, ∀ b ∈ l, a ≠ b → r a b ∨ r b a

omit [DecidableRel r] in
theorem Decides.of_subset {l l' : List α} (h : Decides r l) (hsub : l' ⊆ l) : Decides r l' :=
  fun a ha b hb hne => h a (hsub ha) b (hsub hb) hne

/-- Inserting an element that the relation decides about keeps a list in order. -/
theorem pairwise_orderedInsert (htrans : ∀ a b c, r a b → r b c → r a c) {a : α} {l : List α}
    (hl : l.Pairwise r) (hdec : ∀ b ∈ l, r a b ∨ r b a) : (l.orderedInsert r a).Pairwise r := by
  induction l with
  | nil => exact List.pairwise_singleton r a
  | cons b l ih =>
    rw [List.pairwise_cons] at hl
    rw [List.forall_mem_cons] at hdec
    rw [List.orderedInsert_cons]
    by_cases hab : r a b
    · -- in front of `b`, and by transitivity of everything behind it
      rw [if_pos hab, List.pairwise_cons, List.forall_mem_cons]
      exact ⟨⟨hab, fun c hc => htrans a b c hab (hl.1 c hc)⟩, List.pairwise_cons.mpr hl⟩
    · rw [if_neg hab, List.pairwise_cons]
      refine ⟨?_, ih hl.2 hdec.2⟩
      intro c hc
      rcases (List.mem_orderedInsert r).mp hc with rfl | hc
      · exact hdec.1.resolve_left hab
      · exact hl.1 c hc

/-- A list without repetitions is put in order. -/
theorem pairwise_insertionSort (htrans : ∀ a b c, r a b → r b c → r a c) {l : List α}
    (hnodup : l.Nodup) (hdec : Decides r l) : (l.insertionSort r).Pairwise r := by
  -- the head goes into the sorted rest
  induction l with
  | nil => exact List.Pairwise.nil
  | cons a l ih =>
    rw [List.nodup_cons] at hnodup
    rw [List.insertionSort_cons]
    refine pairwise_orderedInsert htrans
      (ih hnodup.2 (hdec.of_subset (List.subset_cons_self a l))) ?_
    intro b hb
    have hmem : b ∈ l := (List.mem_insertionSort r).mp hb
    have hne : a ≠ b := fun heq => hnodup.1 (heq ▸ hmem)
    exact hdec a List.mem_cons_self b (List.mem_cons_of_mem a hmem) hne

/-- **The sorted list does not depend on the order of the input.** -/
theorem insertionSort_eq_of_perm (htrans : ∀ a b c, r a b → r b c → r a c)
    (hasymm : ∀ a b, r a b → ¬ r b a) {l l' : List α} (hperm : l.Perm l') (hnodup : l.Nodup)
    (hdec : Decides r l) : l.insertionSort r = l'.insertionSort r := by
  have hdec' : Decides r l' := hdec.of_subset hperm.symm.subset
  refine List.Perm.eq_of_pairwise ?_ (pairwise_insertionSort htrans hnodup hdec)
    (pairwise_insertionSort htrans (hperm.nodup hnodup) hdec') ?_
  · exact fun a b _ _ hab hba => absurd hba (hasymm a b hab)
  · exact (List.perm_insertionSort r l).trans
      (hperm.trans (List.perm_insertionSort r l').symm)

end Sorting
