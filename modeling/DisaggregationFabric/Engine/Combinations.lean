import DisaggregationFabric.Engine.Planner
import DisaggregationFabric.Lib.Bounded
import DisaggregationFabric.Lib.Combinations

/-!
# What a demand by count enumerates

For a demand by count, `EnumerateSelections` chooses indices: the closure `combine` goes through
the first index in a loop and through the others by recursion, and stops once `cap` selections
are found. So it returns the first `cap` of the combinations in lexicographic order
(`combine_eq_take`, `enumerateSelections_eq_combinations`).

The closure of the source works on two vectors that all its calls share, takes an unsigned
difference for its loop bound, and subscripts without a test. `combineShared` follows it in
that, with a failure for a difference that wraps and for a subscript outside of the vector;
it does not fail, gives its prefix back as it was, and adds what `combine` adds
(`combineShared_eq`).
-/

namespace DFabric

open Combinations

variable {D : Type}

/-! ### The indices and the ids -/

/-- The ids of the candidates at the indices. -/
def idsAt (items : List (Resource D)) (c : List ℕ) : List ResourceId :=
  c.filterMap fun i => items[i]?.map (·.id)

theorem idsAt_cons (items : List (Resource D)) (i : ℕ) (c : List ℕ) :
    idsAt items (i :: c) = (items[i]?.map (·.id)).toList ++ idsAt items c := by
  rw [idsAt, idsAt, List.filterMap_cons]
  cases items[i]?.map (·.id) with
  | none => rfl
  | some a => rfl

/-- Indices of candidates are none of them dropped. -/
theorem map_some_idsAt {items : List (Resource D)} {c : List ℕ}
    (h : ∀ i ∈ c, i < items.length) :
    (idsAt items c).map some = c.map fun i => (items.map (·.id))[i]? := by
  induction c with
  | nil => rfl
  | cons i c ih =>
    rw [List.forall_mem_cons] at h
    rw [idsAt_cons, List.map_append, ih h.2, List.map_cons, List.getElem?_map,
      List.getElem?_eq_getElem h.1]
    rfl

/-- At all indices are all ids. -/
theorem idsAt_range (items : List (Resource D)) :
    idsAt items (List.range items.length) = items.map (·.id) := by
  have hall : ∀ i ∈ List.range items.length, i < items.length := fun i hi => List.mem_range.mp hi
  apply List.map_injective_iff.mpr (Option.some_injective ResourceId)
  rw [map_some_idsAt hall]
  refine List.ext_getElem (by simp) fun i hi hi' => ?_
  rw [List.length_map, List.length_map] at hi'
  simp [hi']

/-- Different candidates have different ids, so the indices can be read off the ids. -/
theorem map_idxOf_idsAt {items : List (Resource D)} {c : List ℕ}
    (hids : (items.map (·.id)).Nodup) (h : ∀ i ∈ c, i < items.length) :
    (idsAt items c).map (items.map (·.id)).idxOf = c := by
  induction c with
  | nil => rfl
  | cons i c ih =>
    rw [List.forall_mem_cons] at h
    -- an id stands at one place of the list only
    have hi : i < (items.map (·.id)).length := by
      rw [List.length_map]
      exact h.1
    have hidx := hids.idxOf_getElem i hi
    rw [List.getElem_map] at hidx
    rw [idsAt_cons, List.map_append, ih h.2, List.getElem?_eq_getElem h.1, Option.map_some,
      Option.toList_some, List.map_singleton, hidx, List.singleton_append]

/-! ### The recursion -/

/-- The unsigned difference of the loop bound does not wrap as long as no more indices are
needed than there are. -/
theorem bound_eq {k need : ℕ} (hk : k < 2 ^ 64) (hneed : need ≤ k) :
    (2 ^ 64 + k - need) % 2 ^ 64 = k - need := by
  rw [Nat.add_sub_assoc hneed, Nat.add_mod_left, Nat.mod_eq_of_lt (by omega)]

/-- **The recursion adds the combinations in order, up to the cap.** -/
theorem combine_eq_take (items : List (Resource D)) {k cap need : ℕ} (hk : k < 2 ^ 64)
    (hneed : need ≤ k) (start : ℕ) (cur : List ResourceId) {out : List (List ResourceId)}
    (hout : out.length ≤ cap) :
    combine items k cap need start cur out =
      (out ++ (choices need (List.range' start (k - start))).map fun c =>
        cur ++ idsAt items c).take cap := by
  induction need generalizing start cur out with
  | zero =>
    rw [combine, choices_zero, List.map_singleton]
    rcases Nat.lt_or_ge out.length cap with hlt | hfull
    · rw [if_neg (not_le.mpr hlt), List.take_of_length_le]
      · rw [idsAt, List.filterMap_nil, List.append_nil]
      · rw [List.length_append, List.length_singleton]
        exact hlt
    · rw [if_pos hfull, List.take_append_of_le_length hfull, List.take_of_length_le hout]
  | succ need ih =>
    rw [combine]
    rcases Nat.lt_or_ge out.length cap with hlt | hfull
    · have hbound : k - (need + 1) + 1 - start = k - need - start := by omega
      rw [if_neg (not_le.mpr hlt), bound_eq hk hneed, choices_range', List.map_flatMap]
      dsimp only
      rw [hbound]
      refine Bounded.foldl_eq_take cap ?_ hout
      -- one round of the loop: the combinations that start with `i`
      intro i _ out hout
      have hmap : (((choices need (List.range' (i + 1) (k - (i + 1)))).map (i :: ·)).map fun c =>
          cur ++ idsAt items c) = (choices need (List.range' (i + 1) (k - (i + 1)))).map fun c =>
            cur ++ (items[i]?.map (·.id)).toList ++ idsAt items c := by
        rw [List.map_map]
        refine List.map_congr_left fun c _ => ?_
        rw [Function.comp_apply, idsAt_cons, List.append_assoc]
      rw [hmap]
      rcases Nat.lt_or_ge out.length cap with hlt | hfull
      · rw [if_neg (not_le.mpr hlt), ih (by omega) (i + 1) _ hout]
      · rw [if_pos hfull, List.take_append_of_le_length hfull, List.take_of_length_le hout]
    · rw [if_pos hfull, List.take_append_of_le_length hfull, List.take_of_length_le hout]

/-! ### The closure on its captured vectors -/

/-- `combine` as the source has it, on the vectors `cur` and `out` that it captures. It fails
where `k - need` would wrap and where `items` would be subscripted outside of its bounds. -/
def combineShared (items : List (Resource D)) (k cap : ℕ) :
    ℕ → ℕ → List ResourceId × List (List ResourceId) →
      Option (List ResourceId × List (List ResourceId))
  | 0, _, (cur, out) => some (cur, if cap ≤ out.length then out else out ++ [cur])
  | need + 1, start, (cur, out) =>
    if cap ≤ out.length then some (cur, out)
    else if k < need + 1 then none
    else
      (List.range' start (k - (need + 1) + 1 - start)).foldlM (fun st i =>
        -- the early return, which the source has at the end of a round
        if cap ≤ st.2.length then some st
        else do
          let r ← items[i]?
          let st ← combineShared items k cap need (i + 1) (st.1 ++ [r.id], st.2)
          -- `pop_back`
          some (st.1.dropLast, st.2)) (cur, out)

/-- A loop that gives the first component of its state back after every round. -/
theorem foldlM_of_step {A B C : Type} {stepM : C × B → A → Option (C × B)} {step : B → A → B}
    {c : C} {l : List A} (h : ∀ a ∈ l, ∀ b, stepM (c, b) a = some (c, step b a)) (b : B) :
    l.foldlM stepM (c, b) = some (c, l.foldl step b) := by
  induction l generalizing b with
  | nil => rfl
  | cons a l ih =>
    rw [List.forall_mem_cons] at h
    rw [List.foldlM_cons, h.1 b, List.foldl_cons]
    exact ih h.2 (step b a)

/-- **The closure does not fail**: in no call does the difference wrap, no subscript is outside
of the candidates, and the prefix is left as it was. -/
theorem combineShared_eq {items : List (Resource D)} {k cap need : ℕ} (hk : k < 2 ^ 64)
    (hitems : k ≤ items.length) (hneed : need ≤ k) (start : ℕ) (cur : List ResourceId)
    (out : List (List ResourceId)) :
    combineShared items k cap need start (cur, out) =
      some (cur, combine items k cap need start cur out) := by
  induction need generalizing start cur out with
  | zero => rw [combineShared, combine]
  | succ need ih =>
    -- the loop of the source and the recursion, round by round
    rw [combineShared, combine]
    rcases Nat.lt_or_ge out.length cap with hlt | hfull
    · rw [if_neg (not_le.mpr hlt), if_neg (not_lt.mpr hneed), if_neg (not_le.mpr hlt),
        bound_eq hk hneed]
      refine foldlM_of_step ?_ out
      intro i hi out
      -- the bound of the loop keeps the index inside the list
      have hlt : i < items.length := by
        have hrange := List.mem_range'_1.mp hi
        omega
      dsimp only
      rcases Nat.lt_or_ge out.length cap with hlt' | hfull
      · rw [if_neg (not_le.mpr hlt'), if_neg (not_le.mpr hlt'), List.getElem?_eq_getElem hlt]
        dsimp only [bind, Option.bind]
        -- the call puts `cur` back as it was
        rw [ih (by omega), Option.map_some, Option.toList_some]
        dsimp only
        rw [List.dropLast_concat]
      · rw [if_pos hfull, if_pos hfull]
    · rw [if_pos hfull, if_pos hfull]

/-! ### The enumeration -/

/-- The source's `(d.count != 0) ? d.count : 1`. -/
theorem want_eq (count : UInt32) : (if count ≠ 0 then count.toNat else 1) = max count.toNat 1 := by
  split
  · next hne =>
    have hpos : 0 < count.toNat := Nat.pos_of_ne_zero fun h => hne (UInt32.toNat_inj.mp h)
    omega
  · next heq =>
    rw [not_not.mp heq]
    rfl

section ByCount

variable [Double D] {items : List (Resource D)} {d : ClassDemand D}

/-- By count, the enumeration is the recursion from the first index on. -/
theorem enumerateSelections_of_le (hcount : d.amountBased = false) (cap : ℕ)
    (hwant : max d.count.toNat 1 ≤ min items.length 8) :
    enumerateSelections items d cap =
      combine items (min items.length 8) cap (max d.count.toNat 1) 0 [] [] := by
  have hitems : items.isEmpty = false := by
    cases items with
    | nil => rw [List.length_nil] at hwant; omega
    | cons r items => rfl
  rw [enumerateSelections, hitems, if_neg Bool.false_ne_true]
  dsimp only
  rw [want_eq, if_neg (not_lt.mpr hwant), hcount, Bool.not_false, if_pos rfl]

/-- By count, nothing is enumerated where more is wanted than there is. -/
theorem enumerateSelections_of_lt (cap : ℕ) (hwant : min items.length 8 < max d.count.toNat 1) :
    enumerateSelections items d cap = [] := by
  rw [enumerateSelections]
  split
  · rfl
  · dsimp only
    rw [want_eq, if_pos hwant]

/-- The combinations of indices, in order, as ids and cut at the cap. -/
theorem enumerateSelections_eq_choices (hcount : d.amountBased = false) (cap : ℕ) :
    enumerateSelections items d cap =
      ((choices (max d.count.toNat 1) (List.range (min items.length 8))).take cap).map
        (idsAt items) := by
  rcases Nat.lt_or_ge (min items.length 8) (max d.count.toNat 1) with hlt | hle
  · rw [enumerateSelections_of_lt cap hlt, choices_eq_nil (by rw [List.length_range]; exact hlt),
      List.take_nil, List.map_nil]
  · rw [enumerateSelections_of_le hcount cap hle,
      combine_eq_take items (by omega) hle 0 [] (Nat.zero_le cap), List.nil_append, Nat.sub_zero,
      ← List.range_eq_range', List.map_take]
    rfl

/-- **By count, the capped list of combinations is enumerated.** With `m` the number of
candidates, eight at most, and `want` the count, one at least: the indices are the increasing
sequences of length `want` below `m`, in lexicographic order, the first `cap` of them, read as
ids. With different ids no selection repeats and none has a duplicate. The closure of the
source neither lets its loop bound wrap nor leaves the candidates. -/
theorem enumerateSelections_eq_combinations (items : List (Resource D)) (d : ClassDemand D)
    (cap : ℕ) (hcount : d.amountBased = false) (hids : (items.map (·.id)).Nodup) :
    let m := min items.length 8
    let want := max d.count.toNat 1
    let selections := enumerateSelections items d cap
    ∃ indices : List (List ℕ),
      indices.Pairwise (· < ·) ∧
      (∀ c, c ∈ indices ↔ c.length = want ∧ c.Pairwise (· < ·) ∧ ∀ i ∈ c, i < m) ∧
      indices.length = m.choose want ∧
      selections.map (·.map some) =
        (indices.take cap).map (·.map fun i => (items.map (·.id))[i]?) ∧
      selections.length = min cap (m.choose want) ∧
      selections.Nodup ∧ (∀ p ∈ selections, p.Nodup) ∧
      (want ≤ m → combineShared items m cap want 0 ([], []) = some ([], selections)) := by
  intro m want selections
  have hlength : (choices want (List.range m)).length = m.choose want := by
    rw [length_choices, List.length_range]
  have hmem : ∀ c, c ∈ choices want (List.range m) ↔
      c.length = want ∧ c.Pairwise (· < ·) ∧ ∀ i ∈ c, i < m := by
    intro c
    rw [mem_choices, sublist_range, and_comm]
  have hsel : selections = ((choices want (List.range m)).take cap).map (idsAt items) :=
    enumerateSelections_eq_choices hcount cap
  -- what is chosen are indices of candidates
  have hbelow : ∀ c ∈ (choices want (List.range m)).take cap, ∀ i ∈ c, i < items.length := by
    intro c hc i hi
    exact (((hmem c).mp (List.mem_of_mem_take hc)).2.2 i hi).trans_le (Nat.min_le_left _ _)
  have hsorted : (choices want (List.range m)).Pairwise (· < ·) :=
    pairwise_choices want List.pairwise_lt_range
  refine ⟨_, hsorted, hmem, hlength, ?_, ?_, ?_, ?_, ?_⟩
  · rw [hsel, List.map_map]
    exact List.map_congr_left fun c hc => map_some_idsAt (hbelow c hc)
  · rw [hsel, List.length_map, List.length_take, hlength]
  · -- two combinations with the same ids have the same indices
    rw [hsel]
    have hnodup : ((choices want (List.range m)).take cap).Nodup :=
      (hsorted.imp fun hlt => ne_of_lt hlt).sublist (List.take_sublist cap _)
    refine List.Nodup.map_on ?_ hnodup
    intro c hc c' hc' heq
    rw [← map_idxOf_idsAt hids (hbelow c hc), heq, map_idxOf_idsAt hids (hbelow c' hc')]
  · intro p hp
    rw [hsel] at hp
    obtain ⟨c, hc, rfl⟩ := List.mem_map.mp hp
    have hincreasing := ((hmem c).mp (List.mem_of_mem_take hc)).2.1
    have hc' : ((idsAt items c).map (items.map (·.id)).idxOf).Nodup := by
      rw [map_idxOf_idsAt hids (hbelow c hc)]
      exact hincreasing.imp fun hlt => ne_of_lt hlt
    exact hc'.of_map
  · intro hle
    rw [combineShared_eq (by omega) (Nat.min_le_left _ _) hle,
      ← enumerateSelections_of_le hcount cap hle]

end ByCount

/-- Three accelerators. -/
def threeItems : List (Resource ℚ) :=
  [{ (default : Resource ℚ) with id := ⟨7⟩ }, { (default : Resource ℚ) with id := ⟨8⟩ },
    { (default : Resource ℚ) with id := ⟨9⟩ }]

/-- Two of three, with a cap of two: of the three pairs the first two are enumerated. -/
theorem twoOfThree_enumerated :
    let d : ClassDemand ℚ := ⟨.accelerator, true, false, 0, 2, []⟩
    (enumerateSelections threeItems d 2).length = 2 ∧ (enumerateSelections threeItems d 2).Nodup ∧
      combineShared threeItems 3 2 2 0 ([], []) =
        some ([], enumerateSelections threeItems d 2) := by
  intro d
  obtain ⟨-, -, -, -, -, hlength, hnodup, -, hshared⟩ :=
    enumerateSelections_eq_combinations threeItems d 2 rfl (by decide)
  exact ⟨hlength, hnodup, hshared (by decide)⟩

example : enumerateSelections threeItems ⟨.accelerator, true, false, 0, 2, []⟩ 2 =
    [[⟨7⟩, ⟨8⟩], [⟨7⟩, ⟨9⟩]] := by decide +kernel

end DFabric
