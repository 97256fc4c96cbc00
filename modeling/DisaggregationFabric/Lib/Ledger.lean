import DisaggregationFabric.Lib.Double
import DisaggregationFabric.Lib.Maps
import Mathlib.Algebra.Order.BigOperators.Group.List
import Mathlib.Algebra.Order.Group.MinMax

/-!
# Ledgers of held amounts

A ledger records how much of each key is held; a key without an entry holds
nothing. `add` and `release` are the two updates: a release subtracts, clamps at
zero and drops the entry when nothing is left, and does nothing at a key without
an entry.

The operations are those of the program, over any number type. What they do to a key
depends on the entry of that key alone, so ledgers that `Agree` on some keys go on
doing so. The accounting is read at `ℚ`: `charge l k` is what a list of holds takes of
`k`, a release of holds the ledger covers subtracts exactly their charge
(`amount_releaseAll`), and a release at a key that holds nothing leaves it so
(`amount_releaseAll_of_zero`).
-/

namespace Ledger

section Operations

variable {K D : Type} [LinearOrder K] [Double D]

/-- The amount held of a key. -/
def amount (m : OrdMap K D) (k : K) : D := (m.find? k).getD Double.zero

/-- Indexing by `operator[]`: an absent entry is created with zero. -/
def touch (m : OrdMap K D) (k : K) : OrdMap K D :=
  match m.find? k with
  | some _ => m
  | none => m.insert k Double.zero

/-- Hold a further amount of a key. -/
def add (m : OrdMap K D) (k : K) (a : D) : OrdMap K D :=
  m.insert k (Double.add (amount m k) a)

/-- Give an amount of a key back. -/
def release (m : OrdMap K D) (k : K) (a : D) : OrdMap K D :=
  match m.find? k with
  | none => m
  | some v =>
    let nv := Double.sub v a
    let nv := if Double.lt nv Double.zero then Double.zero else nv
    if Double.eq nv Double.zero then m.erase k else m.insert k nv

/-- Give a list of holds back, one by one. -/
def releaseAll (m : OrdMap K D) (l : List (K × D)) : OrdMap K D :=
  l.foldl (fun m e => release m e.1 e.2) m

/-- An entry that is created with zero holds nothing. -/
theorem amount_touch (m : OrdMap K D) (k k' : K) : amount (touch m k) k' = amount m k' := by
  unfold touch
  split
  · rfl
  · next h =>
    rw [amount, OrdMap.find?_insert, amount]
    by_cases hk : k' = k
    · subst hk; simp [h]
    · rw [if_neg hk]

theorem amount_add_eq_ite (m : OrdMap K D) (k k' : K) (a : D) :
    amount (add m k a) k' = if k' = k then Double.add (amount m k') a else amount m k' := by
  rw [amount, add, OrdMap.find?_insert]
  by_cases h : k' = k
  · subst h
    rw [if_pos rfl, if_pos rfl]
    rfl
  · rw [if_neg h, if_neg h, amount]

theorem find?_release_of_ne (m : OrdMap K D) {k k' : K} (a : D) (h : k' ≠ k) :
    (release m k a).find? k' = m.find? k' := by
  unfold release
  split
  · rfl
  · next v _ =>
    dsimp only
    generalize (if Double.lt (Double.sub v a) Double.zero then Double.zero
      else Double.sub v a) = nv
    split
    · rw [OrdMap.find?_erase, if_neg h]
    · rw [OrdMap.find?_insert, if_neg h]

/-- Releasing holds of other keys leaves an entry alone. -/
theorem find?_releaseAll_of_forall_ne (m : OrdMap K D) {l : List (K × D)} {k : K}
    (h : ∀ e ∈ l, e.1 ≠ k) : (releaseAll m l).find? k = m.find? k := by
  induction l generalizing m with
  | nil => rfl
  | cons e l ih =>
    rw [List.forall_mem_cons] at h
    have hrest : (releaseAll (release m e.1 e.2) l).find? k = (release m e.1 e.2).find? k :=
      ih _ h.2
    rw [find?_release_of_ne m e.2 (Ne.symm h.1)] at hrest
    exact hrest

/-- A release does not create an entry. -/
theorem find?_releaseAll_of_none {m : OrdMap K D} {k : K} (l : List (K × D))
    (h : m.find? k = none) : (releaseAll m l).find? k = none := by
  induction l generalizing m with
  | nil => exact h
  | cons e l ih =>
    refine ih (m := release m e.1 e.2) ?_
    by_cases hk : k = e.1
    · rw [release, ← hk, h]
      exact h
    · rw [find?_release_of_ne m e.2 hk, h]

/-! ### Ledgers that agree -/

theorem find?_touch (m : OrdMap K D) (k k' : K) :
    (touch m k).find? k' = if k' = k then some (amount m k) else m.find? k' := by
  unfold touch amount
  split
  · next v h =>
    split
    · next hk => rw [hk, h, Option.getD_some]
    · rfl
  · next h => rw [OrdMap.find?_insert, h, Option.getD_none]

theorem find?_add (m : OrdMap K D) (k k' : K) (a : D) :
    (add m k a).find? k' = if k' = k then some (Double.add (amount m k) a) else m.find? k' := by
  rw [add, OrdMap.find?_insert]

/-- The two ledgers have the same entries for the keys of the list. -/
def Agree (ks : List K) (m m' : OrdMap K D) : Prop := ∀ k ∈ ks, m.find? k = m'.find? k

namespace Agree

variable {ks : List K} {m m' : OrdMap K D}

theorem amount (h : Agree ks m m') {k : K} (hk : k ∈ ks) :
    Ledger.amount m k = Ledger.amount m' k := by
  rw [Ledger.amount, Ledger.amount, h k hk]

theorem touch (h : Agree ks m m') {k : K} (hk : k ∈ ks) :
    Agree ks (Ledger.touch m k) (Ledger.touch m' k) := by
  intro k' hk'
  rw [find?_touch, find?_touch, h k' hk', h.amount hk]

theorem add (h : Agree ks m m') {k : K} (hk : k ∈ ks) (a : D) :
    Agree ks (Ledger.add m k a) (Ledger.add m' k a) := by
  intro k' hk'
  rw [find?_add, find?_add, h k' hk', h.amount hk]

theorem release (h : Agree ks m m') {k : K} (hk : k ∈ ks) (a : D) :
    Agree ks (Ledger.release m k a) (Ledger.release m' k a) := by
  intro k' hk'
  unfold Ledger.release
  rw [h k hk]
  -- a key that neither has, or one with the same amount in both
  split
  · exact h k' hk'
  · next v _ =>
    dsimp only
    generalize (if Double.lt (Double.sub v a) Double.zero then Double.zero
      else Double.sub v a) = nv
    split
    · rw [OrdMap.find?_erase, OrdMap.find?_erase, h k' hk']
    · rw [OrdMap.find?_insert, OrdMap.find?_insert, h k' hk']

theorem releaseAll {l : List (K × D)} (hl : ∀ e ∈ l, e.1 ∈ ks) (h : Agree ks m m') :
    Agree ks (Ledger.releaseAll m l) (Ledger.releaseAll m' l) := by
  induction l generalizing m m' with
  | nil => exact h
  | cons e l ih =>
    rw [List.forall_mem_cons] at hl
    exact ih hl.2 (h.release hl.1 e.2)

omit [Double D] in
/-- A ledger that was changed elsewhere agrees as before. -/
theorem of_eq {m'' : OrdMap K D} (h : Agree ks m m') (heq : ∀ k ∈ ks, m''.find? k = m.find? k) :
    Agree ks m'' m' := fun k hk => (heq k hk).trans (h k hk)

end Agree

end Operations

/-! ### Exact accounting -/

variable {K : Type} [LinearOrder K]

/-- What a list of holds takes of a key. -/
def charge (l : List (K × ℚ)) (k : K) : ℚ :=
  ((l.filter fun e => e.1 = k).map Prod.snd).sum

@[simp] theorem charge_nil (k : K) : charge [] k = 0 := rfl

theorem charge_cons (e : K × ℚ) (l : List (K × ℚ)) (k : K) :
    charge (e :: l) k = (if e.1 = k then e.2 else 0) + charge l k := by
  by_cases h : e.1 = k <;> simp [charge, h]

theorem charge_singleton (e : K × ℚ) (k : K) : charge [e] k = if e.1 = k then e.2 else 0 := by
  rw [charge_cons, charge_nil, add_zero]

/-- The charge of a list splits off its head. -/
theorem charge_head_add (e : K × ℚ) (l : List (K × ℚ)) (k : K) :
    charge (e :: l) k = charge [e] k + charge l k := by
  rw [charge_cons, charge_singleton]

theorem charge_nonneg {l : List (K × ℚ)} (h : ∀ e ∈ l, 0 ≤ e.2) (k : K) : 0 ≤ charge l k := by
  refine List.sum_nonneg ?_
  intro x hx
  obtain ⟨e, he, rfl⟩ := List.mem_map.mp hx
  exact h e (List.mem_of_mem_filter he)

/-- A hold is part of the charge. -/
theorem le_charge_of_mem {l : List (K × ℚ)} (h : ∀ e ∈ l, 0 ≤ e.2) {e : K × ℚ} (he : e ∈ l) :
    e.2 ≤ charge l e.1 := by
  -- the entry itself, and the others add nothing negative
  induction l with
  | nil => exact absurd he List.not_mem_nil
  | cons a l ih =>
    have htail : ∀ e ∈ l, 0 ≤ e.2 := fun e he => h e (List.mem_cons_of_mem a he)
    rw [charge_cons]
    rcases List.mem_cons.mp he with rfl | he
    · rw [if_pos rfl]
      exact le_add_of_nonneg_right (charge_nonneg htail _)
    · have hhead : 0 ≤ if a.1 = e.1 then a.2 else 0 := by
        split
        · exact h a List.mem_cons_self
        · exact le_rfl
      exact le_add_of_nonneg_of_le hhead (ih htail he)

/-- Holds that amount to nothing at a key charge nothing there. -/
theorem charge_eq_zero {l : List (K × ℚ)} {k : K} (h : ∀ e ∈ l, e.1 = k → e.2 = 0) :
    charge l k = 0 := by
  induction l with
  | nil => rfl
  | cons e l ih =>
    rw [List.forall_mem_cons] at h
    rw [charge_cons, ih h.2, add_zero]
    split
    · next he => exact h.1 he
    · rfl

/-- Entries that hold nothing. -/
theorem amount_nonpos {m : OrdMap K ℚ} (h : ∀ e ∈ m.entries, e.2 ≤ 0) (k : K) :
    amount m k ≤ 0 := by
  rcases hk : m.find? k with _ | a
  · simp [amount, hk]
  · have hmem : (⟨k, a⟩ : (_ : K) × ℚ) ∈ m.entries := List.of_mem_dlookup hk
    simpa [amount, hk] using h _ hmem

theorem amount_add (m : OrdMap K ℚ) (k k' : K) (a : ℚ) :
    amount (add m k a) k' = amount m k' + charge [(k, a)] k' := by
  rw [charge_singleton, amount_add_eq_ite]
  by_cases h : k' = k
  · rw [if_pos h, if_pos h.symm]
    rfl
  · rw [if_neg h, if_neg (Ne.symm h), add_zero]

/-- What a release makes of an entry: the difference, clamped at zero, or nothing when
that is zero. -/
theorem find?_release {m : OrdMap K ℚ} {k : K} {v : ℚ} (h : m.find? k = some v) (a : ℚ) (k' : K) :
    (release m k a).find? k' =
      if k' = k then if max 0 (v - a) = 0 then none else some (max 0 (v - a))
      else m.find? k' := by
  -- the amount is cut off at zero
  have hclamp : (if Double.lt (Double.sub v a) (Double.zero : ℚ) then (Double.zero : ℚ)
      else Double.sub v a) = max 0 (v - a) := by
    rcases lt_or_ge (v - a) 0 with hneg | hpos
    · simp [hneg, max_eq_left hneg.le]
    · simp [not_lt.mpr hpos, max_eq_right hpos]
  have hzero : Double.eq (max 0 (v - a)) (Double.zero : ℚ) = decide (max 0 (v - a) = 0) := rfl
  unfold release
  rw [h]
  dsimp only
  rw [hclamp, hzero]
  -- and an entry with nothing left is erased
  by_cases hz : max 0 (v - a) = 0
  · rw [decide_eq_true hz, if_pos rfl, if_pos hz, OrdMap.find?_erase]
  · rw [decide_eq_false hz, if_neg Bool.false_ne_true, if_neg hz, OrdMap.find?_insert]

/-- A release subtracts and clamps at zero. -/
theorem amount_release (m : OrdMap K ℚ) (k k' : K) {a : ℚ} (ha : 0 ≤ a) :
    amount (release m k a) k' = if k' = k then max 0 (amount m k - a) else amount m k' := by
  rcases h : m.find? k with _ | v
  · -- without an entry there is nothing to subtract from
    have hsame : release m k a = m := by rw [release, h]
    rw [hsame]
    by_cases hk : k' = k
    · subst hk; simp [amount, h, ha]
    · rw [if_neg hk]
  · have hv : amount m k = v := by simp [amount, h]
    rw [amount, find?_release h, hv]
    by_cases hk : k' = k
    · rw [if_pos hk, if_pos hk]
      split
      · next hz => exact hz.symm
      · rfl
    · rw [if_neg hk, if_neg hk, amount]

/-- Giving back as much as there is, or more, leaves no entry. -/
theorem find?_release_of_le {m : OrdMap K ℚ} {k : K} {a : ℚ} (h : amount m k ≤ a) :
    (release m k a).find? k = none := by
  rcases hv : m.find? k with _ | v
  · rw [release, hv]
    exact hv
  · rw [amount, hv, Option.getD_some] at h
    rw [find?_release hv, if_pos rfl, if_pos (max_eq_left (sub_nonpos.mpr h))]

/-- **Releasing holds of one amount.** When all holds of a key are of an amount that
covers what is held, releasing them leaves nothing. -/
theorem amount_releaseAll_of_le {l : List (K × ℚ)} {k : K} {a : ℚ} (m : OrdMap K ℚ)
    (hl : ∀ e ∈ l, e.1 = k → e.2 = a) (hk : ∃ e ∈ l, e.1 = k) (h : amount m k ≤ a) :
    amount (releaseAll m l) k = 0 := by
  have hnone : (releaseAll m l).find? k = none := by
    induction l generalizing m with
    | nil => exact absurd hk (by simp)
    | cons e l ih =>
      rw [List.forall_mem_cons] at hl
      by_cases he : e.1 = k
      · -- the first hold of the key clears it
        refine find?_releaseAll_of_none (m := release m e.1 e.2) l ?_
        rw [he, hl.1 he]
        exact find?_release_of_le h
      · obtain ⟨e', he', hek⟩ := hk
        rcases List.mem_cons.mp he' with rfl | he'
        · exact absurd hek he
        · refine ih (release m e.1 e.2) hl.2 ⟨e', he', hek⟩ ?_
          rwa [amount, find?_release_of_ne m e.2 (Ne.symm he)]
  rw [amount, hnone]
  rfl

/-- Where nothing is owed, a release subtracts what it concerns of the key, and clamps
at zero. -/
theorem amount_release_of_nonneg (m : OrdMap K ℚ) {e : K × ℚ} (he : 0 ≤ e.2) {k : K}
    (h : 0 ≤ amount m k) :
    amount (release m e.1 e.2) k = max 0 (amount m k - charge [e] k) := by
  rw [amount_release m e.1 k he, charge_singleton]
  by_cases hk : e.1 = k
  · rw [if_pos hk.symm, if_pos hk, hk]
  · rw [if_neg (Ne.symm hk), if_neg hk, sub_zero, max_eq_right h]

/-- **Releasing a list of holds.** Where nothing is owed, the ledger loses the charge
of the holds, and is clamped at zero. -/
theorem amount_releaseAll_max {l : List (K × ℚ)} (hl : ∀ e ∈ l, 0 ≤ e.2) (m : OrdMap K ℚ) (k : K)
    (h : 0 ≤ amount m k) : amount (releaseAll m l) k = max 0 (amount m k - charge l k) := by
  induction l generalizing m with
  | nil =>
    rw [charge_nil, sub_zero, max_eq_right h]
    rfl
  | cons e l ih =>
    rw [List.forall_mem_cons] at hl
    have hone := amount_release_of_nonneg m hl.1 h
    have hnonneg : 0 ≤ amount (release m e.1 e.2) k := by rw [hone]; exact le_max_left 0 _
    have hrest : 0 ≤ charge l k := charge_nonneg hl.2 k
    -- clamping after each hold or once at the end is the same
    calc amount (releaseAll (release m e.1 e.2) l) k
        = max 0 (max 0 (amount m k - charge [e] k) - charge l k) := by rw [ih hl.2 _ hnonneg, hone]
      _ = max 0 (amount m k - charge [e] k - charge l k) := by
        rw [← max_sub_sub_right, zero_sub, ← max_assoc, max_eq_left (neg_nonpos.mpr hrest)]
      _ = max 0 (amount m k - charge (e :: l) k) := by
        rw [charge_head_add e l, sub_sub]

/-- **Releasing what is covered.** Where the ledger covers the charge of the
holds, releasing them subtracts exactly that charge. -/
theorem amount_releaseAll {l : List (K × ℚ)} (hl : ∀ e ∈ l, 0 ≤ e.2) (m : OrdMap K ℚ) (k : K)
    (h : charge l k ≤ amount m k) : amount (releaseAll m l) k = amount m k - charge l k := by
  have hnonneg : 0 ≤ amount m k := (charge_nonneg hl k).trans h
  rw [amount_releaseAll_max hl m k hnonneg]
  exact max_eq_right (sub_nonneg.mpr h)

/-- Releasing at a key that holds nothing changes nothing there. -/
theorem amount_releaseAll_of_zero {l : List (K × ℚ)} (hl : ∀ e ∈ l, 0 ≤ e.2) (m : OrdMap K ℚ)
    (k : K) (h : amount m k = 0) : amount (releaseAll m l) k = 0 := by
  rw [amount_releaseAll_max hl m k h.ge, h, zero_sub]
  exact max_eq_left (neg_nonpos.mpr (charge_nonneg hl k))

end Ledger
