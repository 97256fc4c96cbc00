import Mathlib.Data.List.AList
import Mathlib.Algebra.BigOperators.Group.List.Basic
import Mathlib.Order.Lattice

/-!
# Finite maps

The two map containers of the C++ standard library, over arbitrary keys and
values.

* `UMap` is `std::unordered_map`: an association list without repeated keys,
  whose iteration order carries no meaning. It is Mathlib's `AList` at a
  constant family; this file adds the bulk update `mapVals`, the construction
  `ofValues` and the bookkeeping of sums over the values.
* `OrdMap` is `std::map`: an association list kept strictly sorted by key, so
  that iteration is in key order and two maps with the same entries are equal.
  `OrdSet` is `std::set`, the map into the one-point type.
-/

/-- Looking up past an entry with another key. -/
theorem List.dlookup_cons_of_ne {K V : Type} [DecidableEq K] {k k' : K} (h : k ≠ k') (v : V)
    (l : List ((_ : K) × V)) : (⟨k', v⟩ :: l).dlookup k = l.dlookup k :=
  List.dlookup_cons_ne l ⟨k', v⟩ h

/-! ### Unordered maps -/

/-- A finite map whose iteration order carries no meaning. -/
abbrev UMap (K V : Type) : Type := AList fun _ : K => V

namespace UMap

variable {K V : Type}

/-- The values, in iteration order. -/
def values (m : UMap K V) : List V := m.entries.map Sigma.snd

/-- Replace every value by its image, the keys staying in place. -/
def mapVals (f : V → V) (m : UMap K V) : UMap K V where
  entries := m.entries.map fun e => ⟨e.1, f e.2⟩
  nodupKeys := by
    have h : (m.entries.map fun e : (_ : K) × V => (⟨e.1, f e.2⟩ : (_ : K) × V)).keys
        = m.entries.keys := by simp [List.keys, Function.comp_def]
    rw [List.NodupKeys, h]
    exact m.nodupKeys

section Lookup

variable [DecidableEq K]

/-- Insert a list of records one by one under the key each of them carries; a
later record replaces an earlier one with the same key. -/
def ofValues (key : V → K) (l : List V) : UMap K V :=
  l.foldl (fun m v => m.insert (key v) v) ∅

@[simp] theorem lookup_mapVals (f : V → V) (m : UMap K V) (k : K) :
    (mapVals f m).lookup k = (m.lookup k).map f := by
  obtain ⟨l, hl⟩ := m
  change (l.map fun e : (_ : K) × V => (⟨e.1, f e.2⟩ : (_ : K) × V)).dlookup k
    = (l.dlookup k).map f
  clear hl
  induction l with
  | nil => rfl
  | cons e l ih =>
    obtain ⟨k', v⟩ := e
    by_cases h : k' = k
    · subst h; simp
    · simpa [List.dlookup_cons_of_ne (Ne.symm h)] using ih

theorem lookup_insert_eq_ite (m : UMap K V) (k k' : K) (v : V) :
    (m.insert k v).lookup k' = if k' = k then some v else m.lookup k' := by
  by_cases h : k' = k
  · subst h; simp
  · rw [if_neg h, AList.lookup_insert_ne h]

/-- What is found after an insertion is what was inserted, or was found before under
another key. -/
theorem lookup_insert_inv {m : UMap K V} {k k' : K} {v v' : V}
    (h : (m.insert k v).lookup k' = some v') :
    k' = k ∧ v' = v ∨ k' ≠ k ∧ m.lookup k' = some v' := by
  rw [lookup_insert_eq_ite] at h
  by_cases hk : k' = k
  · rw [if_pos hk, Option.some.injEq] at h
    exact Or.inl ⟨hk, h.symm⟩
  · rw [if_neg hk] at h
    exact Or.inr ⟨hk, h⟩

/-- What is found after an insertion, and is not what was inserted, was found before. -/
theorem lookup_of_insert_ne {m : UMap K V} {k k' : K} {v v' : V}
    (h : (m.insert k v).lookup k' = some v') (hne : v' ≠ v) : m.lookup k' = some v' := by
  rcases lookup_insert_inv h with ⟨-, heq⟩ | ⟨-, h⟩
  · exact absurd heq hne
  · exact h

/-- What holds of every entry and of the inserted one holds of every entry after. -/
theorem forall_lookup_insert {m : UMap K V} {P : K → V → Prop}
    (h : ∀ k v, m.lookup k = some v → P k v) {k₀ : K} {v₀ : V} (h₀ : P k₀ v₀) :
    ∀ k v, (m.insert k₀ v₀).lookup k = some v → P k v := by
  intro k v hv
  rcases lookup_insert_inv hv with ⟨rfl, rfl⟩ | ⟨-, hv⟩
  · exact h₀
  · exact h k v hv

/-- A looked-up value is one of the values. -/
theorem mem_values_of_lookup {m : UMap K V} {k : K} {v : V} (h : m.lookup k = some v) :
    v ∈ m.values := by
  have hmem : (⟨k, v⟩ : (_ : K) × V) ∈ m.entries := AList.mem_lookup_iff.mp h
  exact List.mem_map_of_mem (f := Sigma.snd) hmem

/-- Every value is found under some key. -/
theorem exists_lookup_of_mem_values {m : UMap K V} {v : V} (h : v ∈ m.values) :
    ∃ k, m.lookup k = some v := by
  obtain ⟨⟨k, v'⟩, he, rfl⟩ := List.mem_map.mp h
  exact ⟨k, AList.mem_lookup_iff.mpr he⟩

/-- What holds of whatever is found holds of every value. -/
theorem forall_values {m : UMap K V} {P : V → Prop} (h : ∀ k v, m.lookup k = some v → P v) :
    ∀ v ∈ m.values, P v := by
  intro v hv
  obtain ⟨k, hk⟩ := exists_lookup_of_mem_values hv
  exact h k v hk

/-- What holds of every value and of the inserted one holds of every value after. -/
theorem forall_values_insert {m : UMap K V} {P : V → Prop} (h : ∀ v ∈ m.values, P v) {k₀ : K}
    {v₀ : V} (h₀ : P v₀) : ∀ v ∈ UMap.values (m.insert k₀ v₀), P v :=
  forall_values (forall_lookup_insert (fun _ v hv => h v (mem_values_of_lookup hv)) h₀)

/-- A fold of insertions finds under each key the starting value or one of the
records inserted under it. -/
theorem lookup_foldl_insert {key : V → K} {l : List V} {m : UMap K V} {k : K} {v : V}
    (h : (l.foldl (fun m v => m.insert (key v) v) m).lookup k = some v) :
    m.lookup k = some v ∨ (v ∈ l ∧ key v = k) := by
  induction l generalizing m with
  | nil => exact Or.inl h
  | cons a l ih =>
    rcases ih h with h' | ⟨hv, hk⟩
    · rcases lookup_insert_inv h' with ⟨hk, rfl⟩ | ⟨-, h'⟩
      · exact Or.inr ⟨List.mem_cons_self, hk.symm⟩
      · exact Or.inl h'
    · exact Or.inr ⟨List.mem_cons_of_mem a hv, hk⟩

/-- What a map built from records finds under a key is one of the records, and
carries that key. -/
theorem lookup_ofValues {key : V → K} {l : List V} {k : K} {v : V}
    (h : (ofValues key l).lookup k = some v) : v ∈ l ∧ key v = k := by
  rcases lookup_foldl_insert h with h' | h'
  · exact absurd h' (by simp)
  · exact h'

/-- A map built from records finds something under the key of each of them. -/
theorem exists_lookup_ofValues {key : V → K} {l : List V} {v : V} (h : v ∈ l) :
    ∃ w, (ofValues key l).lookup (key v) = some w := by
  -- once something is found under a key, later insertions only replace it
  have hkeep : ∀ (l : List V) (m : UMap K V) (k : K), (∃ w, m.lookup k = some w) →
      ∃ w, (l.foldl (fun m v => m.insert (key v) v) m).lookup k = some w := by
    intro l
    induction l with
    | nil => intro m k hw; exact hw
    | cons a l ih =>
      rintro m k ⟨w, hw⟩
      refine ih _ k ?_
      rw [lookup_insert_eq_ite]
      split
      · exact ⟨a, rfl⟩
      · exact ⟨w, hw⟩
  obtain ⟨l₁, l₂, rfl⟩ := List.append_of_mem h
  unfold ofValues
  rw [List.foldl_append, List.foldl_cons]
  refine hkeep l₂ _ _ ⟨v, ?_⟩
  rw [lookup_insert_eq_ite, if_pos rfl]

/-! Sums over the values. -/

variable {M : Type} [AddCommMonoid M]

/-- Splitting one entry off a sum over all values. -/
theorem sum_values_eq_of_lookup {m : UMap K V} {k : K} {v : V} (f : V → M)
    (h : m.lookup k = some v) :
    (m.values.map f).sum = f v + ((values (m.erase k)).map f).sum := by
  have hmem : (⟨k, v⟩ : (_ : K) × V) ∈ m.entries := AList.mem_lookup_iff.mp h
  obtain ⟨l, hl⟩ := m
  change ((l.map Sigma.snd).map f).sum = f v + (((l.kerase k).map Sigma.snd).map f).sum
  change (⟨k, v⟩ : (_ : K) × V) ∈ l at hmem
  clear h
  -- on the entries: the one of the key, or one before it
  induction l with
  | nil => exact absurd hmem List.not_mem_nil
  | cons e l ih =>
    obtain ⟨k', v'⟩ := e
    rcases List.mem_cons.mp hmem with heq | htail
    · cases heq
      simp [List.kerase_cons_eq]
    · have hne : k ≠ k' := fun hk => by
        have hkeys : k ∈ l.keys := List.mem_keys_of_mem htail
        exact (List.nodupKeys_cons.mp hl).1 (hk ▸ hkeys)
      rw [List.kerase_cons_ne hne]
      simp only [List.map_cons, List.sum_cons]
      rw [ih (List.nodupKeys_of_nodupKeys_cons hl) htail, add_left_comm]

/-- The sum over the values after an insertion. -/
theorem sum_values_insert (m : UMap K V) (k : K) (v : V) (f : V → M) :
    ((values (m.insert k v)).map f).sum = f v + ((values (m.erase k)).map f).sum := by
  have h : (m.insert k v).lookup k = some v := AList.lookup_insert m
  have he : (m.insert k v).erase k = m.erase k := AList.ext (by
    change (List.kinsert k v m.entries).kerase k = m.entries.kerase k
    exact (List.kerase_cons_eq (show k = (⟨k, v⟩ : (_ : K) × V).1 from rfl)).trans rfl)
  rw [sum_values_eq_of_lookup f h, he]

/-- Erasing a key that is not there changes nothing. -/
theorem sum_values_erase_of_lookup_none {m : UMap K V} {k : K} (f : V → M)
    (h : m.lookup k = none) :
    ((values (m.erase k)).map f).sum = (m.values.map f).sum := by
  have hk : k ∉ m.entries.keys := AList.lookup_eq_none.mp h
  have he : (m.erase k).entries = m.entries := List.kerase_of_notMem_keys hk
  rw [values, he, values]

end Lookup

end UMap

/-! ### Ordered maps -/

/-- A finite map kept strictly sorted by key. -/
@[ext]
structure OrdMap (K V : Type) [LT K] where
  /-- The entries, in increasing key order. -/
  entries : List ((_ : K) × V)
  /-- No two entries share a key, and they stand in key order. -/
  sorted : entries.Pairwise fun a b => a.1 < b.1

/-- A finite set kept sorted. -/
abbrev OrdSet (K : Type) [LT K] : Type := OrdMap K Unit

namespace OrdMap

variable {K V : Type}

/-- Put an entry at its place, replacing one with the same key. -/
def insertList [LT K] [DecidableLT K] (k : K) (v : V) :
    List ((_ : K) × V) → List ((_ : K) × V)
  | [] => [⟨k, v⟩]
  | e :: l =>
    if k < e.1 then ⟨k, v⟩ :: e :: l
    else if e.1 < k then e :: insertList k v l
    else ⟨k, v⟩ :: l

section Order

variable [LinearOrder K]

instance [DecidableEq V] : DecidableEq (OrdMap K V) := fun a b =>
  decidable_of_iff (a.entries = b.entries)
    ⟨fun h => by cases a; cases b; subst h; rfl, fun h => by rw [h]⟩

theorem mem_insertList {k : K} {v : V} {e : (_ : K) × V} {l : List ((_ : K) × V)}
    (h : e ∈ insertList k v l) : e = ⟨k, v⟩ ∨ e ∈ l := by
  induction l with
  | nil => exact Or.inl (List.mem_singleton.mp h)
  | cons a l ih =>
    -- the three places: in front, further behind, over the old entry
    unfold insertList at h
    split at h
    · exact List.mem_cons.mp h
    · split at h
      · rcases List.mem_cons.mp h with rfl | h
        · exact Or.inr List.mem_cons_self
        · exact (ih h).imp_right (List.mem_cons_of_mem a)
      · exact (List.mem_cons.mp h).imp_right (List.mem_cons_of_mem a)

theorem insertList_sorted (k : K) (v : V) {l : List ((_ : K) × V)}
    (h : l.Pairwise fun a b => a.1 < b.1) :
    (insertList k v l).Pairwise fun a b => a.1 < b.1 := by
  induction l with
  | nil => exact List.pairwise_singleton _ _
  | cons a l ih =>
    obtain ⟨ha, hl⟩ := List.pairwise_cons.mp h
    unfold insertList
    split
    · next hka =>
      refine List.pairwise_cons.mpr ⟨?_, h⟩
      intro e he
      rcases List.mem_cons.mp he with rfl | he
      · exact hka
      · exact hka.trans (ha e he)
    · next hka =>
      split
      · next hak =>
        refine List.pairwise_cons.mpr ⟨?_, ih hl⟩
        intro e he
        rcases mem_insertList he with rfl | he
        · exact hak
        · exact ha e he
      · next hak =>
        -- neither is smaller, so the keys agree and the tail bound carries over
        obtain heq : a.1 = k := le_antisymm (not_lt.mp hka) (not_lt.mp hak)
        exact List.pairwise_cons.mpr ⟨fun e he => heq ▸ ha e he, hl⟩

/-- The empty map. -/
def empty : OrdMap K V := ⟨[], List.Pairwise.nil⟩

instance : Inhabited (OrdMap K V) := ⟨empty⟩

/-- The value under a key. -/
def find? (m : OrdMap K V) (k : K) : Option V := m.entries.dlookup k

/-- Whether a key is present. -/
def contains (m : OrdMap K V) (k : K) : Bool := (m.find? k).isSome

/-- The number of entries. -/
def size (m : OrdMap K V) : Nat := m.entries.length

/-- Set the value under a key. -/
def insert (m : OrdMap K V) (k : K) (v : V) : OrdMap K V :=
  ⟨insertList k v m.entries, insertList_sorted k v m.sorted⟩

/-- Remove a key. -/
def erase (m : OrdMap K V) (k : K) : OrdMap K V :=
  ⟨m.entries.kerase k, m.sorted.sublist (List.kerase_sublist k _)⟩

theorem nodupKeys (m : OrdMap K V) : m.entries.NodupKeys :=
  List.nodupKeys_iff_pairwise.mpr (m.sorted.imp ne_of_lt)

theorem dlookup_insertList (k k' : K) (v : V) (l : List ((_ : K) × V)) :
    (insertList k v l).dlookup k' = if k' = k then some v else l.dlookup k' := by
  induction l with
  | nil =>
    by_cases h : k' = k
    · subst h; simp [insertList]
    · simp [insertList, List.dlookup_cons_of_ne h, h]
  | cons a l ih =>
    obtain ⟨ka, va⟩ := a
    unfold insertList
    split
    · by_cases h : k' = k
      · subst h; simp
      · simp [List.dlookup_cons_of_ne h, h]
    · next hka =>
      split
      · next hak =>
        by_cases h : k' = ka
        · subst h
          simp [(show k' ≠ k from ne_of_lt hak)]
        · rw [List.dlookup_cons_of_ne h, ih, List.dlookup_cons_of_ne h]
      · next hak =>
        obtain rfl : ka = k := le_antisymm (not_lt.mp hka) (not_lt.mp hak)
        by_cases h : k' = ka
        · subst h; simp
        · simp [List.dlookup_cons_of_ne h, h]

/-- An entry beyond all others goes to the end. -/
theorem insertList_of_lt {k : K} {v : V} {l : List ((_ : K) × V)} (h : ∀ e ∈ l, e.1 < k) :
    insertList k v l = l ++ [⟨k, v⟩] := by
  induction l with
  | nil => rfl
  | cons a l ih =>
    rw [List.forall_mem_cons] at h
    rw [insertList, if_neg (not_lt.mpr h.1.le), if_pos h.1, ih h.2, List.cons_append]

/-- What is found is one of the entries. -/
theorem mem_of_find?_eq {m : OrdMap K V} {k : K} {v : V} (h : m.find? k = some v) :
    ⟨k, v⟩ ∈ m.entries := List.of_mem_dlookup h

/-- Inserting sorted entries one by one rebuilds the map they come from. -/
theorem foldl_insert_eq {A : Type} {key : A → K} {val : A → V} {l : List A} {m m' : OrdMap K V}
    (h : m'.entries = m.entries ++ l.map fun a => ⟨key a, val a⟩) :
    l.foldl (fun m a => m.insert (key a) (val a)) m = m' := by
  induction l generalizing m with
  | nil =>
    rw [List.map_nil, List.append_nil] at h
    cases m; cases m'; cases h; rfl
  | cons a l ih =>
    have hlt : ∀ e ∈ m.entries, e.1 < key a := fun e he => by
      have hs := m'.sorted
      rw [h] at hs
      exact (List.pairwise_append.mp hs).2.2 e he ⟨key a, val a⟩ List.mem_cons_self
    refine ih ?_
    change m'.entries = insertList (key a) (val a) m.entries ++ _
    rw [h, insertList_of_lt hlt, List.append_assoc]
    rfl

/-- Replace every value by its image. -/
def mapVals {W : Type} (f : V → W) (m : OrdMap K V) : OrdMap K W where
  entries := m.entries.map fun e => ⟨e.1, f e.2⟩
  sorted := List.pairwise_map.mpr m.sorted

theorem mapVals_id (m : OrdMap K V) : m.mapVals (fun v => v) = m := by
  obtain ⟨entries, _⟩ := m
  simp [mapVals]

/-- The entries of a fold of insertions were inserted, or there before. -/
theorem mem_foldl_insert {A : Type} (key : A → K) (val : A → V) {l : List A} {m : OrdMap K V}
    {e : (_ : K) × V} (h : e ∈ (l.foldl (fun m a => m.insert (key a) (val a)) m).entries) :
    (∃ a ∈ l, e.1 = key a) ∨ e ∈ m.entries := by
  induction l generalizing m with
  | nil => exact Or.inr h
  | cons a l ih =>
    rcases ih h with ⟨a', ha', heq⟩ | hm
    · exact Or.inl ⟨a', List.mem_cons_of_mem a ha', heq⟩
    · rcases mem_insertList hm with rfl | hm
      · exact Or.inl ⟨a, List.mem_cons_self, rfl⟩
      · exact Or.inr hm

/-- A map whose keys are keys of another one is no larger. -/
theorem size_le_of_keys {W : Type} {m : OrdMap K V} {m' : OrdMap K W}
    (h : ∀ e ∈ m.entries, ∃ w, m'.find? e.1 = some w) : m.size ≤ m'.size := by
  have hsub : m.entries.keys ⊆ m'.entries.keys := by
    intro k hk
    obtain ⟨e, he, rfl⟩ := List.mem_map.mp hk
    obtain ⟨w, hw⟩ := h e he
    exact List.mem_keys_of_mem (mem_of_find?_eq hw)
  have hlen := List.Nodup.length_le_of_subset m.nodupKeys hsub
  rwa [List.keys, List.length_map, List.keys, List.length_map] at hlen

theorem size_insert_le (m : OrdMap K V) (k : K) (v : V) : (m.insert k v).size ≤ m.size + 1 := by
  obtain ⟨l, hl⟩ := m
  change (insertList k v l).length ≤ l.length + 1
  clear hl
  induction l with
  | nil => exact le_rfl
  | cons a l ih =>
    unfold insertList
    split
    · exact le_rfl
    · split
      · exact Nat.succ_le_succ ih
      · exact Nat.le_succ _

/-- Inserting entries one by one gives at most as many. -/
theorem size_foldl_insert_le {A : Type} (key : A → K) (val : A → V) (l : List A)
    (m : OrdMap K V) :
    (l.foldl (fun m a => m.insert (key a) (val a)) m).size ≤ m.size + l.length := by
  induction l generalizing m with
  | nil => exact le_rfl
  | cons a l ih =>
    have hone := size_insert_le m (key a) (val a)
    refine (ih (m.insert (key a) (val a))).trans ?_
    rw [List.length_cons]
    omega

theorem find?_insert (m : OrdMap K V) (k k' : K) (v : V) :
    (m.insert k v).find? k' = if k' = k then some v else m.find? k' :=
  dlookup_insertList k k' v m.entries

theorem find?_erase (m : OrdMap K V) (k k' : K) :
    (m.erase k).find? k' = if k' = k then none else m.find? k' := by
  by_cases h : k' = k
  · subst h; rw [if_pos rfl]; exact List.dlookup_kerase k' m.nodupKeys
  · rw [if_neg h]; exact List.dlookup_kerase_ne h

end Order

end OrdMap
