import DisaggregationFabric.Lib.Maps
import DisaggregationFabric.Lib.Run

/-!
# Repeated writes

A round of writes to a table, as a list of keys and values. A table is seen through what is found
under each key, so that a part of the values can be looked at alone.

* `writes` — what is found after a round: what was written last, or what was there before;
* `writes_writes_self` — to write the same round again changes nothing;
* `overwritten` — the keys whose value a round changes, one after the other. A round leaves
  intermediate values behind that the next round meets again, so a round that is repeated may
  overwrite keys although nothing is changed in the end. `mem_overwritten_iff_conflict` says when:
  exactly when the round itself does not agree about the value of the key.

`Machine.writes_run` lifts what one step writes to a run.
-/

section Writes

variable {K V W : Type} [DecidableEq K]

/-- The value that is written last under the key. -/
def lastWrite : List (K × V) → K → Option V
  | [], _ => none
  | w :: ws, k => (lastWrite ws k).or (if k = w.1 then some w.2 else none)

/-- What is found under a key after the writes. -/
def writes (cur : K → Option V) (ws : List (K × V)) (k : K) : Option V :=
  (lastWrite ws k).or (cur k)

theorem lastWrite_append (ws us : List (K × V)) (k : K) :
    lastWrite (ws ++ us) k = (lastWrite us k).or (lastWrite ws k) := by
  induction ws with
  | nil => exact Option.or_none.symm
  | cons w ws ih =>
    show (lastWrite (ws ++ us) k).or _ = (lastWrite us k).or ((lastWrite ws k).or _)
    rw [ih, Option.or_assoc]

theorem lastWrite_map (f : V → W) (ws : List (K × V)) (k : K) :
    lastWrite (ws.map fun w => (w.1, f w.2)) k = (lastWrite ws k).map f := by
  induction ws with
  | nil => rfl
  | cons w ws ih =>
    show (lastWrite (ws.map fun w => (w.1, f w.2)) k).or (if k = w.1 then some (f w.2) else none) =
      ((lastWrite ws k).or (if k = w.1 then some w.2 else none)).map f
    rw [ih, Option.map_or]
    split <;> rfl

theorem mem_of_lastWrite {ws : List (K × V)} {k : K} {v : V} (h : lastWrite ws k = some v) :
    (k, v) ∈ ws := by
  -- the last write of a list is that of its tail, if the tail has one
  induction ws with
  | nil => cases h
  | cons w ws ih =>
    rcases Option.or_eq_some_iff.mp h with h | ⟨-, h⟩
    · exact List.mem_cons_of_mem w (ih h)
    · split at h
      · next hk =>
        cases h
        rw [hk]
        exact List.mem_cons_self
      · cases h

theorem exists_lastWrite {ws : List (K × V)} {k : K} {v : V} (h : (k, v) ∈ ws) :
    ∃ v', lastWrite ws k = some v' := by
  obtain ⟨pre, post, rfl⟩ := List.append_of_mem h
  rw [lastWrite_append]
  show ∃ v', ((lastWrite post k).or (if k = k then some v else none)).or (lastWrite pre k) = some v'
  rw [if_pos rfl]
  cases lastWrite post k with
  | none => exact ⟨v, rfl⟩
  | some v' => exact ⟨v', rfl⟩

theorem writes_append (cur : K → Option V) (ws us : List (K × V)) :
    writes cur (ws ++ us) = writes (writes cur ws) us := by
  funext k
  rw [writes, lastWrite_append, Option.or_assoc]
  rfl

/-- The same writes again change nothing. -/
theorem writes_writes_self (cur : K → Option V) (ws : List (K × V)) :
    writes (writes cur ws) ws = writes cur ws := by
  funext k
  show (lastWrite ws k).or ((lastWrite ws k).or (cur k)) = (lastWrite ws k).or (cur k)
  rw [← Option.or_assoc, Option.or_self]

/-- A part of the values. -/
theorem writes_map (f : V → W) (cur : K → Option V) (ws : List (K × V)) (k : K) :
    (writes cur ws k).map f =
      writes (fun k => (cur k).map f) (ws.map fun w => (w.1, f w.2)) k := by
  rw [writes, writes, lastWrite_map, Option.map_or]

/-! ### Values that change -/

variable [DecidableEq V]

/-- The keys whose value is changed, in order. -/
def overwritten (cur : K → Option V) : List (K × V) → List K
  | [] => []
  | w :: ws =>
    (if (cur w.1).any (· ≠ w.2) then [w.1] else []) ++ overwritten (writes cur [w]) ws

theorem overwritten_singleton (cur : K → Option V) (k : K) (v : V) :
    overwritten cur [(k, v)] = if (cur k).any (· ≠ v) then [k] else [] :=
  List.append_nil _

theorem overwritten_append (cur : K → Option V) (ws us : List (K × V)) :
    overwritten cur (ws ++ us) = overwritten cur ws ++ overwritten (writes cur ws) us := by
  induction ws generalizing cur with
  | nil => rfl
  | cons w ws ih =>
    rw [List.cons_append, overwritten, overwritten, ih, List.append_assoc, ← writes_append]
    rfl

/-- When no value changes, what is written is what is there. -/
theorem eq_of_notMem_overwritten {cur : K → Option V} {ws : List (K × V)} {k : K} {u : V}
    (h : k ∉ overwritten cur ws) (hcur : cur k = some u) {v : V} (hv : (k, v) ∈ ws) : v = u := by
  induction ws generalizing cur with
  | nil => cases hv
  | cons w ws ih =>
    rw [overwritten, List.mem_append, not_or] at h
    -- a first write of another value would overwrite
    have hhead : ∀ v, w = (k, v) → v = u := by
      rintro v rfl
      by_contra hne
      refine h.1 ?_
      rw [hcur, if_pos (by simpa using Ne.symm hne)]
      exact List.mem_singleton_self k
    have hnext : writes cur [w] k = some u := by
      show (if k = w.1 then some w.2 else none).or (cur k) = some u
      by_cases hk : k = w.1
      · rw [if_pos hk, hhead w.2 (by rw [hk])]
        rfl
      · rw [if_neg hk, hcur]
        rfl
    -- the later writes find `u` still there
    rcases List.mem_cons.mp hv with heq | hv
    · exact hhead v heq.symm
    · exact ih h.2 hnext hv

/-- A value that is changed was there before, or was written before. -/
theorem exists_of_mem_overwritten {cur : K → Option V} {ws : List (K × V)} {k : K}
    (h : k ∈ overwritten cur ws) :
    ∃ v old, (k, v) ∈ ws ∧ old ≠ v ∧ ((k, old) ∈ ws ∨ cur k = some old) := by
  induction ws generalizing cur with
  | nil => cases h
  | cons w ws ih =>
    -- the first write overwrites, or a later one does
    rcases List.mem_append.mp h with h | h
    · split at h
      · next hchange =>
        obtain rfl := List.mem_singleton.mp h
        obtain ⟨old, hold, hne⟩ := (Option.any_eq_true _ _).mp hchange
        exact ⟨w.2, old, List.mem_cons_self, of_decide_eq_true hne, Or.inr hold⟩
      · cases h
    · obtain ⟨v, old, hv, hne, hold⟩ := ih h
      refine ⟨v, old, List.mem_cons_of_mem w hv, hne, ?_⟩
      rcases hold with hold | hold
      · exact Or.inl (List.mem_cons_of_mem w hold)
      · -- what a later write overwrites is the first write, or was there before
        rcases Option.or_eq_some_iff.mp hold with hold | ⟨-, hold⟩
        · refine Or.inl (List.mem_cons.mpr (Or.inl ?_))
          exact List.mem_singleton.mp (mem_of_lastWrite hold)
        · exact Or.inr hold

/-- **What a repeated round changes**: the keys about which it does not agree. -/
theorem mem_overwritten_iff_conflict {cur : K → Option V} {ws : List (K × V)}
    (h : writes cur ws = cur) (k : K) :
    k ∈ overwritten cur ws ↔ ∃ v v', (k, v) ∈ ws ∧ (k, v') ∈ ws ∧ v ≠ v' := by
  constructor
  · intro hk
    obtain ⟨v, old, hv, hne, hold⟩ := exists_of_mem_overwritten hk
    rcases hold with hold | hold
    · exact ⟨old, v, hold, hv, hne⟩
    · -- what is there is what the round before has written last
      obtain ⟨u, hu⟩ := exists_lastWrite hv
      have hcur : cur k = some u := by
        rw [← h, writes, hu]
        rfl
      obtain rfl : u = old := Option.some.inj (hcur.symm.trans hold)
      exact ⟨u, v, mem_of_lastWrite hu, hv, hne⟩
  · rintro ⟨v, v', hv, hv', hne⟩
    by_contra hk
    obtain ⟨u, hu⟩ := exists_lastWrite hv
    have hcur : cur k = some u := by
      rw [← h, writes, hu]
      rfl
    exact hne ((eq_of_notMem_overwritten hk hcur hv).trans
      (eq_of_notMem_overwritten hk hcur hv').symm)

end Writes

/-- What a run writes, from what each step writes. -/
theorem Machine.writes_run {S A K V : Type} [DecidableEq K] {step : S → A → S}
    {look : S → K → Option V} {emit : S → A → List (K × V)}
    (h : ∀ s a, look (step s a) = writes (look s) (emit s a)) (s : S) (as : List A) :
    look (Machine.run step s as) = writes (look s) (Machine.trace step emit s as) := by
  induction as generalizing s with
  | nil => rfl
  | cons a as ih =>
    show look (Machine.run step (step s a) as) = writes (look s) (emit s a ++ _)
    rw [ih, h, writes_append]
