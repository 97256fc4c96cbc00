import DisaggregationFabric.Lib.Run
import Mathlib.Data.List.Basic

/-!
# A table of exclusive locks

What it means to own several things at once. The table names the owner of every key, if
there is one. An owner asks for a list of keys and is granted all of them when all are free,
else none; it gives back whatever it owns in one go.

As the table is a function, no key has two owners, whatever the requests. A system that
keeps such a table somewhere, in its own data, inherits this when each of its steps is a
list of requests: `Machine.run LockTable.step` is then what its runs are compared with.
-/

/-- The owner of every key. -/
abbrev LockTable (K O : Type) := K → Option O

/-- What can be asked of a lock table. -/
inductive LockRequest (K O : Type) where
  /-- All of the keys or none. -/
  | take (o : O) (ks : List K)
  /-- Everything that the owner has. -/
  | drop (o : O)

namespace LockTable

variable {K O : Type}

/-- Nobody owns anything. -/
def empty : LockTable K O := fun _ => none

/-- All of the keys are free. -/
def Grants (t : LockTable K O) (ks : List K) : Prop := ∀ k ∈ ks, t k = none

variable [DecidableEq K] [DecidableEq O]

instance (t : LockTable K O) (ks : List K) : Decidable (t.Grants ks) :=
  inferInstanceAs (Decidable (∀ k ∈ ks, t k = none))

/-- Serve one request. -/
def step (t : LockTable K O) : LockRequest K O → LockTable K O
  | .take o ks => if t.Grants ks then fun k => if k ∈ ks then some o else t k else t
  | .drop o => fun k => if t k = some o then none else t k

/-- The table once the requests are served in order. -/
abbrev run (t : LockTable K O) (rs : List (LockRequest K O)) : LockTable K O :=
  Machine.run step t rs

theorem step_take_of_not_grants {t : LockTable K O} {ks : List K} (h : ¬ t.Grants ks) (o : O) :
    t.step (.take o ks) = t := if_neg h

/-- Who owns what after a request that was granted. -/
theorem step_take_eq_some_iff {t : LockTable K O} {ks : List K} (h : t.Grants ks) (o o' : O)
    (k : K) : t.step (.take o ks) k = some o' ↔ k ∈ ks ∧ o' = o ∨ k ∉ ks ∧ t k = some o' := by
  show (if t.Grants ks then fun k => if k ∈ ks then some o else t k else t) k = some o' ↔ _
  rw [if_pos h]
  by_cases hk : k ∈ ks
  · rw [if_pos hk, Option.some.injEq]
    exact ⟨fun heq => Or.inl ⟨hk, heq.symm⟩,
      fun h => h.elim (fun h => h.2.symm) fun h => absurd hk h.1⟩
  · rw [if_neg hk]
    exact ⟨fun heq => Or.inr ⟨hk, heq⟩, fun h => h.elim (fun h => absurd h.1 hk) And.right⟩

/-- What is free after a request that was granted. -/
theorem step_take_eq_none_iff {t : LockTable K O} {ks : List K} (h : t.Grants ks) (o : O) (k : K) :
    t.step (.take o ks) k = none ↔ t k = none ∧ k ∉ ks := by
  show (if t.Grants ks then fun k => if k ∈ ks then some o else t k else t) k = none ↔ _
  rw [if_pos h]
  by_cases hk : k ∈ ks
  · rw [if_pos hk]
    exact iff_of_false (fun h => by cases h) fun h => h.2 hk
  · rw [if_neg hk, and_iff_left hk]

/-- Who owns what after an owner has given everything back. -/
theorem step_drop_eq_some_iff (t : LockTable K O) (o o' : O) (k : K) :
    t.step (.drop o) k = some o' ↔ o' ≠ o ∧ t k = some o' := by
  show (if t k = some o then none else t k) = some o' ↔ _
  by_cases hk : t k = some o
  · rw [if_pos hk, hk, Option.some.injEq]
    exact iff_of_false (fun h => by cases h) fun h => h.1 h.2.symm
  · rw [if_neg hk]
    exact ⟨fun heq => ⟨fun ho => hk (ho ▸ heq), heq⟩, And.right⟩

end LockTable
