import Mathlib.Data.Nat.Notation
import Mathlib.Logic.Function.Basic

/-!
# Hashes that see every single byte

A running hash absorbs its input element by element. If one step is injective in the state,
for every element, and injective in the element, for every state, then two inputs of one
length that differ in one place have different hashes: they differ right behind the place,
and what follows cannot bring them together again (`absorb_set_ne`).

A text that ends with a tag of this kind is `Sealed`; with one element replaced it is not
sealed any more (`Sealed.not_sealed_set`).

The step that xors a byte into a 64-bit word and multiplies by a constant is of this kind as
soon as the constant has an inverse modulo `2 ^ 64`, which every odd one has
(`injective_xorMul`).
-/

namespace Hash

section Absorb

variable {S B : Type} {f : S → B → S}

/-- Equal inputs keep different states apart. -/
theorem foldl_injective (hstate : ∀ b, Function.Injective (f · b)) (l : List B) :
    Function.Injective fun s => l.foldl f s := by
  induction l with
  | nil => exact fun _ _ h => h
  | cons b l ih => exact fun s t h => hstate b (ih h)

/-- **One element that is replaced changes the hash.** -/
theorem absorb_set_ne (hstate : ∀ b, Function.Injective (f · b))
    (helement : ∀ s, Function.Injective (f s)) {l : List B} {i : ℕ} {b v : B}
    (hb : l[i]? = some b) (hv : v ≠ b) (s : S) : (l.set i v).foldl f s ≠ l.foldl f s := by
  induction l generalizing s i with
  | nil => cases hb
  | cons a l ih =>
    cases i with
    | zero =>
      cases hb
      -- the states differ behind the place, and the rest of the input is the same
      exact fun h => hv (helement s (foldl_injective hstate l h))
    | succ i => exact ih hb (f s a)

end Absorb

/-! ### Sealed texts -/

section Sealed

variable {B : Type} {tag : List B → List B}

/-- A text that ends with the tag of what stands before it. -/
def Sealed (tag : List B → List B) (l : List B) : Prop := ∃ body, l = body ++ tag body

/-- **A sealed text with one element replaced is not sealed**, wherever the element stands:
in the body the tag no longer matches, in the tag the body does not. -/
theorem Sealed.not_sealed_set {k : ℕ} (hlen : ∀ body, (tag body).length = k)
    (htag : ∀ {body i b v}, body[i]? = some b → v ≠ b → tag (body.set i v) ≠ tag body)
    {l : List B} {i : ℕ} {b v : B} (h : Sealed tag l) (hb : l[i]? = some b) (hv : v ≠ b) :
    ¬ Sealed tag (l.set i v) := by
  rintro ⟨body', heq⟩
  obtain ⟨body, rfl⟩ := h
  -- both tags are of one length, so both bodies are
  have hbody : body.length = body'.length := by
    have hlengths := congrArg List.length heq
    rw [List.length_set, List.length_append, List.length_append, hlen, hlen] at hlengths
    omega
  rcases Nat.lt_or_ge i body.length with hi | hi
  · rw [List.set_append_left _ _ hi] at heq
    rw [List.getElem?_append_left hi] at hb
    obtain ⟨hbodies, htags⟩ := List.append_inj heq (by rw [List.length_set, hbody])
    rw [← hbodies] at htags
    exact htag hb hv htags.symm
  · rw [List.set_append_right _ _ hi] at heq
    rw [List.getElem?_append_right hi] at hb
    obtain ⟨hbodies, htags⟩ := List.append_inj heq hbody
    -- the tag of the same body has the old element at the place
    rw [← hbodies] at htags
    have hplace := congrArg (·[i - body.length]?) htags
    rw [List.getElem?_set_self (List.getElem?_eq_some_iff.mp hb).1, hb] at hplace
    exact hv (Option.some.inj hplace)

end Sealed

/-! ### Xor and multiply -/

/-- Xor a byte into the state, then multiply by the constant. -/
def xorMul (p h : UInt64) (b : UInt8) : UInt64 := (h ^^^ b.toUInt64) * p

variable {p q : UInt64}

/-- A constant with an inverse is cancelled. -/
theorem mul_left_injective (hpq : p * q = 1) : Function.Injective fun h : UInt64 => h * p := by
  intro h h' heq
  calc h = h * p * q := by rw [UInt64.mul_assoc, hpq, UInt64.mul_one]
    _ = h' * p * q := congrArg (· * q) heq
    _ = h' := by rw [UInt64.mul_assoc, hpq, UInt64.mul_one]

/-- Both the state and the byte can be read off the next state, given the other one. -/
theorem injective_xorMul (hpq : p * q = 1) :
    (∀ b, Function.Injective fun h => xorMul p h b) ∧ ∀ h, Function.Injective (xorMul p h) := by
  constructor
  · intro b h h' heq
    exact (UInt64.xor_left_inj b.toUInt64).mp (mul_left_injective hpq heq)
  · intro h b b' heq
    exact UInt8.toUInt64_inj.mp ((UInt64.xor_right_inj h).mp (mul_left_injective hpq heq))

end Hash
