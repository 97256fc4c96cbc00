import Mathlib.Algebra.Order.Ring.Rat
import Mathlib.Data.Rat.Floor

/-!
# Double-precision numbers

A program that computes with `double` is modelled over an abstract number type:
`Double D` lists the operations it performs, `DoubleBits D` the reinterpretation
of a number as its 64-bit pattern. A result that never uses an arithmetic law
holds of every instance, the machine's own doubles with their rounding and their
NaNs included. A result that reads the arithmetic exactly is stated at
`ℚ`, the instance in which every operation is exact.

The bit patterns of `ℚ` are those of IEEE 754 binary64: `ratOfBits` is the value
of a finite pattern, `ratToBits` the pattern nearest to a number. `Binary64` is the type of
the patterns themselves, on which the reinterpretation is lawful (`LawfulDoubleBits`); its
arithmetic is that of the values, rounded.
-/

/-- The operations on `double`. The comparisons are the machine's, so that no
order law is built in. -/
class Double (D : Type) where
  /-- A literal, or the conversion of an integer. -/
  ofRat : ℚ → D
  /-- Addition. -/
  add : D → D → D
  /-- Subtraction. -/
  sub : D → D → D
  /-- Multiplication. -/
  mul : D → D → D
  /-- The comparison `<`. -/
  lt : D → D → Bool
  /-- The comparison `<=`. -/
  le : D → D → Bool
  /-- The comparison `==`. -/
  eq : D → D → Bool

/-- The reinterpretation of a number as its 64-bit pattern. -/
class DoubleBits (D : Type) where
  /-- The pattern of a number. -/
  toBits : D → UInt64
  /-- The number with a given pattern. -/
  ofBits : UInt64 → D

/-- A number is determined by its pattern, as the machine's doubles are: copying the
eight bytes there and back gives the number again. -/
class LawfulDoubleBits (D : Type) [DoubleBits D] : Prop where
  /-- There and back. -/
  ofBits_toBits : ∀ d : D, DoubleBits.ofBits (DoubleBits.toBits d) = d

/-- The comparison `<` is a strict order, as the machine's is: nothing is below itself, and
a NaN is below nothing and above nothing. -/
class LawfulDoubleOrder (D : Type) [Double D] : Prop where
  /-- Nothing is below itself. -/
  lt_irrefl : ∀ a : D, Double.lt a a = false
  /-- Below what is below. -/
  lt_trans : ∀ a b c : D, Double.lt a b = true → Double.lt b c = true → Double.lt a c = true

namespace Double

variable {D : Type} [Double D]

/-- The literal zero. -/
def zero : D := ofRat 0

/-- The literal one. -/
def one : D := ofRat 1

/-- `std::max`: the second argument when it is the larger one. -/
def max (a b : D) : D := if lt a b then b else a

/-- `std::min`: the second argument when it is the smaller one. -/
def min (a b : D) : D := if lt b a then b else a

end Double

/-! ### Exact arithmetic -/

instance : Double ℚ where
  ofRat q := q
  add a b := a + b
  sub a b := a - b
  mul a b := a * b
  lt a b := decide (a < b)
  le a b := decide (a ≤ b)
  eq a b := decide (a = b)

namespace Double

@[simp] theorem rat_zero : (zero : ℚ) = 0 := rfl

@[simp] theorem rat_add (a b : ℚ) : add a b = a + b := rfl

@[simp] theorem rat_sub (a b : ℚ) : sub a b = a - b := rfl

@[simp] theorem rat_lt (a b : ℚ) : lt a b = decide (a < b) := rfl

@[simp] theorem rat_eq (a b : ℚ) : eq a b = decide (a = b) := rfl

end Double

instance : LawfulDoubleOrder ℚ where
  lt_irrefl a := decide_eq_false (lt_irrefl a)
  lt_trans _ _ _ hab hbc := decide_eq_true ((of_decide_eq_true hab).trans (of_decide_eq_true hbc))

/-! ### IEEE 754 patterns of rational numbers -/

/-- The value of a finite binary64 pattern: sign, eleven exponent bits, and
fifty-two fraction bits under an implicit leading one (absent when the exponent
is zero). -/
def ratOfBits (b : UInt64) : ℚ :=
  let n : ℕ := b.toNat
  let e : ℕ := n / 2 ^ 52 % 2 ^ 11
  let m : ℕ := n % 2 ^ 52
  let mag : ℚ := if e = 0 then (m : ℚ) / 2 ^ 1074
    else (((2 ^ 52 + m) * 2 ^ e : ℕ) : ℚ) / 2 ^ 1075
  if n / 2 ^ 63 = 0 then mag else -mag

/-- The quotient rounded to the nearest integer, and to the even one of two nearest. -/
def roundDiv (n d : ℕ) : ℕ :=
  if 2 * (n % d) < d then n / d
  else if d < 2 * (n % d) then n / d + 1
  else n / d + n / d % 2

/-- The binary64 pattern nearest to a rational number; beyond the greatest finite one that
of infinity. -/
def ratToBits (q : ℚ) : UInt64 :=
  let a := |q|
  let sign : ℕ := if q < 0 then 2 ^ 63 else 0
  -- the magnitude in units of the smallest positive binary64 number
  let u : ℕ := a.num.natAbs * 2 ^ 1074
  -- the binary digits beyond the fifty-three of the fraction
  let k : ℕ := Nat.log2 (u / a.den) - 52
  -- the leading one of the fraction counts the exponent up, as does a carry
  let m : ℕ := k * 2 ^ 52 + roundDiv u (a.den * 2 ^ k)
  UInt64.ofNat (sign + min m 0x7FF0000000000000)

instance : DoubleBits ℚ := ⟨ratToBits, ratOfBits⟩

example : ratToBits 1 = 0x3FF0000000000000 ∧ ratOfBits 0x3FF0000000000000 = 1 := by
  decide +kernel
example : ratToBits (-5 / 2) = 0xC004000000000000 ∧ ratOfBits 0xC004000000000000 = -5 / 2 := by
  decide +kernel
example : ratToBits (1 / 10) = 0x3FB999999999999A := by
  decide +kernel

/-! ### Patterns as numbers -/

/-- A binary64 pattern. -/
structure Binary64 where
  bits : UInt64
deriving DecidableEq, Repr

namespace Binary64

/-- The value of a pattern. -/
def value (b : Binary64) : ℚ := ratOfBits b.bits

/-- The arithmetic of finite patterns, rounded to nearest; a result that is exactly zero is the
positive zero. A pattern of infinity or of a NaN is read as the finite number that its
exponent would give, which the machine does not do. -/
instance : Double Binary64 where
  ofRat q := ⟨ratToBits q⟩
  add a b := ⟨ratToBits (a.value + b.value)⟩
  sub a b := ⟨ratToBits (a.value - b.value)⟩
  mul a b := ⟨ratToBits (a.value * b.value)⟩
  lt a b := decide (a.value < b.value)
  le a b := decide (a.value ≤ b.value)
  eq a b := decide (a.value = b.value)

instance : LawfulDoubleOrder Binary64 where
  lt_irrefl a := decide_eq_false (lt_irrefl a.value)
  lt_trans _ _ _ hab hbc := decide_eq_true ((of_decide_eq_true hab).trans (of_decide_eq_true hbc))

instance : DoubleBits Binary64 := ⟨bits, mk⟩

instance : LawfulDoubleBits Binary64 := ⟨fun _ => rfl⟩

end Binary64
