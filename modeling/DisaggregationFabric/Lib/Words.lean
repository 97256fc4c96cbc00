import Mathlib.Data.List.Lex
import Mathlib.Order.Lattice

/-!
# Machine words

The linear orders on the unsigned words a program compares, and the one fact
about a 64-bit counter that everything else rests on: below the top of its
range, counting up is counting up.
-/

instance UInt8.instLinearOrder : LinearOrder UInt8 where
  le_refl := UInt8.le_refl
  le_trans _ _ _ := UInt8.le_trans
  le_antisymm _ _ := UInt8.le_antisymm
  le_total := UInt8.le_total
  lt_iff_le_not_ge _ _ := by
    rw [UInt8.not_le]
    exact ⟨fun h => ⟨UInt8.le_of_lt h, h⟩, fun h => h.2⟩
  toDecidableLE := inferInstance
  toDecidableLT := inferInstance
  toDecidableEq := inferInstance

instance UInt32.instLinearOrder : LinearOrder UInt32 where
  le_refl := UInt32.le_refl
  le_trans _ _ _ := UInt32.le_trans
  le_antisymm _ _ := UInt32.le_antisymm
  le_total := UInt32.le_total
  lt_iff_le_not_ge _ _ := by
    rw [UInt32.not_le]
    exact ⟨fun h => ⟨UInt32.le_of_lt h, h⟩, fun h => h.2⟩
  toDecidableLE := inferInstance
  toDecidableLT := inferInstance
  toDecidableEq := inferInstance

instance UInt64.instLinearOrder : LinearOrder UInt64 where
  le_refl := UInt64.le_refl
  le_trans _ _ _ := UInt64.le_trans
  le_antisymm _ _ := UInt64.le_antisymm
  le_total := UInt64.le_total
  lt_iff_le_not_ge _ _ := by
    rw [UInt64.not_le]
    exact ⟨fun h => ⟨UInt64.le_of_lt h, h⟩, fun h => h.2⟩
  toDecidableLE := inferInstance
  toDecidableLT := inferInstance
  toDecidableEq := inferInstance

namespace UInt64

/-- A 64-bit counter that does not end at zero has counted up. -/
theorem lt_succ_of_ne_zero {a : UInt64} (h : a + 1 ≠ 0) : a < a + 1 := by
  have hlt := UInt64.toNat_lt a
  have hne : (a + 1).toNat ≠ 0 := fun h' => h (UInt64.toNat_inj.mp h')
  rw [UInt64.lt_iff_toNat_lt]
  rw [UInt64.toNat_add] at hne ⊢
  simp only [UInt64.toNat_one] at hne ⊢
  omega

end UInt64
