/-
Conversions between the fixed-width integers of C.

Unsigned arithmetic wraps, and so does a conversion to a narrower type.  What is
asked of such an operation is always the same: when does it give the number one
would have written down.  Each lemma here answers that with the range of the type.
-/
import Mathlib.Algebra.Order.Ring.Int

namespace CInt

theorem uint64_toNat_ofInt (z : Int) : ((UInt64.ofInt z).toNat : Int) = z % 2 ^ 64 := by
  have h0 : 0 ≤ z % 2 ^ 64 := Int.emod_nonneg _ (by decide)
  have h1 : z % 2 ^ 64 < 2 ^ 64 := Int.emod_lt_of_pos _ (by decide)
  rw [UInt64.ofInt, UInt64.toNat_ofNat']
  omega

theorem uint64_ofInt_eq_iff (z : Int) :
    ((UInt64.ofInt z).toNat : Int) = z ↔ 0 ≤ z ∧ z < 2 ^ 64 := by
  rw [uint64_toNat_ofInt]
  omega

/-- `a += z` on a 64-bit counter. -/
theorem uint64_add_ofInt_eq_iff (a : UInt64) (z : Int) :
    ((a + UInt64.ofInt z).toNat : Int) = a.toNat + z ↔
      0 ≤ (a.toNat : Int) + z ∧ (a.toNat : Int) + z < 2 ^ 64 := by
  have hval : ((a + UInt64.ofInt z).toNat : Int) = ((a.toNat : Int) + z) % 2 ^ 64 := by
    rw [UInt64.toNat_add, Int.natCast_mod, Int.natCast_add, uint64_toNat_ofInt]
    omega
  rw [hval]
  omega

theorem int32_ofInt_eq_iff (z : Int) :
    (Int32.ofInt z).toInt = z ↔ -2 ^ 31 ≤ z ∧ z < 2 ^ 31 := by
  rw [Int32.toInt_ofInt, Int.bmod_def, show Int32.size = 2 ^ 32 from rfl]
  omega

/-- `a++` on an `int`. -/
theorem int32_succ_eq_iff (a : Int32) :
    (a + 1).toInt = a.toInt + 1 ↔ -2 ^ 31 ≤ a.toInt + 1 ∧ a.toInt + 1 < 2 ^ 31 := by
  have hlo := a.le_toInt
  have hhi := a.toInt_lt
  rw [Int32.toInt_add, show (1 : Int32).toInt = 1 by decide, Int.bmod_def]
  omega

/-- The conversion to a 16-bit field. -/
theorem uint16_toNat_ofInt (z : Int) : ((UInt16.ofInt z).toNat : Int) = z % 2 ^ 16 := by
  have h0 : 0 ≤ z % 2 ^ 16 := Int.emod_nonneg _ (by decide)
  have h1 : z % 2 ^ 16 < 2 ^ 16 := Int.emod_lt_of_pos _ (by decide)
  rw [UInt16.ofInt, UInt16.toNat_ofNat']
  omega

/-! ### What a wide enough type holds already -/

theorem uint16_ofInt_toNat (n : UInt16) : UInt16.ofInt n.toNat = n := by
  have h := n.toNat_lt
  rw [UInt16.ofInt, ← UInt16.toNat_inj, UInt16.toNat_ofNat']
  omega

theorem uint32_ofInt_toNat (n : UInt32) : UInt32.ofInt n.toNat = n := by
  have h := n.toNat_lt
  rw [UInt32.ofInt, ← UInt32.toNat_inj, UInt32.toNat_ofNat']
  omega

theorem uint64_ofInt_toNat (n : UInt64) : UInt64.ofInt n.toNat = n := by
  have h := n.toNat_lt
  rw [UInt64.ofInt, ← UInt64.toNat_inj, UInt64.toNat_ofNat']
  omega

end CInt
