import Mathlib.Data.Int.Order.Basic

/-!
# `Lib.CInt` — conversions between the integer types of C

A `short` has 16 bits, an `int` 32, `size_t` and `ssize_t` have 64. A conversion keeps a value the new type has
(`toInt32_of_range` and its siblings) and else changes it by a multiple of the width (`toInt32_eq`).
-/

namespace CInt

/-- Conversion to `short`. -/
def toInt16 (z : Int) : Int := Int.bmod z 65536

/-- Conversion to `int`. -/
def toInt32 (z : Int) : Int := Int.bmod z 4294967296

/-- Conversion to `ssize_t`. -/
def toInt64 (z : Int) : Int := Int.bmod z 18446744073709551616

/-- Conversion to `size_t`. -/
def toSize (z : Int) : Nat := (z % 18446744073709551616).toNat

variable {z : Int}

theorem toInt32_eq (z : Int) : ∃ k, toInt32 z = z - 4294967296 * k :=
  ⟨Int.bdiv z 4294967296, Int.bmod_eq_self_sub_mul_bdiv z 4294967296⟩

theorem toInt32_range (z : Int) : -2147483648 ≤ toInt32 z ∧ toInt32 z < 2147483648 :=
  ⟨Int.le_bmod (by decide), Int.bmod_lt (by decide)⟩

theorem toInt32_of_range (hlo : -2147483648 ≤ z) (hhi : z < 2147483648) : toInt32 z = z :=
  Int.bmod_eq_of_le hlo hhi

theorem toInt64_eq (z : Int) : ∃ k, toInt64 z = z - 18446744073709551616 * k :=
  ⟨Int.bdiv z 18446744073709551616, Int.bmod_eq_self_sub_mul_bdiv z 18446744073709551616⟩

theorem toInt64_of_range (hlo : -9223372036854775808 ≤ z) (hhi : z < 9223372036854775808) : toInt64 z = z :=
  Int.bmod_eq_of_le hlo hhi

theorem toSize_of_range (hlo : 0 ≤ z) (hhi : z < 18446744073709551616) : toSize z = z.toNat := by
  unfold toSize
  omega

end CInt
