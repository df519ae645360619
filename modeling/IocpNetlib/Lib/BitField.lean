import Mathlib.Algebra.Group.Int.Defs
import Mathlib.Algebra.Group.Nat.Defs

/-!
# Bit fields

A mask of `k` bits from bit `i` on cuts a field out of a number, and a field is
put behind others that are smaller.  Masks, shifts and disjunctions of the code
become quotients and remainders.
-/

namespace IocpNetlib
namespace BitField

/-- The bits of a mask. -/
theorem and_mask (x i k : Nat) :
    x &&& ((2 ^ k - 1) * 2 ^ i) = x / 2 ^ i % 2 ^ k * 2 ^ i := by
  rw [← Nat.shiftLeft_eq, ← Nat.shiftLeft_eq, ← Nat.and_two_pow_sub_one_eq_mod,
    ← Nat.shiftRight_eq_div_pow]
  apply Nat.eq_of_testBit_eq
  intro j
  rw [Nat.testBit_and, Nat.testBit_shiftLeft, Nat.testBit_shiftLeft, Nat.testBit_and,
    Nat.testBit_shiftRight]
  by_cases h : i ≤ j
  · simp [h]
  · simp [h]

/-- The field that a mask cuts out. -/
theorem and_mask_shift (x i k : Nat) :
    (x &&& ((2 ^ k - 1) * 2 ^ i)) >>> i = x / 2 ^ i % 2 ^ k := by
  rw [and_mask, Nat.shiftRight_eq_div_pow, Nat.mul_div_cancel _ (Nat.two_pow_pos i)]

/-- A field in front of smaller bits. -/
theorem or_field (a i : Nat) {b : Nat} (h : b < 2 ^ i) : b ||| (a * 2 ^ i) = a * 2 ^ i + b := by
  rw [← Nat.shiftLeft_eq, Nat.or_comm, Nat.shiftLeft_add_eq_or_of_lt h]

/-- Bits pushed in behind a number. -/
theorem shift_or (a i : Nat) {b : Nat} (h : b < 2 ^ i) : a <<< i ||| b = a * 2 ^ i + b := by
  rw [← Nat.shiftLeft_add_eq_or_of_lt h, Nat.shiftLeft_eq]

/-- A bit is not set. -/
theorem and_bit_eq_zero_iff (x i : Nat) : x &&& (1 * 2 ^ i) = 0 ↔ x / 2 ^ i % 2 = 0 := by
  have h := and_mask x i 1
  simp only [Nat.pow_one, Nat.add_one_sub_one] at h
  rw [h, Nat.mul_eq_zero]
  have hpos := Nat.two_pow_pos i
  omega

end BitField
end IocpNetlib
