import Mathlib.Data.Int.ModEq
import Mathlib.Tactic.Common
import Mathlib.Tactic.Ring

/-!
# Integer types of a machine

An integer type has a width and a sign.  A value of one type is converted to
another modulo the size of the target, which leaves it as it is exactly if the
target can represent it.
-/

namespace IocpNetlib
namespace MachineInt

/-- An integer type of `bits + 1` bits. -/
structure IntType where
  bits : Nat
  signed : Bool
deriving DecidableEq, Repr

namespace IntType

/-- The number of values. -/
def size (t : IntType) : Nat := 2 * 2 ^ t.bits

/-- The values of the type. -/
def InRange (t : IntType) (n : Int) : Prop :=
  if t.signed then -2 ^ t.bits ≤ n ∧ n < 2 ^ t.bits else 0 ≤ n ∧ n < 2 * 2 ^ t.bits

instance (t : IntType) (n : Int) : Decidable (t.InRange n) :=
  inferInstanceAs (Decidable
    (if t.signed = true then -2 ^ t.bits ≤ n ∧ n < 2 ^ t.bits else 0 ≤ n ∧ n < 2 * 2 ^ t.bits))

/-- Conversion to the type. -/
def cast (t : IntType) (n : Int) : Int :=
  if t.signed then n.bmod t.size else n % t.size

variable {t u : IntType} {n : Int}

theorem size_eq (t : IntType) : (t.size : Int) = 2 * 2 ^ t.bits := by
  simp [size]

theorem half_pos (t : IntType) : (0 : Int) < 2 ^ t.bits :=
  Int.pow_pos (by decide)

theorem size_pos (t : IntType) : (0 : Int) < t.size := by
  have hpos := half_pos t
  rw [size_eq]
  omega

theorem inRange_signed (h : t.signed = true) :
    t.InRange n ↔ -2 ^ t.bits ≤ n ∧ n < 2 ^ t.bits := by
  simp [InRange, h]

theorem inRange_unsigned (h : t.signed = false) :
    t.InRange n ↔ 0 ≤ n ∧ n < 2 * 2 ^ t.bits := by
  simp [InRange, h]

/-- A conversion gives a value of the type. -/
theorem inRange_cast (t : IntType) (n : Int) : t.InRange (t.cast n) := by
  have hsize := size_eq t
  have hpos := size_pos t
  cases h : t.signed with
  | true =>
      have hle := Int.le_bmod (x := n) (m := t.size) (by omega)
      have hlt := Int.bmod_lt (x := n) (m := t.size) (by omega)
      rw [inRange_signed h, cast, if_pos h]
      omega
  | false =>
      have hle := Int.emod_nonneg n (show (t.size : Int) ≠ 0 by omega)
      have hlt := Int.emod_lt_of_pos n hpos
      rw [inRange_unsigned h, cast, if_neg (by simp [h])]
      omega

/-- A conversion changes a value by a multiple of the size. -/
theorem dvd_cast_sub (t : IntType) (n : Int) : (t.size : Int) ∣ t.cast n - n := by
  rw [cast]
  split_ifs
  · exact Int.dvd_bmod_sub_self
  · exact Int.dvd_emod_sub_self

/-- Two values of a type that differ by a multiple of its size are the same. -/
theorem eq_of_dvd_sub {m : Int} (hn : t.InRange n) (hm : t.InRange m)
    (h : (t.size : Int) ∣ n - m) : n = m := by
  have hsize := size_eq t
  have hpos := size_pos t
  have hzero : n - m = 0 := by
    apply Int.eq_zero_of_abs_lt_dvd h
    rw [abs_lt]
    cases ht : t.signed with
    | true =>
        rw [inRange_signed ht] at hn hm
        omega
    | false =>
        rw [inRange_unsigned ht] at hn hm
        omega
  omega

/-- A value is converted to itself exactly if the type has it. -/
theorem cast_eq_self_iff : t.cast n = n ↔ t.InRange n :=
  ⟨fun h => h ▸ inRange_cast t n,
    fun h => eq_of_dvd_sub (inRange_cast t n) h (dvd_cast_sub t n)⟩

/-- A wider type of the same sign has all the values. -/
theorem InRange.widen (h : t.InRange n) (hbits : t.bits ≤ u.bits) (hsigned : t.signed = u.signed) :
    u.InRange n := by
  have hpow : (2 : Int) ^ t.bits ≤ 2 ^ u.bits := by
    exact_mod_cast Nat.pow_le_pow_right (by decide) hbits
  cases hu : u.signed with
  | true =>
      rw [inRange_signed (hsigned.trans hu)] at h
      rw [inRange_signed hu]
      omega
  | false =>
      rw [inRange_unsigned (hsigned.trans hu)] at h
      rw [inRange_unsigned hu]
      omega

/-- A wider signed type has all values of an unsigned one. -/
theorem InRange.widen_signed (h : t.InRange n) (ht : t.signed = false) (hu : u.signed = true)
    (hbits : t.bits < u.bits) : u.InRange n := by
  have hpow : (2 : Int) ^ (t.bits + 1) ≤ 2 ^ u.bits := by
    exact_mod_cast Nat.pow_le_pow_right (by decide) hbits
  have hpos := half_pos t
  rw [Int.pow_succ] at hpow
  rw [inRange_unsigned ht] at h
  rw [inRange_signed hu]
  omega

/-- A conversion to a wider type of the same sign changes nothing. -/
theorem cast_cast (n : Int) (hbits : t.bits ≤ u.bits) (hsigned : t.signed = u.signed) :
    u.cast (t.cast n) = t.cast n :=
  cast_eq_self_iff.mpr ((inRange_cast t n).widen hbits hsigned)

end IntType

end MachineInt
end IocpNetlib
