import IocpNetlib.Lib.ByteBlock
import IocpNetlib.Lib.CString
import Mathlib.Data.List.TakeWhile

/-!
# Formatted output of the C runtime

What `%d`, `%u` and `%s` print, and `_snprintf_s` with `_TRUNCATE`.  A string
object is a list of bytes, its `c_str()` ends at the first NUL.  The result
`none` of `_snprintf_s` is a run that does not go on: it is told that there is
no room at all, or it writes behind the block.
-/

namespace IocpNetlib
namespace CFormat

open ByteBlock

/-- What `%s` prints of `c_str()`. -/
def cStr (s : List UInt8) : List UInt8 :=
  s.takeWhile (· ≠ 0)

/-- What `%u` prints. -/
def decimal (n : Nat) : List UInt8 :=
  (Nat.toDigits 10 n).map fun c => c.toNat.toUInt8

/-- What `%d` prints. -/
def signedDecimal : Int → List UInt8
  | .ofNat n => decimal n
  | .negSucc n => 45 :: decimal (n + 1)

/-- What `%0<width>d` prints of a number that is not negative. -/
def zeroPadded (width n : Nat) : List UInt8 :=
  List.replicate (width - (decimal n).length) 48 ++ decimal n

/--
The string `_snprintf_s(block, sizeOfBuffer, _TRUNCATE, ...)` leaves in a block
of zeros, for a format that prints `text`.
-/
def printed (sizeOfBuffer : Nat) (text : List UInt8) : List UInt8 :=
  text.take (sizeOfBuffer - 1)

/--
`_snprintf_s(block, sizeOfBuffer, _TRUNCATE, ...)` for a format that prints
`text`: what it returns, and the block.
-/
def snprintf_s (block : List UInt8) (sizeOfBuffer : Nat) (text : List UInt8) :
    Option (Int × List UInt8) :=
  if sizeOfBuffer = 0 then none
  else if text.length < sizeOfBuffer then
    if text.length < block.length then some (text.length, memcpy block 0 (text ++ [0]))
    else none
  else if sizeOfBuffer ≤ block.length then
    some (-1, memcpy block 0 (text.take (sizeOfBuffer - 1) ++ [0]))
  else none

section Strings

variable {s : List UInt8}

theorem cStr_eq (h : 0 ∉ s) : cStr s = s := by
  induction s with
  | nil => rfl
  | cons c cs ih =>
      have hc : c ≠ 0 := fun he => h (he ▸ List.mem_cons_self)
      have hcs : cStr cs = cs := ih fun hm => h (List.mem_cons_of_mem _ hm)
      rw [cStr] at hcs ⊢
      rw [List.takeWhile_cons, if_pos (by simpa using hc), hcs]

theorem zero_notMem_cStr (s : List UInt8) : (0 : UInt8) ∉ cStr s :=
  fun h => absurd (List.mem_takeWhile_imp h) (by simp)

/-- A string is read back up to its NUL. -/
theorem cStr_append (h : 0 ∉ s) (rest : List UInt8) : cStr (s ++ 0 :: rest) = s := by
  rw [cStr]
  rw [List.takeWhile_append_of_pos fun c hc => by simpa using fun h0 : c = 0 => h (h0 ▸ hc)]
  simp

theorem cStr_length_le (s : List UInt8) : (cStr s).length ≤ s.length :=
  (List.takeWhile_sublist _).length_le

/-- A string with a NUL inside is printed too short. -/
theorem cStr_length_lt (h : 0 ∈ s) : (cStr s).length < s.length := by
  induction s with
  | nil => exact absurd h List.not_mem_nil
  | cons c cs ih =>
      by_cases hc : c = 0
      · subst hc
        simp [cStr]
      · have hcs : (cStr cs).length < cs.length := by
          rcases List.mem_cons.mp h with h0 | hmem
          · exact absurd h0.symm hc
          · exact ih hmem
        have hcons : cStr (c :: cs) = c :: cStr cs := by
          unfold cStr
          rw [List.takeWhile_cons, if_pos (by simpa using hc)]
        rw [hcons, List.length_cons, List.length_cons]
        omega

end Strings

section Snprintf

variable {block text : List UInt8} {sizeOfBuffer : Nat}

/-- Text that fits is printed whole. -/
theorem snprintf_s_fits
    (hroom : text.length < sizeOfBuffer) (hblock : text.length < block.length) :
    snprintf_s block sizeOfBuffer text =
      some ((text.length : Int), memcpy block 0 (text ++ [0])) := by
  rw [snprintf_s]
  rw [if_neg (by omega), if_pos hroom, if_pos hblock]

/-- The printed text stands in front of the block. -/
theorem take_printed (block text : List UInt8) :
    (memcpy block 0 (text ++ [0])).take text.length = text := by
  have hcopy := take_memcpy block (text ++ [0]) (Nat.zero_le block.length)
  rw [List.length_append, List.length_singleton, List.take_zero, Nat.zero_add,
    List.nil_append] at hcopy
  have htake := congrArg (List.take text.length) hcopy
  rw [List.take_take, Nat.min_eq_left (Nat.le_succ _), List.take_left] at htake
  exact htake

end Snprintf

section Padding

theorem length_decimal_le {n k : Nat} (hk : 0 < k) : (decimal n).length ≤ k ↔ n < 10 ^ k := by
  rw [decimal, List.length_map]
  exact Nat.length_toDigits_le_iff (by decide) hk

/-- A number that fits is printed in exactly `width` digits. -/
theorem length_zeroPadded {width n : Nat} (hw : 0 < width) (h : n < 10 ^ width) :
    (zeroPadded width n).length = width := by
  have hle := (length_decimal_le hw).mpr h
  rw [zeroPadded, List.length_append, List.length_replicate]
  omega

/-- The digits of a number are no NUL. -/
theorem zero_notMem_decimal (n : Nat) : (0 : UInt8) ∉ decimal n := by
  intro h
  obtain ⟨c, hc, h0⟩ := List.mem_map.mp h
  have hdigit := Nat.isDigit_of_mem_toDigits (by decide) (by decide) hc
  have hrange : 48 ≤ c.toNat ∧ c.toNat ≤ 57 := by
    simpa [Char.isDigit, UInt32.le_iff_toNat_le] using hdigit
  have hnat := congrArg UInt8.toNat h0
  simp only [Nat.toUInt8_eq, UInt8.toNat_ofNat', UInt8.toNat_zero] at hnat
  omega

theorem zero_notMem_zeroPadded (width n : Nat) : (0 : UInt8) ∉ zeroPadded width n := by
  rw [zeroPadded, List.mem_append, List.mem_replicate]
  rintro (⟨-, h⟩ | h)
  · exact absurd h (by decide)
  · exact zero_notMem_decimal n h

end Padding

section Digits

open CString

/-- `%u` prints digits only. -/
theorem isdigit_of_mem_decimal {n : Nat} {d : UInt8} (h : d ∈ decimal n) : isdigit d = true := by
  obtain ⟨c, hc, rfl⟩ := List.mem_map.mp h
  have hdigit := Nat.isDigit_of_mem_toDigits (by decide) (by decide) hc
  have hrange : 48 ≤ c.toNat ∧ c.toNat ≤ 57 := by
    simpa [Char.isDigit, UInt32.le_iff_toNat_le] using hdigit
  have hnat : c.toNat.toUInt8.toNat = c.toNat := by
    simp only [Nat.toUInt8_eq, UInt8.toNat_ofNat']
    omega
  simp only [isdigit, Bool.and_eq_true, decide_eq_true_eq, UInt8.le_iff_toNat_le, hnat]
  exact hrange

theorem decimal_ne_nil (n : Nat) : decimal n ≠ [] := by
  rw [decimal]
  simp [Nat.toDigits_ne_nil]

theorem decimalFrom_map_digits
    (cs : List Char) (acc : Nat) (h : ∀ c ∈ cs, c.isDigit = true) :
    decimalFrom acc (cs.map fun c => c.toNat.toUInt8) = Nat.ofDigitChars 10 cs acc := by
  induction cs generalizing acc with
  | nil => simp [decimalFrom]
  | cons c cs ih =>
      have hdigit := h c List.mem_cons_self
      have hrange : 48 ≤ c.toNat ∧ c.toNat ≤ 57 := by
        simpa [Char.isDigit, UInt32.le_iff_toNat_le] using hdigit
      have hnat : c.toNat.toUInt8.toNat = c.toNat := by
        simp only [Nat.toUInt8_eq, UInt8.toNat_ofNat']
        omega
      have hrest := ih (10 * acc + (c.toNat - 48)) fun d hd => h d (List.mem_cons_of_mem _ hd)
      rw [Nat.ofDigitChars_cons, List.map_cons]
      rw [decimalFrom] at hrest ⊢
      rw [List.foldl_cons, hnat, Nat.mul_comm acc 10]
      exact hrest

/-- A number is printed as digits of its value. -/
theorem decimalFrom_decimal (n : Nat) : decimalFrom 0 (decimal n) = n := by
  rw [decimal]
  rw [decimalFrom_map_digits]
  · exact Nat.ofDigitChars_ten_toDigits
  · exact fun c hc => Nat.isDigit_of_mem_toDigits (by decide) (by decide) hc

end Digits

end CFormat
end IocpNetlib
