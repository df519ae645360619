import Mathlib.Algebra.Group.Int.Defs
import Mathlib.Algebra.Group.Nat.Defs
import Mathlib.Data.List.Basic

/-!
# Byte blocks: copies inside a block and little-endian integers

A block of memory is the list of its bytes.  `memcpy` overwrites a range of a
block, `memmove` copies a range of a block to another place of the same block,
and `int32At` reads four bytes as a signed little-endian integer.

The lemmas say what the bytes in front of the written range's end are, which
is all a stream splitter looks at, and that a copy that stays inside the block
keeps its size.
-/

namespace IocpNetlib
namespace ByteBlock

universe u

variable {α : Type u}

/-- Overwrite the bytes of `dst` from `off` on by `src`. -/
def memcpy (dst : List α) (off : Nat) (src : List α) : List α :=
  dst.take off ++ src ++ dst.drop (off + src.length)

/-- Copy `n` bytes of `block` from offset `src` to offset `dst`. -/
def memmove (block : List α) (dst src n : Nat) : List α :=
  memcpy block dst ((block.drop src).take n)

theorem length_memcpy
    {dst : List α} {off : Nat} {src : List α}
    (h : off + src.length ≤ dst.length) :
    (memcpy dst off src).length = dst.length := by
  simp only [memcpy, List.length_append, List.length_take, List.length_drop]
  omega

theorem take_memcpy
    (dst : List α) {off : Nat} (src : List α)
    (h : off ≤ dst.length) :
    (memcpy dst off src).take (off + src.length) = dst.take off ++ src := by
  have hlen : (dst.take off ++ src).length = off + src.length := by
    simp only [List.length_append, List.length_take]
    omega
  rw [memcpy]
  rw [← hlen, List.take_left]

theorem memcpy_nil (dst : List α) : memcpy dst 0 [] = dst := by
  rw [memcpy, List.take_zero, List.length_nil, Nat.add_zero, List.drop_zero, List.nil_append,
    List.nil_append]

/-- A copy right behind another one is one copy of both. -/
theorem memcpy_append (dst xs ys : List α) :
    memcpy (memcpy dst 0 xs) xs.length ys = memcpy dst 0 (xs ++ ys) := by
  have htake := take_memcpy dst xs (Nat.zero_le dst.length)
  rw [List.take_zero, List.nil_append, Nat.zero_add] at htake
  rw [memcpy, htake]
  simp only [memcpy, List.take_zero, List.nil_append, Nat.zero_add, List.append_assoc,
    List.length_append, List.drop_append, List.drop_drop]
  rw [List.drop_of_length_le (by omega), List.nil_append]
  congr 3
  omega

/-- A copy leaves the bytes behind it as they are. -/
theorem getElem?_memcpy_behind
    {dst : List α} {off : Nat} {src : List α} {i : Nat}
    (hoff : off ≤ dst.length) (h : off + src.length ≤ i) :
    (memcpy dst off src)[i]? = dst[i]? := by
  have hlen : (dst.take off ++ src).length = off + src.length := by
    rw [List.length_append, List.length_take_of_le hoff]
  rw [memcpy]
  rw [List.getElem?_append_right (by omega), List.getElem?_drop, hlen]
  congr 1
  omega

theorem length_memmove
    {block : List α} {dst n : Nat} (src : Nat)
    (h : dst + n ≤ block.length) :
    (memmove block dst src n).length = block.length := by
  apply length_memcpy
  simp only [List.length_take, List.length_drop]
  omega

/-- A slice inside a block has the length it is asked for. -/
theorem length_slice
    {block : List α} {src n : Nat} (h : src + n ≤ block.length) :
    ((block.drop src).take n).length = n := by
  rw [List.length_take, List.length_drop]
  omega

theorem take_memmove_zero
    {block : List α} {src n : Nat}
    (h : src + n ≤ block.length) :
    (memmove block 0 src n).take n = (block.drop src).take n := by
  have hlen := length_slice h
  have hcpy :=
    take_memcpy block ((block.drop src).take n) (Nat.zero_le block.length)
  rw [hlen, Nat.zero_add] at hcpy
  simpa [memmove] using hcpy

/-- Unsigned value of a little-endian byte string. -/
def leNat : List UInt8 → Nat
  | [] => 0
  | b :: bs => b.toNat + 256 * leNat bs

/-- The `k` low bytes of `n`, least significant first. -/
def leBytes : Nat → Nat → List UInt8
  | 0, _ => []
  | k + 1, n => UInt8.ofNat n :: leBytes k (n / 256)

@[simp] theorem length_leBytes (k : Nat) :
    ∀ n : Nat, (leBytes k n).length = k := by
  induction k with
  | zero =>
      intro n
      rfl
  | succ k ih =>
      intro n
      simp [leBytes, ih]

theorem leNat_leBytes (k : Nat) :
    ∀ n : Nat, n < 256 ^ k → leNat (leBytes k n) = n := by
  induction k with
  | zero =>
      intro n h
      simp only [Nat.pow_zero, Nat.lt_one_iff] at h
      simp [leBytes, leNat, h]
  | succ k ih =>
      intro n h
      have hdiv : n / 256 < 256 ^ k := by
        rw [Nat.div_lt_iff_lt_mul (by decide)]
        simpa [Nat.pow_succ] using h
      simp only [leBytes, leNat, ih _ hdiv, UInt8.toNat_ofNat']
      omega

/-- The signed 32-bit reading of the unsigned value `u`. -/
def toInt32 (u : Nat) : Int :=
  (u : Int).bmod (2 ^ 32)

/-- The `int` stored little-endian at offset `off` of `block`. -/
def int32At (block : List UInt8) (off : Nat) : Int :=
  toInt32 (leNat ((block.drop off).take 4))

/-- An `int` read only looks at the four bytes it covers. -/
theorem int32At_eq_of_take_eq
    {b c : List UInt8} {off n : Nat}
    (hn : off + 4 ≤ n)
    (h : b.take n = c.take n) :
    int32At b off = int32At c off := by
  have hfield (x : List UInt8) :
      (x.drop off).take 4 = ((x.take n).drop off).take 4 := by
    rw [List.drop_take, List.take_take]
    congr 1
    omega
  unfold int32At
  rw [hfield b, hfield c, h]

theorem int32At_append
    {b : List UInt8} {off : Nat}
    (h : off + 4 ≤ b.length) (c : List UInt8) :
    int32At (b ++ c) off = int32At b off := by
  apply int32At_eq_of_take_eq h
  rw [List.take_left, List.take_length]

/-- Below `2 ^ 31` the signed reading is the value itself. -/
theorem toInt32_of_lt
    {n : Nat} (h : n < 2 ^ 31) :
    toInt32 n = n := by
  unfold toInt32
  rw [Int.bmod_def]
  have hmod : (n : Int) % ((2 ^ 32 : Nat) : Int) = n := by omega
  rw [hmod, if_pos (by omega)]

/-- From `2 ^ 31` on the conversion to `int` gives a negative number. -/
theorem toInt32_neg {n : Nat} (h : 2 ^ 31 ≤ n) (h' : n < 2 ^ 32) :
    toInt32 n < 0 := by
  unfold toInt32
  rw [Int.bmod_def]
  have hmod : (n : Int) % ((2 ^ 32 : Nat) : Int) = n := by omega
  rw [hmod, if_neg (by omega)]
  omega

/-- A length below `2 ^ 31` is read back from its four bytes. -/
theorem int32At_of_field
    {block : List UInt8} {off n : Nat}
    (hn : n < 2 ^ 31)
    (h : (block.drop off).take 4 = leBytes 4 n) :
    int32At block off = n := by
  rw [int32At]
  rw [h, leNat_leBytes 4 n (by omega), toInt32_of_lt hn]

end ByteBlock
end IocpNetlib
