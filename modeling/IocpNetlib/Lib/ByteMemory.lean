import IocpNetlib.Lib.ByteBlock
import Mathlib.Data.List.Nodup
import Mathlib.Data.List.Perm.Subperm

/-!
# Byte memories

A memory gives every address a byte.  A store writes a string of bytes at an
address, a load reads one back, and a word of `k` bytes is stored with its
least significant byte first.

A load sees a store to the same place, and does not see a store to bytes that
it does not read.
-/

namespace IocpNetlib
namespace ByteMemory

open ByteBlock

/-- A memory of bytes. -/
abbrev Bytes := Nat → UInt8

/-- The `n` bytes from the address `a` on. -/
def loadBytes (mem : Bytes) (a n : Nat) : List UInt8 :=
  (List.range n).map fun i => mem (a + i)

/-- The memory after the bytes `bs` were written from `a` on. -/
def storeBytes (mem : Bytes) (a : Nat) (bs : List UInt8) : Bytes := fun x =>
  if a ≤ x then (bs[x - a]?).getD (mem x) else mem x

/-- The word of `k` bytes at `a`. -/
def loadWord (k : Nat) (mem : Bytes) (a : Nat) : Nat :=
  leNat (loadBytes mem a k)

/-- The memory after the `k` low bytes of `v` were written at `a`. -/
def storeWord (k : Nat) (mem : Bytes) (a v : Nat) : Bytes :=
  storeBytes mem a (leBytes k v)

/-- The `n` bytes from `a` on and the `m` bytes from `b` on have none in common. -/
def Apart (a n b m : Nat) : Prop :=
  a + n ≤ b ∨ b + m ≤ a

variable {mem : Bytes} {a b n k : Nat} {bs : List UInt8}

@[simp] theorem length_loadBytes (mem : Bytes) (a n : Nat) : (loadBytes mem a n).length = n := by
  simp [loadBytes]

/-- A load depends on the bytes that it reads. -/
theorem loadBytes_congr
    {mem' : Bytes} (h : ∀ x, a ≤ x → x < a + n → mem x = mem' x) :
    loadBytes mem a n = loadBytes mem' a n := by
  rw [loadBytes]
  refine List.map_congr_left fun i hi => ?_
  have hlt := List.mem_range.mp hi
  exact h (a + i) (by omega) (by omega)

/-- A store changes no byte outside the place it writes to. -/
theorem storeBytes_outside {x : Nat} (h : x < a ∨ a + bs.length ≤ x) :
    storeBytes mem a bs x = mem x := by
  rw [storeBytes]
  split_ifs with hle
  · rw [List.getElem?_eq_none (by omega)]
    rfl
  · rfl

/-- A store is read back. -/
theorem loadBytes_storeBytes_self (mem : Bytes) (a : Nat) (bs : List UInt8) :
    loadBytes (storeBytes mem a bs) a bs.length = bs := by
  refine List.ext_getElem (length_loadBytes _ _ _) fun i hi hi' => ?_
  simp only [loadBytes, storeBytes, List.getElem_map, List.getElem_range]
  rw [if_pos (by omega), Nat.add_sub_cancel_left, List.getElem?_eq_getElem hi']
  rfl

/-- A load does not see a store to other bytes. -/
theorem loadBytes_storeBytes_apart (h : Apart b bs.length a n) :
    loadBytes (storeBytes mem b bs) a n = loadBytes mem a n := by
  refine loadBytes_congr fun x hle hlt => storeBytes_outside ?_
  rcases h with h | h <;> omega

theorem loadWord_storeWord_self {v : Nat} (hv : v < 256 ^ k) :
    loadWord k (storeWord k mem a v) a = v := by
  have hload := loadBytes_storeBytes_self mem a (leBytes k v)
  rw [length_leBytes] at hload
  rw [loadWord, storeWord]
  rw [hload, leNat_leBytes k v hv]

theorem loadWord_storeBytes_apart (h : Apart b bs.length a k) :
    loadWord k (storeBytes mem b bs) a = loadWord k mem a := by
  unfold loadWord
  rw [loadBytes_storeBytes_apart h]

theorem loadWord_storeWord_apart {v : Nat} (h : Apart b k a k) :
    loadWord k (storeWord k mem b v) a = loadWord k mem a :=
  loadWord_storeBytes_apart (by rwa [length_leBytes])

/-- What is inside of two ranges without common bytes has none in common. -/
theorem Apart.mono
    {a' n' b' m m' : Nat} (h : Apart a n b m)
    (ha : a ≤ a') (hn : a' + n' ≤ a + n) (hb : b ≤ b') (hm : b' + m' ≤ b + m) :
    Apart a' n' b' m' := by
  rcases h with h | h
  · exact .inl (by omega)
  · exact .inr (by omega)

/-- Blocks of one size, one behind the other, have no bytes in common. -/
theorem apart_blocks
    (base size : Nat) {i j : Nat} (h : i ≠ j) :
    Apart (base + i * size) size (base + j * size) size := by
  rcases Nat.lt_or_gt_of_ne h with hlt | hlt
  · left
    have hmul : (i + 1) * size ≤ j * size := Nat.mul_le_mul_right size hlt
    rw [Nat.add_mul] at hmul
    omega
  · right
    have hmul : (j + 1) * size ≤ i * size := Nat.mul_le_mul_right size hlt
    rw [Nat.add_mul] at hmul
    omega

/-- Ranges of `n` bytes without common bytes that lie in `size` bytes. -/
theorem length_mul_le_of_apart
    {blocks : List Nat} {base size : Nat}
    (hapart : blocks.Pairwise fun a b => Apart a n b n)
    (hin : ∀ a ∈ blocks, base ≤ a ∧ a + n ≤ base + size) :
    blocks.length * n ≤ size := by
  -- the bytes of the ranges, one range after the other, are all different
  have hnodup : (blocks.flatMap fun a => List.range' a n).Nodup := by
    refine List.nodup_flatMap.mpr ⟨fun a _ => List.nodup_range', hapart.imp fun h => ?_⟩
    intro x hx hx'
    have hlow := List.mem_range'_1.mp hx
    have hhigh := List.mem_range'_1.mp hx'
    rcases h with h | h <;> omega
  have hsub : (blocks.flatMap fun a => List.range' a n) ⊆ List.range' base size := by
    intro x hx
    obtain ⟨a, ha, hxa⟩ := List.mem_flatMap.mp hx
    have hrange := List.mem_range'_1.mp hxa
    have hinside := hin a ha
    exact List.mem_range'_1.mpr (by omega)
  have hlen := (List.Nodup.subperm hnodup hsub).length_le
  simpa [List.length_flatMap] using hlen

/-- Two memories that differ at most in the `n` bytes from `a` on. -/
def SameOutside (a n : Nat) (mem mem' : Bytes) : Prop :=
  ∀ x, x < a ∨ a + n ≤ x → mem' x = mem x

theorem SameOutside.refl (a n : Nat) (mem : Bytes) : SameOutside a n mem mem :=
  fun _ _ => rfl

/-- One more store inside the range. -/
theorem SameOutside.store
    {mem' : Bytes} (h : SameOutside a n mem mem') (hlow : a ≤ b) (hhigh : b + bs.length ≤ a + n) :
    SameOutside a n mem (storeBytes mem' b bs) := by
  intro x hx
  rw [storeBytes_outside (by omega)]
  exact h x hx

theorem SameOutside.storeWord
    {mem' : Bytes} {v : Nat} (h : SameOutside a n mem mem') (hlow : a ≤ b)
    (hhigh : b + k ≤ a + n) :
    SameOutside a n mem (storeWord k mem' b v) :=
  h.store hlow (by rwa [length_leBytes])

/-- A load from other bytes does not see the difference. -/
theorem SameOutside.loadBytes_eq
    {mem' : Bytes} {m : Nat} (h : SameOutside a n mem mem') (hapart : Apart a n b m) :
    loadBytes mem' b m = loadBytes mem b m := by
  refine loadBytes_congr fun x hle hlt => h x ?_
  rcases hapart with hapart | hapart <;> omega

end ByteMemory
end IocpNetlib
