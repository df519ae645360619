import IocpNetlib.Lib.CFormat

/-!
# Appending to a string in a block

`strlen` and `strcat_s` on a block of memory, and the directory of a path by
`find_last_of` and `substr`.  The result `none` of `strcat_s` is the
invalid-parameter handler, from which a run does not come back.

A block that starts out as zeros and is only written through string functions
is a string padded with zeros; the lemmas say what each function makes of such
a block.
-/

namespace IocpNetlib
namespace StrCat

open ByteBlock CFormat

/-- `strlen` -/
def strlen (block : List UInt8) : Nat :=
  (cStr block).length

/-- `strcat_s(block, numberOfElements, src)` -/
def strcat_s (block : List UInt8) (numberOfElements : Nat) (src : List UInt8) :
    Option (List UInt8) :=
  if strlen block + src.length + 1 ≤ numberOfElements then
    some (memcpy block (strlen block) (src ++ [0]))
  else none

/-- `find_last_of` for one character; `none` is `npos`. -/
def findLastOf (c : UInt8) : List UInt8 → Option Nat
  | [] => none
  | b :: bs =>
      match findLastOf c bs with
      | some n => some (n + 1)
      | none => if b = c then some 0 else none

/-- `substr(0, nPos)` -/
def substr (s : List UInt8) : Option Nat → List UInt8
  | none => s
  | some nPos => s.take nPos

/-- A string in a block of `n` bytes, with zeros behind it. -/
def padded (n : Nat) (s : List UInt8) : List UInt8 :=
  s ++ List.replicate (n - s.length) 0

section Padded

variable {n : Nat} {s : List UInt8}

/-- Whatever is copied to the front of a block of zeros is padded. -/
theorem memcpy_zeros (n : Nat) (s : List UInt8) :
    memcpy (List.replicate n 0) 0 s = padded n s := by
  rw [memcpy, padded, List.take_zero, List.nil_append, Nat.zero_add, List.drop_replicate]

theorem padded_nil (n : Nat) : padded n [] = List.replicate n 0 := rfl

theorem length_padded (h : s.length ≤ n) : (padded n s).length = n := by
  rw [padded, List.length_append, List.length_replicate]
  omega

/-- The terminating NUL may be written out. -/
theorem padded_append_zero (h : s.length + 1 ≤ n) : padded n (s ++ [0]) = padded n s := by
  have hsplit : n - s.length = (n - (s.length + 1)) + 1 := by omega
  rw [padded, padded, List.length_append, List.length_singleton, hsplit, List.replicate_succ,
    List.append_assoc, List.singleton_append]

/-- A shorter padded block may be copied. -/
theorem padded_take {k : Nat} (hs : s.length ≤ k) (hk : k ≤ n) :
    padded n ((padded n s).take k) = padded n s := by
  have htake : (padded n s).take k = padded k s := by
    rw [padded, List.take_append, List.take_of_length_le hs, List.take_replicate,
      Nat.min_eq_left (by omega), padded]
  rw [htake, padded, length_padded hs, padded, List.append_assoc, List.replicate_append_replicate,
    padded]
  congr 2
  omega

/-- A zero behind the string changes nothing. -/
theorem padded_set {i : Nat} (h : s.length ≤ i) : (padded n s).set i 0 = padded n s := by
  rw [padded, List.set_append_right i 0 h, List.set_replicate_self]

theorem cStr_padded (hs : 0 ∉ s) : cStr (padded n s) = s := by
  rw [padded]
  cases n - s.length with
  | zero => rw [List.replicate_zero, List.append_nil, cStr_eq hs]
  | succ k =>
      rw [List.replicate_succ]
      exact cStr_append hs _

theorem strlen_padded (hs : 0 ∉ s) : strlen (padded n s) = s.length := by
  rw [strlen, cStr_padded hs]

/-- An append that fits. -/
theorem strcat_s_padded {numberOfElements : Nat} {src : List UInt8}
    (hs : 0 ∉ s) (hsize : numberOfElements ≤ n) (h : s.length + src.length + 1 ≤ numberOfElements) :
    strcat_s (padded n s) numberOfElements src = some (padded n (s ++ src)) := by
  have hlen : (s ++ src).length + 1 ≤ n := by
    rw [List.length_append]
    omega
  have htake : (padded n s).take s.length = s := List.take_left
  have hdrop : (padded n s).drop (s.length + (src ++ [0]).length) =
      List.replicate (n - (s ++ src ++ [0]).length) 0 := by
    rw [padded, List.drop_append, List.drop_of_length_le (by omega), List.nil_append,
      List.drop_replicate]
    congr 1
    simp only [List.length_append, List.length_singleton]
    omega
  rw [strcat_s, strlen_padded hs, if_pos h, memcpy, htake, hdrop, ← List.append_assoc,
    ← padded_append_zero hlen]
  rfl

/-- An append that does not fit. -/
theorem strcat_s_padded_eq_none {numberOfElements : Nat} {src : List UInt8}
    (hs : 0 ∉ s) (h : numberOfElements < s.length + src.length + 1) :
    strcat_s (padded n s) numberOfElements src = none := by
  rw [strcat_s, strlen_padded hs, if_neg (by omega)]

end Padded

/-- Two strings make a string. -/
theorem zero_notMem_append {s t : List UInt8} (hs : 0 ∉ s) (ht : 0 ∉ t) : 0 ∉ s ++ t := by
  rw [List.mem_append, not_or]
  exact ⟨hs, ht⟩

section Directory

variable {c : UInt8}

theorem findLastOf_eq_none {s : List UInt8} (h : c ∉ s) : findLastOf c s = none := by
  induction s with
  | nil => rfl
  | cons b bs ih =>
      rw [List.mem_cons, not_or] at h
      rw [findLastOf, ih h.2]
      exact if_neg fun hb => h.1 hb.symm

theorem findLastOf_append {name : List UInt8} (h : c ∉ name) (dir : List UInt8) :
    findLastOf c (dir ++ c :: name) = some dir.length := by
  induction dir with
  | nil => simp [findLastOf, findLastOf_eq_none h]
  | cons b bs ih =>
      rw [List.cons_append, findLastOf, ih]
      rfl

/-- What stands in front of the last separator. -/
theorem substr_findLastOf {name : List UInt8} (h : c ∉ name) (dir : List UInt8) :
    substr (dir ++ c :: name) (findLastOf c (dir ++ c :: name)) = dir := by
  rw [findLastOf_append h, substr, List.take_left]

theorem length_substr_le (s : List UInt8) (nPos : Option Nat) :
    (substr s nPos).length ≤ s.length := by
  cases nPos with
  | none => exact Nat.le_refl _
  | some n => exact List.length_take_le' n s

theorem mem_of_mem_substr {s : List UInt8} {nPos : Option Nat} {b : UInt8}
    (h : b ∈ substr s nPos) : b ∈ s := by
  cases nPos with
  | none => exact h
  | some n => exact List.mem_of_mem_take h

end Directory

end StrCat
end IocpNetlib
