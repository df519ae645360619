import Mathlib.Algebra.Group.Int.Defs
import Mathlib.Algebra.Group.Nat.Defs
import Mathlib.Data.List.Basic
import Mathlib.Logic.Function.Basic

/-!
# Intrusive free lists

Cells that are not in use are linked through a word of their own.  `Chain` says
which cells are linked from a head, in order.  A write to a cell outside the
chain does not change it, taking the first cell off leaves the rest, and a cell
is put back by letting it point to the old head.
-/

namespace IocpNetlib
namespace FreeList

universe u v

variable {A : Type u} {L : Type v}

/-- How words point to cells. -/
structure Pointers (A : Type u) (L : Type v) where
  null : L
  ptr : A → L
  ptr_ne_null : ∀ a, ptr a ≠ null
  ptr_inj : ∀ a b, ptr a = ptr b → a = b

/-- The cells that are linked from `head`. -/
def Chain (P : Pointers A L) (link : A → L) : L → List A → Prop
  | head, [] => head = P.null
  | head, a :: as => head = P.ptr a ∧ Chain P link (link a) as

variable {P : Pointers A L} {link : A → L} {head : L}

@[simp] theorem chain_nil : Chain P link head [] ↔ head = P.null :=
  Iff.rfl

@[simp] theorem chain_cons {a : A} {as : List A} :
    Chain P link head (a :: as) ↔ head = P.ptr a ∧ Chain P link (link a) as :=
  Iff.rfl

/-- Only the words of the cells in the chain matter. -/
theorem Chain.congr
    {link' : A → L} {as : List A} (hsame : ∀ a ∈ as, link' a = link a)
    (h : Chain P link head as) :
    Chain P link' head as := by
  induction as generalizing head with
  | nil => exact h
  | cons a as ih =>
      obtain ⟨hhead, htail⟩ := h
      refine ⟨hhead, ?_⟩
      rw [hsame a List.mem_cons_self]
      exact ih (fun b hb => hsame b (List.mem_cons_of_mem _ hb)) htail

/-- A head has one chain. -/
theorem Chain.unique
    {as bs : List A} (ha : Chain P link head as) (hb : Chain P link head bs) :
    as = bs := by
  induction as generalizing head bs with
  | nil =>
      cases bs with
      | nil => rfl
      | cons b bs => exact absurd (hb.1.symm.trans ha) (P.ptr_ne_null b)
  | cons a as ih =>
      cases bs with
      | nil => exact absurd (ha.1.symm.trans hb) (P.ptr_ne_null a)
      | cons b bs =>
          obtain rfl := P.ptr_inj a b (ha.1.symm.trans hb.1)
          rw [ih ha.2 hb.2]

section Update

variable [DecidableEq A]

/-- A write outside the chain leaves the chain as it is. -/
theorem Chain.update
    {as : List A} {b : A} (hb : b ∉ as) (x : L) (h : Chain P link head as) :
    Chain P (Function.update link b x) head as := by
  refine h.congr fun a ha => ?_
  have hne : a ≠ b := fun he => hb (he ▸ ha)
  exact Function.update_of_ne hne x link

/-- A cell is put back in front. -/
theorem Chain.push
    {as : List A} {b : A} (hb : b ∉ as) (h : Chain P link head as) :
    Chain P (Function.update link b head) (P.ptr b) (b :: as) := by
  refine ⟨rfl, ?_⟩
  rw [Function.update_self]
  exact h.update hb head

end Update

/-- Cells that point to the next one, the last one to nothing. -/
theorem chain_range
    {cell : Nat → A} {n : Nat}
    (hlink : ∀ i < n, link (cell i) = if i + 1 < n then P.ptr (cell (i + 1)) else P.null) :
    ∀ (m i : Nat), i + m + 1 = n →
      Chain P link (P.ptr (cell i)) ((List.range' i (m + 1)).map cell) := by
  intro m
  induction m with
  | zero =>
      intro i h
      refine ⟨rfl, ?_⟩
      rw [hlink i (by omega), if_neg (by omega)]
      rfl
  | succ m ih =>
      intro i h
      refine ⟨rfl, ?_⟩
      rw [hlink i (by omega), if_pos (by omega)]
      exact ih (i + 1) (by omega)

end FreeList
end IocpNetlib
