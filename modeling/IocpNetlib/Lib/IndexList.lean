import Mathlib.Data.List.Nodup

/-!
# Lists that are linked by index

The elements of a list lie in an array, and each one knows the index of the next
one; the index `0` is the end.  `Chain.join` puts one list behind another.
-/

namespace IocpNetlib
namespace IndexList

variable {next next' : Nat → Nat} {i k n : Nat} {l m : List Nat}

/-- From the index `i` on, the array holds the list. -/
def Chain (next : Nat → Nat) : Nat → List Nat → Prop
  | i, [] => i = 0
  | i, j :: js => i = j ∧ j ≠ 0 ∧ Chain next (next j) js

/-- The first index is `0` exactly if the list is empty. -/
theorem Chain.eq_zero_iff (h : Chain next i l) : i = 0 ↔ l = [] := by
  cases l with
  | nil => exact iff_of_true h rfl
  | cons a l =>
      obtain ⟨rfl, ha, -⟩ := h
      exact iff_of_false ha (List.cons_ne_nil _ _)

theorem Chain.head? (h : Chain next i l) (hi : i ≠ 0) : l.head? = some i := by
  cases l with
  | nil => exact absurd h hi
  | cons a l =>
      obtain ⟨rfl, -, -⟩ := h
      rfl

theorem Chain.headD (h : Chain next i l) : l.headD 0 = i := by
  cases l with
  | nil => exact Eq.symm h
  | cons a l => exact h.1.symm

/-- One element: there is a first one, and it is the last one. -/
theorem Chain.length_eq_one_iff (h : Chain next i l) : l.length = 1 ↔ i ≠ 0 ∧ next i = 0 := by
  cases l with
  | nil => exact iff_of_false Nat.zero_ne_one fun he => he.1 h
  | cons a l =>
      obtain ⟨rfl, ha, hl⟩ := h
      rw [hl.eq_zero_iff, List.length_cons, Nat.succ_inj, List.length_eq_zero_iff]
      exact (and_iff_right ha).symm

/-- Links of other elements do not matter. -/
theorem Chain.congr (h : Chain next i l) (hnext : ∀ j ∈ l, next' j = next j) :
    Chain next' i l := by
  induction l generalizing i with
  | nil => exact h
  | cons a l ih =>
      obtain ⟨rfl, ha, hl⟩ := h
      refine ⟨rfl, ha, ?_⟩
      rw [hnext i List.mem_cons_self]
      exact ih hl fun j hj => hnext j (List.mem_cons_of_mem _ hj)

/-- The last element points to the end. -/
theorem Chain.next_getLast (h : Chain next i l) (hn : l.getLast? = some n) : next n = 0 := by
  induction l generalizing i with
  | nil => exact absurd hn (by simp)
  | cons a l ih =>
      obtain ⟨rfl, ha, hl⟩ := h
      cases l with
      | nil =>
          rw [List.getLast?_singleton, Option.some_inj] at hn
          exact hn ▸ hl
      | cons b l => exact ih hl (by rwa [List.getLast?_cons_cons] at hn)

/-- Two lists of one chain are the same. -/
theorem Chain.unique (h : Chain next i l) (h' : Chain next i m) : l = m := by
  induction l generalizing i m with
  | nil => exact (h'.eq_zero_iff.mp h).symm
  | cons a l ih =>
      obtain ⟨rfl, ha, hl⟩ := h
      cases m with
      | nil => exact absurd h' ha
      | cons b m =>
          obtain ⟨rfl, -, hm⟩ := h'
          exact congrArg _ (ih hl hm)

/-- The last element of a list is made to point to a second one. -/
theorem Chain.join
    (h : Chain next i l) (hm : Chain next' k m) (hnodup : l.Nodup)
    (hkeep : ∀ j ∈ l, l.getLast? ≠ some j → next' j = next j)
    (hlast : ∀ j, l.getLast? = some j → next' j = k) :
    Chain next' (if l = [] then k else i) (l ++ m) := by
  induction l generalizing i with
  | nil =>
      rw [if_pos rfl]
      exact hm
  | cons a l ih =>
      obtain ⟨rfl, ha, hl⟩ := h
      obtain ⟨hnot, hnodup⟩ := List.nodup_cons.mp hnodup
      rw [if_neg (List.cons_ne_nil _ _)]
      refine ⟨rfl, ha, ?_⟩
      cases l with
      | nil =>
          rw [hlast i (List.getLast?_singleton ..)]
          exact hm
      | cons b l =>
          have hne : (i :: b :: l).getLast? ≠ some i := by
            rw [List.getLast?_cons_cons]
            exact fun he => hnot (List.mem_of_getLast? he)
          have hrec := ih hl hnodup
            (fun j hj hj' => hkeep j (List.mem_cons_of_mem _ hj) (by rwa [List.getLast?_cons_cons]))
            (fun j hj => hlast j (by rwa [List.getLast?_cons_cons]))
          rw [if_neg (List.cons_ne_nil _ _)] at hrec
          rw [hkeep i List.mem_cons_self hne]
          exact hrec

end IndexList
end IocpNetlib
