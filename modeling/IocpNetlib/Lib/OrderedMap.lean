import Mathlib.Data.List.Basic
import Mathlib.Order.Lattice

/-!
# Ordered maps

A map as the list of its entries in the order of their keys.  An iterator is the
key it points to, or the end; from `begin` on, `next` visits every entry once.
-/

namespace IocpNetlib
namespace OrderedMap

universe u v

variable {K : Type u} {V : Type v} [LinearOrder K]

/-- The keys rise. -/
def Sorted (m : List (K × V)) : Prop :=
  m.Pairwise fun e e' => e.1 < e'.1

/-- Store a value under a key, in place of the one that is there. -/
def insert (k : K) (v : V) : List (K × V) → List (K × V)
  | [] => [(k, v)]
  | e :: m =>
      if k < e.1 then (k, v) :: e :: m
      else if e.1 = k then (k, v) :: m
      else e :: insert k v m

/-- Take a key out. -/
def erase (k : K) (m : List (K × V)) : List (K × V) :=
  m.filter fun e => decide (e.1 ≠ k)

/-- The entry an iterator points to. -/
def find (k : K) (m : List (K × V)) : Option (K × V) :=
  m.find? fun e => decide (e.1 = k)

/-- The iterator at the first entry; the end is `none`. -/
def first (m : List (K × V)) : Option K :=
  m.head?.map Prod.fst

/-- The iterator behind an entry. -/
def next (m : List (K × V)) (k : K) : Option K :=
  first (m.filter fun e => decide (k < e.1))

/-- The entries from an iterator on. -/
def rest (m : List (K × V)) : Option K → List (K × V)
  | none => []
  | some k => m.filter fun e => decide (k ≤ e.1)

section Updates

theorem mem_insert
    {k : K} {v : V} {m : List (K × V)} (h : Sorted m) {e : K × V} :
    e ∈ insert k v m ↔ e = (k, v) ∨ (e.1 ≠ k ∧ e ∈ m) := by
  induction m with
  | nil =>
      rw [insert, List.mem_singleton]
      exact ⟨Or.inl, fun h => h.resolve_right fun h => List.not_mem_nil h.2⟩
  | cons a m ih =>
      obtain ⟨ha, hm⟩ := List.pairwise_cons.mp h
      rw [insert]
      split_ifs with hlt heq
      · rw [List.mem_cons]
        refine or_congr_right ⟨fun he => ⟨?_, he⟩, And.right⟩
        rcases List.mem_cons.mp he with rfl | he
        · exact ne_of_gt hlt
        · exact ne_of_gt (hlt.trans (ha e he))
      · rw [List.mem_cons]
        refine or_congr_right ⟨fun he => ⟨?_, List.mem_cons_of_mem a he⟩, ?_⟩
        · exact ne_of_gt (heq ▸ ha e he)
        · rintro ⟨hne, he⟩
          rcases List.mem_cons.mp he with rfl | he
          · exact absurd heq hne
          · exact he
      · rw [List.mem_cons, ih hm, List.mem_cons]
        constructor
        · rintro (rfl | rfl | ⟨hne, he⟩)
          · exact Or.inr ⟨heq, Or.inl rfl⟩
          · exact Or.inl rfl
          · exact Or.inr ⟨hne, Or.inr he⟩
        · rintro (rfl | ⟨hne, rfl | he⟩)
          · exact Or.inr (Or.inl rfl)
          · exact Or.inl rfl
          · exact Or.inr (Or.inr ⟨hne, he⟩)

theorem Sorted.insert
    {k : K} {v : V} {m : List (K × V)} (h : Sorted m) : Sorted (insert k v m) := by
  induction m with
  | nil => exact List.pairwise_singleton _ _
  | cons a m ih =>
      obtain ⟨ha, hm⟩ := List.pairwise_cons.mp h
      rw [OrderedMap.insert]
      split_ifs with hlt heq
      · refine List.pairwise_cons.mpr ⟨?_, h⟩
        intro e he
        rcases List.mem_cons.mp he with rfl | he
        · exact hlt
        · exact hlt.trans (ha e he)
      · refine List.pairwise_cons.mpr ⟨?_, hm⟩
        intro e he
        exact heq ▸ ha e he
      · refine List.pairwise_cons.mpr ⟨?_, ih hm⟩
        intro e he
        rcases (mem_insert hm).mp he with rfl | ⟨-, he⟩
        · exact lt_of_le_of_ne (le_of_not_gt hlt) heq
        · exact ha e he

theorem mem_erase {k : K} {m : List (K × V)} {e : K × V} :
    e ∈ erase k m ↔ e.1 ≠ k ∧ e ∈ m := by
  rw [erase, List.mem_filter, decide_eq_true_eq]
  exact and_comm

theorem Sorted.erase {k : K} {m : List (K × V)} (h : Sorted m) : Sorted (erase k m) :=
  h.filter _

/-- A key has one value. -/
theorem Sorted.unique
    {m : List (K × V)} (h : Sorted m) {e e' : K × V} (he : e ∈ m) (he' : e' ∈ m)
    (hkey : e.1 = e'.1) :
    e = e' := by
  induction m with
  | nil => exact absurd he List.not_mem_nil
  | cons a m ih =>
      obtain ⟨ha, hm⟩ := List.pairwise_cons.mp h
      rcases List.mem_cons.mp he with hea | hem
      · rcases List.mem_cons.mp he' with hea' | hem'
        · rw [hea, hea']
        · exact absurd (hea ▸ hkey) (ne_of_lt (ha e' hem'))
      · rcases List.mem_cons.mp he' with hea' | hem'
        · exact absurd (hea' ▸ hkey).symm (ne_of_lt (ha e hem))
        · exact ih hm hem hem'

theorem find_eq_some
    {m : List (K × V)} {k : K} {e : K × V} (h : find k m = some e) : e ∈ m ∧ e.1 = k :=
  ⟨List.mem_of_find?_eq_some h, of_decide_eq_true (List.find?_some h :)⟩

end Updates

section Iteration

theorem rest_cons_of_le {k : K} {a : K × V} (h : k ≤ a.1) (m : List (K × V)) :
    rest (a :: m) (some k) = a :: rest m (some k) := by
  rw [rest, rest]
  exact List.filter_cons_of_pos (by simpa using h)

theorem rest_cons_of_lt {k : K} {a : K × V} (h : a.1 < k) (m : List (K × V)) :
    rest (a :: m) (some k) = rest m (some k) := by
  rw [rest, rest]
  exact List.filter_cons_of_neg (by simpa using h)

theorem rest_of_forall_le
    {k : K} {m : List (K × V)} (h : ∀ e ∈ m, k ≤ e.1) : rest m (some k) = m :=
  List.filter_eq_self.mpr fun e he => decide_eq_true (h e he)

theorem rest_first {m : List (K × V)} (h : Sorted m) : rest m (first m) = m := by
  cases m with
  | nil => rfl
  | cons a m =>
      obtain ⟨ha, -⟩ := List.pairwise_cons.mp h
      refine rest_of_forall_le ?_
      intro e he
      rcases List.mem_cons.mp he with rfl | he
      · exact le_rfl
      · exact (ha e he).le

/-- The entries behind one entry. -/
theorem rest_next {m : List (K × V)} (h : Sorted m) (k : K) :
    rest m (next m k) = m.filter fun e => decide (k < e.1) := by
  induction m with
  | nil => rfl
  | cons a m ih =>
      obtain ⟨ha, hm⟩ := List.pairwise_cons.mp h
      by_cases hk : k < a.1
      · -- everything is behind `k`
        have hall : (a :: m).filter (fun e => decide (k < e.1)) = a :: m := by
          refine List.filter_eq_self.mpr ?_
          intro e he
          rcases List.mem_cons.mp he with rfl | he
          · exact decide_eq_true hk
          · exact decide_eq_true (hk.trans (ha e he))
        rw [next, hall]
        exact rest_first h
      · have hdrop : (a :: m).filter (fun e => decide (k < e.1)) =
            m.filter fun e => decide (k < e.1) :=
          List.filter_cons_of_neg (by simpa using hk)
        have ih := ih hm
        rw [next] at ih ⊢
        rw [hdrop]
        cases hfirst : first (m.filter fun e => decide (k < e.1)) with
        | none =>
            rw [hfirst] at ih
            exact ih
        | some k' =>
            have hk' : k < k' := by
              rw [first, Option.map_eq_some_iff] at hfirst
              obtain ⟨e, he, rfl⟩ := hfirst
              have hmem := List.mem_of_mem_head? he
              exact of_decide_eq_true (List.mem_filter.mp hmem).2
            rw [hfirst] at ih
            rw [rest_cons_of_lt (lt_of_le_of_lt (le_of_not_gt hk) hk')]
            exact ih

theorem rest_eq_cons
    {m : List (K × V)} (h : Sorted m) {k : K} {e : K × V} (he : find k m = some e) :
    rest m (some k) = e :: rest m (next m k) := by
  rw [rest_next h]
  obtain ⟨hmem, rfl⟩ := find_eq_some he
  clear he
  induction m with
  | nil => exact absurd hmem List.not_mem_nil
  | cons a m ih =>
      obtain ⟨ha, hm⟩ := List.pairwise_cons.mp h
      rcases List.mem_cons.mp hmem with rfl | hmem
      · have hall : m.filter (fun e' => decide (e.1 < e'.1)) = m :=
          List.filter_eq_self.mpr fun e' he' => decide_eq_true (ha e' he')
        rw [rest_cons_of_le le_rfl, rest_of_forall_le fun e' he' => (ha e' he').le,
          List.filter_cons_of_neg (by simp), hall]
      · have hlt : a.1 < e.1 := ha e hmem
        rw [rest_cons_of_lt hlt, List.filter_cons_of_neg (by simpa using hlt.le)]
        exact ih hm hmem

end Iteration

end OrderedMap
end IocpNetlib
