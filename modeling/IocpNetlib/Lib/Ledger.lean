import Mathlib.Data.List.Basic

/-!
# Ledgers: weights over the code that threads still have to run

A thread is the list of the instructions in front of it.  A counter that every
instruction changes by a known amount can be read off the threads: give each
instruction the share of the counter it still stands for, and add the shares
up.  `total_run` says how the sum changes when a thread runs its next
instruction.  Instructions and outstanding work belong to owners; `ofOwner`
counts the shares of one of them.  `unguarded` leaves out the shares of the
instructions that a last one still follows in their thread.
-/

namespace IocpNetlib
namespace Ledger

universe u v

variable {ι : Type u} {A : Type v}

/-- The shares in a list of instructions. -/
def shares (w : ι → Nat) : List ι → Nat
  | [] => 0
  | i :: is => w i + shares w is

/-- The shares in the code of all threads. -/
def total (w : ι → Nat) : List (List ι) → Nat
  | [] => 0
  | t :: ts => shares w t + total w ts

section Shares

variable (w : ι → Nat)

@[simp] theorem shares_append (xs ys : List ι) :
    shares w (xs ++ ys) = shares w xs + shares w ys := by
  induction xs with
  | nil => simp [shares]
  | cons x xs ih => simp [shares, ih, Nat.add_assoc]

/-- The threads are a list of lists: the shares of each of them are added up. -/
theorem total_eq (ts : List (List ι)) : total w ts = shares (shares w) ts := by
  induction ts with
  | nil => rfl
  | cons t ts ih => rw [total, shares, ih]

@[simp] theorem total_append (ts us : List (List ι)) :
    total w (ts ++ us) = total w ts + total w us := by
  rw [total_eq, total_eq, total_eq, shares_append]

variable {w}

theorem le_shares {i : ι} {is : List ι} (h : i ∈ is) : w i ≤ shares w is := by
  induction is with
  | nil => exact absurd h List.not_mem_nil
  | cons j is ih =>
      rw [shares]
      rcases List.mem_cons.mp h with rfl | h
      · exact Nat.le_add_right _ _
      · exact Nat.le_trans (ih h) (Nat.le_add_left _ _)

theorem shares_le_total {t : List ι} {ts : List (List ι)} (h : t ∈ ts) :
    shares w t ≤ total w ts := by
  rw [total_eq]
  exact le_shares h

theorem shares_pos {is : List ι} (h : 0 < shares w is) : ∃ i ∈ is, 0 < w i := by
  induction is with
  | nil => exact absurd h (Nat.lt_irrefl 0)
  | cons i is ih =>
      by_cases hi : 0 < w i
      · exact ⟨i, List.mem_cons_self, hi⟩
      · have hrest : 0 < shares w is := by
          rw [shares] at h
          omega
        obtain ⟨j, hj, hpos⟩ := ih hrest
        exact ⟨j, List.mem_cons_of_mem _ hj, hpos⟩

theorem total_pos {ts : List (List ι)} (h : 0 < total w ts) : ∃ t ∈ ts, 0 < shares w t := by
  rw [total_eq] at h
  exact shares_pos h

theorem shares_mono {w' : ι → Nat} (h : ∀ i, w i ≤ w' i) (is : List ι) :
    shares w is ≤ shares w' is := by
  induction is with
  | nil => exact Nat.le_refl _
  | cons i is ih =>
      rw [shares, shares]
      exact Nat.add_le_add (h i) ih

theorem shares_congr {w' : ι → Nat} {is : List ι} (h : ∀ i ∈ is, w i = w' i) :
    shares w is = shares w' is := by
  induction is with
  | nil => rfl
  | cons i is ih =>
      rw [shares, shares, h i List.mem_cons_self,
        ih fun j hj => h j (List.mem_cons_of_mem _ hj)]

theorem total_mono {w' : ι → Nat} (h : ∀ i, w i ≤ w' i) (ts : List (List ι)) :
    total w ts ≤ total w' ts := by
  rw [total_eq, total_eq]
  exact shares_mono (shares_mono h) ts

theorem shares_add (w' : ι → Nat) (is : List ι) :
    shares (fun i => w i + w' i) is = shares w is + shares w' is := by
  induction is with
  | nil => rfl
  | cons i is ih =>
      rw [shares, shares, shares, ih]
      omega

theorem total_add (w' : ι → Nat) (ts : List (List ι)) :
    total (fun i => w i + w' i) ts = total w ts + total w' ts := by
  have hthread : shares (fun i => w i + w' i) = fun is => shares w is + shares w' is :=
    funext (shares_add w')
  rw [total_eq, total_eq, total_eq, hthread, shares_add]

end Shares

section Steps

variable {w : ι → Nat}

/-- One piece of work is replaced by another. -/
theorem shares_set {k : ι} (k' : ι) {ks : List ι} {j : Nat} (h : ks[j]? = some k) :
    shares w (ks.set j k') + w k = shares w ks + w k' := by
  induction ks generalizing j with
  | nil => simp at h
  | cons x ks ih =>
      cases j with
      | zero =>
          simp only [List.getElem?_cons_zero, Option.some.injEq] at h
          subst h
          simp only [List.set_cons_zero, shares]
          omega
      | succ j =>
          simp only [List.getElem?_cons_succ] at h
          have hrest := ih h
          simp only [List.set_cons_succ, shares]
          omega

theorem total_set {t : List ι} (t' : List ι) {ts : List (List ι)} {j : Nat}
    (h : ts[j]? = some t) :
    total w (ts.set j t') + shares w t = total w ts + shares w t' := by
  rw [total_eq, total_eq]
  exact shares_set t' h

/-- A thread replaces its next instruction by `push`. -/
theorem total_run
    {ts : List (List ι)} {j : Nat} {i : ι} {rest : List ι}
    (h : ts[j]? = some (i :: rest)) (push : List ι) :
    total w (ts.set j (push ++ rest)) + w i = total w ts + shares w push := by
  have hset := total_set (w := w) (push ++ rest) h
  simp only [shares, shares_append] at hset
  omega

/-- A new thread. -/
theorem total_spawn (ts : List (List ι)) (code : List ι) :
    total w (ts ++ [code]) = total w ts + shares w code := by
  simp [total]

/-- One piece of outstanding work is taken out. -/
theorem shares_eraseIdx {k : ι} {ks : List ι} {j : Nat} (h : ks[j]? = some k) :
    shares w (ks.eraseIdx j) + w k = shares w ks := by
  induction ks generalizing j with
  | nil => simp at h
  | cons x ks ih =>
      cases j with
      | zero =>
          simp only [List.getElem?_cons_zero, Option.some.injEq] at h
          subst h
          simp only [List.eraseIdx_cons_zero, shares]
          omega
      | succ j =>
          simp only [List.getElem?_cons_succ] at h
          have hrest := ih h
          simp only [List.eraseIdx_cons_succ, shares]
          omega

end Steps

section Unguarded

variable [DecidableEq ι] {w : ι → Nat} {last : ι}

/-- The shares of the instructions that `last` does not come after. -/
def unguarded (last : ι) (w : ι → Nat) : List ι → Nat
  | [] => 0
  | i :: is => (if last ∈ is then 0 else w i) + unguarded last w is

theorem unguarded_le (is : List ι) : unguarded last w is ≤ shares w is := by
  induction is with
  | nil => exact Nat.le_refl _
  | cons i is ih =>
      rw [unguarded, shares]
      split_ifs <;> omega

/-- Where `last` is not left, everything is counted. -/
theorem unguarded_eq {is : List ι} (h : last ∉ is) : unguarded last w is = shares w is := by
  induction is with
  | nil => rfl
  | cons i is ih =>
      have hrest : last ∉ is := fun hmem => h (List.mem_cons_of_mem _ hmem)
      rw [unguarded, shares, if_neg hrest, ih hrest]

theorem unguarded_append (is js : List ι) :
    unguarded last w (is ++ js) =
      (if last ∈ js then 0 else unguarded last w is) + unguarded last w js := by
  induction is with
  | nil => simp [unguarded]
  | cons i is ih =>
      rw [List.cons_append, unguarded, unguarded, ih]
      by_cases hjs : last ∈ js
      · simp [hjs]
      · by_cases his : last ∈ is
        · simp [hjs, his]
        · simp [hjs, his]
          omega

/-- The next instruction of a thread is replaced by code with no larger share. -/
theorem unguarded_run_le
    {ts : List (List ι)} {j : Nat} {i : ι} {rest : List ι}
    (h : ts[j]? = some (i :: rest)) (push : List ι)
    (hpush : last ∉ rest → unguarded last w push ≤ w i) :
    shares (unguarded last w) (ts.set j (push ++ rest)) ≤ shares (unguarded last w) ts := by
  have hset := shares_set (w := unguarded last w) (push ++ rest) h
  rw [unguarded_append, unguarded] at hset
  split_ifs at hset with hmem
  · omega
  · have := hpush hmem
    omega

end Unguarded

section Owners

variable [DecidableEq A]

/-- The shares of one owner. -/
def ofOwner (a : A) (w : ι → Nat) (x : A × ι) : Nat :=
  if x.1 = a then w x.2 else 0

@[simp] theorem ofOwner_self (a : A) (w : ι → Nat) (i : ι) :
    ofOwner a w (a, i) = w i :=
  if_pos rfl

theorem ofOwner_other {a b : A} (h : b ≠ a) (w : ι → Nat) (i : ι) :
    ofOwner a w (b, i) = 0 :=
  if_neg h

theorem ofOwner_pos {a b : A} {w : ι → Nat} {i : ι} (h : 0 < ofOwner a w (b, i)) :
    b = a ∧ 0 < w i := by
  rw [ofOwner] at h
  split_ifs at h with ha
  · exact ⟨ha, h⟩
  · exact absurd h (Nat.lt_irrefl 0)

/-- Instructions of one owner. -/
def owned (a : A) (is : List ι) : List (A × ι) :=
  is.map fun i => (a, i)

@[simp] theorem shares_owned_self (a : A) (w : ι → Nat) (is : List ι) :
    shares (ofOwner a w) (owned a is) = shares w is := by
  induction is with
  | nil => rfl
  | cons i is ih => simpa [owned, shares, ofOwner] using ih

theorem shares_owned_other {a b : A} (h : a ≠ b) (w : ι → Nat) (is : List ι) :
    shares (ofOwner b w) (owned a is) = 0 := by
  induction is with
  | nil => rfl
  | cons i is ih => simpa [owned, shares, ofOwner, h] using ih

theorem ofOwner_add (a : A) (w w' : ι → Nat) :
    ofOwner a (fun i => w i + w' i) = fun x => ofOwner a w x + ofOwner a w' x := by
  funext x
  unfold ofOwner
  split_ifs <;> rfl

theorem ofOwner_mono {w w' : ι → Nat} (h : ∀ i, w i ≤ w' i) (a : A) (x : A × ι) :
    ofOwner a w x ≤ ofOwner a w' x := by
  unfold ofOwner
  split_ifs
  · exact h x.2
  · exact Nat.le_refl _

end Owners

end Ledger
end IocpNetlib
