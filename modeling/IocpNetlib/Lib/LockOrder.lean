import IocpNetlib.Lib.Reach
import Mathlib.Logic.Relation
import Mathlib.Order.WellFounded
import Mathlib.Data.Fintype.Basic

/-!
# Lock order

Threads run code of which only the locks matter: scoped guards, calls, and waits
for something other than a lock.  A branch may go either way and a loop may end
at any time.  A lock may be taken again by the thread that has it.  A thread may
be terminated from outside, and then never gives back what it has.

Each lock has a rank and each function a contract on the locks its caller holds.
Where every function keeps the contracts of what it calls and takes locks in the
order of their ranks, the threads never wait for each other in a circle, and
behind every thread that waits for a lock there is one that goes on.
-/

namespace IocpNetlib
namespace LockOrder

open Reachability

universe u v w x

/-- What code does as far as locks are concerned. -/
inductive Code (L : Type u) (F : Type v)
  | skip : Code L F
  /-- A wait, without a time limit, for something that is no lock. -/
  | wait : Code L F
  /-- The rest of a scope that is guarded by a lock. -/
  | guarded (l : L) (body : Code L F) : Code L F
  | call (f : F) : Code L F
  | seq (a b : Code L F) : Code L F
  | choose (branch : Nat → Code L F) : Code L F
  | repeated (body : Code L F) : Code L F

namespace Code

variable {L : Type u} {F : Type v}

/-- A branch whose condition is not looked at. -/
def either (a b : Code L F) : Code L F :=
  .choose fun n => if n = 0 then a else b

/-- Code that may be left out. -/
def optional (a : Code L F) : Code L F :=
  either .skip a

/-- Statements one after the other. -/
def block : List (Code L F) → Code L F
  | [] => .skip
  | c :: cs => .seq c (block cs)

end Code

/-- What a thread still has to do. -/
inductive Task (L : Type u) (F : Type v)
  | run (c : Code L F) : Task L F
  /-- The destructor of the innermost guard. -/
  | release : Task L F

/-- A thread: the locks of its guards, the innermost first, and what it has to do. -/
structure Thread (L : Type u) (F : Type v) where
  held : List L
  todo : List (Task L F)

section Steps

variable {L : Type u} {F : Type v} {ι : Type w}
variable (body : F → Code L F)

/-- A step of a thread; `choice` decides its branches, and `free` says which locks no other
thread has. -/
def Thread.step (free : L → Bool) (choice : Nat) (t : Thread L F) : Option (Thread L F) :=
  match t.todo with
  | [] => none
  | .release :: k => some ⟨t.held.tail, k⟩
  | .run .skip :: k => some ⟨t.held, k⟩
  | .run .wait :: k => some ⟨t.held, k⟩
  | .run (.guarded l c) :: k =>
      if free l then some ⟨l :: t.held, .run c :: .release :: k⟩ else none
  | .run (.call f) :: k => some ⟨t.held, .run (body f) :: k⟩
  | .run (.seq a b) :: k => some ⟨t.held, .run a :: .run b :: k⟩
  | .run (.choose branch) :: k => some ⟨t.held, .run (branch choice) :: k⟩
  | .run (.repeated c) :: k =>
      if choice = 0 then some ⟨t.held, k⟩ else some ⟨t.held, .run c :: .run (.repeated c) :: k⟩

/-- No thread but `i` has the lock. -/
def FreeFor (s : ι → Thread L F) (i : ι) (l : L) : Prop :=
  ∀ j, j ≠ i → l ∉ (s j).held

instance [Fintype ι] [DecidableEq ι] [DecidableEq L] (s : ι → Thread L F) (i : ι) (l : L) :
    Decidable (FreeFor s i l) :=
  inferInstanceAs (Decidable (∀ j, j ≠ i → l ∉ (s j).held))

variable [Fintype ι] [DecidableEq ι] [DecidableEq L]

/-- What happens next. -/
inductive Act (ι : Type w)
  | run (i : ι) (choice : Nat) : Act ι
  | terminate (i : ι) : Act ι

/-- A thread goes on, or is terminated. -/
def step (s : ι → Thread L F) : Act ι → Option (ι → Thread L F)
  | .run i choice =>
      ((s i).step body (fun l => decide (FreeFor s i l)) choice).map (Function.update s i)
  | .terminate i => some (Function.update s i ⟨(s i).held, []⟩)

/-- No thread is terminated under a lock. -/
def TerminatesFree (s : ι → Thread L F) : Act ι → Prop
  | .run _ _ => True
  | .terminate i => (s i).held = []

instance (s : ι → Thread L F) (a : Act ι) : Decidable (TerminatesFree s a) :=
  match a with
  | .run _ _ => inferInstanceAs (Decidable True)
  | .terminate i => decidable_of_iff ((s i).held.length = 0) List.length_eq_zero_iff

/-- Thread `i` waits for a lock that thread `j` has. -/
def WaitsFor (s : ι → Thread L F) (i j : ι) : Prop :=
  j ≠ i ∧ ∃ l c k, (s i).todo = .run (.guarded l c) :: k ∧ l ∈ (s j).held

/-- A thread goes on: it is not through, not in a wait, and no lock is in its way. -/
def GoesOn (s : ι → Thread L F) (i : ι) : Prop :=
  (∀ k, (s i).todo ≠ .run .wait :: k) ∧ ∃ choice s', step body s (.run i choice) = some s'

end Steps

section Order

variable {L : Type u} {F : Type v} {ι : Type w} {R : Type x}
variable [LT R] (rank : L → R) (entry : F → List L → Prop)

/-- A lock is above those a thread has, or one of them. -/
def MayTake (held : List L) (l : L) : Prop :=
  l ∈ held ∨ ∀ h ∈ held, rank h < rank l

/-- Code that is run under the locks `held` takes locks in their order, waits under no lock,
and keeps the contracts of what it calls. -/
def Code.Follows (held : List L) : Code L F → Prop
  | .skip => True
  | .wait => held = []
  | .guarded l c => MayTake rank held l ∧ c.Follows (l :: held)
  | .call f => entry f held
  | .seq a b => a.Follows held ∧ b.Follows held
  | .choose branch => ∀ n, (branch n).Follows held
  | .repeated c => c.Follows held

/-- The same of all that a thread still has to do; at its end it has no lock. -/
def FollowsAll : List L → List (Task L F) → Prop
  | held, [] => held = []
  | held, .run c :: k => c.Follows rank entry held ∧ FollowsAll held k
  | held, .release :: k => held ≠ [] ∧ FollowsAll held.tail k

/-- Every function keeps to the order whenever its own contract is kept. -/
def Disciplined (body : F → Code L F) : Prop :=
  ∀ f held, entry f held → (body f).Follows rank entry held

variable {rank} {entry}

@[simp] theorem Code.follows_either {held : List L} {a b : Code L F} :
    (Code.either a b).Follows rank entry held ↔
      a.Follows rank entry held ∧ b.Follows rank entry held := by
  constructor
  · intro h
    exact ⟨h 0, h 1⟩
  · intro h n
    cases n with
    | zero => exact h.1
    | succ n => exact h.2

@[simp] theorem Code.follows_optional {held : List L} {a : Code L F} :
    (Code.optional a).Follows rank entry held ↔ a.Follows rank entry held := by
  rw [Code.optional, Code.follows_either]
  exact and_iff_right trivial

@[simp] theorem Code.follows_block_nil {held : List L} :
    (Code.block ([] : List (Code L F))).Follows rank entry held :=
  trivial

@[simp] theorem Code.follows_block_cons {held : List L} {c : Code L F} {cs : List (Code L F)} :
    (Code.block (c :: cs)).Follows rank entry held ↔
      c.Follows rank entry held ∧ (Code.block cs).Follows rank entry held :=
  Iff.rfl

end Order

section Invariant

variable {L : Type u} {F : Type v} {ι : Type w} {R : Type x}
variable [LT R] (rank : L → R) (entry : F → List L → Prop)

/-- No lock is with two threads, and every thread keeps to the order. -/
structure Kept (s : ι → Thread L F) : Prop where
  follows : ∀ i, FollowsAll rank entry (s i).held (s i).todo
  exclusive : ∀ i j l, l ∈ (s i).held → l ∈ (s j).held → i = j

variable {rank} {entry} {body : F → Code L F}

theorem Thread.step_guarded (free : L → Bool) (choice : Nat) (held : List L) (l : L)
    (c : Code L F) (k : List (Task L F)) :
    Thread.step body free choice ⟨held, .run (.guarded l c) :: k⟩ =
      if free l then some ⟨l :: held, .run c :: .release :: k⟩ else none :=
  rfl

theorem Thread.step_repeated (free : L → Bool) (choice : Nat) (held : List L)
    (c : Code L F) (k : List (Task L F)) :
    Thread.step body free choice ⟨held, .run (.repeated c) :: k⟩ =
      if choice = 0 then some ⟨held, k⟩ else some ⟨held, .run c :: .run (.repeated c) :: k⟩ :=
  rfl

/-- What a step does to the locks of a thread. -/
theorem Thread.step_held
    {free : L → Bool} {choice : Nat} {t t' : Thread L F}
    (h : t.step body free choice = some t') {l : L} (hl : l ∈ t'.held) :
    l ∈ t.held ∨ free l = true := by
  obtain ⟨held, todo⟩ := t
  cases todo with
  | nil => cases h
  | cons task k =>
      cases task with
      | release =>
          cases h
          exact Or.inl (List.mem_of_mem_tail hl)
      | run c =>
          cases c with
          | skip => cases h; exact Or.inl hl
          | wait => cases h; exact Or.inl hl
          | guarded l' c =>
              rw [Thread.step_guarded] at h
              split_ifs at h with hfree
              cases h
              rcases List.mem_cons.mp hl with rfl | hl
              · exact Or.inr hfree
              · exact Or.inl hl
          | call f => cases h; exact Or.inl hl
          | seq a b => cases h; exact Or.inl hl
          | choose branch => cases h; exact Or.inl hl
          | repeated c =>
              rw [Thread.step_repeated] at h
              split_ifs at h <;> cases h <;> exact Or.inl hl

/-- A step keeps to the order. -/
theorem Thread.step_follows
    (hbody : Disciplined rank entry body)
    {free : L → Bool} {choice : Nat} {t t' : Thread L F}
    (h : t.step body free choice = some t')
    (hfollows : FollowsAll rank entry t.held t.todo) :
    FollowsAll rank entry t'.held t'.todo := by
  obtain ⟨held, todo⟩ := t
  cases todo with
  | nil => cases h
  | cons task k =>
      cases task with
      | release =>
          cases h
          exact hfollows.2
      | run c =>
          obtain ⟨hc, hk⟩ := hfollows
          cases c with
          | skip => cases h; exact hk
          | wait => cases h; exact hk
          | guarded l c =>
              rw [Thread.step_guarded] at h
              split_ifs at h
              cases h
              exact ⟨hc.2, List.cons_ne_nil l held, hk⟩
          | call f =>
              cases h
              exact ⟨hbody f held hc, hk⟩
          | seq a b =>
              cases h
              exact ⟨hc.1, hc.2, hk⟩
          | choose branch =>
              cases h
              exact ⟨hc choice, hk⟩
          | repeated c =>
              rw [Thread.step_repeated] at h
              split_ifs at h
              · cases h
                exact hk
              · cases h
                exact ⟨hc, hc, hk⟩

/-- The threads of a program, each in front of its first function. -/
def start (root : ι → F) (i : ι) : Thread L F :=
  ⟨[], [.run (.call (root i))]⟩

theorem Kept.start
    {root : ι → F} (hroot : ∀ i, entry (root i) []) :
    Kept rank entry (start (L := L) root) := by
  constructor
  · intro i
    exact ⟨hroot i, rfl⟩
  · intro i j l hil
    exact absurd hil List.not_mem_nil

variable [Fintype ι] [DecidableEq ι] [DecidableEq L]

omit [Fintype ι] [DecidableEq L] in
/-- One thread gets something else to do, and no lock that another one has. -/
theorem Kept.update
    {s : ι → Thread L F} (hs : Kept rank entry s) {i : ι} {t : Thread L F}
    (hfollows : FollowsAll rank entry t.held t.todo)
    (hheld : ∀ l ∈ t.held, l ∈ (s i).held ∨ FreeFor s i l) :
    Kept rank entry (Function.update s i t) := by
  have hnew : ∀ j l, j ≠ i → l ∈ t.held → l ∉ (s j).held := by
    intro j l hj hl hother
    rcases hheld l hl with hold | hfree
    · exact hj (hs.exclusive j i l hother hold)
    · exact hfree j hj hother
  constructor
  · intro j
    by_cases hj : j = i
    · rw [hj, Function.update_self]
      exact hfollows
    · rw [Function.update_of_ne hj]
      exact hs.follows j
  · intro j j' l hjl hjl'
    by_cases hj : j = i
    · by_cases hj' : j' = i
      · rw [hj, hj']
      · rw [hj, Function.update_self] at hjl
        rw [Function.update_of_ne hj'] at hjl'
        exact absurd hjl' (hnew j' l hj' hjl)
    · by_cases hj' : j' = i
      · rw [hj', Function.update_self] at hjl'
        rw [Function.update_of_ne hj] at hjl
        exact absurd hjl (hnew j l hj hjl')
      · rw [Function.update_of_ne hj] at hjl
        rw [Function.update_of_ne hj'] at hjl'
        exact hs.exclusive j j' l hjl hjl'

/-- The step lemma. -/
theorem Kept.step
    (hbody : Disciplined rank entry body)
    {s s' : ι → Thread L F} {a : Act ι}
    (hs : Kept rank entry s) (hfree : TerminatesFree s a) (h : step body s a = some s') :
    Kept rank entry s' := by
  cases a with
  | run i choice =>
      obtain ⟨t, ht, rfl⟩ := Option.map_eq_some_iff.mp h
      refine hs.update (Thread.step_follows hbody ht (hs.follows i)) ?_
      intro l hl
      exact (Thread.step_held ht hl).imp_right of_decide_eq_true
  | terminate i =>
      cases h
      exact hs.update hfree fun l hl => Or.inl hl

/-- The run lemma. -/
theorem Kept.reach
    (hbody : Disciplined rank entry body)
    {root : ι → F} (hroot : ∀ i, entry (root i) [])
    {s : ι → Thread L F}
    (h : Reach (LockOrder.step body) TerminatesFree (LockOrder.start root) s) :
    Kept rank entry s :=
  h.invariant (Kept.start hroot) fun hs hfree hstep => hs.step hbody hfree hstep

end Invariant

section Deadlock

variable {L : Type u} {F : Type v} {ι : Type w} {R : Type x}
variable [Preorder R] {rank : L → R} {entry : F → List L → Prop} {body : F → Code L F}

/-- A lock a thread waits for is above all that it has. -/
theorem Kept.rank_lt
    {s : ι → Thread L F} (hs : Kept rank entry s)
    {i j : ι} {l : L} {c : Code L F} {k : List (Task L F)}
    (htodo : (s i).todo = .run (.guarded l c) :: k) (hj : j ≠ i) (hl : l ∈ (s j).held)
    {h : L} (hh : h ∈ (s i).held) :
    rank h < rank l := by
  have hfollows := hs.follows i
  rw [htodo] at hfollows
  rcases hfollows.1.1 with hown | hall
  · exact absurd (hs.exclusive j i l hl hown) hj
  · exact hall h hh

/-- A thread that has a lock has something to do. -/
theorem Kept.todo_ne_nil
    {s : ι → Thread L F} (hs : Kept rank entry s)
    {i : ι} {l : L} (hl : l ∈ (s i).held) :
    (s i).todo ≠ [] := by
  intro htodo
  have hfollows := hs.follows i
  rw [htodo] at hfollows
  rw [show (s i).held = [] from hfollows] at hl
  exact List.not_mem_nil hl

/-- A thread that has a lock is in no wait. -/
theorem Kept.not_wait
    {s : ι → Thread L F} (hs : Kept rank entry s)
    {i : ι} {l : L} (hl : l ∈ (s i).held) (k : List (Task L F)) :
    (s i).todo ≠ .run .wait :: k := by
  intro htodo
  have hfollows := hs.follows i
  rw [htodo] at hfollows
  rw [show (s i).held = [] from hfollows.1] at hl
  exact List.not_mem_nil hl

/-- Along a chain of waiting threads the locks rise. -/
theorem Kept.rank_lt_of_transGen
    {s : ι → Thread L F} (hs : Kept rank entry s)
    {i j : ι} (h : Relation.TransGen (WaitsFor s) i j) :
    ∀ {g : L}, g ∈ (s i).held → ∃ l ∈ (s j).held, rank g < rank l := by
  induction h with
  | single hw =>
      intro g hg
      obtain ⟨hne, l, c, k, htodo, hl⟩ := hw
      exact ⟨l, hl, hs.rank_lt htodo hne hl hg⟩
  | tail _ hw ih =>
      intro g hg
      obtain ⟨l, hl, hlt⟩ := ih hg
      obtain ⟨hne, l', c, k, htodo, hl'⟩ := hw
      exact ⟨l', hl', hlt.trans (hs.rank_lt htodo hne hl' hl)⟩

variable [Fintype ι] [DecidableEq ι] [DecidableEq L]

/-- A thread that has a lock goes on, unless another one has the lock it is about to take. -/
theorem Kept.goesOn_or_waitsFor
    {s : ι → Thread L F} (hs : Kept rank entry s)
    {i : ι} {l : L} (hl : l ∈ (s i).held) :
    GoesOn body s i ∨ ∃ j, WaitsFor s i j := by
  have hne := hs.todo_ne_nil hl
  have hwait := hs.not_wait hl
  have hgo (t : Thread L F) (choice : Nat)
      (ht : (s i).step body (fun l => decide (FreeFor s i l)) choice = some t) :
      GoesOn body s i := by
    refine ⟨hwait, choice, Function.update s i t, ?_⟩
    rw [LockOrder.step]
    rw [ht]
    rfl
  rcases htodo : (s i).todo with _ | ⟨task, k⟩
  · exact absurd htodo hne
  · cases task with
    | release => exact Or.inl (hgo _ 0 (by rw [Thread.step, htodo]))
    | run c =>
        cases c with
        | skip => exact Or.inl (hgo _ 0 (by rw [Thread.step, htodo]))
        | wait => exact absurd htodo (hwait k)
        | guarded l' c =>
            by_cases hfree : FreeFor s i l'
            · refine Or.inl (hgo ⟨l' :: (s i).held, .run c :: .release :: k⟩ 0 ?_)
              rw [Thread.step, htodo]
              exact if_pos (decide_eq_true hfree)
            · rw [FreeFor] at hfree
              push Not at hfree
              obtain ⟨j, hj, hlj⟩ := hfree
              exact Or.inr ⟨j, hj, l', c, k, htodo, hlj⟩
        | call f => exact Or.inl (hgo _ 0 (by rw [Thread.step, htodo]))
        | seq a b => exact Or.inl (hgo _ 0 (by rw [Thread.step, htodo]))
        | choose branch => exact Or.inl (hgo _ 0 (by rw [Thread.step, htodo]))
        | repeated c =>
            refine Or.inl (hgo ⟨(s i).held, k⟩ 0 ?_)
            rw [Thread.step, htodo]
            rfl

variable [WellFoundedGT R]

/-- Behind a thread that waits for a lock there is one that goes on. -/
theorem Kept.exists_goesOn
    {s : ι → Thread L F} (hs : Kept rank entry s) {i j : ι} (h : WaitsFor s i j) :
    ∃ j, Relation.TransGen (WaitsFor s) i j ∧ GoesOn body s j := by
  obtain ⟨hne, l, c, k, htodo, hl⟩ := h
  have hfrom : Relation.TransGen (WaitsFor s) i j :=
    .single ⟨hne, l, c, k, htodo, hl⟩
  clear htodo hne c k
  -- on the rank of the lock that the last thread of the chain has
  induction hr : rank l using WellFoundedGT.induction generalizing j l with
  | ind r ih =>
      have hnext : GoesOn body s j ∨ ∃ j', WaitsFor s j j' := hs.goesOn_or_waitsFor hl
      rcases hnext with hgo | ⟨j', hw⟩
      · exact ⟨j, hfrom, hgo⟩
      · obtain ⟨hne, l', c, k, htodo, hl'⟩ := hw
        have hlt : rank l < rank l' := hs.rank_lt htodo hne hl' hl
        exact ih (rank l') (hr ▸ hlt) l' hl' (hfrom.tail ⟨hne, l', c, k, htodo, hl'⟩) rfl

omit [Fintype ι] [DecidableEq ι] [DecidableEq L] in
/-- No thread waits for itself. -/
theorem Kept.acyclic
    {s : ι → Thread L F} (hs : Kept rank entry s) (i : ι) :
    ¬ Relation.TransGen (WaitsFor s) i i := by
  intro hcycle
  -- a thread on the circle has a lock, and then one of a higher rank, and so on
  have hlock : ∃ l, l ∈ (s i).held := by
    obtain ⟨j, -, hw⟩ := Relation.TransGen.tail'_iff.mp hcycle
    obtain ⟨-, l, c, k, -, hl⟩ := hw
    exact ⟨l, hl⟩
  obtain ⟨l, hl⟩ := hlock
  induction hr : rank l using WellFoundedGT.induction generalizing l with
  | ind r ih =>
      obtain ⟨l', hl', hlt⟩ := hs.rank_lt_of_transGen hcycle hl
      exact ih (rank l') (hr ▸ hlt) l' hl' rfl

end Deadlock

section Terminated

variable {L : Type u} {F : Type v} {ι : Type w}
variable {body : F → Code L F} [Fintype ι] [DecidableEq ι] [DecidableEq L]

/-- A thread that has ended does nothing more. -/
theorem step_of_ended
    {s s' : ι → Thread L F} {a : Act ι} (h : step body s a = some s')
    {i : ι} (hended : (s i).todo = []) :
    s' i = s i := by
  have hsame : s i = ⟨(s i).held, []⟩ := by
    rw [← hended]
  cases a with
  | run j choice =>
      obtain ⟨t, ht, rfl⟩ := Option.map_eq_some_iff.mp h
      by_cases hij : i = j
      · subst hij
        rw [hsame] at ht
        cases ht
      · exact Function.update_of_ne hij _ _
  | terminate j =>
      cases h
      by_cases hij : i = j
      · subst hij
        rw [Function.update_self]
        exact hsame.symm
      · exact Function.update_of_ne hij _ _

/-- What a thread had when it was terminated is never free again. -/
theorem held_of_ended
    {G : (ι → Thread L F) → Act ι → Prop} {s s' : ι → Thread L F}
    (h : Reach (step body) G s s') {i : ι} (hended : (s i).todo = []) :
    s' i = s i := by
  induction h with
  | start => rfl
  | next _ _ hstep ih => exact (step_of_ended hstep (by rw [ih, hended])).trans ih

end Terminated

end LockOrder
end IocpNetlib
