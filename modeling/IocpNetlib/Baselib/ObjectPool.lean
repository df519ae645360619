import IocpNetlib.Baselib.PackageQueue
import IocpNetlib.Lib.Reach

/-!
# `FixedObjectPool`

`Acquire` waits for a semaphore outside the lock and takes the last object of
the vector under it; `Release` puts an object back and posts to the semaphore,
both under the lock.  What is done under the lock is one step here, as no other
code looks at the vector.

The constructor does not look at what `CSemaphore::Create` returns.  Without a
semaphore a `Wait` fails at once.
-/

namespace IocpNetlib
namespace Baselib

open Reachability

/-- Where a thread is: in no call, in `Wait` with a time-out, or past it and not yet in the lock. -/
inductive AcquirePc
  | idle
  | waiting (timeoutMs : Int)
  | popping
deriving DecidableEq, Repr

/-- How a call of `Acquire` ended; the last two return `NULL`. -/
inductive AcquireResult
  | object (obj : Nat)
  | timedOut
  | failed
deriving DecidableEq, Repr

/--
The fields of a pool and the threads that use it, each with where it is.  `held`
has an entry for every object that a thread acquired and did not release,
`answers` how the calls of `Acquire` ended, and `popEmpty` counts those that took
an object from an empty vector.
-/
structure FixedObjectPool where
  m_freeList : List Nat
  m_sem : CSemaphore
  threads : List AcquirePc
  held : List (Nat × Nat)
  answers : List (Nat × AcquireResult)
  popEmpty : Nat
deriving DecidableEq, Repr

/-- The constructor; `createSemaphore` says whether `CreateSemaphore` gave a handle. -/
def FixedObjectPool.make (maxCount : Nat) (createSemaphore : Bool) (threads : Nat) :
    FixedObjectPool :=
  { m_freeList := List.range maxCount
    m_sem := if createSemaphore then some maxCount else none
    threads := List.replicate threads .idle
    held := []
    answers := []
    popEmpty := 0 }

/-- What a thread does. -/
inductive PoolAction
  | acquire (t : Nat) (timeoutMs : Int)
  | wait (t : Nat)
  | timeOut (t : Nat)
  | pop (t : Nat)
  | release (t : Nat) (obj : Option Nat)
deriving DecidableEq, Repr

/-- `Acquire` is called. -/
def FixedObjectPool.acquire (s : FixedObjectPool) (t : Nat) (timeoutMs : Int) :
    Option FixedObjectPool :=
  if s.threads[t]? = some .idle then some { s with threads := s.threads.set t (.waiting timeoutMs) }
  else none

/-- `Wait` returns, with the semaphore or because there is none. -/
def FixedObjectPool.wait (s : FixedObjectPool) (t : Nat) : Option FixedObjectPool :=
  match s.threads[t]? with
  | some (.waiting _) =>
      match s.m_sem with
      | none =>
          some
            { s with
              threads := s.threads.set t .idle
              answers := (t, .failed) :: s.answers }
      | some 0 => none
      | some (count + 1) =>
          some { s with m_sem := some count, threads := s.threads.set t .popping }
  | _ => none

/-- `Wait` returns after the time-out; -1 is `INFINITE`. -/
def FixedObjectPool.timeOut (s : FixedObjectPool) (t : Nat) : Option FixedObjectPool :=
  match s.threads[t]?, s.m_sem with
  | some (.waiting timeoutMs), some 0 =>
      if timeoutMs = -1 then none
      else
        some
          { s with
            threads := s.threads.set t .idle
            answers := (t, .timedOut) :: s.answers }
  | _, _ => none

/-- `m_freeList.back()` and `pop_back`, under the lock. -/
def FixedObjectPool.pop (s : FixedObjectPool) (t : Nat) : Option FixedObjectPool :=
  if s.threads[t]? = some .popping then
    match s.m_freeList.getLast? with
    | none => some { s with threads := s.threads.set t .idle, popEmpty := s.popEmpty + 1 }
    | some obj =>
        some
          { s with
            m_freeList := s.m_freeList.dropLast
            threads := s.threads.set t .idle
            held := (t, obj) :: s.held
            answers := (t, .object obj) :: s.answers }
  else none

/-- `Release`; `none` is `NULL`. -/
def FixedObjectPool.release (s : FixedObjectPool) (t : Nat) : Option Nat → Option FixedObjectPool
  | none => if s.threads[t]? = some .idle then some s else none
  | some obj =>
      if s.threads[t]? = some .idle then
        some
          { s with
            m_freeList := s.m_freeList ++ [obj]
            m_sem := s.m_sem.post
            held := s.held.erase (t, obj) }
      else none

/-- A step of a thread. -/
def FixedObjectPool.step (s : FixedObjectPool) : PoolAction → Option FixedObjectPool
  | .acquire t timeoutMs => s.acquire t timeoutMs
  | .wait t => s.wait t
  | .timeOut t => s.timeOut t
  | .pop t => s.pop t
  | .release t obj => s.release t obj

/-- A thread releases only an object that it acquired and did not release since. -/
def FixedObjectPool.Allowed (s : FixedObjectPool) : PoolAction → Prop
  | .release t (some obj) => (t, obj) ∈ s.held
  | _ => True

instance (s : FixedObjectPool) : ∀ a : PoolAction, Decidable (s.Allowed a)
  | .release t (some obj) => inferInstanceAs (Decidable ((t, obj) ∈ s.held))
  | .release _ none | .acquire _ _ | .wait _ | .timeOut _ | .pop _ => .isTrue trivial

/-- The threads between `Wait` and the lock. -/
def FixedObjectPool.popping (s : FixedObjectPool) : Nat :=
  s.threads.countP (· == .popping)

/-- What a pool of `maxCount` objects keeps true. -/
structure FixedObjectPool.Exclusive (maxCount : Nat) (s : FixedObjectPool) : Prop where
  once : (s.held.map Prod.snd).Nodup
  objects : (s.m_freeList ++ s.held.map Prod.snd).Perm (List.range maxCount)
  popEmpty : s.popEmpty = 0
  coupled : ∃ count, s.m_sem = some count ∧ count + s.popping = s.m_freeList.length
  total : s.m_freeList.length + s.held.length = maxCount
  null : ∀ answer ∈ s.answers, answer.2 ≠ .failed

/-- The invariant: the objects are divided up, and the semaphore is coupled with the vector. -/
structure FixedObjectPool.Inv (maxCount : Nat) (s : FixedObjectPool) : Prop where
  objects : (s.m_freeList ++ s.held.map Prod.snd).Perm (List.range maxCount)
  popEmpty : s.popEmpty = 0
  coupled : ∃ count, s.m_sem = some count ∧ count + s.popping = s.m_freeList.length
  null : ∀ answer ∈ s.answers, answer.2 ≠ .failed

section Steps

variable {maxCount : Nat} {s s' : FixedObjectPool} {t : Nat}

theorem FixedObjectPool.inv_make (maxCount threads : Nat) :
    (make maxCount true threads).Inv maxCount where
  objects := by simp [make]
  popEmpty := rfl
  coupled := ⟨maxCount, rfl, by simp [popping, make, List.countP_replicate]⟩
  null := by simp [make]

theorem FixedObjectPool.Inv.total (h : s.Inv maxCount) :
    s.m_freeList.length + s.held.length = maxCount := by
  have hlen := h.objects.length_eq
  rwa [List.length_append, List.length_map, List.length_range] at hlen

/-- A thread that goes on from `pc` to `pc'`. -/
theorem countP_popping_set
    {threads : List AcquirePc} {pc : AcquirePc} (ht : threads[t]? = some pc) (pc' : AcquirePc) :
    (threads.set t pc').countP (· == .popping) + (if pc = .popping then 1 else 0) =
      threads.countP (· == .popping) + (if pc' = .popping then 1 else 0) := by
  obtain ⟨hlt, rfl⟩ := List.getElem?_eq_some_iff.mp ht
  have hle := List.boole_getElem_le_countP (p := (· == AcquirePc.popping)) hlt
  rw [List.countP_set hlt]
  simp only [beq_iff_eq] at hle ⊢
  omega

/-- A thread that is in no call goes into `Wait`. -/
theorem FixedObjectPool.Inv.acquire
    (h : s.Inv maxCount) {timeoutMs : Int} (hs : s.acquire t timeoutMs = some s') :
    s'.Inv maxCount := by
  rw [FixedObjectPool.acquire] at hs
  split_ifs at hs with ht
  rw [Option.some.injEq] at hs
  subst hs
  obtain ⟨count, hsem, hcount⟩ := h.coupled
  have hpopping := countP_popping_set ht (.waiting timeoutMs)
  refine ⟨h.objects, h.popEmpty, ⟨count, hsem, ?_⟩, h.null⟩
  simp only [popping, reduceCtorEq, if_false] at hcount hpopping ⊢
  omega

/-- A `Wait` that succeeds takes one from the count, and its thread is before the lock. -/
theorem FixedObjectPool.Inv.wait (h : s.Inv maxCount) (hs : s.wait t = some s') :
    s'.Inv maxCount := by
  obtain ⟨count, hsem, hcount⟩ := h.coupled
  rw [FixedObjectPool.wait, hsem] at hs
  split at hs
  · next timeoutMs ht =>
    cases count with
    | zero => simp at hs
    | succ count =>
        simp only [Option.some.injEq] at hs
        subst hs
        have hpopping := countP_popping_set ht .popping
        refine ⟨h.objects, h.popEmpty, ⟨count, rfl, ?_⟩, h.null⟩
        simp only [popping, reduceCtorEq, if_false, if_true] at hcount hpopping ⊢
        omega
  · simp at hs

theorem FixedObjectPool.Inv.timeOut (h : s.Inv maxCount) (hs : s.timeOut t = some s') :
    s'.Inv maxCount := by
  obtain ⟨count, hsem, hcount⟩ := h.coupled
  rw [FixedObjectPool.timeOut] at hs
  split at hs
  · next timeoutMs ht hzero =>
    split_ifs at hs with hinfinite
    rw [Option.some.injEq] at hs
    subst hs
    have hpopping := countP_popping_set ht .idle
    refine ⟨h.objects, h.popEmpty, ⟨count, hsem, ?_⟩, ?_⟩
    · simp only [popping, reduceCtorEq, if_false] at hcount hpopping ⊢
      omega
    · intro answer hmem
      rcases List.mem_cons.mp hmem with rfl | hmem
      · simp
      · exact h.null answer hmem
  · simp at hs

/-- The vector is not empty while a thread is between `Wait` and the lock. -/
theorem FixedObjectPool.Inv.freeList_ne_nil
    (h : s.Inv maxCount) (ht : s.threads[t]? = some .popping) :
    s.m_freeList ≠ [] := by
  intro hnil
  obtain ⟨count, -, hcount⟩ := h.coupled
  have hpopping := countP_popping_set ht .idle
  rw [hnil, List.length_nil] at hcount
  simp only [popping, reduceCtorEq, if_false, if_true] at hcount hpopping
  omega

/-- The last object of the vector goes to the thread. -/
theorem FixedObjectPool.Inv.pop (h : s.Inv maxCount) (hs : s.pop t = some s') :
    s'.Inv maxCount := by
  rw [FixedObjectPool.pop] at hs
  split_ifs at hs with ht
  split at hs
  · next hnone => exact absurd (List.getLast?_eq_none_iff.mp hnone) (h.freeList_ne_nil ht)
  · next obj hlast =>
    rw [Option.some.injEq] at hs
    subst hs
    obtain ⟨count, hsem, hcount⟩ := h.coupled
    have hpopping := countP_popping_set ht .idle
    have hlist : s.m_freeList.dropLast ++ [obj] = s.m_freeList :=
      List.dropLast_append_getLast? obj hlast
    have hlen := congrArg List.length hlist
    rw [List.length_append, List.length_singleton] at hlen
    refine ⟨?_, h.popEmpty, ⟨count, hsem, ?_⟩, ?_⟩
    · have hobjects := h.objects
      rw [← hlist, List.append_assoc] at hobjects
      exact hobjects
    · simp only [popping, reduceCtorEq, if_false, if_true] at hcount hpopping ⊢
      omega
    · intro answer hmem
      rcases List.mem_cons.mp hmem with rfl | hmem
      · simp
      · exact h.null answer hmem

/-- An object goes back, and the semaphore is never at its largest count then. -/
theorem FixedObjectPool.Inv.release
    (h : s.Inv maxCount) (hmax : maxCount ≤ semaphoreMax) {obj : Option Nat}
    (hobj : s.Allowed (.release t obj)) (hs : s.release t obj = some s') :
    s'.Inv maxCount := by
  cases obj with
  | none =>
      rw [FixedObjectPool.release] at hs
      split_ifs at hs
      rw [Option.some.injEq] at hs
      exact hs ▸ h
  | some obj =>
      have hheld : (t, obj) ∈ s.held := hobj
      rw [FixedObjectPool.release] at hs
      split_ifs at hs
      rw [Option.some.injEq] at hs
      subst hs
      obtain ⟨count, hsem, hcount⟩ := h.coupled
      have htotal := h.total
      have hpos := List.length_pos_of_mem hheld
      refine ⟨?_, h.popEmpty, ⟨count + 1, ?_, ?_⟩, h.null⟩
      · have hmove := (List.perm_cons_erase hheld).map Prod.snd
        refine List.Perm.trans ?_ h.objects
        rw [List.append_assoc]
        exact hmove.symm.append_left s.m_freeList
      · simp only [hsem, CSemaphore.post, Option.map_some]
        rw [if_pos (by omega)]
      · simp only [popping, List.length_append, List.length_singleton] at hcount ⊢
        omega

/-- Every step of every thread keeps the invariant. -/
theorem FixedObjectPool.Inv.step
    (h : s.Inv maxCount) (hmax : maxCount ≤ semaphoreMax) {a : PoolAction}
    (ha : s.Allowed a) (hs : s.step a = some s') :
    s'.Inv maxCount := by
  cases a with
  | acquire t timeoutMs => exact h.acquire hs
  | wait t => exact h.wait hs
  | timeOut t => exact h.timeOut hs
  | pop t => exact h.pop hs
  | release t obj => exact h.release hmax ha hs

theorem FixedObjectPool.Inv.exclusive (h : s.Inv maxCount) : s.Exclusive maxCount where
  once := (List.nodup_append.mp (h.objects.nodup_iff.mpr List.nodup_range)).2.1
  objects := h.objects
  popEmpty := h.popEmpty
  coupled := h.coupled
  total := h.total
  null := h.null

end Steps

/--
Every object of a pool has one holder in every run, and `Acquire` returns `NULL`
only after a time-out, if and only if the constructor got its semaphore.
-/
theorem fixedObjectPool_exclusive_iff
    {maxCount : Nat} (_ : 0 < maxCount) (hmax : maxCount ≤ semaphoreMax)
    (createSemaphore : Bool) :
    (∀ (threads : Nat) (s : FixedObjectPool),
        Reach FixedObjectPool.step FixedObjectPool.Allowed
          (FixedObjectPool.make maxCount createSemaphore threads) s →
          s.Exclusive maxCount) ↔
      createSemaphore = true := by
  constructor
  · intro h
    by_contra hno
    obtain rfl : createSemaphore = false := by simpa using hno
    -- The first `Acquire` is answered with `NULL` at once.
    have hacquire : (FixedObjectPool.make maxCount false 1).step (.acquire 0 (-1)) =
        some { FixedObjectPool.make maxCount false 1 with threads := [.waiting (-1)] } := rfl
    have hwait :
        FixedObjectPool.step
            { FixedObjectPool.make maxCount false 1 with threads := [.waiting (-1)] } (.wait 0) =
          some
            { FixedObjectPool.make maxCount false 1 with
              threads := [.idle]
              answers := [(0, .failed)] } := rfl
    have hrun := Reach.single (G := FixedObjectPool.Allowed) (a := .acquire 0 (-1)) trivial hacquire
    have hnull := (h 1 _ (.next (a := .wait 0) hrun trivial hwait)).null
    exact hnull (0, .failed) List.mem_cons_self rfl
  · rintro rfl threads s hrun
    have hinv : s.Inv maxCount :=
      hrun.invariant (FixedObjectPool.inv_make maxCount threads) fun h ha hs => h.step hmax ha hs
    exact hinv.exclusive

/-- Two threads and one object, which goes from one to the other. -/
theorem fixedObjectPool_exclusive_iff_example :
    ∃ s : FixedObjectPool, s.Exclusive 1 ∧ (s.held == [(1, 0)]) = true := by
  have hrun :
      (runAll FixedObjectPool.step FixedObjectPool.Allowed (FixedObjectPool.make 1 true 2)
        [.acquire 0 (-1), .acquire 1 10, .wait 0, .timeOut 1, .pop 0, .acquire 1 (-1),
          .release 0 (some 0), .wait 1, .pop 1]).any
        (fun s => s.held == [(1, 0)]) = true := by
    decide
  obtain ⟨s, hreach, hheld⟩ := exists_reach_of_runAll hrun
  exact
    ⟨s, (fixedObjectPool_exclusive_iff Nat.one_pos (by decide) true).mpr rfl 2 s hreach, hheld⟩

/-- Without a semaphore `Acquire` returns `NULL` at once, with all objects in the vector. -/
theorem acquire_without_semaphore :
    ∃ s : FixedObjectPool,
      Reach FixedObjectPool.step FixedObjectPool.Allowed (FixedObjectPool.make 1 false 1) s ∧
        (0, .failed) ∈ s.answers ∧ ¬ s.Exclusive 1 := by
  have hrun :
      (runAll FixedObjectPool.step FixedObjectPool.Allowed (FixedObjectPool.make 1 false 1)
        [.acquire 0 (-1), .wait 0]).any
        (fun s => decide ((0, AcquireResult.failed) ∈ s.answers)) = true := by
    decide
  obtain ⟨s, hreach, hfailed⟩ := exists_reach_of_runAll hrun
  have hmem := of_decide_eq_true hfailed
  exact ⟨s, hreach, hmem, fun h => h.null _ hmem rfl⟩

end Baselib
end IocpNetlib
