import IocpNetlib.Lib.Reach
import Mathlib.Data.List.Perm.Basic

/-!
# `DynamicMemoryPool`

A pool that gets its blocks from `operator new` and keeps up to `m_maxCache` of
those that were freed for the next `Create`.  `Owns` says which blocks are
handed out; `Create` adds one to them and `Free` takes one away.

A history also lists the blocks that `operator new` returned and those that
were deleted; every block of the first list is handed out, cached, or in the
second list.
-/

namespace IocpNetlib
namespace Baselib

open Reachability

universe u

variable {A : Type u}

/--
The fields of a pool.  `m_heap` is not in the source: the blocks that
`operator new` returned and that were not deleted.
-/
structure DynamicMemoryPool (A : Type u) where
  m_cache : List A
  m_maxCache : Nat
  m_usedCount : Nat
  m_heap : List A

/-- A pool after its construction. -/
def DynamicMemoryPool.make (maxCache : Nat) : DynamicMemoryPool A :=
  { m_cache := []
    m_maxCache := maxCache
    m_usedCount := 0
    m_heap := [] }

/-- `Create`; the block `p` is what `operator new` returns, if it is called. -/
def DynamicMemoryPool.create (pool : DynamicMemoryPool A) (p : A) : DynamicMemoryPool A × A :=
  match pool.m_cache.getLast? with
  | some back =>
      ({ pool with
          m_cache := pool.m_cache.dropLast
          m_usedCount := pool.m_usedCount + 1 },
        back)
  | none =>
      ({ pool with
          m_usedCount := pool.m_usedCount + 1
          m_heap := p :: pool.m_heap },
        p)

/-- `Free`; it asserts that `m_usedCount` is not zero. -/
def DynamicMemoryPool.free [DecidableEq A] (pool : DynamicMemoryPool A) (obj : A) :
    DynamicMemoryPool A :=
  if pool.m_cache.length < pool.m_maxCache then
    { pool with
      m_cache := pool.m_cache ++ [obj]
      m_usedCount := pool.m_usedCount - 1 }
  else
    { pool with
      m_usedCount := pool.m_usedCount - 1
      m_heap := pool.m_heap.erase obj }

/-- The blocks `live` are handed out, each once, and counted. -/
structure DynamicMemoryPool.Owns (pool : DynamicMemoryPool A) (live : List A) : Prop where
  nodup : (live ++ pool.m_cache).Nodup
  heap : (live ++ pool.m_cache).Perm pool.m_heap
  used : pool.m_usedCount = live.length

section Owns

variable {pool : DynamicMemoryPool A} {live : List A}

theorem DynamicMemoryPool.owns_make (maxCache : Nat) :
    (DynamicMemoryPool.make maxCache : DynamicMemoryPool A).Owns [] := by
  constructor
  · exact List.nodup_nil
  · exact List.Perm.refl []
  · rfl

/-- The order of the blocks does not matter. -/
theorem DynamicMemoryPool.Owns.perm
    (h : pool.Owns live) {live' : List A} (hperm : live'.Perm live) :
    pool.Owns live' := by
  have happend := hperm.append_right pool.m_cache
  constructor
  · exact happend.nodup_iff.mpr h.nodup
  · exact happend.trans h.heap
  · exact h.used.trans hperm.length_eq.symm

theorem DynamicMemoryPool.Owns.mem_heap
    (h : pool.Owns live) {b : A} (hb : b ∈ live) :
    b ∈ pool.m_heap :=
  h.heap.subset (List.mem_append_left _ hb)

theorem DynamicMemoryPool.Owns.nodup_live (h : pool.Owns live) : live.Nodup :=
  (List.nodup_append.mp h.nodup).1

/-- `Create` hands out one more block, a cached one or the one of `operator new`. -/
theorem DynamicMemoryPool.Owns.create
    (h : pool.Owns live) {p : A} (hp : pool.m_cache = [] → p ∉ pool.m_heap) :
    (pool.create p).1.Owns ((pool.create p).2 :: live) ∧
      ∀ a ∈ (pool.create p).1.m_heap, a ∈ pool.m_heap ∨ a = p := by
  rw [DynamicMemoryPool.create]
  cases hback : pool.m_cache.getLast? with
  | some back =>
      have hcache : pool.m_cache.dropLast ++ [back] = pool.m_cache :=
        List.dropLast_append_getLast? back hback
      have hmove :
          (back :: live ++ pool.m_cache.dropLast).Perm (live ++ pool.m_cache) := by
        rw [← hcache, ← List.append_assoc, List.dropLast_concat]
        exact (List.perm_append_singleton back (live ++ pool.m_cache.dropLast)).symm
      refine ⟨⟨hmove.nodup_iff.mpr h.nodup, hmove.trans h.heap, ?_⟩, fun a ha => Or.inl ha⟩
      simp only [h.used, List.length_cons]
  | none =>
      have hempty := List.getLast?_eq_none_iff.mp hback
      have hfresh : p ∉ live ++ pool.m_cache := fun hin => hp hempty (h.heap.subset hin)
      refine ⟨⟨List.nodup_cons.mpr ⟨hfresh, h.nodup⟩, h.heap.cons p, ?_⟩, fun a ha => ?_⟩
      · simp only [h.used, List.length_cons]
      · exact (List.mem_cons.mp ha).symm

/-- `Free` takes a block back into the cache, or deletes it. -/
theorem DynamicMemoryPool.Owns.free
    [DecidableEq A] {b : A} (h : pool.Owns (b :: live)) :
    (pool.free b).Owns live ∧ ∀ a ∈ (pool.free b).m_heap, a ∈ pool.m_heap := by
  have hused : pool.m_usedCount - 1 = live.length := by
    rw [h.used, List.length_cons, Nat.add_sub_cancel]
  rw [DynamicMemoryPool.free]
  by_cases hroom : pool.m_cache.length < pool.m_maxCache
  · rw [if_pos hroom]
    have hmove :
        (live ++ (pool.m_cache ++ [b])).Perm (b :: live ++ pool.m_cache) := by
      rw [← List.append_assoc]
      exact List.perm_append_singleton b (live ++ pool.m_cache)
    exact ⟨⟨hmove.nodup_iff.mpr h.nodup, hmove.trans h.heap, hused⟩, fun a ha => ha⟩
  · rw [if_neg hroom]
    have hrest : (live ++ pool.m_cache).Perm (pool.m_heap.erase b) := by
      have herase := h.heap.erase b
      rwa [List.cons_append, List.erase_cons_head] at herase
    exact ⟨⟨(List.nodup_cons.mp h.nodup).2, hrest, hused⟩, fun a ha => List.mem_of_mem_erase ha⟩

end Owns

section History

/-- `GetUsedCount`. -/
def DynamicMemoryPool.getUsedCount (pool : DynamicMemoryPool A) : Nat :=
  pool.m_usedCount

/-- `GetCachedCount`. -/
def DynamicMemoryPool.getCachedCount (pool : DynamicMemoryPool A) : Nat :=
  pool.m_cache.length

/-- `Create<T>`: the constructor of `T` runs in the block, which the pool does not look at. -/
def DynamicMemoryPool.createT (pool : DynamicMemoryPool A) (p : A) : DynamicMemoryPool A × A :=
  pool.create p

/-- What `Create` got from `operator new`. -/
def DynamicMemoryPool.newBlocks (pool : DynamicMemoryPool A) (p : A) : List A :=
  match pool.m_cache.getLast? with
  | some _ => []
  | none => [p]

/-- What `Create` does to the pool's own lists. -/
theorem DynamicMemoryPool.create_lists (pool : DynamicMemoryPool A) (p : A) :
    (pool.create p).1.m_heap = pool.newBlocks p ++ pool.m_heap ∧
      (pool.create p).1.m_maxCache = pool.m_maxCache ∧
        (pool.create p).1.m_cache.length ≤ pool.m_cache.length := by
  rw [create, newBlocks]
  cases hback : pool.m_cache.getLast? with
  | some back =>
      refine ⟨rfl, rfl, ?_⟩
      simp only [List.length_dropLast]
      exact Nat.sub_le _ _
  | none => exact ⟨rfl, rfl, Nat.le_refl _⟩

/-- A pool, and what has become of the blocks. -/
structure PoolHistory (A : Type u) where
  pool : DynamicMemoryPool A
  live : List A
  obtained : List A
  deleted : List A

/-- A new pool. -/
def PoolHistory.init (maxCache : Nat) : PoolHistory A :=
  { pool := DynamicMemoryPool.make maxCache
    live := []
    obtained := []
    deleted := [] }

/-- What is known of a history. -/
structure PoolHistory.Inv (disjoint : A → A → Prop) (maxCache : Nat) (h : PoolHistory A) :
    Prop where
  owns : h.pool.Owns h.live
  apart : h.pool.m_heap.Pairwise disjoint
  balance : h.obtained.Perm (h.pool.m_heap ++ h.deleted)
  bound : h.pool.m_maxCache = maxCache
  cached : h.pool.m_cache.length ≤ maxCache

variable {disjoint : A → A → Prop} {maxCache : Nat} {h : PoolHistory A}

theorem PoolHistory.inv_init (maxCache : Nat) :
    (PoolHistory.init maxCache : PoolHistory A).Inv disjoint maxCache where
  owns := DynamicMemoryPool.owns_make maxCache
  apart := List.Pairwise.nil
  balance := List.Perm.refl []
  bound := rfl
  cached := Nat.zero_le maxCache

theorem PoolHistory.Inv.create
    (hirrefl : ∀ a, ¬ disjoint a a) (hinv : h.Inv disjoint maxCache) {p : A}
    (hp : ∀ b ∈ h.pool.newBlocks p, ∀ a ∈ h.pool.m_heap, disjoint b a) :
    Inv disjoint maxCache
      { pool := (h.pool.create p).1
        live := (h.pool.create p).2 :: h.live
        obtained := h.pool.newBlocks p ++ h.obtained
        deleted := h.deleted } := by
  obtain ⟨hheap, hmax, hlen⟩ := h.pool.create_lists p
  have hfresh : h.pool.m_cache = [] → p ∉ h.pool.m_heap := by
    intro hempty hmem
    refine hirrefl p (hp p ?_ p hmem)
    rw [DynamicMemoryPool.newBlocks]
    rw [hempty]
    exact List.mem_cons_self
  refine ⟨(hinv.owns.create hfresh).1, ?_, ?_, hmax.trans hinv.bound, ?_⟩
  · rw [hheap, List.pairwise_append]
    refine ⟨?_, hinv.apart, hp⟩
    rw [DynamicMemoryPool.newBlocks]
    split
    · exact List.Pairwise.nil
    · exact List.pairwise_singleton disjoint p
  · rw [hheap, List.append_assoc]
    exact hinv.balance.append_left (h.pool.newBlocks p)
  · exact Nat.le_trans hlen hinv.cached

variable [DecidableEq A]

/-- `Free(void*)`; `none` is `NULL`. -/
def DynamicMemoryPool.freeVoid (pool : DynamicMemoryPool A) : Option A → DynamicMemoryPool A
  | none => pool
  | some obj => pool.free obj

/-- `Free(T*)`: the destructor of `T` runs first. -/
def DynamicMemoryPool.freeT (pool : DynamicMemoryPool A) : Option A → DynamicMemoryPool A
  | none => pool
  | some obj => pool.freeVoid (some obj)

/-- What `Free` gives to `operator delete`. -/
def DynamicMemoryPool.deletedBlocks (pool : DynamicMemoryPool A) : Option A → List A
  | none => []
  | some obj => if pool.m_cache.length < pool.m_maxCache then [] else [obj]

/-- `Clear`, which the destructor calls: every cached block is deleted. -/
def DynamicMemoryPool.clear (pool : DynamicMemoryPool A) : DynamicMemoryPool A × List A :=
  ({ pool with
      m_cache := []
      m_heap := pool.m_heap.diff pool.m_cache },
    pool.m_cache)

/-- A call; `p` is what `operator new` returns in it, if it is called. -/
inductive PoolCall (A : Type u)
  | create (p : A)
  | createT (p : A)
  | free (obj : Option A)
  | freeT (obj : Option A)

/-- A call of the pool. -/
def PoolHistory.step (h : PoolHistory A) : PoolCall A → Option (PoolHistory A)
  | .create p =>
      some
        { pool := (h.pool.create p).1
          live := (h.pool.create p).2 :: h.live
          obtained := h.pool.newBlocks p ++ h.obtained
          deleted := h.deleted }
  | .createT p =>
      some
        { pool := (h.pool.createT p).1
          live := (h.pool.createT p).2 :: h.live
          obtained := h.pool.newBlocks p ++ h.obtained
          deleted := h.deleted }
  | .free obj =>
      some
        { pool := h.pool.freeVoid obj
          live := obj.elim h.live h.live.erase
          obtained := h.obtained
          deleted := h.pool.deletedBlocks obj ++ h.deleted }
  | .freeT obj =>
      some
        { pool := h.pool.freeT obj
          live := obj.elim h.live h.live.erase
          obtained := h.obtained
          deleted := h.pool.deletedBlocks obj ++ h.deleted }

variable (disjoint)

/--
`operator new` returns a block that has nothing in common with those that were
not deleted yet, and only blocks that are handed out are freed, or `NULL`.
-/
def PoolHistory.Allowed (h : PoolHistory A) : PoolCall A → Prop
  | .create p => ∀ b ∈ h.pool.newBlocks p, ∀ a ∈ h.pool.m_heap, disjoint b a
  | .createT p => ∀ b ∈ h.pool.newBlocks p, ∀ a ∈ h.pool.m_heap, disjoint b a
  | .free obj => ∀ b ∈ obj, b ∈ h.live
  | .freeT obj => ∀ b ∈ obj, b ∈ h.live

variable {disjoint}

/-- What `Free` does to the pool's own lists. -/
theorem DynamicMemoryPool.free_lists
    (pool : DynamicMemoryPool A) {obj : A} (hobj : obj ∈ pool.m_heap) :
    pool.m_heap.Perm (pool.deletedBlocks (some obj) ++ (pool.free obj).m_heap) ∧
      (pool.free obj).m_heap.Sublist pool.m_heap ∧
        (pool.free obj).m_maxCache = pool.m_maxCache ∧
          (pool.m_cache.length ≤ pool.m_maxCache →
            (pool.free obj).m_cache.length ≤ pool.m_maxCache) := by
  rw [free, deletedBlocks]
  split_ifs with hroom
  · refine ⟨List.Perm.refl _, List.Sublist.refl _, rfl, fun _ => ?_⟩
    simp only [List.length_append, List.length_singleton]
    exact hroom
  · exact ⟨List.perm_cons_erase hobj, List.erase_sublist, rfl, fun hle => hle⟩

theorem PoolHistory.Inv.free
    (hinv : h.Inv disjoint maxCache) {obj : Option A} (hobj : ∀ b ∈ obj, b ∈ h.live) :
    Inv disjoint maxCache
      { pool := h.pool.freeVoid obj
        live := obj.elim h.live h.live.erase
        obtained := h.obtained
        deleted := h.pool.deletedBlocks obj ++ h.deleted } := by
  cases obj with
  | none => exact hinv
  | some b =>
      have hlive := hobj b rfl
      obtain ⟨hheap, hsub, hmax, hlen⟩ := h.pool.free_lists (hinv.owns.mem_heap hlive)
      have howns := hinv.owns.perm (List.perm_cons_erase hlive).symm
      refine ⟨howns.free.1, hinv.apart.sublist hsub, ?_, hmax.trans hinv.bound, ?_⟩
      · have hmove := hinv.balance.trans (hheap.append_right h.deleted)
        refine hmove.trans ?_
        rw [← List.append_assoc]
        exact List.perm_append_comm.append_right h.deleted
      · have hcached := hinv.cached
        rw [← hinv.bound] at hcached ⊢
        exact hlen hcached

/-- Every call keeps the accounts. -/
theorem PoolHistory.Inv.step
    (hirrefl : ∀ a, ¬ disjoint a a) (hinv : h.Inv disjoint maxCache)
    {c : PoolCall A} (hc : h.Allowed disjoint c) {h' : PoolHistory A}
    (hs : h.step c = some h') :
    h'.Inv disjoint maxCache := by
  cases c with
  | create p =>
      obtain rfl := Option.some.inj hs
      exact hinv.create hirrefl hc
  | createT p =>
      obtain rfl := Option.some.inj hs
      exact hinv.create hirrefl hc
  | free obj =>
      obtain rfl := Option.some.inj hs
      exact hinv.free hc
  | freeT obj =>
      obtain rfl := Option.some.inj hs
      cases obj with
      | none => exact hinv.free hc
      | some b => exact hinv.free hc

/-- What a pool keeps true of the blocks that it got. -/
structure PoolHistory.Accounts (disjoint : A → A → Prop) (maxCache : Nat) (h : PoolHistory A) :
    Prop where
  apart : (h.live ++ h.pool.m_cache).Pairwise disjoint
  once : (h.live ++ h.pool.m_cache).Nodup
  used : h.pool.getUsedCount = h.live.length
  cached : h.pool.getCachedCount ≤ maxCache
  obtained : h.obtained.Perm (h.live ++ h.pool.m_cache ++ h.deleted)
  destroyed : h.pool.clear.2 = h.pool.m_cache ∧ h.pool.clear.1.m_heap.Perm h.live

instance [DecidableRel disjoint] (h : PoolHistory A) :
    ∀ c : PoolCall A, Decidable (h.Allowed disjoint c)
  | .create p =>
      inferInstanceAs (Decidable (∀ b ∈ h.pool.newBlocks p, ∀ a ∈ h.pool.m_heap, disjoint b a))
  | .createT p =>
      inferInstanceAs (Decidable (∀ b ∈ h.pool.newBlocks p, ∀ a ∈ h.pool.m_heap, disjoint b a))
  | .free obj => inferInstanceAs (Decidable (∀ b ∈ obj, b ∈ h.live))
  | .freeT obj => inferInstanceAs (Decidable (∀ b ∈ obj, b ∈ h.live))

theorem diff_append_self (xs ys : List A) : (ys ++ xs).diff ys = xs := by
  induction ys with
  | nil => rfl
  | cons y ys ih => rw [List.cons_append, List.diff_cons, List.erase_cons_head, ih]

/--
In every history of a pool no block is handed out twice or while it is cached,
the counts are right, and every block that `operator new` returned is handed
out, cached or was deleted; the destructor deletes the cached ones.
-/
theorem dynamicMemoryPool_accounts
    (hirrefl : ∀ a, ¬ disjoint a a)
    (hsymm : ∀ a b, disjoint a b → disjoint b a) (_ : 0 < maxCache)
    (hrun : Reach PoolHistory.step (PoolHistory.Allowed disjoint) (PoolHistory.init maxCache) h) :
    h.Accounts disjoint maxCache := by
  have hinv : h.Inv disjoint maxCache :=
    hrun.invariant (PoolHistory.inv_init maxCache) fun hi hc hs => hi.step hirrefl hc hs
  have hheap := hinv.owns.heap
  refine
    { apart := ?_
      once := hinv.owns.nodup
      used := hinv.owns.used
      cached := hinv.cached
      obtained := ?_
      destroyed := ⟨rfl, ?_⟩ }
  · exact (hheap.pairwise_iff fun hab => hsymm _ _ hab).mpr hinv.apart
  · exact hinv.balance.trans (hheap.symm.append_right h.deleted)
  · have hdiff := (List.perm_append_comm.trans hheap).symm.diff_right h.pool.m_cache
    rw [diff_append_self] at hdiff
    exact hdiff

end History

/-- Two blocks are freed, one of them into the cache, and a third one is asked for. -/
theorem dynamicMemoryPool_accounts_example :
    ∃ h : PoolHistory Nat,
      h.Accounts (· ≠ ·) 1 ∧ (h.live == [16] && h.obtained == [32, 16]) = true := by
  have hrun :
      (runAll PoolHistory.step (PoolHistory.Allowed (· ≠ ·)) (PoolHistory.init 1)
        [.create 16, .createT 32, .freeT (some 16), .free (some 32), .free none, .create 48]).any
        (fun h => h.live == [16] && h.obtained == [32, 16]) = true := by
    decide
  obtain ⟨h, hreach, hlists⟩ := exists_reach_of_runAll hrun
  exact
    ⟨h, dynamicMemoryPool_accounts (fun a ha => ha rfl) (fun _ _ hab => hab.symm)
      Nat.one_pos hreach, hlists⟩

end Baselib
end IocpNetlib
