import IocpNetlib.Lib.ByteMemory
import IocpNetlib.Lib.Reach
import IocpNetlib.Baselib.MemoryPool

/-!
# `FixedMemoryPool` on a memory of bytes

Here a pointer is an address, `NULL` is 0, and a link of the free list is a word
in the first bytes of a free block, which are the owner's own bytes while the
block is handed out.

`Owned` says which blocks are free, in the order of the free list, and which are
handed out.  The constructor's loop establishes it, and every operation and
every write of an owner keeps it.
-/

namespace IocpNetlib
namespace Baselib
namespace Addresses

open FreeList ByteMemory Reachability

/-- The fields of a pool. -/
structure FixedMemoryPool where
  m_pool : Nat
  m_freeList : Nat
  m_elemSize : Nat
  m_capacity : Nat
  m_freeCount : Nat
deriving DecidableEq, Repr

/-- The block at place `i`. -/
def FixedMemoryPool.blockAt (pool : FixedMemoryPool) (i : Nat) : Nat :=
  pool.m_pool + i * pool.m_elemSize

section Code

variable (w : Nat)

/-- The size of the blocks, as the constructor computes it. -/
def elementSize (elemSize : Nat) : Nat :=
  alignUp w (max (sizeofPtr w) elemSize)

/-- What the constructor asks `malloc` for. -/
def mallocSize (elemSize capacity : Nat) : Nat :=
  elementSize w elemSize * capacity % 2 ^ w

/-- The loop of the constructor with `n` turns to go: the last node, and the memory. -/
def linkNodes (elemSize : Nat) : Nat → Nat → Bytes → Nat × Bytes
  | 0, p, mem => (p, mem)
  | n + 1, p, mem =>
      let next := (p + elemSize) % 2 ^ w
      linkNodes elemSize n next (storeWord (sizeofPtr w) mem p next)

/-- The constructor; `malloc` is what `malloc` returned.  It asserts that neither size is zero. -/
def construct (elemSize capacity malloc : Nat) (mem : Bytes) : FixedMemoryPool × Bytes :=
  if malloc = 0 then
    ({ m_pool := 0
       m_freeList := 0
       m_elemSize := elementSize w elemSize
       m_capacity := 0
       m_freeCount := 0 }, mem)
  else
    let (p, mem) := linkNodes w (elementSize w elemSize) (capacity - 1) malloc mem
    ({ m_pool := malloc
       m_freeList := malloc
       m_elemSize := elementSize w elemSize
       m_capacity := capacity
       m_freeCount := capacity }, storeWord (sizeofPtr w) mem p 0)

/-- `GetFreeCount`. -/
def FixedMemoryPool.getFreeCount (pool : FixedMemoryPool) : Nat :=
  pool.m_freeCount

/-- `GetUsedCount`. -/
def FixedMemoryPool.getUsedCount (pool : FixedMemoryPool) : Nat :=
  (pool.m_capacity + (2 ^ w - pool.m_freeCount)) % 2 ^ w

/-- `AllocRaw`: the block, and the pool without it. -/
def FixedMemoryPool.allocRaw (pool : FixedMemoryPool) (mem : Bytes) : Nat × FixedMemoryPool :=
  if pool.m_freeList = 0 then (0, pool)
  else
    (pool.m_freeList,
      { pool with
        m_freeList := loadWord (sizeofPtr w) mem pool.m_freeList
        m_freeCount := (pool.m_freeCount + (2 ^ w - 1)) % 2 ^ w })

/-- `FreeRaw`. -/
def FixedMemoryPool.freeRaw (pool : FixedMemoryPool) (mem : Bytes) (ptr : Nat) :
    FixedMemoryPool × Bytes :=
  if ptr = 0 then (pool, mem)
  else
    ({ pool with
       m_freeList := ptr
       m_freeCount := (pool.m_freeCount + 1) % 2 ^ w },
      storeWord (sizeofPtr w) mem ptr pool.m_freeList)

/-- `Create()`. -/
def FixedMemoryPool.create (pool : FixedMemoryPool) (mem : Bytes) :
    Nat × FixedMemoryPool × Bytes :=
  let (ptr, pool) := pool.allocRaw w mem
  (ptr, pool, mem)

/-- `Create<T>()`, for a `T` whose constructor leaves the bytes `obj`. -/
def FixedMemoryPool.createT (pool : FixedMemoryPool) (mem : Bytes) (obj : List UInt8) :
    Nat × FixedMemoryPool × Bytes :=
  if pool.m_elemSize < obj.length then (0, pool, mem)
  else
    let (ptr, pool) := pool.allocRaw w mem
    if ptr = 0 then (0, pool, mem)
    else (ptr, pool, storeBytes mem ptr obj)

/-- `Free(void*)`. -/
def FixedMemoryPool.free (pool : FixedMemoryPool) (mem : Bytes) (ptr : Nat) :
    FixedMemoryPool × Bytes :=
  if ptr = 0 then (pool, mem) else pool.freeRaw w mem ptr

/-- `Free(T*)`, for an object whose destructor leaves the bytes `rest`. -/
def FixedMemoryPool.freeT (pool : FixedMemoryPool) (mem : Bytes) (ptr : Nat) (rest : List UInt8) :
    FixedMemoryPool × Bytes :=
  if ptr = 0 then (pool, mem) else pool.freeRaw w (storeBytes mem ptr rest) ptr

/-- A pool, the memory, and the blocks that were handed out and not freed since. -/
structure State where
  pool : FixedMemoryPool
  mem : Bytes
  live : List Nat

/-- What happens to a pool and its memory. -/
inductive Action
  | create
  | createT (obj : List UInt8)
  | free (ptr : Nat)
  | freeT (ptr : Nat) (rest : List UInt8)
  | overwrite (ptr off : Nat) (bytes : List UInt8)
  | elsewhere (addr : Nat) (bytes : List UInt8)

/-- The blocks that are handed out once `Create` has returned `ptr`. -/
def handedOut (ptr : Nat) (live : List Nat) : List Nat :=
  if ptr = 0 then live else ptr :: live

/-- What an action does. -/
def next (s : State) : Action → State
  | .create =>
      let (ptr, pool, mem) := s.pool.create w s.mem
      { pool := pool, mem := mem, live := handedOut ptr s.live }
  | .createT obj =>
      let (ptr, pool, mem) := s.pool.createT w s.mem obj
      { pool := pool, mem := mem, live := handedOut ptr s.live }
  | .free ptr =>
      let (pool, mem) := s.pool.free w s.mem ptr
      { pool := pool, mem := mem, live := s.live.erase ptr }
  | .freeT ptr rest =>
      let (pool, mem) := s.pool.freeT w s.mem ptr rest
      { pool := pool, mem := mem, live := s.live.erase ptr }
  | .overwrite ptr off bytes =>
      { s with mem := storeBytes s.mem (ptr + off) bytes }
  | .elsewhere addr bytes =>
      { s with mem := storeBytes s.mem addr bytes }

/-- A step. -/
def step (s : State) (a : Action) : Option State :=
  some (next w s a)

/--
What the users of a pool may do: free `NULL` or a block that was handed out
and not freed since, write to such a block, and write to memory that is not
the pool's.
-/
def Allowed (s : State) : Action → Prop
  | .create => True
  | .createT _ => True
  | .free ptr => ptr = 0 ∨ ptr ∈ s.live
  | .freeT ptr rest => (ptr = 0 ∨ ptr ∈ s.live) ∧ rest.length ≤ s.pool.m_elemSize
  | .overwrite ptr off bytes => ptr ∈ s.live ∧ off + bytes.length ≤ s.pool.m_elemSize
  | .elsewhere addr bytes =>
      Apart addr bytes.length s.pool.m_pool (s.pool.m_elemSize * s.pool.m_capacity)

instance (s : State) : ∀ a : Action, Decidable (Allowed s a)
  | .create => .isTrue trivial
  | .createT _ => .isTrue trivial
  | .free ptr => inferInstanceAs (Decidable (ptr = 0 ∨ ptr ∈ s.live))
  | .freeT ptr rest =>
      inferInstanceAs (Decidable ((ptr = 0 ∨ ptr ∈ s.live) ∧ rest.length ≤ s.pool.m_elemSize))
  | .overwrite ptr off bytes =>
      inferInstanceAs (Decidable (ptr ∈ s.live ∧ off + bytes.length ≤ s.pool.m_elemSize))
  | .elsewhere addr bytes =>
      inferInstanceAs
        (Decidable
          (addr + bytes.length ≤ s.pool.m_pool ∨
            s.pool.m_pool + s.pool.m_elemSize * s.pool.m_capacity ≤ addr))

/-- A new pool. -/
def init (elemSize capacity malloc : Nat) (mem : Bytes) : State :=
  let (pool, mem) := construct w elemSize capacity malloc mem
  { pool := pool, mem := mem, live := [] }

end Code

/--
Where a pool lies: its blocks are aligned, can hold a link, and do not reach
over the end of the memory.
-/
structure Placed (w : Nat) (pool : FixedMemoryPool) : Prop where
  word : 256 ^ sizeofPtr w = 2 ^ w
  ptr_pos : 0 < sizeofPtr w
  pool_ne : pool.m_pool ≠ 0
  pool_aligned : pool.m_pool % sizeofPtr w = 0
  elem_aligned : pool.m_elemSize % sizeofPtr w = 0
  elem_ge : sizeofPtr w ≤ pool.m_elemSize
  capacity_pos : 0 < pool.m_capacity
  inside : pool.m_pool + pool.m_elemSize * pool.m_capacity ≤ 2 ^ w

section Geometry

variable {w : Nat} {pool : FixedMemoryPool}

theorem Placed.elem_pos (h : Placed w pool) : 0 < pool.m_elemSize :=
  Nat.lt_of_lt_of_le h.ptr_pos h.elem_ge

theorem Placed.blockAt_ne (h : Placed w pool) (i : Nat) : pool.blockAt i ≠ 0 := by
  have hne := h.pool_ne
  rw [FixedMemoryPool.blockAt]
  omega

theorem Placed.blockAt_inj (h : Placed w pool) {i j : Nat} (he : pool.blockAt i = pool.blockAt j) :
    i = j := by
  unfold FixedMemoryPool.blockAt at he
  exact Nat.eq_of_mul_eq_mul_right h.elem_pos (by omega)

/-- How the blocks of a pool are pointed to. -/
def Placed.pointers (h : Placed w pool) : Pointers Nat Nat where
  null := 0
  ptr := pool.blockAt
  ptr_ne_null := h.blockAt_ne
  ptr_inj := fun _ _ he => h.blockAt_inj he

theorem blockAt_end {i : Nat} (hi : i < pool.m_capacity) :
    pool.blockAt i + pool.m_elemSize ≤ pool.m_pool + pool.m_elemSize * pool.m_capacity := by
  have hmul : (i + 1) * pool.m_elemSize ≤ pool.m_capacity * pool.m_elemSize :=
    Nat.mul_le_mul_right pool.m_elemSize hi
  rw [Nat.add_mul, Nat.mul_comm pool.m_capacity] at hmul
  rw [FixedMemoryPool.blockAt]
  omega

theorem Placed.blockAt_lt (h : Placed w pool) {i : Nat} (hi : i < pool.m_capacity) :
    pool.blockAt i < 2 ^ w := by
  have hend := blockAt_end hi
  have hin := h.inside
  have hpos := h.elem_pos
  omega

theorem Placed.capacity_lt (h : Placed w pool) : pool.m_capacity < 2 ^ w := by
  have hin := h.inside
  have hne := h.pool_ne
  have hmul := Nat.le_mul_of_pos_left pool.m_capacity h.elem_pos
  omega

theorem Placed.blockAt_aligned (h : Placed w pool) (i : Nat) :
    pool.blockAt i % sizeofPtr w = 0 := by
  rw [FixedMemoryPool.blockAt]
  have hdvd : sizeofPtr w ∣ i * pool.m_elemSize :=
    Nat.dvd_mul_left_of_dvd (Nat.dvd_of_mod_eq_zero h.elem_aligned) i
  exact Nat.mod_eq_zero_of_dvd (Nat.dvd_add (Nat.dvd_of_mod_eq_zero h.pool_aligned) hdvd)

/-- Two blocks have no bytes in common. -/
theorem apart_blockAt (pool : FixedMemoryPool) {i j : Nat} (h : i ≠ j) :
    Apart (pool.blockAt i) pool.m_elemSize (pool.blockAt j) pool.m_elemSize :=
  apart_blocks pool.m_pool pool.m_elemSize h

/-- The link of a block is apart from every other block. -/
theorem Placed.apart_link (h : Placed w pool) {i j : Nat} (hij : i ≠ j) :
    Apart (pool.blockAt i) pool.m_elemSize (pool.blockAt j) (sizeofPtr w) :=
  (apart_blockAt pool hij).mono (Nat.le_refl _) (Nat.le_refl _) (Nat.le_refl _)
    (Nat.add_le_add_left h.elem_ge _)

end Geometry

section Construction

variable {w size : Nat}

/-- The constructor's loop writes to no byte in front of the node it starts at. -/
theorem linkNodes_before
    {n p a : Nat} {mem : Bytes} (hp : p + n * size < 2 ^ w) (ha : a + sizeofPtr w ≤ p) :
    loadWord (sizeofPtr w) (linkNodes w size n p mem).2 a = loadWord (sizeofPtr w) mem a := by
  induction n generalizing p mem with
  | zero => rfl
  | succ n ih =>
      rw [Nat.add_mul] at hp
      have hnext : (p + size) % 2 ^ w = p + size := Nat.mod_eq_of_lt (by omega)
      rw [linkNodes]
      simp only [hnext]
      rw [ih (by omega) (by omega)]
      exact loadWord_storeWord_apart (.inr ha)

/-- The loop ends at the last node, and every node in front of it points to the one behind. -/
theorem linkNodes_spec
    {n p : Nat} (mem : Bytes) (hword : 256 ^ sizeofPtr w = 2 ^ w)
    (hsize : sizeofPtr w ≤ size) (hp : p + n * size < 2 ^ w) :
    (linkNodes w size n p mem).1 = p + n * size ∧
      ∀ i < n,
        loadWord (sizeofPtr w) (linkNodes w size n p mem).2 (p + i * size) =
          p + (i + 1) * size := by
  induction n generalizing p mem with
  | zero => exact ⟨by simp [linkNodes], fun i hi => absurd hi (Nat.not_lt_zero i)⟩
  | succ n ih =>
      rw [Nat.add_mul] at hp
      have hnext : (p + size) % 2 ^ w = p + size := Nat.mod_eq_of_lt (by omega)
      rw [linkNodes]
      simp only [hnext]
      obtain ⟨hlast, hlinks⟩ :=
        @ih (p + size) (storeWord (sizeofPtr w) mem p (p + size)) (by omega)
      refine ⟨by rw [hlast, Nat.add_mul]; omega, fun i hi => ?_⟩
      cases i with
      | zero =>
          rw [Nat.zero_mul, Nat.add_zero, linkNodes_before (by omega) (by omega),
            loadWord_storeWord_self (by omega)]
          omega
      | succ i =>
          have hrest := hlinks i (by omega)
          have hi₁ : p + (i + 1) * size = p + size + i * size := by
            rw [Nat.add_mul]
            omega
          have hi₂ : p + (i + 1 + 1) * size = p + size + (i + 1) * size := by
            rw [Nat.add_mul (i + 1)]
            omega
          rw [hi₁, hi₂]
          exact hrest

end Construction

/-- The word that the block at place `i` begins with. -/
def State.link (w : Nat) (s : State) (i : Nat) : Nat :=
  loadWord (sizeofPtr w) s.mem (s.pool.blockAt i)

/-- The places of the free blocks, in the order of the free list, and of those handed out. -/
structure Owned (w : Nat) (s : State) (free used : List Nat) : Prop where
  placed : Placed w s.pool
  live : s.live = used.map s.pool.blockAt
  parts : (free ++ used).Perm (List.range s.pool.m_capacity)
  chain : Chain placed.pointers (s.link w) s.pool.m_freeList free
  count : s.pool.m_freeCount = free.length

section Owned

variable {w : Nat} {s : State} {free used : List Nat} {i : Nat}

theorem Owned.nodup (h : Owned w s free used) : (free ++ used).Nodup :=
  h.parts.nodup_iff.mpr List.nodup_range

theorem Owned.length (h : Owned w s free used) :
    free.length + used.length = s.pool.m_capacity := by
  have hlen := h.parts.length_eq
  rwa [List.length_append, List.length_range] at hlen

theorem Owned.lt_of_free (h : Owned w s free used) (hi : i ∈ free) : i < s.pool.m_capacity :=
  List.mem_range.mp (h.parts.subset (List.mem_append_left used hi))

theorem Owned.lt_of_used (h : Owned w s free used) (hi : i ∈ used) : i < s.pool.m_capacity :=
  List.mem_range.mp (h.parts.subset (List.mem_append_right free hi))

theorem Owned.not_free (h : Owned w s free used) (hi : i ∈ used) : i ∉ free :=
  fun hfree => (List.nodup_append.mp h.nodup).2.2 i hfree i hi rfl

/-- A block is handed out if and only if its place is one of `used`. -/
theorem Owned.blockAt_mem_live (h : Owned w s free used) :
    s.pool.blockAt i ∈ s.live ↔ i ∈ used := by
  rw [h.live, List.mem_map]
  constructor
  · rintro ⟨j, hj, he⟩
    rwa [← h.placed.blockAt_inj he]
  · exact fun hi => ⟨i, hi, rfl⟩

theorem Owned.freeList_lt (h : Owned w s free used) : s.pool.m_freeList < 2 ^ w := by
  cases free with
  | nil =>
      have hnull : s.pool.m_freeList = 0 := h.chain
      rw [hnull]
      exact Nat.two_pow_pos w
  | cons i free =>
      have hhead : s.pool.m_freeList = s.pool.blockAt i := h.chain.1
      rw [hhead]
      exact h.placed.blockAt_lt (h.lt_of_free List.mem_cons_self)

/-- A write that touches the link of no free block. -/
theorem Owned.store
    (h : Owned w s free used) {a : Nat} {bytes : List UInt8}
    (hapart : ∀ i ∈ free, Apart a bytes.length (s.pool.blockAt i) (sizeofPtr w)) :
    Owned w { s with mem := storeBytes s.mem a bytes } free used where
  placed := h.placed
  live := h.live
  parts := h.parts
  chain := h.chain.congr fun i hi => loadWord_storeBytes_apart (hapart i hi)
  count := h.count

/-- An owner may write what it likes to its block. -/
theorem Owned.sameOutside
    (h : Owned w s free used) (hi : i ∈ used) {mem : Bytes}
    (hsame : SameOutside (s.pool.blockAt i) s.pool.m_elemSize s.mem mem) :
    Owned w { s with mem := mem } free used where
  placed := h.placed
  live := h.live
  parts := h.parts
  chain := by
    refine h.chain.congr fun j hj => ?_
    have hij : i ≠ j := fun he => h.not_free hi (he ▸ hj)
    exact congrArg ByteBlock.leNat (hsame.loadBytes_eq (h.placed.apart_link hij))
  count := h.count

theorem Owned.store_used
    (h : Owned w s free used) (hi : i ∈ used) {off : Nat} {bytes : List UInt8}
    (hlen : off + bytes.length ≤ s.pool.m_elemSize) :
    Owned w { s with mem := storeBytes s.mem (s.pool.blockAt i + off) bytes } free used :=
  h.sameOutside hi ((SameOutside.refl _ _ s.mem).store (Nat.le_add_right _ off) (by omega))

/-- Nothing is taken from an empty free list. -/
theorem Owned.allocRaw_nil (h : Owned w s [] used) :
    s.pool.allocRaw w s.mem = (0, s.pool) := by
  have hnull : s.pool.m_freeList = 0 := h.chain
  rw [FixedMemoryPool.allocRaw]
  rw [if_pos hnull]

/-- A pool without its first free block. -/
def State.taken (w : Nat) (s : State) (i : Nat) (rest : List Nat) : FixedMemoryPool :=
  { s.pool with
    m_freeList := s.link w i
    m_freeCount := rest.length }

/-- The first free block is taken. -/
theorem Owned.allocRaw_cons (h : Owned w s (i :: free) used) :
    s.pool.allocRaw w s.mem = (s.pool.blockAt i, s.taken w i free) := by
  have hhead : s.pool.m_freeList = s.pool.blockAt i := h.chain.1
  have hne := h.placed.blockAt_ne i
  have hcap := h.placed.capacity_lt
  have hlen := h.length
  have hcount : (s.pool.m_freeCount + (2 ^ w - 1)) % 2 ^ w = free.length := by
    rw [h.count, List.length_cons] at *
    have hsum : free.length + 1 + (2 ^ w - 1) = free.length + 2 ^ w := by omega
    rw [hsum, Nat.add_mod_right, Nat.mod_eq_of_lt (by omega)]
  rw [FixedMemoryPool.allocRaw, State.taken, State.link]
  rw [hhead, if_neg hne, hcount]

/-- The block that was taken belongs to its new owner. -/
theorem Owned.taken (h : Owned w s (i :: free) used) :
    Owned w { pool := s.taken w i free, mem := s.mem, live := s.pool.blockAt i :: s.live }
      free (i :: used) where
  placed := { h.placed with }
  live := by
    rw [h.live]
    rfl
  parts := List.perm_middle.trans h.parts
  chain := h.chain.2
  count := rfl

/-- A block is put back in front of the free list. -/
theorem Owned.freeRaw (h : Owned w s free used) (hi : i ∈ used) :
    Owned w
      { pool := (s.pool.freeRaw w s.mem (s.pool.blockAt i)).1
        mem := (s.pool.freeRaw w s.mem (s.pool.blockAt i)).2
        live := s.live.erase (s.pool.blockAt i) }
      (i :: free) (used.erase i) := by
  have hne := h.placed.blockAt_ne i
  have hlen := h.length
  have hcap := h.placed.capacity_lt
  have hpos := List.length_pos_of_mem hi
  have hcount : (s.pool.m_freeCount + 1) % 2 ^ w = free.length + 1 := by
    rw [h.count, Nat.mod_eq_of_lt (by omega)]
  have hself :
      loadWord (sizeofPtr w)
        (storeWord (sizeofPtr w) s.mem (s.pool.blockAt i) s.pool.m_freeList)
        (s.pool.blockAt i) = s.pool.m_freeList :=
    loadWord_storeWord_self (by rw [h.placed.word]; exact h.freeList_lt)
  have hmoved : (free ++ used).Perm (i :: (free ++ used.erase i)) :=
    (List.Perm.append_left free (List.perm_cons_erase hi)).trans List.perm_middle
  rw [FixedMemoryPool.freeRaw]
  rw [if_neg hne, hcount]
  refine ⟨{ h.placed with }, ?_, hmoved.symm.trans h.parts, ⟨rfl, ?_⟩, rfl⟩
  · rw [h.live]
    exact (List.map_erase (fun _ _ he => h.placed.blockAt_inj he) used).symm
  · have hrest :
        Chain h.placed.pointers
          (fun j =>
            loadWord (sizeofPtr w)
              (storeWord (sizeofPtr w) s.mem (s.pool.blockAt i) s.pool.m_freeList)
              (s.pool.blockAt j))
          s.pool.m_freeList free := by
      refine h.chain.congr fun j hj => loadWord_storeWord_apart ?_
      have hij : i ≠ j := fun he => h.not_free hi (he ▸ hj)
      exact (h.placed.apart_link hij).mono (Nat.le_refl _)
        (Nat.add_le_add_left h.placed.elem_ge _) (Nat.le_refl _) (Nat.le_refl _)
    change
      Chain _ _
        (loadWord (sizeofPtr w)
          (storeWord (sizeofPtr w) s.mem (s.pool.blockAt i) s.pool.m_freeList)
          (s.pool.blockAt i)) free
    rw [hself]
    exact hrest

end Owned

section Steps

variable {w : Nat} {s : State} {free used : List Nat}

/-- What `AllocRaw` does, whether or not there is a free block. -/
theorem Owned.allocRaw (h : Owned w s free used) :
    (free = [] ∧ s.pool.allocRaw w s.mem = (0, s.pool)) ∨
      ∃ i rest,
        free = i :: rest ∧
          s.pool.allocRaw w s.mem = (s.pool.blockAt i, s.taken w i rest) := by
  cases free with
  | nil => exact .inl ⟨rfl, h.allocRaw_nil⟩
  | cons i rest => exact .inr ⟨i, rest, rfl, h.allocRaw_cons⟩

theorem Owned.next_create (h : Owned w s free used) :
    ∃ free' used', Owned w (next w s .create) free' used' := by
  simp only [next, FixedMemoryPool.create]
  rcases h.allocRaw with ⟨-, hraw⟩ | ⟨i, rest, rfl, hraw⟩
  · refine ⟨free, used, ?_⟩
    rw [hraw]
    exact h
  · refine ⟨rest, i :: used, ?_⟩
    simp only [hraw, handedOut, if_neg (h.placed.blockAt_ne i)]
    exact h.taken

theorem Owned.next_createT (h : Owned w s free used) (obj : List UInt8) :
    ∃ free' used', Owned w (next w s (.createT obj)) free' used' := by
  simp only [next, FixedMemoryPool.createT]
  split_ifs with hsize hnull
  · exact ⟨free, used, h⟩
  · rcases h.allocRaw with ⟨-, hraw⟩ | ⟨i, rest, -, hraw⟩
    · refine ⟨free, used, ?_⟩
      rw [hraw]
      exact h
    · rw [hraw] at hnull
      exact absurd hnull (h.placed.blockAt_ne i)
  · rcases h.allocRaw with ⟨-, hraw⟩ | ⟨i, rest, rfl, hraw⟩
    · rw [hraw] at hnull
      exact absurd rfl hnull
    · refine ⟨rest, i :: used, ?_⟩
      simp only [hraw, handedOut, if_neg (h.placed.blockAt_ne i)]
      -- the constructor of the object writes to the block that was just taken
      have hlen : 0 + obj.length ≤ s.pool.m_elemSize := by
        rw [Nat.zero_add]
        exact Nat.le_of_not_lt hsize
      exact h.taken.store_used List.mem_cons_self hlen

/-- `Free(NULL)` does nothing. -/
theorem Owned.erase_null (h : Owned w s free used) : s.live.erase 0 = s.live := by
  refine List.erase_of_not_mem fun hmem => ?_
  rw [h.live] at hmem
  obtain ⟨i, -, hi⟩ := List.mem_map.mp hmem
  exact h.placed.blockAt_ne i hi

theorem Owned.next_free
    (h : Owned w s free used) {ptr : Nat} (hptr : ptr = 0 ∨ ptr ∈ s.live) :
    ∃ free' used', Owned w (next w s (.free ptr)) free' used' := by
  simp only [next, FixedMemoryPool.free]
  split_ifs with hnull
  · subst hnull
    rw [h.erase_null]
    exact ⟨free, used, h⟩
  · have hlive := hptr.resolve_left hnull
    rw [h.live] at hlive
    obtain ⟨i, hi, rfl⟩ := List.mem_map.mp hlive
    exact ⟨_, _, h.freeRaw hi⟩

theorem Owned.next_freeT
    (h : Owned w s free used) {ptr : Nat} {rest : List UInt8}
    (hptr : ptr = 0 ∨ ptr ∈ s.live) (hlen : rest.length ≤ s.pool.m_elemSize) :
    ∃ free' used', Owned w (next w s (.freeT ptr rest)) free' used' := by
  simp only [next, FixedMemoryPool.freeT]
  split_ifs with hnull
  · subst hnull
    rw [h.erase_null]
    exact ⟨free, used, h⟩
  · have hlive := hptr.resolve_left hnull
    rw [h.live] at hlive
    obtain ⟨i, hi, rfl⟩ := List.mem_map.mp hlive
    -- the destructor writes to the block before it is put back
    have hdestroyed := h.store_used hi (show 0 + rest.length ≤ s.pool.m_elemSize by omega)
    exact ⟨_, _, hdestroyed.freeRaw hi⟩

theorem Owned.next_overwrite
    (h : Owned w s free used) {ptr off : Nat} {bytes : List UInt8}
    (hptr : ptr ∈ s.live) (hlen : off + bytes.length ≤ s.pool.m_elemSize) :
    Owned w (next w s (.overwrite ptr off bytes)) free used := by
  rw [h.live] at hptr
  obtain ⟨i, hi, rfl⟩ := List.mem_map.mp hptr
  exact h.store_used hi hlen

theorem Owned.next_elsewhere
    (h : Owned w s free used) {addr : Nat} {bytes : List UInt8}
    (hapart : Apart addr bytes.length s.pool.m_pool (s.pool.m_elemSize * s.pool.m_capacity)) :
    Owned w (next w s (.elsewhere addr bytes)) free used := by
  refine h.store fun i hi => ?_
  have hend := blockAt_end (h.lt_of_free hi)
  have hge := h.placed.elem_ge
  exact hapart.mono (Nat.le_refl _) (Nat.le_refl _) (Nat.le_add_right _ _) (by omega)

/-- Every step keeps the blocks apart into free ones and ones that are handed out. -/
theorem Owned.step
    (h : Owned w s free used) {a : Action} (ha : Allowed s a) :
    ∃ free' used', Owned w (next w s a) free' used' := by
  cases a with
  | create => exact h.next_create
  | createT obj => exact h.next_createT obj
  | free ptr => exact h.next_free ha
  | freeT ptr rest => exact h.next_freeT ha.1 ha.2
  | overwrite ptr off bytes => exact ⟨free, used, h.next_overwrite ha.1 ha.2⟩
  | elsewhere addr bytes => exact ⟨free, used, h.next_elsewhere ha⟩

end Steps

section Init

variable {w elemSize capacity malloc : Nat}

/-- A size rounded up to a multiple of the alignment. -/
def roundUp (align size : Nat) : Nat :=
  (size + (align - 1)) / align * align

/-- What `malloc(size)` returns when there is memory. -/
structure Malloced (w malloc size : Nat) : Prop where
  ne : malloc ≠ 0
  aligned : malloc % sizeofPtr w = 0
  inside : malloc + size ≤ 2 ^ w

/-- Words of 32 and of 64 bits are 4 and 8 bytes. -/
theorem word_of_build (hw : w = 32 ∨ w = 64) :
    256 ^ sizeofPtr w = 2 ^ w ∧ 0 < sizeofPtr w ∧ 2 ^ w % sizeofPtr w = 0 := by
  rcases hw with rfl | rfl <;> decide

/-- Where the rounding does not reach the end of the memory, `AlignUp` is the rounding. -/
theorem elementSize_eq
    (hw : w = 32 ∨ w = 64)
    (h : roundUp (sizeofPtr w) (max (sizeofPtr w) elemSize) < 2 ^ w) :
    elementSize w elemSize = roundUp (sizeofPtr w) (max (sizeofPtr w) elemSize) := by
  obtain ⟨-, hpos, hdvd⟩ := word_of_build hw
  have hlt : max (sizeofPtr w) elemSize + (sizeofPtr w - 1) < 2 ^ w := by
    by_contra hge
    have hmono :
        2 ^ w / sizeofPtr w * sizeofPtr w ≤
          roundUp (sizeofPtr w) (max (sizeofPtr w) elemSize) :=
      Nat.mul_le_mul_right _ (Nat.div_le_div_right (Nat.le_of_not_lt hge))
    rw [Nat.div_mul_cancel (Nat.dvd_of_mod_eq_zero hdvd)] at hmono
    omega
  rw [elementSize, alignUp, roundUp]
  rw [Nat.mod_eq_of_lt hlt]

/-- The rounding loses nothing. -/
theorem le_roundUp {align : Nat} (hpos : 0 < align) (size : Nat) : size ≤ roundUp align size := by
  have hdiv := Nat.div_add_mod (size + (align - 1)) align
  have hmod := Nat.mod_lt (size + (align - 1)) hpos
  rw [Nat.mul_comm] at hdiv
  rw [roundUp]
  omega

/-- The fields of a pool for which there was memory. -/
theorem pool_init (hne : malloc ≠ 0) (mem : Bytes) :
    (init w elemSize capacity malloc mem).pool =
      { m_pool := malloc
        m_freeList := malloc
        m_elemSize := elementSize w elemSize
        m_capacity := capacity
        m_freeCount := capacity } := by
  rw [init, construct]
  rw [if_neg hne]

/-- A pool whose sizes do not wrap around lies in what `malloc` gave. -/
theorem placed_init
    (hw : w = 32 ∨ w = 64) (hcap : 0 < capacity)
    (hfits : roundUp (sizeofPtr w) (max (sizeofPtr w) elemSize) * capacity < 2 ^ w)
    (hmalloc : Malloced w malloc (mallocSize w elemSize capacity)) (mem : Bytes) :
    Placed w (init w elemSize capacity malloc mem).pool := by
  obtain ⟨hword, hpos, -⟩ := word_of_build hw
  have hround := Nat.lt_of_le_of_lt (Nat.le_mul_of_pos_right _ hcap) hfits
  have hsize := elementSize_eq hw hround
  have hin := hmalloc.inside
  rw [mallocSize] at hin
  rw [hsize, Nat.mod_eq_of_lt hfits] at hin
  have hge := le_roundUp hpos (max (sizeofPtr w) elemSize)
  rw [pool_init hmalloc.ne]
  refine ⟨hword, hpos, hmalloc.ne, hmalloc.aligned, ?_, ?_, hcap, ?_⟩
  · exact Nat.mul_mod_left _ _
  · show sizeofPtr w ≤ elementSize w elemSize
    omega
  · show malloc + elementSize w elemSize * capacity ≤ 2 ^ w
    rw [hsize]
    exact hin

/-- The links that the constructor leaves. -/
theorem link_init
    (hw : w = 32 ∨ w = 64) (hcap : 0 < capacity)
    (hfits : roundUp (sizeofPtr w) (max (sizeofPtr w) elemSize) * capacity < 2 ^ w)
    (hmalloc : Malloced w malloc (mallocSize w elemSize capacity)) (mem : Bytes)
    {i : Nat} (hi : i < capacity) :
    (init w elemSize capacity malloc mem).link w i =
      if i + 1 < capacity then (init w elemSize capacity malloc mem).pool.blockAt (i + 1)
      else 0 := by
  have hplaced := placed_init hw hcap hfits hmalloc mem
  obtain ⟨m, rfl⟩ : ∃ m, capacity = m + 1 := ⟨capacity - 1, by omega⟩
  rw [pool_init hmalloc.ne] at hplaced ⊢
  have hge : sizeofPtr w ≤ elementSize w elemSize := hplaced.elem_ge
  have hin : m < m + 1 → malloc + m * elementSize w elemSize < 2 ^ w := hplaced.blockAt_lt
  rw [State.link, FixedMemoryPool.blockAt]
  rw [pool_init hmalloc.ne]
  rw [init, construct]
  simp only [if_neg hmalloc.ne, Nat.add_sub_cancel]
  obtain ⟨hlast, hlinks⟩ :=
    linkNodes_spec mem hplaced.word hge (hin (Nat.lt_succ_self m))
  rw [hlast]
  rcases Nat.lt_or_eq_of_le (Nat.le_of_lt_succ hi) with hlt | rfl
  · rw [if_pos (by omega)]
    have hapart := apart_blocks malloc (elementSize w elemSize) (Nat.ne_of_gt hlt)
    rw [loadWord_storeWord_apart
      (hapart.mono (Nat.le_refl _) (by omega) (Nat.le_refl _) (by omega))]
    exact hlinks i hlt
  · rw [if_neg (by omega), loadWord_storeWord_self (Nat.pow_pos (by omega))]

/-- In a new pool all blocks are free, in their order. -/
theorem owned_init
    (hw : w = 32 ∨ w = 64) (hcap : 0 < capacity)
    (hfits : roundUp (sizeofPtr w) (max (sizeofPtr w) elemSize) * capacity < 2 ^ w)
    (hmalloc : Malloced w malloc (mallocSize w elemSize capacity)) (mem : Bytes) :
    Owned w (init w elemSize capacity malloc mem) (List.range capacity) [] := by
  have hplaced := placed_init hw hcap hfits hmalloc mem
  obtain ⟨m, rfl⟩ : ∃ m, capacity = m + 1 := ⟨capacity - 1, by omega⟩
  have hpool : (init w elemSize (m + 1) malloc mem).pool = _ := pool_init hmalloc.ne mem
  have hlink :
      ∀ i < m + 1,
        (init w elemSize (m + 1) malloc mem).link w (id i) =
          if i + 1 < m + 1 then hplaced.pointers.ptr (id (i + 1)) else hplaced.pointers.null :=
    fun i hi => link_init hw hcap hfits hmalloc mem hi
  have hchain := chain_range hlink m 0 (by omega)
  refine ⟨hplaced, rfl, ?_, ?_, ?_⟩
  · rw [List.append_nil, hpool]
  · have hhead :
        (init w elemSize (m + 1) malloc mem).pool.m_freeList =
          (init w elemSize (m + 1) malloc mem).pool.blockAt 0 := by
      rw [FixedMemoryPool.blockAt]
      rw [hpool]
      simp
    rw [hhead, List.range_eq_range']
    rw [List.map_id] at hchain
    exact hchain
  · rw [hpool]
    simp

end Init

section Blocks

variable {w : Nat}

/-- Two pools that are cut into the same blocks. -/
structure SameBlocks (p q : FixedMemoryPool) : Prop where
  pool : p.m_pool = q.m_pool
  elemSize : p.m_elemSize = q.m_elemSize
  capacity : p.m_capacity = q.m_capacity

theorem SameBlocks.refl (p : FixedMemoryPool) : SameBlocks p p :=
  ⟨rfl, rfl, rfl⟩

theorem SameBlocks.trans {p q r : FixedMemoryPool} (h : SameBlocks p q) (h' : SameBlocks q r) :
    SameBlocks p r :=
  ⟨h.pool.trans h'.pool, h.elemSize.trans h'.elemSize, h.capacity.trans h'.capacity⟩

theorem sameBlocks_allocRaw (pool : FixedMemoryPool) (mem : Bytes) :
    SameBlocks (pool.allocRaw w mem).2 pool := by
  rw [FixedMemoryPool.allocRaw]
  split_ifs <;> exact ⟨rfl, rfl, rfl⟩

theorem sameBlocks_freeRaw (pool : FixedMemoryPool) (mem : Bytes) (ptr : Nat) :
    SameBlocks (pool.freeRaw w mem ptr).1 pool := by
  rw [FixedMemoryPool.freeRaw]
  split_ifs <;> exact ⟨rfl, rfl, rfl⟩

/-- No step cuts the pool anew. -/
theorem sameBlocks_next (s : State) (a : Action) : SameBlocks (next w s a).pool s.pool := by
  cases a with
  | create => exact sameBlocks_allocRaw s.pool s.mem
  | createT obj =>
      simp only [next, FixedMemoryPool.createT]
      split_ifs
      · exact SameBlocks.refl s.pool
      · exact sameBlocks_allocRaw s.pool s.mem
      · exact sameBlocks_allocRaw s.pool s.mem
  | free ptr =>
      simp only [next, FixedMemoryPool.free]
      split_ifs
      · exact SameBlocks.refl s.pool
      · exact sameBlocks_freeRaw s.pool s.mem ptr
  | freeT ptr rest =>
      simp only [next, FixedMemoryPool.freeT]
      split_ifs
      · exact SameBlocks.refl s.pool
      · exact sameBlocks_freeRaw s.pool (storeBytes s.mem ptr rest) ptr
  | overwrite ptr off bytes => exact SameBlocks.refl s.pool
  | elsewhere addr bytes => exact SameBlocks.refl s.pool

end Blocks

section Sound

variable {w elemSize capacity malloc : Nat} {s : State} {free used : List Nat}

/--
What a pool of `capacity` blocks of `elemSize` bytes, cut from what `malloc`
returned, keeps true of the blocks that are handed out and of the free list.
-/
structure Sound (w elemSize capacity malloc : Nat) (s : State) : Prop where
  placed : Placed w s.pool
  size : elemSize ≤ s.pool.m_elemSize
  apart : s.live.Pairwise fun a b => Apart a s.pool.m_elemSize b s.pool.m_elemSize
  aligned : ∀ a ∈ s.live, a % sizeofPtr w = 0
  inside :
    ∀ a ∈ s.live,
      malloc ≤ a ∧ a + s.pool.m_elemSize ≤ malloc + mallocSize w elemSize capacity
  freeList :
    ∃ free : List Nat,
      Chain placed.pointers (s.link w) s.pool.m_freeList free ∧
        free.Nodup ∧
          (∀ i, i ∈ free ↔ i < capacity ∧ s.pool.blockAt i ∉ s.live) ∧
            s.pool.getFreeCount = free.length
  liveBlocks : ∀ a ∈ s.live, ∃ i < capacity, a = s.pool.blockAt i
  counts : s.pool.getFreeCount + s.pool.getUsedCount w = capacity
  create_null : (s.pool.create w s.mem).1 = 0 ↔ s.live.length = capacity
  createT_null :
    ∀ obj : List UInt8,
      (s.pool.createT w s.mem obj).1 = 0 ↔
        s.live.length = capacity ∨ s.pool.m_elemSize < obj.length
  createT_refused :
    ∀ obj : List UInt8,
      (s.pool.createT w s.mem obj).1 = 0 → (s.pool.createT w s.mem obj).2 = (s.pool, s.mem)

/-- The places that are not in the free list are those of the blocks that are handed out. -/
theorem Owned.mem_free (h : Owned w s free used) (i : Nat) :
    i ∈ free ↔ i < s.pool.m_capacity ∧ s.pool.blockAt i ∉ s.live := by
  rw [h.blockAt_mem_live]
  constructor
  · exact fun hi => ⟨h.lt_of_free hi, fun hused => h.not_free hused hi⟩
  · rintro ⟨hlt, hused⟩
    have hmem := h.parts.symm.subset (List.mem_range.mpr hlt)
    exact (List.mem_append.mp hmem).resolve_right hused

theorem Owned.getUsedCount (h : Owned w s free used) :
    s.pool.getUsedCount w = used.length := by
  have hlen := h.length
  have hcap := h.placed.capacity_lt
  have hsum :
      s.pool.m_capacity + (2 ^ w - s.pool.m_freeCount) = used.length + 2 ^ w := by
    rw [h.count]
    omega
  rw [FixedMemoryPool.getUsedCount]
  rw [hsum, Nat.add_mod_right, Nat.mod_eq_of_lt (by omega)]

/-- `AllocRaw` returns `NULL` if and only if all blocks are handed out. -/
theorem Owned.allocRaw_null (h : Owned w s free used) :
    (s.pool.allocRaw w s.mem).1 = 0 ↔ s.live.length = s.pool.m_capacity := by
  have hlen := h.length
  rw [h.live, List.length_map]
  rcases h.allocRaw with ⟨rfl, hraw⟩ | ⟨i, rest, rfl, hraw⟩
  · rw [hraw]
    simp only [List.length_nil] at hlen
    exact ⟨fun _ => by omega, fun _ => rfl⟩
  · rw [hraw]
    simp only [List.length_cons] at hlen
    exact ⟨fun hnull => absurd hnull (h.placed.blockAt_ne i), fun _ => by omega⟩

theorem Owned.createT_null (h : Owned w s free used) (obj : List UInt8) :
    (s.pool.createT w s.mem obj).1 = 0 ↔
      s.live.length = s.pool.m_capacity ∨ s.pool.m_elemSize < obj.length := by
  rw [← h.allocRaw_null]
  rw [FixedMemoryPool.createT]
  split_ifs with hsize
  · exact ⟨fun _ => .inr hsize, fun _ => rfl⟩
  · constructor
    · intro hnull
      left
      by_contra hne
      simp only [if_neg hne] at hnull
      exact hne hnull
    · intro hnull
      simp only [if_pos (hnull.resolve_right hsize)]

/-- A `Create<T>` that returns `NULL` changes neither the pool nor the memory. -/
theorem Owned.createT_refused (h : Owned w s free used) (obj : List UInt8)
    (hnull : (s.pool.createT w s.mem obj).1 = 0) :
    (s.pool.createT w s.mem obj).2 = (s.pool, s.mem) := by
  rw [FixedMemoryPool.createT] at hnull ⊢
  split_ifs at hnull ⊢ with hsize
  · rfl
  · rcases h.allocRaw with ⟨-, hraw⟩ | ⟨i, rest, -, hraw⟩
    · rw [hraw]
      rfl
    · have hne := h.placed.blockAt_ne i
      rw [hraw] at hnull
      simp only [if_neg hne] at hnull
      exact absurd hnull hne

/-- The blocks of a pool whose places are `used` keep apart, are aligned and lie inside. -/
theorem Owned.sound
    {mem : Bytes} (h : Owned w s free used)
    (hblocks : SameBlocks s.pool (init w elemSize capacity malloc mem).pool)
    (hw : w = 32 ∨ w = 64) (hcap : 0 < capacity)
    (hfits : roundUp (sizeofPtr w) (max (sizeofPtr w) elemSize) * capacity < 2 ^ w)
    (hmalloc : Malloced w malloc (mallocSize w elemSize capacity)) :
    Sound w elemSize capacity malloc s := by
  rw [pool_init hmalloc.ne] at hblocks
  obtain ⟨hpool, helem, hcapacity⟩ := hblocks
  simp only at hpool helem hcapacity
  obtain ⟨-, hpos, -⟩ := word_of_build hw
  have hround := Nat.lt_of_le_of_lt (Nat.le_mul_of_pos_right _ hcap) hfits
  have hsize := elementSize_eq hw hround
  have hge := le_roundUp hpos (max (sizeofPtr w) elemSize)
  have hasked : mallocSize w elemSize capacity = s.pool.m_elemSize * s.pool.m_capacity := by
    rw [mallocSize]
    rw [hsize, Nat.mod_eq_of_lt hfits, helem, hcapacity, hsize]
  have hmem : ∀ a ∈ s.live, ∃ i < s.pool.m_capacity, a = s.pool.blockAt i := by
    intro a ha
    rw [h.live] at ha
    obtain ⟨i, hi, rfl⟩ := List.mem_map.mp ha
    exact ⟨i, h.lt_of_used hi, rfl⟩
  refine
    { placed := h.placed
      size := ?_
      apart := ?_
      aligned := ?_
      inside := ?_
      freeList := ?_
      liveBlocks := ?_
      counts := ?_
      create_null := ?_
      createT_null := ?_
      createT_refused := h.createT_refused }
  · rw [helem, hsize]
    exact Nat.le_trans (Nat.le_max_right _ _) hge
  · rw [h.live, List.pairwise_map]
    have hused := (List.nodup_append.mp h.nodup).2.1
    exact hused.imp fun hij => apart_blockAt s.pool hij
  · intro a ha
    obtain ⟨i, -, rfl⟩ := hmem a ha
    exact h.placed.blockAt_aligned i
  · intro a ha
    obtain ⟨i, hi, rfl⟩ := hmem a ha
    rw [hasked, ← hpool]
    exact ⟨Nat.le_add_right _ _, blockAt_end hi⟩
  · refine ⟨free, h.chain, (List.nodup_append.mp h.nodup).1, ?_, h.count⟩
    rw [← hcapacity]
    exact h.mem_free
  · rwa [← hcapacity]
  · rw [h.getUsedCount, ← hcapacity, ← h.length]
    exact congrArg (· + used.length) h.count
  · rw [← hcapacity]
    exact h.allocRaw_null
  · rw [← hcapacity]
    exact h.createT_null

/--
In every run of a pool, with any order of `Create`, `Free` and writes of the
owners, the blocks that are handed out keep apart and inside, the free list has
exactly the others, and `Create` returns `NULL` if and only if there are none.
`Create<T>` does so also for a `T` that is larger than a block, and changes
nothing then.
-/
theorem fixedMemoryPool_sound
    (hw : w = 32 ∨ w = 64) (_ : 0 < elemSize) (hcap : 0 < capacity)
    (hfits : roundUp (sizeofPtr w) (max (sizeofPtr w) elemSize) * capacity < 2 ^ w)
    (hmalloc : Malloced w malloc (mallocSize w elemSize capacity)) (mem : Bytes)
    (hrun : Reach (step w) Allowed (init w elemSize capacity malloc mem) s) :
    Sound w elemSize capacity malloc s := by
  have hinv :
      (∃ free used, Owned w s free used) ∧
        SameBlocks s.pool (init w elemSize capacity malloc mem).pool := by
    refine hrun.invariant
      (I := fun s =>
        (∃ free used, Owned w s free used) ∧
          SameBlocks s.pool (init w elemSize capacity malloc mem).pool)
      ⟨⟨_, _, owned_init hw hcap hfits hmalloc mem⟩, SameBlocks.refl _⟩ ?_
    rintro s s' a ⟨⟨free, used, h⟩, hsame⟩ ha hs
    obtain rfl := Option.some.inj hs
    exact ⟨h.step ha, (sameBlocks_next s a).trans hsame⟩
  obtain ⟨⟨free, used, h⟩, hsame⟩ := hinv
  exact h.sound hsame hw hcap hfits hmalloc

/-- A run that hands out a block, overwrites it, frees it and hands it out again. -/
theorem fixedMemoryPool_sound_example :
    ∃ s, Sound 64 5 2 4096 s ∧ (s.live == [4096, 4104]) = true := by
  have hfits : roundUp (sizeofPtr 64) (max (sizeofPtr 64) 5) * 2 < 2 ^ 64 := by decide
  have hmalloc : Malloced 64 4096 (mallocSize 64 5 2) := ⟨by decide, by decide, by decide⟩
  have hrun :
      (runAll (step 64) Allowed (init 64 5 2 4096 fun _ => 0)
        [.create, .overwrite 4096 0 (List.replicate 8 255), .create, .free 4096, .create]).any
        (fun s => s.live == [4096, 4104]) = true := by
    decide
  obtain ⟨s, hreach, hlive⟩ := exists_reach_of_runAll hrun
  exact
    ⟨s, fixedMemoryPool_sound (.inr rfl) (by decide) (by decide) hfits hmalloc _ hreach, hlive⟩

/-- `Create<T>` returns `NULL` for a `T` that is larger than a block of an unused pool. -/
theorem createT_null_free_block :
    ∃ s, Reach (step 64) Allowed (init 64 8 1 4096 fun _ => 0) s ∧
      ¬ ((s.pool.createT 64 s.mem (List.replicate 16 0)).1 = 0 ↔ s.live.length = 1) :=
  ⟨_, .start, by decide⟩

end Sound

section Refinement

variable {w : Nat} {s : State} {pool : Baselib.FixedMemoryPool} {mem : Memory}
variable {free used : List Nat} {i : Nat}

/--
A pool whose blocks are known by their places, as the queues use it, and the
same pool on a memory of bytes: they have the same free list.
-/
structure Refines (w : Nat) (s : State) (pool : Baselib.FixedMemoryPool) (mem : Memory)
    (free used : List Nat) : Prop where
  owned : Owned w s free used
  elemSize : pool.m_elemSize = s.pool.m_elemSize
  capacity : pool.m_capacity = s.pool.m_capacity
  freeCount : pool.m_freeCount = s.pool.m_freeCount
  chain : pool.Free mem (free.map (BlockID.mk pool.id))

theorem refines_make
    {elemSize capacity malloc : Nat} (hw : w = 32 ∨ w = 64) (hcap : 0 < capacity)
    (hfits : roundUp (sizeofPtr w) (max (sizeofPtr w) elemSize) * capacity < 2 ^ w)
    (hmalloc : Malloced w malloc (mallocSize w elemSize capacity))
    (bytes : Bytes) (id payloadSize : Nat) (mem : Memory) :
    Refines w (init w elemSize capacity malloc bytes)
      (Baselib.FixedMemoryPool.make w id elemSize capacity true)
      ((Baselib.FixedMemoryPool.make w id elemSize capacity true).link payloadSize mem)
      (List.range capacity) [] := by
  have hpool :
      (init w elemSize capacity malloc bytes).pool = _ := pool_init hmalloc.ne bytes
  refine ⟨owned_init hw hcap hfits hmalloc bytes, ?_, ?_, ?_, ?_⟩
  · rw [hpool]
    rfl
  · rw [hpool]
    rfl
  · rw [hpool]
    rfl
  · exact Baselib.FixedMemoryPool.free_make w id elemSize payloadSize hcap mem

theorem Refines.not_free (h : Refines w s pool mem free used) (hi : i ∈ used) :
    (⟨pool.id, i⟩ : BlockID) ∉ free.map (BlockID.mk pool.id) := by
  intro hmem
  obtain ⟨j, hj, he⟩ := List.mem_map.mp hmem
  obtain rfl : j = i := congrArg BlockID.index he
  exact h.owned.not_free hi hj

/-- Both pools hand out the same block, or neither has one. -/
theorem Refines.allocRaw (h : Refines w s pool mem free used) :
    ((s.pool.create w s.mem).1 = 0 ∧ pool.allocRaw mem = some (pool, none)) ∨
      ∃ i rest,
        (s.pool.create w s.mem).1 = s.pool.blockAt i ∧
          pool.allocRaw mem = some (pool.taken mem ⟨pool.id, i⟩, some ⟨pool.id, i⟩) ∧
            Refines w (next w s .create) (pool.taken mem ⟨pool.id, i⟩) mem rest (i :: used) := by
  have hchain := h.chain
  rcases h.owned.allocRaw with ⟨rfl, hraw⟩ | ⟨i, rest, rfl, hraw⟩
  · refine .inl ⟨?_, hchain.allocRaw_nil⟩
    rw [FixedMemoryPool.create]
    rw [hraw]
  · obtain ⟨halloc, hrest⟩ := hchain.allocRaw_cons
    have hcount := h.freeCount
    rw [h.owned.count, List.length_cons] at hcount
    refine .inr ⟨i, rest, ?_, halloc, ?_⟩
    · rw [FixedMemoryPool.create]
      rw [hraw]
    · simp only [next, FixedMemoryPool.create, hraw, handedOut,
        if_neg (h.owned.placed.blockAt_ne i)]
      exact
        { owned := h.owned.taken
          elemSize := h.elemSize
          capacity := h.capacity
          freeCount := by
            show pool.m_freeCount - 1 = rest.length
            omega
          chain := hrest }

/-- A block that is freed becomes the first free block of both pools. -/
theorem Refines.freeRaw (h : Refines w s pool mem free used) (hi : i ∈ used) :
    Refines w (next w s (.free (s.pool.blockAt i))) (pool.freeRaw ⟨pool.id, i⟩)
      (pool.freeRawMem mem ⟨pool.id, i⟩) (i :: free) (used.erase i) := by
  have hne := h.owned.placed.blockAt_ne i
  have hfreed := h.owned.freeRaw hi
  have hsame := sameBlocks_freeRaw (w := w) s.pool s.mem (s.pool.blockAt i)
  simp only [next, FixedMemoryPool.free, if_neg hne]
  exact
    { owned := hfreed
      elemSize := h.elemSize.trans hsame.elemSize.symm
      capacity := h.capacity.trans hsame.capacity.symm
      freeCount := by
        have hcount := h.freeCount
        rw [h.owned.count] at hcount
        rw [hfreed.count]
        exact congrArg (· + 1) hcount
      chain := h.chain.freeRaw (h.not_free hi) }

/-- What an owner writes to its block changes neither free list. -/
theorem Refines.write
    (h : Refines w s pool mem free used) (hi : i ∈ used) {off : Nat} {bytes : List UInt8}
    (hlen : off + bytes.length ≤ s.pool.m_elemSize) (x : PacketBlock) :
    Refines w (next w s (.overwrite (s.pool.blockAt i) off bytes)) pool
      (Function.update mem ⟨pool.id, i⟩ x) free used where
  owned := h.owned.store_used hi hlen
  elemSize := h.elemSize
  capacity := h.capacity
  freeCount := h.freeCount
  chain := h.chain.write (h.not_free hi) x

end Refinement

end Addresses
end Baselib
end IocpNetlib
