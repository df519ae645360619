import IocpNetlib.Lib.FreeList
import Mathlib.Data.List.Nodup

/-!
# `FixedMemoryPool`

A pool cuts one allocation into blocks of one size and links the free ones
through their first words.  The memory of all pools is one function; a block is
known by the pool it was cut from and its place in it.
-/

namespace IocpNetlib
namespace Baselib

open FreeList

/-- A block: the pool it belongs to, and its place. -/
structure BlockID where
  pool : Nat
  index : Nat
deriving DecidableEq, Repr

/-- A word of memory: a number, or the address of a block.  `NULL` is the number 0. -/
inductive Word
  | num (n : Nat)
  | ptr (b : BlockID)
deriving DecidableEq, Repr

/--
A block of memory as the queues use it: a header of two words, and bytes.  In
a free block the first word is `FreeNode::next`.
-/
structure PacketBlock where
  writePos : Word
  capacity : Nat
  payload : List UInt8
deriving DecidableEq, Repr

/-- The memory of all pools. -/
abbrev Memory := BlockID → PacketBlock

/-- How blocks are pointed to. -/
def wordPointers : Pointers BlockID Word where
  null := .num 0
  ptr := .ptr
  ptr_ne_null := fun _ => by simp
  ptr_inj := fun _ _ h => by simpa using h

/-- `sizeof(void*)`, with words of `w` bits. -/
def sizeofPtr (w : Nat) : Nat :=
  w / 8

/-- `AlignUp`. -/
def alignUp (w size : Nat) : Nat :=
  (size + (sizeofPtr w - 1)) % 2 ^ w / sizeofPtr w * sizeofPtr w

/-- The fields of a pool, with the number of the pool. -/
structure FixedMemoryPool where
  id : Nat
  m_freeList : Word
  m_elemSize : Nat
  m_capacity : Nat
  m_freeCount : Nat
deriving DecidableEq, Repr

/--
The constructor; `malloc` says whether there is memory.  It asserts that
neither size is zero.
-/
def FixedMemoryPool.make (w id elemSize capacity : Nat) (malloc : Bool) : FixedMemoryPool :=
  { id := id
    m_freeList := if malloc then .ptr ⟨id, 0⟩ else .num 0
    m_elemSize := alignUp w (max (sizeofPtr w) elemSize)
    m_capacity := if malloc then capacity else 0
    m_freeCount := if malloc then capacity else 0 }

/--
The nodes that the constructor writes are in what `malloc` gave: neither the
size of the blocks nor their sum wrapped around.
-/
def FixedMemoryPool.fits (w capacity : Nat) (pool : FixedMemoryPool) : Bool :=
  decide (0 < capacity ∧ sizeofPtr w ≤ pool.m_elemSize ∧ pool.m_elemSize * capacity < 2 ^ w)

/-- `IsValid`: there was memory for the blocks. -/
def FixedMemoryPool.isValid (pool : FixedMemoryPool) : Bool :=
  decide (pool.m_capacity ≠ 0)

/-- The memory of a new pool; the bytes that `malloc` left there have no meaning. -/
def FixedMemoryPool.link (pool : FixedMemoryPool) (payloadSize : Nat) (mem : Memory) : Memory :=
  fun b =>
    if b.pool = pool.id then
      { writePos := if b.index + 1 < pool.m_capacity then .ptr ⟨pool.id, b.index + 1⟩ else .num 0
        capacity := 0
        payload := List.replicate payloadSize 0 }
    else mem b

/-- A pool after its first free block, `b`, was taken. -/
def FixedMemoryPool.taken (pool : FixedMemoryPool) (mem : Memory) (b : BlockID) :
    FixedMemoryPool :=
  { pool with
    m_freeList := (mem b).writePos
    m_freeCount := pool.m_freeCount - 1 }

/-- `AllocRaw`; the result `none` follows a pointer that points nowhere. -/
def FixedMemoryPool.allocRaw (pool : FixedMemoryPool) (mem : Memory) :
    Option (FixedMemoryPool × Option BlockID) :=
  match pool.m_freeList with
  | .num 0 => some (pool, none)
  | .num (_ + 1) => none
  | .ptr b => some (pool.taken mem b, some b)

/-- What `FreeRaw` writes to memory. -/
def FixedMemoryPool.freeRawMem (pool : FixedMemoryPool) (mem : Memory) (b : BlockID) : Memory :=
  Function.update mem b { mem b with writePos := pool.m_freeList }

/-- What `FreeRaw` does to the pool. -/
def FixedMemoryPool.freeRaw (pool : FixedMemoryPool) (b : BlockID) : FixedMemoryPool :=
  { pool with
    m_freeList := .ptr b
    m_freeCount := pool.m_freeCount + 1 }

/-- The free blocks of a pool, in order. -/
def FixedMemoryPool.Free (pool : FixedMemoryPool) (mem : Memory) (free : List BlockID) : Prop :=
  Chain wordPointers (fun b => (mem b).writePos) pool.m_freeList free

/-- The blocks of a pool. -/
def FixedMemoryPool.blocks (pool : FixedMemoryPool) : List BlockID :=
  (List.range pool.m_capacity).map fun i => ⟨pool.id, i⟩

section Pool

variable {pool : FixedMemoryPool} {mem : Memory} {free : List BlockID}

theorem FixedMemoryPool.mem_blocks {b : BlockID} :
    b ∈ pool.blocks ↔ b.pool = pool.id ∧ b.index < pool.m_capacity := by
  rw [blocks]
  rw [List.mem_map]
  constructor
  · rintro ⟨i, hi, rfl⟩
    exact ⟨rfl, List.mem_range.mp hi⟩
  · rintro ⟨hpool, hindex⟩
    exact ⟨b.index, List.mem_range.mpr hindex, by rw [← hpool]⟩

theorem FixedMemoryPool.nodup_blocks (pool : FixedMemoryPool) : pool.blocks.Nodup := by
  refine List.Nodup.map ?_ List.nodup_range
  intro i j h
  exact congrArg BlockID.index h

@[simp] theorem FixedMemoryPool.blocks_taken (b : BlockID) :
    (pool.taken mem b).blocks = pool.blocks :=
  rfl

@[simp] theorem FixedMemoryPool.blocks_freeRaw (b : BlockID) :
    (pool.freeRaw b).blocks = pool.blocks :=
  rfl

/-- In a new pool all blocks are free. -/
theorem FixedMemoryPool.free_make
    (w id elemSize payloadSize : Nat) {capacity : Nat} (hpos : 0 < capacity) (mem : Memory) :
    (make w id elemSize capacity true).Free
      ((make w id elemSize capacity true).link payloadSize mem)
      (make w id elemSize capacity true).blocks := by
  obtain ⟨m, rfl⟩ : ∃ m, capacity = m + 1 := ⟨capacity - 1, by omega⟩
  have hlink :
      ∀ i < m + 1,
        ((make w id elemSize (m + 1) true).link payloadSize mem ⟨id, i⟩).writePos =
          if i + 1 < m + 1 then wordPointers.ptr ⟨id, i + 1⟩ else wordPointers.null := by
    intro i _
    simp [link, make, wordPointers]
  have hchain :
      Chain wordPointers
        (fun b => ((make w id elemSize (m + 1) true).link payloadSize mem b).writePos)
        (.ptr ⟨id, 0⟩) ((List.range' 0 (m + 1)).map fun i => ⟨id, i⟩) :=
    chain_range hlink m 0 (by omega)
  rw [Free, blocks]
  rw [List.range_eq_range']
  exact hchain

/-- A write to a block that is not free leaves the free list as it is. -/
theorem FixedMemoryPool.Free.write
    (h : pool.Free mem free) {b : BlockID} (hb : b ∉ free) (x : PacketBlock) :
    pool.Free (Function.update mem b x) free := by
  refine h.congr fun a ha => ?_
  have hne : a ≠ b := fun he => hb (he ▸ ha)
  simp only [Function.update_of_ne hne]

/-- From an empty free list nothing is taken. -/
theorem FixedMemoryPool.Free.allocRaw_nil
    (h : pool.Free mem []) :
    pool.allocRaw mem = some (pool, none) := by
  have hnull : pool.m_freeList = .num 0 := h
  rw [FixedMemoryPool.allocRaw]
  rw [hnull]

/-- The first block of a free list is taken, and the rest stays. -/
theorem FixedMemoryPool.Free.allocRaw_cons
    {b : BlockID} (h : pool.Free mem (b :: free)) :
    pool.allocRaw mem = some (pool.taken mem b, some b) ∧ (pool.taken mem b).Free mem free := by
  obtain ⟨hhead, htail⟩ := h
  have hptr : pool.m_freeList = .ptr b := hhead
  refine ⟨?_, htail⟩
  rw [FixedMemoryPool.allocRaw]
  rw [hptr]

/-- A block that is not free is put back in front of the free list. -/
theorem FixedMemoryPool.Free.freeRaw
    (h : pool.Free mem free) {b : BlockID} (hb : b ∉ free) :
    (pool.freeRaw b).Free (pool.freeRawMem mem b) (b :: free) := by
  refine ⟨rfl, ?_⟩
  have hself : (pool.freeRawMem mem b b).writePos = pool.m_freeList := by
    rw [freeRawMem]
    rw [Function.update_self]
  simp only [hself]
  exact h.write hb _

end Pool

end Baselib
end IocpNetlib
