import IocpNetlib.Baselib.MessageQueue
import IocpNetlib.Lib.Reach

/-!
# The life cycle of the queues

Both queues can be initialized, used, uninitialized and initialized again in any
order, and the packets of a `PackageQueue` outlive each of these calls.
`Uninit` deletes the pool and leaves the blocks in the queue.

A run keeps the list of the blocks that `Pop` or `Front` returned or that were
put back into a free list, each with the pool that the queue had then.
-/

namespace IocpNetlib
namespace Baselib

open FreeList Reachability

/-- A block that is handed out or put back, and the pool of the queue at that time. -/
structure Touch where
  buf : BlockID
  pool : Option FixedMemoryPool
deriving DecidableEq, Repr

/-- The block is one of the pool. -/
def Touch.Owned (t : Touch) : Prop :=
  ∃ pool, t.pool = some pool ∧ t.buf ∈ pool.blocks

instance (t : Touch) : Decidable t.Owned :=
  inferInstanceAs (Decidable (∃ pool ∈ t.pool, t.buf ∈ pool.blocks))

/--
A `PackageQueue` with the packets that were attached by it.  Pools are numbered
in the order in which they are made; `fault` is set when memory outside the
blocks is used.
-/
structure PackageLife where
  queue : PackageQueue
  mem : Memory
  next : Nat
  packets : List BlockID
  readers : List BlockID
  touched : List Touch
  fault : Bool

/-- A queue that was constructed. -/
def PackageLife.start (mem : Memory) : PackageLife :=
  { queue := .new
    mem := mem
    next := 0
    packets := []
    readers := []
    touched := []
    fault := false }

/--
The calls: a packet is pushed that was allocated at any time before, `Pop`
attaches a new `PacketRead` or one of the earlier ones, and a `PacketRead` is
destroyed.
-/
inductive PackageCall
  | init (maxPacketPayload maxPackets : Nat) (createSemaphore newPool malloc : Bool)
  | uninit
  | allocWritePacket
  | push (i : Nat)
  | pop (into : Option Nat)
  | getQueueSize
  | destroy (i : Nat)

/-- What the system says during an `Init` of a queue. -/
def PackageLife.initEnv (s : PackageLife) (createSemaphore newPool malloc : Bool) : InitEnv :=
  { createSemaphore := createSemaphore
    newPool := newPool
    malloc := malloc
    id := s.next }

/-- One call. -/
def PackageLife.step (w : Nat) (s : PackageLife) : PackageCall → Option PackageLife
  | .init maxPacketPayload maxPackets createSemaphore newPool malloc =>
      match s.queue.init w maxPacketPayload maxPackets
          (s.initEnv createSemaphore newPool malloc) s.mem with
      | none => some { s with fault := true }
      | some (q, mem, _) => some { s with queue := q, mem := mem, next := s.next + 1 }
  | .uninit => some { s with queue := s.queue.uninit }
  | .allocWritePacket =>
      match s.queue.allocWritePacket w s.mem with
      | none => some { s with fault := true }
      | some (q, mem, none) => some { s with queue := q, mem := mem }
      | some (q, mem, some buf) =>
          some { s with queue := q, mem := mem, packets := s.packets ++ [buf] }
  | .push i =>
      match s.packets[i]? with
      | none => none
      | some buf => some { s with queue := (s.queue.push (some buf)).1 }
  | .pop into =>
      match s.queue.pop with
      | (q, _, none) => some { s with queue := q }
      | (q, _, some buf) =>
          some
            { s with
              queue := q
              readers :=
                match into with
                | none => s.readers ++ [buf]
                | some i => s.readers.set i buf
              touched := s.touched ++ [⟨buf, s.queue.m_pool⟩] }
  | .getQueueSize => some s
  | .destroy i =>
      match s.readers[i]? with
      | none => none
      | some buf =>
          some
            { s with
              queue := (s.queue.release s.mem buf).1
              mem := (s.queue.release s.mem buf).2
              readers := s.readers.eraseIdx i
              touched :=
                match s.queue.m_pool with
                | none => s.touched
                | some pool => s.touched ++ [⟨buf, some pool⟩] }

/-- What is handed out or put back belongs to the pool of the queue. -/
structure PackageLife.Sound (s : PackageLife) : Prop where
  owned : ∀ t ∈ s.touched, t.Owned
  fault : s.fault = false

/-- The sizes given to `Init` are not zero and do not wrap around. -/
def sizesFit (w maxPacketPayload maxPackets : Nat) : Bool :=
  initFits w maxPacketPayload &&
    (initPool w maxPacketPayload maxPackets ⟨true, true, true, 0⟩).fits w maxPackets

/--
The pool is deleted only when the queue is empty, a new one is made only when
no `PacketRead` holds a block, and only packets of the pool are pushed.
-/
def PackageLife.disciplined (w : Nat) (s : PackageLife) : PackageCall → Prop
  | .init maxPacketPayload maxPackets createSemaphore newPool malloc =>
      s.queue.m_pool = none → createSemaphore = true → newPool = true →
        s.readers = [] ∧ (malloc = true → sizesFit w maxPacketPayload maxPackets = true)
  | .uninit => s.queue.m_queue = []
  | .push i =>
      ∀ buf, s.packets[i]? = some buf → ∃ pool, s.queue.m_pool = some pool ∧ buf ∈ pool.blocks
  | _ => True

instance (w : Nat) (s : PackageLife) (call : PackageCall) : Decidable (s.disciplined w call) :=
  match call with
  | .init maxPacketPayload maxPackets createSemaphore newPool malloc =>
      inferInstanceAs
        (Decidable
          (s.queue.m_pool = none → createSemaphore = true → newPool = true →
            s.readers = [] ∧ (malloc = true → sizesFit w maxPacketPayload maxPackets = true)))
  | .uninit => inferInstanceAs (Decidable (s.queue.m_queue = []))
  | .push i =>
      inferInstanceAs
        (Decidable
          (∀ buf ∈ s.packets[i]?, ∃ pool ∈ s.queue.m_pool, buf ∈ pool.blocks))
  | .allocWritePacket | .pop _ | .getQueueSize | .destroy _ => isTrue trivial

/-- A word points to nothing, or to a block of the pool. -/
def PointsInto (blocks : List BlockID) (word : Word) : Prop :=
  word = .num 0 ∨ ∃ b ∈ blocks, word = .ptr b

/-- What holds of the pool of a queue. -/
structure PackageLife.PoolInv (w : Nat) (pool : FixedMemoryPool) (s : PackageLife) : Prop where
  header : ∀ b ∈ pool.blocks, sizeofHeader w ≤ pool.m_elemSize
  freeList : PointsInto pool.blocks pool.m_freeList
  words : ∀ b ∈ pool.blocks, PointsInto pool.blocks (s.mem b).writePos
  queued : ∀ b ∈ s.queue.m_queue, b ∈ pool.blocks
  readers : ∀ b ∈ s.readers, b ∈ pool.blocks

/-- The invariant of a life. -/
structure PackageLife.Inv (w : Nat) (s : PackageLife) : Prop where
  sound : s.Sound
  empty : s.queue.m_pool = none → s.queue.m_queue = []
  pool : ∀ pool, s.queue.m_pool = some pool → s.PoolInv w pool

/-- Where an empty free list or the first of its blocks is found. -/
theorem FixedMemoryPool.allocRaw_of_pointsInto
    {pool : FixedMemoryPool} {blocks : List BlockID} (h : PointsInto blocks pool.m_freeList)
    (mem : Memory) :
    pool.allocRaw mem = some (pool, none) ∨
      ∃ b ∈ blocks, pool.allocRaw mem = some (pool.taken mem b, some b) := by
  rw [FixedMemoryPool.allocRaw]
  rcases h with hnull | ⟨b, hb, hptr⟩
  · rw [hnull]
    exact Or.inl rfl
  · rw [hptr]
    exact Or.inr ⟨b, hb, rfl⟩

/-- In the memory of a new pool the words point to its blocks. -/
theorem FixedMemoryPool.pointsInto_link
    (pool : FixedMemoryPool) (payloadSize : Nat) (mem : Memory) :
    ∀ b ∈ pool.blocks, PointsInto pool.blocks (pool.link payloadSize mem b).writePos := by
  intro b hb
  obtain ⟨hid, -⟩ := mem_blocks.mp hb
  simp only [link, if_pos hid]
  by_cases hnext : b.index + 1 < pool.m_capacity
  · rw [if_pos hnext]
    exact Or.inr ⟨⟨pool.id, b.index + 1⟩, mem_blocks.mpr ⟨rfl, hnext⟩, rfl⟩
  · rw [if_neg hnext]
    exact Or.inl rfl

/-- A pool that `Init` makes, with blocks or without. -/
theorem initPool_pointsInto
    (w maxPacketPayload maxPackets : Nat) (env : InitEnv)
    (hfits : env.malloc = true → sizesFit w maxPacketPayload maxPackets = true) :
    (env.malloc && !(initPool w maxPacketPayload maxPackets env).fits w maxPackets) = false ∧
      PointsInto (initPool w maxPacketPayload maxPackets env).blocks
        (initPool w maxPacketPayload maxPackets env).m_freeList ∧
      ∀ b ∈ (initPool w maxPacketPayload maxPackets env).blocks,
        sizeofHeader w ≤ (initPool w maxPacketPayload maxPackets env).m_elemSize := by
  cases hmalloc : env.malloc with
  | false =>
      refine ⟨rfl, Or.inl ?_, ?_⟩
      · simp [initPool, FixedMemoryPool.make, hmalloc]
      · intro b hb
        obtain ⟨-, hindex⟩ := FixedMemoryPool.mem_blocks.mp hb
        simp [initPool, FixedMemoryPool.make, hmalloc] at hindex
  | true =>
      have hboth := hfits hmalloc
      simp only [sizesFit, Bool.and_eq_true] at hboth
      obtain ⟨hinit, hpool⟩ := hboth
      have hsame :
          (initPool w maxPacketPayload maxPackets env).fits w maxPackets = true := hpool
      have hpos : 0 < maxPackets := (of_decide_eq_true hsame).1
      refine ⟨by rw [hsame]; rfl, Or.inr ⟨⟨env.id, 0⟩, ?_, ?_⟩, ?_⟩
      · refine FixedMemoryPool.mem_blocks.mpr ⟨rfl, ?_⟩
        simpa [initPool, FixedMemoryPool.make, hmalloc] using hpos
      · simp [initPool, FixedMemoryPool.make, hmalloc]
      · intro b _
        exact (header_le_elemSize hinit maxPackets env).1

/-- What an `Init` does to a queue without a pool. -/
theorem PackageQueue.init_of_none
    {w maxPacketPayload maxPackets : Nat} {env : InitEnv} {q : PackageQueue} {mem : Memory}
    (hpool : q.m_pool = none) :
    (∃ q', q.init w maxPacketPayload maxPackets env mem = some (q', mem, 1) ∧
        q'.m_queue = q.m_queue ∧ q'.m_pool = none) ∨
      env.createSemaphore = true ∧ env.newPool = true ∧
        ((env.malloc && !(initPool w maxPacketPayload maxPackets env).fits w maxPackets) =
            false →
          q.init w maxPacketPayload maxPackets env mem =
            some
              ({ q with
                  m_sem := some 0
                  m_pool := some (initPool w maxPacketPayload maxPackets env) },
                (initPool w maxPacketPayload maxPackets env).link
                  ((initPool w maxPacketPayload maxPackets env).m_elemSize - sizeofHeader w) mem,
                0)) := by
  rw [PackageQueue.init]
  rw [hpool]
  by_cases hsem : env.createSemaphore = false
  · exact Or.inl ⟨_, if_pos hsem, rfl, rfl⟩
  · by_cases hnew : env.newPool = false
    · refine Or.inl ⟨_, (if_neg hsem).trans (if_pos hnew), rfl, rfl⟩
    · refine Or.inr ⟨Bool.of_not_eq_false hsem, Bool.of_not_eq_false hnew, fun hgood => ?_⟩
      simp only [if_neg hsem, if_neg hnew, hgood, Bool.false_eq_true, if_false]

section PackageLife

variable {w : Nat} {s s' : PackageLife}

/-- `Init` makes no pool, or one whose words point to its blocks. -/
theorem PackageLife.Inv.init
    (h : s.Inv w) {maxPacketPayload maxPackets : Nat} {createSemaphore newPool malloc : Bool}
    (hdisc :
      s.disciplined w (.init maxPacketPayload maxPackets createSemaphore newPool malloc))
    (hs : s.step w (.init maxPacketPayload maxPackets createSemaphore newPool malloc) = some s') :
    s'.Inv w := by
  simp only [step] at hs
  cases hpool : s.queue.m_pool with
  | some pool =>
      have hinit :
          s.queue.init w maxPacketPayload maxPackets
            (s.initEnv createSemaphore newPool malloc) s.mem = some (s.queue, s.mem, 0) := by
        rw [PackageQueue.init]
        rw [hpool]
      rw [hinit] at hs
      simp only [Option.some.injEq] at hs
      subst hs
      refine ⟨⟨h.sound.owned, h.sound.fault⟩, h.empty, fun pool hp => ?_⟩
      have hinv := h.pool pool hp
      exact ⟨hinv.header, hinv.freeList, hinv.words, hinv.queued, hinv.readers⟩
  | none =>
      have hempty := h.empty hpool
      have hnone :=
        @PackageQueue.init_of_none w maxPacketPayload maxPackets
          (s.initEnv createSemaphore newPool malloc) s.queue s.mem hpool
      rcases hnone with
        ⟨q', hinit, hqueue, hnone⟩ | ⟨hsem, hnew, hinit⟩
      · rw [hinit] at hs
        simp only [Option.some.injEq] at hs
        subst hs
        refine ⟨⟨h.sound.owned, h.sound.fault⟩, fun _ => hqueue.trans hempty, ?_⟩
        intro pool hp
        rw [hnone] at hp
        exact absurd hp (by simp)
      · obtain ⟨hreaders, hfits⟩ := hdisc hpool hsem hnew
        obtain ⟨hgood, hfree, hheader⟩ :=
          initPool_pointsInto w maxPacketPayload maxPackets
            (s.initEnv createSemaphore newPool malloc) hfits
        rw [hinit hgood] at hs
        simp only [Option.some.injEq] at hs
        subst hs
        refine ⟨⟨h.sound.owned, h.sound.fault⟩, fun hp => absurd hp (by simp), ?_⟩
        intro pool hp
        simp only [Option.some.injEq] at hp
        subst hp
        constructor
        · exact hheader
        · exact hfree
        · exact FixedMemoryPool.pointsInto_link _ _ _
        · intro b hb
          simp only [hempty] at hb
          exact absurd hb List.not_mem_nil
        · intro b hb
          simp only [hreaders] at hb
          exact absurd hb List.not_mem_nil

theorem PackageLife.Inv.uninit
    (h : s.Inv w) (hdisc : s.disciplined w .uninit) (hs : s.step w .uninit = some s') :
    s'.Inv w := by
  simp only [step, Option.some.injEq] at hs
  subst hs
  exact ⟨⟨h.sound.owned, h.sound.fault⟩, fun _ => hdisc,
    fun pool hp => absurd hp (by simp [PackageQueue.uninit])⟩

/-- A block is taken, and points to nothing then. -/
theorem PackageLife.Inv.allocWritePacket
    (h : s.Inv w) (hs : s.step w .allocWritePacket = some s') :
    s'.Inv w := by
  simp only [step] at hs
  rw [PackageQueue.allocWritePacket] at hs
  cases hpool : s.queue.m_pool with
  | none =>
      simp only [hpool, Option.some.injEq] at hs
      subst hs
      exact ⟨⟨h.sound.owned, h.sound.fault⟩, fun _ => h.empty hpool,
        fun pool hp => absurd (hpool.symm.trans hp) (by simp)⟩
  | some pool =>
      have hinv := h.pool pool hpool
      simp only [hpool] at hs
      rcases pool.allocRaw_of_pointsInto hinv.freeList s.mem with hnone | ⟨b, hb, hsome⟩
      · simp only [hnone, Option.some.injEq] at hs
        subst hs
        refine ⟨⟨h.sound.owned, h.sound.fault⟩, fun hp => absurd hp (by simp), ?_⟩
        intro pool' hp
        simp only [Option.some.injEq] at hp
        subst hp
        exact ⟨hinv.header, hinv.freeList, hinv.words, hinv.queued, hinv.readers⟩
      · have hroom : ¬ (pool.taken s.mem b).m_elemSize < sizeofHeader w :=
          Nat.not_lt.mpr (hinv.header b hb)
        simp only [hsome, if_neg hroom, Option.some.injEq] at hs
        subst hs
        refine ⟨⟨h.sound.owned, h.sound.fault⟩, fun hp => absurd hp (by simp), ?_⟩
        intro pool' hp
        simp only [Option.some.injEq] at hp
        subst hp
        constructor
        · exact hinv.header
        · exact hinv.words b hb
        · intro c hc
          by_cases he : c = b
          · subst he
            exact Or.inl (by simp [attach])
          · simp only [attach, Function.update_of_ne he]
            exact hinv.words c hc
        · exact hinv.queued
        · exact hinv.readers

theorem PackageLife.Inv.push
    (h : s.Inv w) {i : Nat} (hdisc : s.disciplined w (.push i))
    (hs : s.step w (.push i) = some s') :
    s'.Inv w := by
  simp only [step] at hs
  split at hs
  · exact absurd hs (by simp)
  · next buf hi =>
      simp only [Option.some.injEq] at hs
      subst hs
      obtain ⟨pool, hpool, hbuf⟩ := hdisc buf hi
      refine ⟨⟨h.sound.owned, h.sound.fault⟩, fun hp => absurd (hpool.symm.trans hp) (by simp),
        ?_⟩
      intro pool' hp
      obtain rfl : pool' = pool := Option.some.inj (hp.symm.trans hpool)
      have hinv := h.pool pool' hpool
      refine ⟨hinv.header, hinv.freeList, hinv.words, ?_, hinv.readers⟩
      intro b hb
      rcases List.mem_append.mp hb with hold | hnew
      · exact hinv.queued b hold
      · rw [List.mem_singleton.mp hnew]
        exact hbuf

/-- `Pop` returns nothing, or the front of the queue. -/
theorem PackageQueue.pop_cases (q : PackageQueue) :
    (∃ sem r, q.pop = ({ q with m_sem := sem }, r, none)) ∨
      ∃ buf rest sem, q.m_queue = buf :: rest ∧
        q.pop = ({ q with m_queue := rest, m_sem := sem }, .POP_OK, some buf) := by
  rw [PackageQueue.pop]
  cases q.m_sem.wait with
  | none => exact Or.inl ⟨q.m_sem, .POP_TIMEOUT, rfl⟩
  | some sem =>
      cases hqueue : q.m_queue with
      | nil => exact Or.inl ⟨sem, .POP_EMPTY, by simp [PackageQueue.popLocked]⟩
      | cons buf rest =>
          exact Or.inr ⟨buf, rest, sem, rfl, by simp [PackageQueue.popLocked]⟩

theorem PackageLife.Inv.pop
    (h : s.Inv w) {into : Option Nat} (hs : s.step w (.pop into) = some s') :
    s'.Inv w := by
  simp only [step] at hs
  rcases s.queue.pop_cases with ⟨sem, r, hpop⟩ | ⟨buf, rest, sem, hqueue, hpop⟩
  · simp only [hpop, Option.some.injEq] at hs
    subst hs
    refine ⟨⟨h.sound.owned, h.sound.fault⟩, h.empty, fun pool hp => ?_⟩
    have hinv := h.pool pool hp
    exact ⟨hinv.header, hinv.freeList, hinv.words, hinv.queued, hinv.readers⟩
  · simp only [hpop, Option.some.injEq] at hs
    subst hs
    cases hpool : s.queue.m_pool with
    | none =>
        have hempty := h.empty hpool
        rw [hqueue] at hempty
        exact absurd hempty (by simp)
    | some pool =>
        have hinv := h.pool pool hpool
        have hfront : buf ∈ s.queue.m_queue := by
          rw [hqueue]
          exact List.mem_cons_self
        have hbuf : buf ∈ pool.blocks := hinv.queued buf hfront
        refine ⟨⟨?_, h.sound.fault⟩, fun hp => absurd hp (by simp), ?_⟩
        · intro t ht
          rcases List.mem_append.mp ht with hold | hnew
          · exact h.sound.owned t hold
          · rw [List.mem_singleton.mp hnew]
            exact ⟨pool, rfl, hbuf⟩
        · intro pool' hp
          simp only [Option.some.injEq] at hp
          subst hp
          refine ⟨hinv.header, hinv.freeList, hinv.words, ?_, ?_⟩
          · intro b hb
            exact hinv.queued b (by rw [hqueue]; exact List.mem_cons_of_mem _ hb)
          · intro b hb
            cases into with
            | none =>
                rcases List.mem_append.mp hb with hold | hnew
                · exact hinv.readers b hold
                · rw [List.mem_singleton.mp hnew]
                  exact hbuf
            | some i =>
                rcases List.mem_or_eq_of_mem_set hb with hold | rfl
                · exact hinv.readers b hold
                · exact hbuf

/-- The block of a destroyed packet goes back where it came from. -/
theorem PackageLife.Inv.destroy
    (h : s.Inv w) {i : Nat} (hs : s.step w (.destroy i) = some s') :
    s'.Inv w := by
  simp only [step] at hs
  split at hs
  · exact absurd hs (by simp)
  · next buf hi =>
      rw [PackageQueue.release] at hs
      cases hpool : s.queue.m_pool with
      | none =>
          simp only [hpool, Option.some.injEq] at hs
          subst hs
          exact ⟨⟨h.sound.owned, h.sound.fault⟩, fun _ => h.empty hpool,
            fun pool hp => absurd (hpool.symm.trans hp) (by simp)⟩
      | some pool =>
          have hinv := h.pool pool hpool
          have hbuf := hinv.readers buf (List.mem_of_getElem? hi)
          simp only [hpool, Option.some.injEq] at hs
          subst hs
          refine ⟨⟨?_, h.sound.fault⟩, fun hp => absurd hp (by simp), ?_⟩
          · intro t ht
            rcases List.mem_append.mp ht with hold | hnew
            · exact h.sound.owned t hold
            · rw [List.mem_singleton.mp hnew]
              exact ⟨pool, rfl, hbuf⟩
          · intro pool' hp
            simp only [Option.some.injEq] at hp
            subst hp
            constructor
            · exact hinv.header
            · exact Or.inr ⟨buf, hbuf, rfl⟩
            · intro c hc
              by_cases he : c = buf
              · subst he
                simp only [FixedMemoryPool.freeRawMem, Function.update_self]
                exact hinv.freeList
              · simp only [FixedMemoryPool.freeRawMem, Function.update_of_ne he]
                exact hinv.words c hc
            · exact hinv.queued
            · exact fun b hb => hinv.readers b (List.mem_of_mem_eraseIdx hb)

/-- A call that keeps the discipline keeps the invariant. -/
theorem PackageLife.Inv.step
    (h : s.Inv w) {call : PackageCall} (hdisc : s.disciplined w call)
    (hs : s.step w call = some s') :
    s'.Inv w := by
  cases call with
  | init maxPacketPayload maxPackets createSemaphore newPool malloc => exact h.init hdisc hs
  | uninit => exact h.uninit hdisc hs
  | allocWritePacket => exact h.allocWritePacket hs
  | push i => exact h.push hdisc hs
  | pop into => exact h.pop hs
  | getQueueSize =>
      simp only [PackageLife.step, Option.some.injEq] at hs
      exact hs ▸ h
  | destroy i => exact h.destroy hs

theorem PackageLife.Inv.start (w : Nat) (mem : Memory) : (PackageLife.start mem).Inv w := by
  refine ⟨⟨fun t ht => ?_, rfl⟩, fun _ => rfl, fun pool hp => ?_⟩
  · exact absurd ht List.not_mem_nil
  · exact absurd hp (by simp [PackageLife.start, PackageQueue.new])

end PackageLife

/-- A `MessageQueue`; `fault` is set when an operation goes wrong. -/
structure MessageLife where
  queue : MessageQueue
  mem : Memory
  next : Nat
  touched : List Touch
  fault : Bool

/-- A queue that was constructed. -/
def MessageLife.start (mem : Memory) : MessageLife :=
  { queue := .new
    mem := mem
    next := 0
    touched := []
    fault := false }

/-- The calls of a `MessageQueue`; those that only look at the queue are one. -/
inductive MessageCall
  | init (maxPacketPayload maxPackets : Nat) (newPool malloc : Bool)
  | uninit
  | push (data : List UInt8)
  | front
  | pop
  | clear
  | getQueueSize

/-- The blocks that are put back when a queue releases them. -/
def putBack (pool : Option FixedMemoryPool) (bufs : List BlockID) : List Touch :=
  match pool with
  | none => []
  | some p => bufs.map fun buf => ⟨buf, some p⟩

/-- One call. -/
def MessageLife.step (w : Nat) (s : MessageLife) : MessageCall → Option MessageLife
  | .init maxPacketPayload maxPackets newPool malloc =>
      match s.queue.init w maxPacketPayload maxPackets ⟨true, newPool, malloc, s.next⟩ s.mem with
      | .error _ => some { s with fault := true }
      | .ok (q, mem, _) => some { s with queue := q, mem := mem, next := s.next + 1 }
  | .uninit => some { s with queue := s.queue.uninit }
  | .push data =>
      match s.queue.push w s.mem data with
      | .error _ => some { s with fault := true }
      | .ok (q, mem, _) => some { s with queue := q, mem := mem }
  | .front =>
      match s.queue.front s.mem with
      | none => some s
      | some (buf, _) => some { s with touched := s.touched ++ [⟨buf, s.queue.m_pool⟩] }
  | .pop =>
      some
        { s with
          queue := (s.queue.pop s.mem).1
          mem := (s.queue.pop s.mem).2.1
          touched := s.touched ++ putBack s.queue.m_pool (s.queue.m_queue.take 1) }
  | .clear =>
      some
        { s with
          queue := (s.queue.clear s.mem).1
          mem := (s.queue.clear s.mem).2
          touched := s.touched ++ putBack s.queue.m_pool s.queue.m_queue }
  | .getQueueSize => some s

/-- What is handed out or put back belongs to the pool of the queue. -/
structure MessageLife.Sound (s : MessageLife) : Prop where
  owned : ∀ t ∈ s.touched, t.Owned
  fault : s.fault = false

/--
The pool is deleted only when the queue is empty, and messages are pushed only
while there is one.
-/
def MessageLife.disciplined (w : Nat) (s : MessageLife) : MessageCall → Prop
  | .init maxPacketPayload maxPackets newPool malloc =>
      s.queue.m_pool = none → newPool = true → malloc = true →
        sizesFit w maxPacketPayload maxPackets = true
  | .uninit => s.queue.m_queue = []
  | .push _ => s.queue.m_pool ≠ none
  | _ => True

instance (w : Nat) (s : MessageLife) (call : MessageCall) : Decidable (s.disciplined w call) :=
  match call with
  | .init maxPacketPayload maxPackets newPool malloc =>
      inferInstanceAs
        (Decidable
          (s.queue.m_pool = none → newPool = true → malloc = true →
            sizesFit w maxPacketPayload maxPackets = true))
  | .uninit => inferInstanceAs (Decidable (s.queue.m_queue = []))
  | .push _ => inferInstanceAs (Decidable (s.queue.m_pool ≠ none))
  | .front | .pop | .clear | .getQueueSize => isTrue trivial

/-- The free blocks of a pool and those in the queue. -/
structure PoolShare
    (w : Nat) (pool : FixedMemoryPool) (mem : Memory) (free queue : List BlockID) : Prop where
  header : ∀ b ∈ pool.blocks, sizeofHeader w ≤ pool.m_elemSize
  linked : pool.Free mem free
  nodup : (free ++ queue).Nodup
  blocks : ∀ b ∈ free ++ queue, b ∈ pool.blocks

/-- The invariant of a life. -/
structure MessageLife.Inv (w : Nat) (s : MessageLife) : Prop where
  sound : s.Sound
  empty : s.queue.m_pool = none → s.queue.m_queue = []
  pool :
    ∀ pool, s.queue.m_pool = some pool → ∃ free, PoolShare w pool s.mem free s.queue.m_queue

/-- The pool that `Init` makes has all its blocks free. -/
theorem initPool_share
    (w maxPacketPayload maxPackets : Nat) (env : InitEnv) (mem : Memory)
    (hfits : env.malloc = true → sizesFit w maxPacketPayload maxPackets = true) :
    PoolShare w (initPool w maxPacketPayload maxPackets env)
      ((initPool w maxPacketPayload maxPackets env).link
        ((initPool w maxPacketPayload maxPackets env).m_elemSize - sizeofHeader w) mem)
      (initPool w maxPacketPayload maxPackets env).blocks [] := by
  obtain ⟨hgood, -, hheader⟩ := initPool_pointsInto w maxPacketPayload maxPackets env hfits
  refine ⟨hheader, ?_, ?_, ?_⟩
  · cases hmalloc : env.malloc with
    | false =>
        have hblocks : (initPool w maxPacketPayload maxPackets env).blocks = [] := by
          simp [FixedMemoryPool.blocks, initPool, FixedMemoryPool.make, hmalloc]
        rw [hblocks]
        simp [FixedMemoryPool.Free, initPool, FixedMemoryPool.make, hmalloc, wordPointers]
    | true =>
        rw [hmalloc, Bool.true_and, Bool.not_eq_false', FixedMemoryPool.fits,
          decide_eq_true_eq] at hgood
        have hfree := FixedMemoryPool.free_make w env.id
          ((sizeofHeader w + maxPacketPayload) % 2 ^ w)
          ((initPool w maxPacketPayload maxPackets env).m_elemSize - sizeofHeader w) hgood.1 mem
        rw [← hmalloc] at hfree
        exact hfree
  · rw [List.append_nil]
    exact FixedMemoryPool.nodup_blocks _
  · intro b hb
    rwa [List.append_nil] at hb

/-- The front block of the queue is put back. -/
theorem PoolShare.release
    {w : Nat} {pool : FixedMemoryPool} {mem : Memory} {free rest : List BlockID} {buf : BlockID}
    (h : PoolShare w pool mem free (buf :: rest)) :
    PoolShare w (pool.freeRaw buf) (pool.freeRawMem mem buf) (buf :: free) rest := by
  have hnodup : (buf :: (free ++ rest)).Nodup := List.nodup_middle.mp h.nodup
  have hfresh : buf ∉ free := fun hb =>
    (List.nodup_cons.mp hnodup).1 (List.mem_append_left _ hb)
  refine ⟨h.header, h.linked.freeRaw hfresh, hnodup, fun b hb => h.blocks b ?_⟩
  have hb' : b ∈ buf :: (free ++ rest) := hb
  simp only [List.mem_cons, List.mem_append] at hb' ⊢
  tauto

/-- A free block is taken, written and queued. -/
theorem PoolShare.push
    {w : Nat} {pool : FixedMemoryPool} {mem : Memory} {free queue : List BlockID} {buf : BlockID}
    (h : PoolShare w pool mem (buf :: free) queue) (x : PacketBlock) :
    PoolShare w (pool.taken mem buf) (Function.update mem buf x) free (queue ++ [buf]) := by
  have hperm : (free ++ (queue ++ [buf])).Perm (buf :: free ++ queue) := by
    rw [← List.append_assoc]
    exact List.perm_append_comm
  have hfresh : buf ∉ free := fun hb =>
    (List.nodup_cons.mp h.nodup).1 (List.mem_append_left _ hb)
  obtain ⟨-, hrest⟩ := h.linked.allocRaw_cons
  exact ⟨h.header, hrest.write hfresh x, hperm.nodup_iff.mpr h.nodup,
    fun b hb => h.blocks b (hperm.subset hb)⟩

/-- The loop of `Clear` puts all blocks of the queue back. -/
theorem MessageQueue.clearLoop_share
    {w : Nat} {bufs : List BlockID} :
    ∀ {q : MessageQueue} {pool : FixedMemoryPool} {mem : Memory} {free : List BlockID},
      q.m_pool = some pool → PoolShare w pool mem free bufs →
      ∃ pool' free', (q.clearLoop mem bufs).1 = ⟨[], some pool'⟩ ∧
        PoolShare w pool' (q.clearLoop mem bufs).2 free' [] := by
  induction bufs with
  | nil =>
      intro q pool mem free hpool h
      refine ⟨pool, free, ?_, h⟩
      simp only [clearLoop, hpool]
  | cons buf rest ih =>
      intro q pool mem free hpool h
      have hrelease :
          { q with m_queue := rest }.release mem buf =
            (⟨rest, some (pool.freeRaw buf)⟩, pool.freeRawMem mem buf) := by
        simp only [release, hpool]
      simp only [clearLoop, hrelease]
      exact ih rfl h.release

section MessageLife

variable {w : Nat} {s s' : MessageLife}

theorem MessageLife.Inv.init
    (h : s.Inv w) {maxPacketPayload maxPackets : Nat} {newPool malloc : Bool}
    (hdisc : s.disciplined w (.init maxPacketPayload maxPackets newPool malloc))
    (hs : s.step w (.init maxPacketPayload maxPackets newPool malloc) = some s') :
    s'.Inv w := by
  simp only [step] at hs
  rw [MessageQueue.init] at hs
  cases hpool : s.queue.m_pool with
  | some pool =>
      simp only [hpool, Option.some.injEq] at hs
      subst hs
      exact ⟨⟨h.sound.owned, h.sound.fault⟩, h.empty, h.pool⟩
  | none =>
      have hempty := h.empty hpool
      cases newPool with
      | false =>
          simp only [hpool, if_true, Option.some.injEq] at hs
          subst hs
          exact ⟨⟨h.sound.owned, h.sound.fault⟩, fun _ => hempty,
            fun pool hp => absurd hp (by simp [MessageQueue.uninit])⟩
      | true =>
          have hfits := hdisc hpool rfl
          obtain ⟨hgood, -, -⟩ :=
            initPool_pointsInto w maxPacketPayload maxPackets ⟨true, true, malloc, s.next⟩ hfits
          have hshare :=
            initPool_share w maxPacketPayload maxPackets ⟨true, true, malloc, s.next⟩ s.mem hfits
          simp only [hpool, Bool.true_eq_false, if_false, hgood, Bool.false_eq_true,
            Option.some.injEq] at hs
          subst hs
          refine ⟨⟨h.sound.owned, h.sound.fault⟩, fun hp => absurd hp (by simp), ?_⟩
          intro pool hp
          simp only [Option.some.injEq] at hp
          subst hp
          rw [← hempty] at hshare
          exact ⟨_, hshare⟩

theorem MessageLife.Inv.push
    (h : s.Inv w) {data : List UInt8} (hdisc : s.disciplined w (.push data))
    (hs : s.step w (.push data) = some s') :
    s'.Inv w := by
  simp only [step] at hs
  rw [MessageQueue.push] at hs
  cases hpool : s.queue.m_pool with
  | none => exact absurd hpool hdisc
  | some pool =>
      obtain ⟨free, hshare⟩ := h.pool pool hpool
      simp only [hpool] at hs
      by_cases hlong : payloadSize w pool < data.length
      · simp only [if_pos hlong, Option.some.injEq] at hs
        subst hs
        exact ⟨⟨h.sound.owned, h.sound.fault⟩, h.empty, h.pool⟩
      · simp only [if_neg hlong] at hs
        cases free with
        | nil =>
            simp only [hshare.linked.allocRaw_nil, Option.some.injEq] at hs
            subst hs
            refine ⟨⟨h.sound.owned, h.sound.fault⟩, fun hp => absurd hp (by simp), ?_⟩
            intro pool' hp
            simp only [Option.some.injEq] at hp
            subst hp
            exact ⟨[], hshare⟩
        | cons buf rest =>
            obtain ⟨hraw, -⟩ := hshare.linked.allocRaw_cons
            have hblock := hshare.blocks buf (by simp)
            have hroom : ¬ (pool.taken s.mem buf).m_elemSize < sizeofHeader w :=
              Nat.not_lt.mpr (hshare.header buf hblock)
            simp only [hraw, if_neg hroom, Option.some.injEq] at hs
            subst hs
            refine ⟨⟨h.sound.owned, h.sound.fault⟩, fun hp => absurd hp (by simp), ?_⟩
            intro pool' hp
            simp only [Option.some.injEq] at hp
            subst hp
            exact ⟨rest, hshare.push _⟩

/-- Blocks of the queue that are put back belong to its pool. -/
theorem MessageLife.Inv.putBack_owned
    (h : s.Inv w) {bufs : List BlockID} (hbufs : ∀ b ∈ bufs, b ∈ s.queue.m_queue) :
    ∀ t ∈ s.touched ++ putBack s.queue.m_pool bufs, t.Owned := by
  intro t ht
  rcases List.mem_append.mp ht with hold | hnew
  · exact h.sound.owned t hold
  · cases hpool : s.queue.m_pool with
    | none =>
        rw [hpool] at hnew
        exact absurd hnew List.not_mem_nil
    | some pool =>
        obtain ⟨free, hshare⟩ := h.pool pool hpool
        rw [hpool] at hnew
        obtain ⟨b, hb, rfl⟩ := List.mem_map.mp hnew
        exact ⟨pool, rfl, hshare.blocks b (List.mem_append_right _ (hbufs b hb))⟩

theorem MessageLife.Inv.front (h : s.Inv w) (hs : s.step w .front = some s') : s'.Inv w := by
  simp only [step] at hs
  rw [MessageQueue.front] at hs
  cases hqueue : s.queue.m_queue with
  | nil =>
      simp only [hqueue, Option.some.injEq] at hs
      exact hs ▸ h
  | cons buf rest =>
      simp only [hqueue, Option.some.injEq] at hs
      subst hs
      have howned := h.putBack_owned (by simp [hqueue] : ∀ b ∈ [buf], b ∈ s.queue.m_queue)
      cases hpool : s.queue.m_pool with
      | none =>
          have hempty := h.empty hpool
          rw [hqueue] at hempty
          exact absurd hempty (by simp)
      | some pool =>
          rw [hpool] at howned
          exact ⟨⟨howned, h.sound.fault⟩, h.empty, h.pool⟩

theorem MessageLife.Inv.pop (h : s.Inv w) (hs : s.step w .pop = some s') : s'.Inv w := by
  simp only [step, Option.some.injEq] at hs
  subst hs
  have howned := h.putBack_owned
    fun b (hb : b ∈ s.queue.m_queue.take 1) => List.mem_of_mem_take hb
  cases hpool : s.queue.m_pool with
  | none =>
      have hempty := h.empty hpool
      have hpop : s.queue.pop s.mem = (s.queue, s.mem, .MPOP_EMPTY) := by
        simp only [MessageQueue.pop, hempty]
      simp only [hpop, hpool] at howned ⊢
      exact ⟨⟨howned, h.sound.fault⟩, h.empty, h.pool⟩
  | some pool =>
      obtain ⟨free, hshare⟩ := h.pool pool hpool
      rw [hpool] at howned
      cases hqueue : s.queue.m_queue with
      | nil =>
          have hpop : s.queue.pop s.mem = (s.queue, s.mem, .MPOP_EMPTY) := by
            simp only [MessageQueue.pop, hqueue]
          rw [hqueue] at howned
          simp only [hpop]
          exact ⟨⟨howned, h.sound.fault⟩, h.empty, h.pool⟩
      | cons buf rest =>
          have hpop :
              s.queue.pop s.mem =
                (⟨rest, some (pool.freeRaw buf)⟩, pool.freeRawMem s.mem buf, .MPOP_OK) := by
            simp only [MessageQueue.pop, hqueue, MessageQueue.release, hpool]
          rw [hqueue] at howned hshare
          simp only [hpop]
          refine ⟨⟨howned, h.sound.fault⟩, fun hp => absurd hp (by simp), ?_⟩
          intro pool' hp
          simp only [Option.some.injEq] at hp
          subst hp
          exact ⟨_, hshare.release⟩

theorem MessageLife.Inv.clear (h : s.Inv w) (hs : s.step w .clear = some s') : s'.Inv w := by
  simp only [step, Option.some.injEq] at hs
  subst hs
  have howned := h.putBack_owned fun b (hb : b ∈ s.queue.m_queue) => hb
  cases hpool : s.queue.m_pool with
  | none =>
      have hempty := h.empty hpool
      have hclear : s.queue.clear s.mem = (⟨[], s.queue.m_pool⟩, s.mem) := by
        simp only [MessageQueue.clear, hempty, MessageQueue.clearLoop]
      rw [hpool] at howned
      simp only [hclear]
      refine ⟨⟨howned, h.sound.fault⟩, fun _ => rfl, fun pool hp => ?_⟩
      exact absurd (hpool.symm.trans hp) (by simp)
  | some pool =>
      obtain ⟨free, hshare⟩ := h.pool pool hpool
      obtain ⟨pool', free', hqueue, hafter⟩ := MessageQueue.clearLoop_share hpool hshare
      rw [hpool] at howned
      simp only [MessageQueue.clear, hqueue]
      refine ⟨⟨howned, h.sound.fault⟩, fun _ => rfl, fun pool hp => ?_⟩
      simp only [Option.some.injEq] at hp
      subst hp
      exact ⟨free', hafter⟩

/-- A call that keeps the discipline keeps the invariant. -/
theorem MessageLife.Inv.step
    (h : s.Inv w) {call : MessageCall} (hdisc : s.disciplined w call)
    (hs : s.step w call = some s') :
    s'.Inv w := by
  cases call with
  | init maxPacketPayload maxPackets newPool malloc => exact h.init hdisc hs
  | uninit =>
      simp only [MessageLife.step, Option.some.injEq] at hs
      subst hs
      exact ⟨⟨h.sound.owned, h.sound.fault⟩, fun _ => hdisc,
        fun pool hp => absurd hp (by simp [MessageQueue.uninit])⟩
  | push data => exact h.push hdisc hs
  | front => exact h.front hs
  | pop => exact h.pop hs
  | clear => exact h.clear hs
  | getQueueSize =>
      simp only [MessageLife.step, Option.some.injEq] at hs
      exact hs ▸ h

theorem MessageLife.Inv.start (w : Nat) (mem : Memory) : (MessageLife.start mem).Inv w := by
  refine ⟨⟨fun t ht => ?_, rfl⟩, fun _ => rfl, fun pool hp => ?_⟩
  · exact absurd ht List.not_mem_nil
  · exact absurd hp (by simp [MessageLife.start, MessageQueue.new])

end MessageLife

/--
In every life of a `PackageQueue` and of a `MessageQueue` whose calls keep the
discipline, what is handed out or put back belongs to the pool of the queue, and
no call uses a null pool.
-/
theorem queues_stay_in_their_pool
    {w : Nat} {mem : Memory} :
    (∀ s,
      Reach (fun s call => PackageLife.step w s call) (PackageLife.disciplined w)
        (PackageLife.start mem) s → s.Sound) ∧
      ∀ s,
        Reach (fun s call => MessageLife.step w s call) (MessageLife.disciplined w)
          (MessageLife.start mem) s → s.Sound := by
  constructor
  · intro s hreach
    have hinv : s.Inv w :=
      hreach.invariant (PackageLife.Inv.start w mem) fun h hdisc hs => h.step hdisc hs
    exact hinv.sound
  · intro s hreach
    have hinv : s.Inv w :=
      hreach.invariant (MessageLife.Inv.start w mem) fun h hdisc hs => h.step hdisc hs
    exact hinv.sound

theorem queues_stay_in_their_pool_example :
    (∃ s : PackageLife, s.touched.length = 4 ∧ s.Sound) ∧
      ∃ s : MessageLife, s.touched.length = 4 ∧ s.Sound := by
  constructor
  · have hrun :
        (runAll (fun s call => PackageLife.step 64 s call) (PackageLife.disciplined 64)
          (PackageLife.start fun _ => ⟨.num 0, 0, []⟩)
          [.init 8 2 true true true, .allocWritePacket, .push 0, .pop none, .uninit, .destroy 0,
            .init 8 2 true true true, .allocWritePacket, .push 1, .push 1, .pop none, .destroy 0,
            .pop none]).any (fun s => decide (s.touched.length = 4)) = true := by
      decide
    obtain ⟨s, hreach, htouched⟩ := exists_reach_of_runAll hrun
    exact ⟨s, of_decide_eq_true htouched, queues_stay_in_their_pool.1 s hreach⟩
  · have hrun :
        (runAll (fun s call => MessageLife.step 64 s call) (MessageLife.disciplined 64)
          (MessageLife.start fun _ => ⟨.num 0, 0, []⟩)
          [.init 8 2 true true, .push [1], .push [2, 3], .front, .pop, .push [4], .clear, .uninit,
            .init 8 2 true true]).any (fun s => decide (s.touched.length = 4)) = true := by
      decide
    obtain ⟨s, hreach, htouched⟩ := exists_reach_of_runAll hrun
    exact ⟨s, of_decide_eq_true htouched, queues_stay_in_their_pool.2 s hreach⟩

/--
A packet that stayed in the queue over an `Uninit` is popped when there is a new
pool, and a `MessageQueue` without a pool is pushed to.
-/
theorem queues_leave_their_pool :
    (∃ s,
      Reach (fun s call => PackageLife.step 64 s call) (fun _ _ => True)
        (PackageLife.start fun _ => ⟨.num 0, 0, []⟩) s ∧ ¬ s.Sound) ∧
      ∃ s,
        Reach (fun s call => MessageLife.step 64 s call) (fun _ _ => True)
          (MessageLife.start fun _ => ⟨.num 0, 0, []⟩) s ∧ ¬ s.Sound := by
  constructor
  · have hrun :
        (runAll (fun s call => PackageLife.step 64 s call) (fun _ _ => True)
          (PackageLife.start fun _ => ⟨.num 0, 0, []⟩)
          [.init 8 1 true true true, .allocWritePacket, .push 0, .uninit,
            .init 8 1 true true true, .allocWritePacket, .push 1, .pop none]).any
          (fun s => decide (¬ ∀ t ∈ s.touched, t.Owned)) = true := by
      decide
    obtain ⟨s, hreach, htouched⟩ := exists_reach_of_runAll hrun
    exact ⟨s, hreach, fun h => of_decide_eq_true htouched h.owned⟩
  · have hrun :
        (runAll (fun s call => MessageLife.step 64 s call) (fun _ _ => True)
          (MessageLife.start fun _ => ⟨.num 0, 0, []⟩) [.push [1]]).any (·.fault) = true := by
      decide
    obtain ⟨s, hreach, hfault⟩ := exists_reach_of_runAll hrun
    refine ⟨s, hreach, fun h => ?_⟩
    rw [h.fault] at hfault
    exact Bool.false_ne_true hfault

end Baselib
end IocpNetlib
