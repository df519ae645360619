import IocpNetlib.Baselib.MemoryPool
import IocpNetlib.Lib.ByteBlock

/-!
# `PackageQueue`

Packets are written into blocks of a `FixedMemoryPool`.  `Push` hands a block to
the queue, `Pop` waits for a semaphore outside the lock and takes the front
block under it, and the destructor of a `PacketRead` gives its block back.

Each function that holds `m_poolLock` from its start to its end is one step
here; `Pop` is two, `Wait` and `popLocked`.
-/

namespace IocpNetlib
namespace Baselib

open ByteBlock

/-- `sizeof(WTPacketHeader)`: two words. -/
def sizeofHeader (w : Nat) : Nat :=
  2 * sizeofPtr w

/-- The largest count of a semaphore that `CSemaphore::Create` makes. -/
def semaphoreMax : Nat :=
  0x7fffffff

/-- `CSemaphore`: no handle, or a count. -/
abbrev CSemaphore := Option Nat

/-- `CSemaphore::Post`; `ReleaseSemaphore` fails at the largest count. -/
def CSemaphore.post (sem : CSemaphore) : CSemaphore :=
  sem.map fun count => if count < semaphoreMax then count + 1 else count

/-- `CSemaphore::Wait`, when it does not time out. -/
def CSemaphore.wait : CSemaphore → Option CSemaphore
  | some (count + 1) => some (some count)
  | _ => none

/-- The fields of a queue. -/
structure PackageQueue where
  m_queue : List BlockID
  m_sem : CSemaphore
  m_pool : Option FixedMemoryPool
deriving DecidableEq, Repr

/-- The constructor. -/
def PackageQueue.new : PackageQueue :=
  { m_queue := []
    m_sem := none
    m_pool := none }

/-- `Uninit`: the pool is deleted. -/
def PackageQueue.uninit (q : PackageQueue) : PackageQueue :=
  { q with m_pool := none }

/-- What the system says during an `Init`, and the number a new pool gets. -/
structure InitEnv where
  createSemaphore : Bool
  newPool : Bool
  malloc : Bool
  id : Nat

/-- The pool that `Init` makes. -/
def initPool (w maxPacketPayload maxPackets : Nat) (env : InitEnv) : FixedMemoryPool :=
  .make w env.id ((sizeofHeader w + maxPacketPayload) % 2 ^ w) maxPackets env.malloc

/-- `GetElementSize() - sizeof(WTPacketHeader)`. -/
def payloadSize (w : Nat) (pool : FixedMemoryPool) : Nat :=
  (pool.m_elemSize + 2 ^ w - sizeofHeader w) % 2 ^ w

/--
`Init`, and what it returns; the result `none` follows a constructor that
writes outside the memory of the pool.
-/
def PackageQueue.init
    (w maxPacketPayload maxPackets : Nat) (env : InitEnv) (q : PackageQueue) (mem : Memory) :
    Option (PackageQueue × Memory × Nat) :=
  match q.m_pool with
  | some _ => some (q, mem, 0)
  | none =>
      if env.createSemaphore = false then
        some (uninit { q with m_sem := none }, mem, 1)
      else if env.newPool = false then
        some (uninit { q with m_sem := some 0 }, mem, 1)
      else
        let pool := initPool w maxPacketPayload maxPackets env
        if env.malloc && !pool.fits w maxPackets then none
        else
          some
            ({ q with m_sem := some 0, m_pool := some pool },
              pool.link (pool.m_elemSize - sizeofHeader w) mem, 0)

/-- `PacketWrite::Attach`. -/
def attach (mem : Memory) (buf : BlockID) (cap : Nat) : Memory :=
  Function.update mem buf { mem buf with writePos := .num 0, capacity := cap }

/--
`PacketWrite::Write`, and what it returns; the result `none` is that of a block
whose first word is no number.
-/
def write (w : Nat) (mem : Memory) (buf : BlockID) (data : List UInt8) : Option (Memory × Bool) :=
  match (mem buf).writePos with
  | .ptr _ => none
  | .num writePos =>
      if (mem buf).capacity < (writePos + data.length) % 2 ^ w then some (mem, false)
      else
        some
          (Function.update mem buf
            { mem buf with
              writePos := .num ((writePos + data.length) % 2 ^ w)
              payload := memcpy (mem buf).payload writePos data },
            true)

/--
`AllocWritePacket`, and the block the packet was attached to; the result `none`
follows a pointer that points nowhere, and a header that does not fit.
-/
def PackageQueue.allocWritePacket (w : Nat) (q : PackageQueue) (mem : Memory) :
    Option (PackageQueue × Memory × Option BlockID) :=
  match q.m_pool with
  | none => some (q, mem, none)
  | some pool =>
      match pool.allocRaw mem with
      | none => none
      | some (pool', none) => some ({ q with m_pool := some pool' }, mem, none)
      | some (pool', some buf) =>
          if pool'.m_elemSize < sizeofHeader w then none
          else
            some ({ q with m_pool := some pool' }, attach mem buf (payloadSize w pool'), some buf)

/-- `Push` of a packet with the block `raw`, and what it returns. -/
def PackageQueue.push (q : PackageQueue) : Option BlockID → PackageQueue × Bool
  | none => (q, false)
  | some buf => ({ q with m_queue := q.m_queue ++ [buf], m_sem := q.m_sem.post }, true)

/-- `PopResult`. -/
inductive PopResult
  | POP_OK
  | POP_TIMEOUT
  | POP_EMPTY
deriving DecidableEq, Repr

/-- `Pop` after `Wait`: what it returns, and the block the packet was attached to. -/
def PackageQueue.popLocked (q : PackageQueue) : PackageQueue × PopResult × Option BlockID :=
  match q.m_queue with
  | [] => (q, .POP_EMPTY, none)
  | buf :: rest => ({ q with m_queue := rest }, .POP_OK, some buf)

/-- `Pop`. -/
def PackageQueue.pop (q : PackageQueue) : PackageQueue × PopResult × Option BlockID :=
  match q.m_sem.wait with
  | none => (q, .POP_TIMEOUT, none)
  | some sem => { q with m_sem := sem }.popLocked

/-- `Release`, which the destructor of a `PacketRead` calls. -/
def PackageQueue.release (q : PackageQueue) (mem : Memory) (buf : BlockID) :
    PackageQueue × Memory :=
  match q.m_pool with
  | none => (q, mem)
  | some pool => ({ q with m_pool := some (pool.freeRaw buf) }, pool.freeRawMem mem buf)

/-- `GetBuffer` and `GetDataLength` of a `PacketRead`: the bytes it shows. -/
def packetBytes (mem : Memory) (buf : BlockID) : Option (List UInt8) :=
  match (mem buf).writePos with
  | .num n => some ((mem buf).payload.take n)
  | .ptr _ => none

/-- The size of a header and a payload does not wrap around. -/
def initFits (w maxPacketPayload : Nat) : Bool :=
  decide (sizeofHeader w + maxPacketPayload + sizeofPtr w ≤ 2 ^ w)

/-- A size that does not wrap around is rounded up to less than a word more. -/
theorem alignUp_bounds
    {w size : Nat} (hpos : 0 < sizeofPtr w) (hfits : size + sizeofPtr w ≤ 2 ^ w) :
    size ≤ alignUp w size ∧ alignUp w size < 2 ^ w := by
  have hlt : size + (sizeofPtr w - 1) < 2 ^ w := by omega
  rw [alignUp]
  rw [Nat.mod_eq_of_lt hlt]
  have hdiv := Nat.div_add_mod (size + (sizeofPtr w - 1)) (sizeofPtr w)
  have hmod := Nat.mod_lt (size + (sizeofPtr w - 1)) hpos
  rw [Nat.mul_comm] at hdiv
  omega

/-- A header and a payload that do not wrap around fit in a block. -/
theorem header_le_elemSize
    {w maxPacketPayload : Nat} (hfits : initFits w maxPacketPayload = true)
    (maxPackets : Nat) (env : InitEnv) :
    sizeofHeader w ≤ (initPool w maxPacketPayload maxPackets env).m_elemSize ∧
      (initPool w maxPacketPayload maxPackets env).m_elemSize < 2 ^ w := by
  have hle : sizeofHeader w + maxPacketPayload + sizeofPtr w ≤ 2 ^ w := by
    simpa [initFits] using hfits
  have helem :
      (initPool w maxPacketPayload maxPackets env).m_elemSize =
        alignUp w (max (sizeofPtr w) ((sizeofHeader w + maxPacketPayload) % 2 ^ w)) :=
    rfl
  rw [helem]
  rcases Nat.eq_zero_or_pos (sizeofPtr w) with hzero | hpos
  · have hheader : sizeofHeader w = 0 := by
      rw [sizeofHeader, hzero]
    have halign : ∀ n, alignUp w n = 0 := by
      intro n
      rw [alignUp, hzero, Nat.mul_zero]
    rw [hheader, halign]
    exact ⟨Nat.le_refl 0, Nat.two_pow_pos w⟩
  · have hmod : (sizeofHeader w + maxPacketPayload) % 2 ^ w = sizeofHeader w + maxPacketPayload :=
      Nat.mod_eq_of_lt (by omega)
    have hmax :
        max (sizeofPtr w) (sizeofHeader w + maxPacketPayload) =
          sizeofHeader w + maxPacketPayload := by
      rw [sizeofHeader]
      omega
    rw [hmod, hmax]
    obtain ⟨hlow, hhigh⟩ := alignUp_bounds hpos hle
    exact ⟨by omega, hhigh⟩

/-- The room for a payload is what the block has behind its header. -/
theorem payloadSize_eq
    {w : Nat} {pool : FixedMemoryPool} (hheader : sizeofHeader w ≤ pool.m_elemSize)
    (hlt : pool.m_elemSize < 2 ^ w) :
    payloadSize w pool = pool.m_elemSize - sizeofHeader w := by
  have hsub :
      pool.m_elemSize + 2 ^ w - sizeofHeader w = pool.m_elemSize - sizeofHeader w + 2 ^ w := by
    omega
  rw [payloadSize]
  rw [hsub, Nat.add_mod_right]
  exact Nat.mod_eq_of_lt (by omega)

/-- An `Init` of a new queue that makes a valid pool. -/
theorem PackageQueue.init_new
    {w maxPacketPayload maxPackets : Nat} {env : InitEnv} {mem mem' : Memory}
    {q : PackageQueue} {pool : FixedMemoryPool}
    (hinit : PackageQueue.new.init w maxPacketPayload maxPackets env mem = some (q, mem', 0))
    (hpool : q.m_pool = some pool) (hvalid : pool.isValid = true) :
    env.malloc = true ∧ 0 < maxPackets ∧ pool = initPool w maxPacketPayload maxPackets env ∧
      q = { PackageQueue.new with m_sem := some 0, m_pool := some pool } ∧
      mem' = pool.link (pool.m_elemSize - sizeofHeader w) mem := by
  rw [PackageQueue.init] at hinit
  simp only [PackageQueue.new] at hinit
  split_ifs at hinit with hsem hnew hmalloc
  · simp at hinit
  · simp at hinit
  · simp only [Option.some.injEq, Prod.mk.injEq, and_true] at hinit
    obtain ⟨rfl, rfl⟩ := hinit
    simp only [Option.some.injEq] at hpool
    subst hpool
    have hgave : env.malloc = true := by
      by_contra hno
      simp [FixedMemoryPool.isValid, initPool, FixedMemoryPool.make, hno] at hvalid
    have hpos : 0 < maxPackets := by
      simp only [hgave, Bool.true_and, Bool.not_eq_true', Bool.not_eq_false,
        FixedMemoryPool.fits, decide_eq_true_eq] at hmalloc
      exact hmalloc.1
    exact ⟨hgave, hpos, rfl, rfl, rfl⟩

end Baselib
end IocpNetlib
