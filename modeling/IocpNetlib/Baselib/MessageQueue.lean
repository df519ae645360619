import IocpNetlib.Baselib.PackageQueue

/-!
# `MessageQueue`

A queue of copied messages.  Its blocks come from a `FixedMemoryPool` as those
of a `PackageQueue` do, and its header has the same two words; but `Push` uses
the pool without looking whether there is one.
-/

namespace IocpNetlib
namespace Baselib

open ByteBlock

/-- The fields of a queue. -/
structure MessageQueue where
  m_queue : List BlockID
  m_pool : Option FixedMemoryPool
deriving DecidableEq, Repr

/-- The constructor. -/
def MessageQueue.new : MessageQueue :=
  { m_queue := []
    m_pool := none }

/-- What goes wrong in an operation: no pool, or memory outside the blocks is used. -/
inductive Fault
  | nullPool
  | outside
deriving DecidableEq, Repr

/-- `Uninit`: the pool is deleted. -/
def MessageQueue.uninit (q : MessageQueue) : MessageQueue :=
  { q with m_pool := none }

/-- `Init`, and what it returns. -/
def MessageQueue.init
    (w maxPacketPayload maxPackets : Nat) (env : InitEnv) (q : MessageQueue) (mem : Memory) :
    Except Fault (MessageQueue × Memory × Nat) :=
  match q.m_pool with
  | some _ => .ok (q, mem, 0)
  | none =>
      if env.newPool = false then .ok (q.uninit, mem, 1)
      else
        let pool := initPool w maxPacketPayload maxPackets env
        if env.malloc && !pool.fits w maxPackets then .error .outside
        else
          .ok
            ({ q with m_pool := some pool },
              pool.link (pool.m_elemSize - sizeofHeader w) mem, 0)

/-- `Release`. -/
def MessageQueue.release (q : MessageQueue) (mem : Memory) (buf : BlockID) :
    MessageQueue × Memory :=
  match q.m_pool with
  | none => (q, mem)
  | some pool => ({ q with m_pool := some (pool.freeRaw buf) }, pool.freeRawMem mem buf)

/-- The loop of `Clear`, over the blocks in the queue. -/
def MessageQueue.clearLoop (q : MessageQueue) (mem : Memory) :
    List BlockID → MessageQueue × Memory
  | [] => ({ q with m_queue := [] }, mem)
  | buf :: rest =>
      let r := { q with m_queue := rest }.release mem buf
      clearLoop r.1 r.2 rest

/-- `Clear`. -/
def MessageQueue.clear (q : MessageQueue) (mem : Memory) : MessageQueue × Memory :=
  q.clearLoop mem q.m_queue

/-- `Front`: the block whose bytes it returns, and their number. -/
def MessageQueue.front (q : MessageQueue) (mem : Memory) : Option (BlockID × Word) :=
  match q.m_queue with
  | [] => none
  | raw :: _ => some (raw, (mem raw).writePos)

/-- The header and the bytes of a message. -/
def store (w : Nat) (pool : FixedMemoryPool) (mem : Memory) (buf : BlockID) (data : List UInt8) :
    Memory :=
  Function.update mem buf
    { writePos := .num data.length
      capacity := payloadSize w pool
      payload := memcpy (mem buf).payload 0 data }

/-- `Push`, and what it returns. -/
def MessageQueue.push (w : Nat) (q : MessageQueue) (mem : Memory) (data : List UInt8) :
    Except Fault (MessageQueue × Memory × Bool) :=
  match q.m_pool with
  | none => .error .nullPool
  | some pool =>
      if payloadSize w pool < data.length then .ok (q, mem, false)
      else
        match pool.allocRaw mem with
        | none => .error .outside
        | some (pool', none) => .ok ({ q with m_pool := some pool' }, mem, false)
        | some (pool', some buf) =>
            if pool'.m_elemSize < sizeofHeader w then .error .outside
            else
              .ok
                ({ q with m_queue := q.m_queue ++ [buf], m_pool := some pool' },
                  store w pool' mem buf data, true)

/-- `MPopResult`. -/
inductive MPopResult
  | MPOP_OK
  | MPOP_EMPTY
deriving DecidableEq, Repr

/-- `Pop`. -/
def MessageQueue.pop (q : MessageQueue) (mem : Memory) : MessageQueue × Memory × MPopResult :=
  match q.m_queue with
  | [] => (q, mem, .MPOP_EMPTY)
  | buf :: rest =>
      let r := { q with m_queue := rest }.release mem buf
      (r.1, r.2, .MPOP_OK)

end Baselib
end IocpNetlib
