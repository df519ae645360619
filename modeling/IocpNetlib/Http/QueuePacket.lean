import IocpNetlib.Baselib.ProducerConsumer
import IocpNetlib.Http.Dispatch

/-!
# `HttpServiceImplementer::OnReceived`

A packet of the splitter is queued for the `ProcessMsg` threads: `OnReceived`
takes a block of `mPackageQueue`, writes a `HttpProtocolHeader` and the packet
to it and pushes it.  It does not look at what the two `Write`s return.

One call is followed from its `AllocWritePacket` to its return, while other
threads receive, pop and release packets of the same queue in any order.
-/

namespace IocpNetlib
namespace Http

open ByteBlock Baselib Reachability

/-- The bytes of a header; the two bytes of padding are not written. -/
def HttpProtocolHeader.bytes (h : HttpProtocolHeader) (padding : UInt16) : List UInt8 :=
  leBytes 4 h.socketID.toNat ++ leBytes 2 h.remotePort.toNat ++ leBytes 2 padding.toNat ++
    leBytes 4 h.remoteIP.toNat

/-- `sizeof(HttpProtocolHeader)`. -/
def sizeofProtocolHeader : Nat := 12

/-- Where a call of `OnReceived` stands; a call that pushed knows what its block shows. -/
inductive ReceivePoint
  | called
  | allocated (buf : BlockID)
  | headerWritten (buf : BlockID)
  | dataWritten (buf : BlockID)
  | returned (ret : Int) (pushed : Option PacketRead)
deriving DecidableEq, Repr

/-- The block of the call's `PacketWrite`. -/
def ReceivePoint.buf : ReceivePoint → Option BlockID
  | .allocated buf | .headerWritten buf | .dataWritten buf => some buf
  | .called | .returned _ _ => none

/-- A call of `OnReceived`, the queue, and whether the call found a free block. -/
structure ReceiveCall where
  queue : QueueState
  point : ReceivePoint
  free : Bool

/-- A call that is about to begin. -/
def ReceiveCall.start (q : PackageQueue) (mem : Memory) : ReceiveCall :=
  { queue := .start q mem
    point := .called
    free := false }

/-- The pool of the queue has a free block. -/
def hasFree (q : PackageQueue) : Bool :=
  match q.m_pool with
  | none => false
  | some pool => decide (pool.m_freeList ≠ .num 0)

/-- The place of a block among the packets that are being written. -/
def writerOf (s : QueueState) (buf : BlockID) : Option Nat :=
  s.writers.findIdx? fun pw => decide (pw.m_buf = buf)

/-- The call goes on, or another thread does something to the queue. -/
inductive ReceiveOp
  | own
  | other (op : QueueOp)

/--
What other threads may do: they do not know the call's packet, and whoever
writes writes a header and at most `maxPacketSize` bytes.
-/
def ReceiveCall.foreign (maxPacketSize : Nat) (c : ReceiveCall) : QueueOp → Bool
  | .write i data =>
      match c.queue.writers[i]? with
      | none => false
      | some pw =>
          decide (some pw.m_buf ≠ c.point.buf ∧
            pw.written.length + data.length ≤ sizeofProtocolHeader + maxPacketSize)
  | .push i =>
      match c.queue.writers[i]? with
      | none => false
      | some pw => decide (some pw.m_buf ≠ c.point.buf)
  | .alloc | .wait | .popLocked | .release _ => true

section Step

variable (w maxPacketSize : Nat) (header pData : List UInt8)

/-- One step of `HttpServiceImplementer::OnReceived`. -/
def ReceiveCall.onReceived (c : ReceiveCall) : Option ReceiveCall :=
  match c.point with
  | .called =>
      match c.queue.queue.allocWritePacket w c.queue.mem with
      | none => none
      | some (_, _, none) =>
          (c.queue.step w .alloc).map fun s => ⟨s, .returned (-1) none, hasFree c.queue.queue⟩
      | some (_, _, some buf) =>
          (c.queue.step w .alloc).map fun s => ⟨s, .allocated buf, hasFree c.queue.queue⟩
  | .allocated buf =>
      (writerOf c.queue buf).bind fun i =>
        (c.queue.step w (.write i header)).map fun s => ⟨s, .headerWritten buf, c.free⟩
  | .headerWritten buf =>
      (writerOf c.queue buf).bind fun i =>
        (c.queue.step w (.write i pData)).map fun s => ⟨s, .dataWritten buf, c.free⟩
  | .dataWritten buf =>
      (writerOf c.queue buf).bind fun i =>
        (c.queue.step w (.push i)).map fun s =>
          ⟨s, .returned 0 (some (.attach s.mem buf)), c.free⟩
  | .returned _ _ => none

/-- A step of the call, or of another thread. -/
def ReceiveCall.step (c : ReceiveCall) : ReceiveOp → Option ReceiveCall
  | .own => c.onReceived w header pData
  | .other op =>
      if c.foreign maxPacketSize op then
        (c.queue.step w op).map fun s => { c with queue := s }
      else none

end Step

/-- The block that was pushed shows the header and the whole packet, or the call failed. -/
inductive ReceivePoint.WholeOrRefused (header pData : List UInt8) : ReceivePoint → Prop
  | whole (buf : BlockID) :
      WholeOrRefused header pData (.returned 0 (some ⟨buf, some (header ++ pData)⟩))
  | refused {ret : Int} (ret_ne : ret ≠ 0) : WholeOrRefused header pData (.returned ret none)

theorem ReceivePoint.WholeOrRefused.bytes_eq
    {header pData bytes : List UInt8} {buf : BlockID}
    (h : WholeOrRefused header pData (.returned 0 (some ⟨buf, some bytes⟩))) :
    bytes = header ++ pData := by
  cases h with
  | whole => rfl

/-- The bytes of a packet after one more `Write` to a block with room for `size`. -/
def wrote (size : Nat) (written data : List UInt8) : List UInt8 :=
  if size < written.length + data.length then written else written ++ data

section Writers

variable {w size lost : Nat} {blocks free : List BlockID} {pool : FixedMemoryPool}
variable {s s' : QueueState} {buf : BlockID} {x : List UInt8}

theorem writerOf_some {i : Nat} (h : writerOf s buf = some i) :
    ∃ pw, s.writers[i]? = some pw ∧ pw.m_buf = buf := by
  obtain ⟨hi, hbuf, -⟩ := List.findIdx?_eq_some_iff_getElem.mp h
  exact ⟨s.writers[i], List.getElem?_eq_getElem hi, of_decide_eq_true hbuf⟩

/-- The packet of a block is the one at its place. -/
theorem writer_at
    (h : s.Inv w size blocks lost pool free) {i : Nat} (hi : writerOf s buf = some i)
    (hx : PacketWrite.mk buf x ∈ s.writers) : s.writers[i]? = some ⟨buf, x⟩ := by
  obtain ⟨pw, hpw, rfl⟩ := writerOf_some hi
  obtain ⟨-, -, hunique, -⟩ := h.writer_unique hpw
  rcases List.mem_cons.mp ((perm_eraseIdx hpw).subset hx) with heq | hrest
  · rw [hpw, heq]
  · exact absurd (List.mem_map_of_mem (f := PacketWrite.m_buf) hrest) hunique

/-- A `Write` to a packet appends to it, or is refused for want of room. -/
theorem write_own
    (h : s.Inv w size blocks lost pool free) {i : Nat} {data : List UInt8}
    (hi : s.writers[i]? = some ⟨buf, x⟩) (hfits : x.length + data.length < 2 ^ w)
    (hs : s.step w (.write i data) = some s') :
    s'.Inv w size blocks lost pool free ∧ PacketWrite.mk buf (wrote size x data) ∈ s'.writers := by
  have hwrite : s.writeFits w (.write i data) := by
    intro pw hpw
    rw [hi, Option.some.injEq] at hpw
    rw [← hpw]
    exact hfits
  refine ⟨h.write hwrite hs, ?_⟩
  have hfilled := h.writers _ (List.mem_of_getElem? hi)
  rw [wrote]
  simp only [QueueState.step, hi, Baselib.write, hfilled.writePos, hfilled.capacity,
    Nat.mod_eq_of_lt hfits] at hs
  split_ifs with hlt
  · rw [if_pos hlt] at hs
    simp only [Option.some.injEq] at hs
    subst hs
    exact List.mem_of_getElem? hi
  · rw [if_neg hlt] at hs
    simp only [Option.some.injEq] at hs
    subst hs
    exact List.mem_append_right _ List.mem_cons_self

/-- A packet that another thread does not know keeps its bytes. -/
theorem writer_kept
    {i : Nat} {pw : PacketWrite} (hi : s.writers[i]? = some pw) (hne : pw.m_buf ≠ buf)
    (hx : PacketWrite.mk buf x ∈ s.writers) : PacketWrite.mk buf x ∈ s.writers.eraseIdx i := by
  rcases List.mem_cons.mp ((perm_eraseIdx hi).subset hx) with heq | hrest
  · exact absurd (by rw [← heq]) hne
  · exact hrest

end Writers

section Call

variable {w size maxPacketSize : Nat} {blocks : List BlockID} {header pData : List UInt8}
variable {c c' : ReceiveCall}

/-- What is known of the packet of a call, and of a call that has returned. -/
def ReceivePoint.Holds (size : Nat) (header pData : List UInt8) (writers : List PacketWrite)
    (free : Bool) : ReceivePoint → Prop
  | .called => True
  | .allocated buf => free = true ∧ PacketWrite.mk buf [] ∈ writers
  | .headerWritten buf => free = true ∧ PacketWrite.mk buf (wrote size [] header) ∈ writers
  | .dataWritten buf =>
      free = true ∧ PacketWrite.mk buf (wrote size (wrote size [] header) pData) ∈ writers
  | .returned ret pushed =>
      free = false ∧ ret = -1 ∧ pushed = none ∨
        free = true ∧ ret = 0 ∧
          ∃ buf, pushed = some ⟨buf, some (wrote size (wrote size [] header) pData)⟩

/-- The invariant of a call among other threads. -/
structure ReceiveCall.Inv (w size : Nat) (blocks : List BlockID) (header pData : List UInt8)
    (c : ReceiveCall) : Prop where
  queue : ∃ lost pool free, c.queue.Inv w size blocks lost pool free
  point : c.point.Holds size header pData c.queue.writers c.free

theorem ReceivePoint.Holds.mono
    {point : ReceivePoint} {writers writers' : List PacketWrite} {free : Bool}
    (h : point.Holds size header pData writers free)
    (hkeep : ∀ buf x, point.buf = some buf → PacketWrite.mk buf x ∈ writers →
      PacketWrite.mk buf x ∈ writers') :
    point.Holds size header pData writers' free := by
  cases point with
  | called => trivial
  | allocated buf => exact ⟨h.1, hkeep buf _ rfl h.2⟩
  | headerWritten buf => exact ⟨h.1, hkeep buf _ rfl h.2⟩
  | dataWritten buf => exact ⟨h.1, hkeep buf _ rfl h.2⟩
  | returned ret pushed => exact h

/-- Other threads leave the packet of the call alone. -/
theorem ReceiveCall.Inv.other
    (h : c.Inv w size blocks header pData) (hw : sizeofProtocolHeader + maxPacketSize < 2 ^ w)
    {op : QueueOp} (hforeign : c.foreign maxPacketSize op = true) {s : QueueState}
    (hs : c.queue.step w op = some s) :
    ReceiveCall.Inv w size blocks header pData { c with queue := s } := by
  obtain ⟨⟨lost, pool, free, hinv⟩, hpoint⟩ := h
  cases op with
  | alloc =>
      refine ⟨⟨lost, hinv.alloc hs⟩, hpoint.mono fun buf x _ hx => ?_⟩
      simp only [QueueState.step] at hs
      split at hs
      · cases hs; exact hx
      · cases hs; exact hx
      · cases hs; exact List.mem_append_left _ hx
  | write i data =>
      cases hi : c.queue.writers[i]? with
      | none => simp [ReceiveCall.foreign, hi] at hforeign
      | some pw =>
          simp only [ReceiveCall.foreign, hi, decide_eq_true_eq] at hforeign
          obtain ⟨hne, hle⟩ := hforeign
          have hfits : c.queue.writeFits w (.write i data) := by
            intro pw' hpw'
            rw [hi, Option.some.injEq] at hpw'
            rw [← hpw']
            omega
          refine ⟨⟨lost, pool, free, hinv.write hfits hs⟩, hpoint.mono fun buf x hbuf hx => ?_⟩
          have hkept := writer_kept hi (fun heq => hne (by rw [heq, hbuf])) hx
          simp only [QueueState.step, hi] at hs
          split at hs
          · cases hs; exact hx
          · cases hs; exact hx
          · cases hs; exact List.mem_append_left _ hkept
  | push i =>
      cases hi : c.queue.writers[i]? with
      | none => simp [ReceiveCall.foreign, hi] at hforeign
      | some pw =>
          simp only [ReceiveCall.foreign, hi, decide_eq_true_eq] at hforeign
          have hne := hforeign
          obtain ⟨count, -, hpushed⟩ := hinv.push hs
          refine ⟨⟨_, pool, free, hpushed⟩, hpoint.mono fun buf x hbuf hx => ?_⟩
          have hkept := writer_kept hi (fun heq => hne (by rw [heq, hbuf])) hx
          simp only [QueueState.step, hi, Option.some.injEq] at hs
          cases hs
          exact hkept
  | wait =>
      refine ⟨⟨lost, pool, free, hinv.wait hs⟩, hpoint.mono fun buf x _ hx => ?_⟩
      simp only [QueueState.step] at hs
      split at hs
      · exact absurd hs (by simp)
      · cases hs; exact hx
  | popLocked =>
      refine ⟨⟨lost, pool, free, hinv.popLocked hs⟩, hpoint.mono fun buf x _ hx => ?_⟩
      simp only [QueueState.step] at hs
      split at hs
      · exact absurd hs (by simp)
      · split at hs
        · cases hs; exact hx
        · cases hs; exact hx
  | release i =>
      refine ⟨⟨lost, hinv.release hs⟩, hpoint.mono fun buf x _ hx => ?_⟩
      simp only [QueueState.step] at hs
      split at hs
      · exact absurd hs (by simp)
      · cases hs; exact hx

/-- The call itself takes a block, writes to it twice and pushes it. -/
theorem ReceiveCall.Inv.own
    (h : c.Inv w size blocks header pData) (hw : header.length + pData.length < 2 ^ w)
    (hs : c.onReceived w header pData = some c') : c'.Inv w size blocks header pData := by
  obtain ⟨⟨lost, pool, free, hinv⟩, hpoint⟩ := h
  have hwrote : (wrote size [] header).length ≤ header.length := by
    rw [wrote]
    split_ifs
    · exact Nat.zero_le _
    · exact Nat.le_refl _
  rw [ReceiveCall.onReceived] at hs
  cases hp : c.point with
  | called =>
      simp only [hp] at hs
      cases free with
      | nil =>
          simp only [hinv.allocWritePacket_nil, Option.map_eq_some_iff] at hs
          obtain ⟨s, hs, rfl⟩ := hs
          have hnull : pool.m_freeList = .num 0 := hinv.linked
          have hfree : hasFree c.queue.queue = false := by
            rw [hasFree]
            rw [hinv.m_pool]
            simp [hnull]
          exact ⟨⟨lost, hinv.alloc hs⟩, Or.inl ⟨hfree, rfl, rfl⟩⟩
      | cons b rest =>
          simp only [hinv.allocWritePacket_cons, Option.map_eq_some_iff] at hs
          obtain ⟨s, hs, rfl⟩ := hs
          obtain ⟨s₁, hs₁, hwriters, -, -, hinv₁⟩ := hinv.alloc_cons
          rw [hs₁, Option.some.injEq] at hs
          subst hs
          have hptr : pool.m_freeList = .ptr b := hinv.linked.1
          have hfree : hasFree c.queue.queue = true := by
            rw [hasFree]
            rw [hinv.m_pool]
            simp [hptr]
          refine ⟨⟨lost, _, rest, hinv₁⟩, hfree, ?_⟩
          rw [hwriters]
          exact List.mem_append_right _ List.mem_cons_self
  | allocated buf =>
      simp only [hp] at hs
      rw [hp] at hpoint
      obtain ⟨hfree, hx⟩ := hpoint
      obtain ⟨i, hi, hmap⟩ := Option.bind_eq_some_iff.mp hs
      obtain ⟨s, hstep, rfl⟩ := Option.map_eq_some_iff.mp hmap
      obtain ⟨hinv', hx'⟩ :=
        write_own hinv (writer_at hinv hi hx) (by rw [List.length_nil]; omega) hstep
      exact ⟨⟨lost, pool, free, hinv'⟩, hfree, hx'⟩
  | headerWritten buf =>
      simp only [hp] at hs
      rw [hp] at hpoint
      obtain ⟨hfree, hx⟩ := hpoint
      obtain ⟨i, hi, hmap⟩ := Option.bind_eq_some_iff.mp hs
      obtain ⟨s, hstep, rfl⟩ := Option.map_eq_some_iff.mp hmap
      obtain ⟨hinv', hx'⟩ := write_own hinv (writer_at hinv hi hx) (by omega) hstep
      exact ⟨⟨lost, pool, free, hinv'⟩, hfree, hx'⟩
  | dataWritten buf =>
      simp only [hp] at hs
      rw [hp] at hpoint
      obtain ⟨hfree, hx⟩ := hpoint
      obtain ⟨i, hi, hmap⟩ := Option.bind_eq_some_iff.mp hs
      obtain ⟨s, hstep, rfl⟩ := Option.map_eq_some_iff.mp hmap
      obtain ⟨count, -, hpushed⟩ := hinv.push hstep
      refine ⟨⟨_, pool, free, hpushed⟩, Or.inr ⟨hfree, rfl, buf, ?_⟩⟩
      -- the block shows what was written to its packet
      have hattach := (hinv.writers _ hx).attach_eq
      have hmem : s.mem = c.queue.mem := by
        simp only [QueueState.step, writer_at hinv hi hx, Option.some.injEq] at hstep
        rw [← hstep]
      rw [hmem]
      exact congrArg some hattach
  | returned ret pushed =>
      simp only [hp] at hs
      exact absurd hs (by simp)

/-- The invariant holds in every run. -/
theorem ReceiveCall.Inv.run
    {q : PackageQueue} {mem : Memory}
    (hstart : ∃ lost pool free, (QueueState.start q mem).Inv w size blocks lost pool free)
    (hother : sizeofProtocolHeader + maxPacketSize < 2 ^ w)
    (hown : header.length + pData.length < 2 ^ w)
    (hreach : Reach (ReceiveCall.step w maxPacketSize header pData) (fun _ _ => True)
      (.start q mem) c) :
    c.Inv w size blocks header pData := by
  refine hreach.invariant ⟨hstart, trivial⟩ ?_
  rintro c c' op h - hs
  cases op with
  | own => exact h.own hown hs
  | other op =>
      unfold ReceiveCall.step at hs
      simp only at hs
      split_ifs at hs with hforeign
      obtain ⟨s, hstep, rfl⟩ := Option.map_eq_some_iff.mp hs
      exact h.other hother hforeign hstep

/-- Both `Write`s fit, or the packet is not what was received. -/
theorem wrote_whole_iff (hpos : 0 < pData.length) :
    wrote size (wrote size [] header) pData = header ++ pData ↔
      header.length + pData.length ≤ size := by
  constructor
  · intro h
    by_contra hlt
    have hlen := congrArg List.length h
    rw [List.length_append] at hlen
    unfold wrote at hlen
    split_ifs at hlen with h₁ h₂ h₂ <;>
      simp only [List.length_append, List.length_nil, List.nil_append] at h₁ h₂ hlen <;> omega
  · intro hle
    unfold wrote
    simp only [List.length_nil, Nat.zero_add, List.nil_append]
    rw [if_neg (show ¬ size < header.length by omega), if_neg (by omega)]

end Call

section Start

variable {w : Nat} {p : FramingParam}

theorem HttpProtocolHeader.length_bytes (h : HttpProtocolHeader) (padding : UInt16) :
    (h.bytes padding).length = sizeofProtocolHeader := by
  simp [bytes, sizeofProtocolHeader]

/-- The room of a block is a packet, rounded up to a word. -/
theorem payloadSize_initPool
    (hw : w = 32 ∨ w = 64) (p : FramingParam) (maxPackets : Nat) (env : InitEnv) :
    initFits w p.mMaxPacketSize = true ∧
      payloadSize w (initPool w p.mMaxPacketSize maxPackets env) =
        Baselib.alignUp w p.mMaxPacketSize := by
  have hmax := p.maxPacketSize_le
  rw [intMax] at hmax
  have hfits : initFits w p.mMaxPacketSize = true := by
    rw [initFits, sizeofHeader, sizeofPtr]
    rcases hw with rfl | rfl
    · exact decide_eq_true (by omega)
    · exact decide_eq_true (by omega)
  refine ⟨hfits, ?_⟩
  obtain ⟨hheader, hlt⟩ := header_le_elemSize hfits maxPackets env
  rw [payloadSize_eq hheader hlt]
  unfold initPool FixedMemoryPool.make Baselib.alignUp sizeofHeader sizeofPtr
  simp only
  rcases hw with rfl | rfl
  · omega
  · omega

/-- `Init` that returns zero has made a pool, which may be without memory. -/
theorem init_zero
    {maxPacketPayload maxPackets : Nat} {env : InitEnv} {mem mem' : Memory} {q : PackageQueue}
    (hinit :
      PackageQueue.new.init w maxPacketPayload maxPackets env mem = some (q, mem', 0)) :
    q = { PackageQueue.new with
          m_sem := some 0, m_pool := some (initPool w maxPacketPayload maxPackets env) } := by
  rw [PackageQueue.init] at hinit
  simp only [PackageQueue.new] at hinit
  split_ifs at hinit
  · simp at hinit
  · simp at hinit
  · simp only [Option.some.injEq, Prod.mk.injEq, and_true] at hinit
    rw [← hinit.1]
    rfl

/-- The queue of a service that could be started. -/
theorem startQueue_inv
    (hw : w = 32 ∨ w = 64) {env : InitEnv} {mem mem' : Memory} {q : PackageQueue}
    (hinit : PackageQueue.new.init w p.mMaxPacketSize 100 env mem = some (q, mem', 0)) :
    ∃ blocks lost pool free,
      (QueueState.start q mem').Inv w (Baselib.alignUp w p.mMaxPacketSize) blocks lost pool
        free := by
  obtain ⟨hfits, hsize⟩ := payloadSize_initPool hw p 100 env
  have hq := init_zero hinit
  have hpool : q.m_pool = some (initPool w p.mMaxPacketSize 100 env) := by rw [hq]
  rw [← hsize]
  cases hmalloc : env.malloc with
  | true =>
      have hvalid : (initPool w p.mMaxPacketSize 100 env).isValid = true := by
        simp [FixedMemoryPool.isValid, initPool, FixedMemoryPool.make, hmalloc]
      exact ⟨_, 0, _, _, QueueState.Inv.start hinit hpool hvalid hfits⟩
  | false =>
      -- no memory: the pool has no block at all
      obtain ⟨hheader, -⟩ := header_le_elemSize hfits 100 env
      refine ⟨[], 0, initPool w p.mMaxPacketSize 100 env, [], ?_⟩
      rw [hq]
      constructor
      · rfl
      · exact hheader
      · rfl
      · show (initPool w p.mMaxPacketSize 100 env).m_freeList = .num 0
        simp [initPool, FixedMemoryPool.make, hmalloc]
      · exact List.nodup_nil
      · exact List.Perm.nil
      · exact fun b hb => absurd hb List.not_mem_nil
      · exact fun pw hpw => absurd hpw List.not_mem_nil
      · rfl
      · exact fun pr hpr => absurd hpr List.not_mem_nil
      · exact ⟨0, rfl, rfl⟩
      · rfl
      · rfl

/--
**When an accepted packet is queued whole.**  In every run of the threads, a call
of `OnReceived` pushes a block with the header and the whole packet, or fails
and pushes nothing, if and only if no block was free when it was called or both
fit in a packet rounded up to a word.
-/
theorem onReceived_whole_iff
    (hw : w = 32 ∨ w = 64) {env : InitEnv} {mem mem' : Memory} {q : PackageQueue}
    (hinit : PackageQueue.new.init w p.mMaxPacketSize 100 env mem = some (q, mem', 0))
    (header : HttpProtocolHeader) (padding : UInt16) {pData : List UInt8}
    (hlen : 0 < pData.length ∧ pData.length ≤ p.mMaxPacketSize) {c : ReceiveCall}
    (hreach :
      Reach (ReceiveCall.step w p.mMaxPacketSize (header.bytes padding) pData) (fun _ _ => True)
        (.start q mem') c)
    {ret : Int} {pushed : Option PacketRead} (hret : c.point = .returned ret pushed) :
    c.point.WholeOrRefused (header.bytes padding) pData ↔
      c.free = false ∨
        sizeofProtocolHeader + pData.length ≤ Baselib.alignUp w p.mMaxPacketSize := by
  have hmax := p.maxPacketSize_le
  have hheader := header.length_bytes padding
  have hwide : sizeofProtocolHeader + p.mMaxPacketSize < 2 ^ w := by
    rw [intMax] at hmax
    rw [sizeofProtocolHeader]
    rcases hw with rfl | rfl <;> omega
  obtain ⟨blocks, hstart⟩ := startQueue_inv hw hinit
  have hinv := ReceiveCall.Inv.run hstart hwide (by omega) hreach
  have hpoint := hinv.point
  have hwhole :
      wrote (Baselib.alignUp w p.mMaxPacketSize)
            (wrote (Baselib.alignUp w p.mMaxPacketSize) [] (header.bytes padding)) pData =
          header.bytes padding ++ pData ↔
        (header.bytes padding).length + pData.length ≤ Baselib.alignUp w p.mMaxPacketSize :=
    wrote_whole_iff hlen.1
  rw [hheader] at hwhole
  rw [hret] at hpoint ⊢
  rcases hpoint with ⟨hfree, rfl, rfl⟩ | ⟨hfree, rfl, buf, rfl⟩
  · exact iff_of_true (.refused (by decide)) (Or.inl hfree)
  · rw [hfree]
    simp only [Bool.true_eq_false, false_or]
    rw [← hwhole]
    constructor
    · intro h
      exact h.bytes_eq
    · intro h
      rw [h]
      exact .whole buf

/-- A service for packets of 16 bytes. -/
def sixteenParam : FramingParam :=
  { mMaxPacketSize := 16
    mPacketSizeOffset := 0
    maxPacketSize_pos := by decide
    maxPacketSize_le := by decide
    packetSizeOffset_le := firstField_le }

/-- The queue of the service. -/
def sixteenQueue : PackageQueue :=
  { PackageQueue.new with
    m_sem := some 0
    m_pool := some (initPool 64 16 100 ⟨true, true, true, 0⟩) }

/-- Its memory. -/
def sixteenMemory : Memory :=
  (initPool 64 16 100 ⟨true, true, true, 0⟩).link 16 fun _ => ⟨.num 0, 0, []⟩

theorem sixteen_init :
    PackageQueue.new.init 64 sixteenParam.mMaxPacketSize 100 ⟨true, true, true, 0⟩
        (fun _ => ⟨.num 0, 0, []⟩) =
      some (sixteenQueue, sixteenMemory, 0) :=
  rfl

/-- Four steps of a call over a queue where every block is free. -/
theorem sixteen_run (pData : List UInt8) (p : ReceiveCall → Bool)
    (h :
      (runAll (ReceiveCall.step 64 16 ((HttpProtocolHeader.mk 1 0 0).bytes 0) pData)
        (fun _ _ => True) (.start sixteenQueue sixteenMemory) [.own, .own, .own, .own]).any p =
          true) :
    ∃ c,
      Reach (ReceiveCall.step 64 sixteenParam.mMaxPacketSize
        ((HttpProtocolHeader.mk 1 0 0).bytes 0) pData) (fun _ _ => True)
        (.start sixteenQueue sixteenMemory) c ∧ p c = true :=
  exists_reach_of_runAll h

theorem onReceived_whole_iff_example :
    ∃ c : ReceiveCall, ∃ ret pushed,
      c.point = .returned ret pushed ∧
        (c.point.WholeOrRefused ((HttpProtocolHeader.mk 1 0 0).bytes 0) [65, 66, 67, 68] ↔
          c.free = false ∨ sizeofProtocolHeader + 4 ≤ Baselib.alignUp 64 16) := by
  obtain ⟨c, hreach, hpoint⟩ :=
    sixteen_run [65, 66, 67, 68]
      (fun c => decide (c.point =
        .returned 0 (some ⟨⟨0, 0⟩, some ((HttpProtocolHeader.mk 1 0 0).bytes 0 ++
          [65, 66, 67, 68])⟩)))
      (by decide +kernel)
  have hret := of_decide_eq_true hpoint
  exact ⟨c, _, _, hret,
    onReceived_whole_iff (Or.inr rfl) sixteen_init ⟨1, 0, 0⟩ 0 (by decide) hreach hret⟩

/-- A packet of 16 bytes is accepted where the maximum is 16, and only its header is queued. -/
theorem onReceived_truncates :
    ∃ c : ReceiveCall,
      Reach (ReceiveCall.step 64 sixteenParam.mMaxPacketSize
        ((HttpProtocolHeader.mk 1 0 0).bytes 0) (List.replicate 16 65)) (fun _ _ => True)
        (.start sixteenQueue sixteenMemory) c ∧
        c.point = .returned 0 (some ⟨⟨0, 0⟩, some ((HttpProtocolHeader.mk 1 0 0).bytes 0)⟩) ∧
          ¬ c.point.WholeOrRefused ((HttpProtocolHeader.mk 1 0 0).bytes 0)
            (List.replicate 16 65) := by
  obtain ⟨c, hreach, hpoint⟩ :=
    sixteen_run (List.replicate 16 65)
      (fun c => decide (c.point =
        .returned 0 (some ⟨⟨0, 0⟩, some ((HttpProtocolHeader.mk 1 0 0).bytes 0)⟩)))
      (by decide +kernel)
  have hret := of_decide_eq_true hpoint
  refine ⟨c, hreach, hret, ?_⟩
  rw [hret]
  intro h
  exact absurd h.bytes_eq (by decide)

end Start

end Http
end IocpNetlib
