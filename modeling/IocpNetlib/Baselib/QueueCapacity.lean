import IocpNetlib.Baselib.PackageQueue
import IocpNetlib.Baselib.PoolAddresses

/-!
# What a successful `Init` of a queue provides

`PackageQueue::Init` and `MessageQueue::Init` compute the size of a block, round
it up and multiply it with the number of blocks without looking whether this
wraps around, and do not ask the new pool whether `malloc` gave it memory.

`Provides` says that as many packets as were asked for can be held at the same
time, each in its own bytes of the memory that `malloc` gave.  The packets are
written by the code of the queues, on a memory of bytes.
-/

namespace IocpNetlib
namespace Baselib
namespace Addresses

open ByteMemory

/-- What the system answers during an `Init`; `malloc` is what `malloc` returns. -/
structure InitAnswers where
  createSemaphore : Bool
  newPool : Bool
  malloc : Nat
deriving DecidableEq, Repr

section Code

variable (w : Nat)

/-- The pool that an `Init` makes, and the memory. -/
def newPool (maxPacketPayload maxPackets malloc : Nat) (mem : Bytes) : FixedMemoryPool × Bytes :=
  construct w ((sizeofHeader w + maxPacketPayload) % 2 ^ w) maxPackets malloc mem

/-- `PackageQueue::Init` of a new queue: what it returns, and the pool with the memory. -/
def packageQueueInit
    (maxPacketPayload maxPackets : Nat) (env : InitAnswers) (mem : Bytes) :
    Nat × Option (FixedMemoryPool × Bytes) :=
  if env.createSemaphore = false then (1, none)
  else if env.newPool = false then (1, none)
  else (0, some (newPool w maxPacketPayload maxPackets env.malloc mem))

/-- `MessageQueue::Init` of a new queue. -/
def messageQueueInit
    (maxPacketPayload maxPackets : Nat) (env : InitAnswers) (mem : Bytes) :
    Nat × Option (FixedMemoryPool × Bytes) :=
  if env.newPool = false then (1, none)
  else (0, some (newPool w maxPacketPayload maxPackets env.malloc mem))

/-- `GetElementSize() - sizeof(WTPacketHeader)`. -/
def FixedMemoryPool.payloadRoom (pool : FixedMemoryPool) : Nat :=
  (pool.m_elemSize + (2 ^ w - sizeofHeader w)) % 2 ^ w

/-- `PacketWrite::Attach`. -/
def attach (mem : Bytes) (buf cap : Nat) : Bytes :=
  storeWord (sizeofPtr w) (storeWord (sizeofPtr w) mem buf 0) (buf + sizeofPtr w) cap

/-- `PacketWrite::Write`. -/
def write (mem : Bytes) (buf : Nat) (data : List UInt8) : Bytes × Bool :=
  let writePos := loadWord (sizeofPtr w) mem buf
  let capacity := loadWord (sizeofPtr w) mem (buf + sizeofPtr w)
  if capacity < (writePos + data.length) % 2 ^ w then (mem, false)
  else
    (storeWord (sizeofPtr w) (storeBytes mem (buf + sizeofHeader w + writePos) data) buf
      ((writePos + data.length) % 2 ^ w), true)

/-- `AllocWritePacket` and one `Write`: the block, and the pool and the memory then. -/
def packageHold (pool : FixedMemoryPool) (mem : Bytes) (data : List UInt8) :
    Option (Nat × FixedMemoryPool × Bytes) :=
  let (buf, pool, mem) := pool.create w mem
  if buf = 0 then none
  else
    let (mem, taken) := write w (attach w mem buf (pool.payloadRoom w)) buf data
    if taken then some (buf, pool, mem) else none

/-- What `MessageQueue::Push` writes to a block. -/
def messageStored (pool : FixedMemoryPool) (mem : Bytes) (buf : Nat) (data : List UInt8) : Bytes :=
  let mem := storeBytes mem (buf + sizeofHeader w) data
  let mem := storeWord (sizeofPtr w) mem buf data.length
  storeWord (sizeofPtr w) mem (buf + sizeofPtr w) (pool.payloadRoom w)

/-- `MessageQueue::Push`: the block it puts into the queue. -/
def messageHold (pool : FixedMemoryPool) (mem : Bytes) (data : List UInt8) :
    Option (Nat × FixedMemoryPool × Bytes) :=
  if pool.payloadRoom w < data.length then none
  else
    let (buf, pool, mem) := pool.create w mem
    if buf = 0 then none else some (buf, pool, messageStored w pool mem buf data)

end Code

/-- How a queue takes a packet. -/
abbrev Hold := FixedMemoryPool → Bytes → List UInt8 → Option (Nat × FixedMemoryPool × Bytes)

/-- Packets that are taken one after the other: their blocks, and the memory. -/
def holdAll (hold : Hold) : FixedMemoryPool → Bytes → List (List UInt8) → Option (List Nat × Bytes)
  | _, mem, [] => some ([], mem)
  | pool, mem, data :: rest =>
      match hold pool mem data with
      | none => none
      | some (buf, pool', mem') =>
          (holdAll hold pool' mem' rest).map fun r => (buf :: r.1, r.2)

/-- The bytes that `malloc` gave. -/
def allocated (w maxPacketPayload maxPackets malloc : Nat) : Nat :=
  if malloc = 0 then 0
  else mallocSize w ((sizeofHeader w + maxPacketPayload) % 2 ^ w) maxPackets

/--
`maxPackets` packets of `maxPacketPayload` bytes are held at the same time: all
are taken, their blocks have no bytes in common and lie in what `malloc` gave,
and each has its bytes when the last one was taken.
-/
def Provides
    (w maxPacketPayload maxPackets malloc : Nat) (hold : Hold) (made : FixedMemoryPool × Bytes) :
    Prop :=
  ∀ datas : List (List UInt8),
    datas.length = maxPackets → (∀ data ∈ datas, data.length = maxPacketPayload) →
      ∃ bufs mem,
        holdAll hold made.1 made.2 datas = some (bufs, mem) ∧
          (bufs.Pairwise fun a b =>
            Apart a (sizeofHeader w + maxPacketPayload) b (sizeofHeader w + maxPacketPayload)) ∧
          (∀ a ∈ bufs,
            malloc ≤ a ∧
              a + (sizeofHeader w + maxPacketPayload) ≤
                malloc + allocated w maxPacketPayload maxPackets malloc) ∧
          List.Forall₂
            (fun buf data => loadBytes mem (buf + sizeofHeader w) data.length = data) bufs datas

/-- An `Init` that returns 0 provides what it was asked for. -/
def InitProvides
    (w maxPacketPayload maxPackets malloc : Nat) (hold : Hold)
    (returned : Nat × Option (FixedMemoryPool × Bytes)) : Prop :=
  returned.1 = 0 →
    ∃ made, returned.2 = some made ∧ Provides w maxPacketPayload maxPackets malloc hold made

/-- None of the three computations of sizes wraps around. -/
def SizesFit (w maxPacketPayload maxPackets : Nat) : Prop :=
  roundUp (sizeofPtr w) (sizeofHeader w + maxPacketPayload) * maxPackets < 2 ^ w

section Holding

variable {w : Nat} {s : State} {free used : List Nat} {i : Nat}

/--
A queue takes a packet that has room: it takes the first free block, writes to
no other one, and the bytes are behind the header.
-/
def TakesPacket (w : Nat) (hold : Hold) : Prop :=
  ∀ {s : State} {i : Nat} {free used : List Nat} {data : List UInt8},
    Owned w s (i :: free) used → s.pool.m_elemSize < 2 ^ w →
      sizeofHeader w + data.length ≤ s.pool.m_elemSize →
        ∃ mem,
          hold s.pool s.mem data = some (s.pool.blockAt i, s.taken w i free, mem) ∧
            SameOutside (s.pool.blockAt i) s.pool.m_elemSize s.mem mem ∧
              loadBytes mem (s.pool.blockAt i + sizeofHeader w) data.length = data

/-- The room for the bytes of a packet, where a header fits in a block. -/
theorem payloadRoom_eq
    {pool : FixedMemoryPool} (hlt : pool.m_elemSize < 2 ^ w)
    (hheader : sizeofHeader w ≤ pool.m_elemSize) :
    pool.payloadRoom w = pool.m_elemSize - sizeofHeader w := by
  have hsum :
      pool.m_elemSize + (2 ^ w - sizeofHeader w) =
        pool.m_elemSize - sizeofHeader w + 2 ^ w := by
    omega
  rw [FixedMemoryPool.payloadRoom]
  rw [hsum, Nat.add_mod_right, Nat.mod_eq_of_lt (by omega)]

theorem Owned.create_cons (h : Owned w s (i :: free) used) :
    s.pool.create w s.mem = (s.pool.blockAt i, s.taken w i free, s.mem) := by
  rw [FixedMemoryPool.create]
  rw [h.allocRaw_cons]

/-- `Push` writes to no other block. -/
theorem messageStored_sameOutside
    {pool : FixedMemoryPool} {buf : Nat} {data : List UInt8} (mem : Bytes)
    (hfits : sizeofHeader w + data.length ≤ pool.m_elemSize) :
    SameOutside buf pool.m_elemSize mem (messageStored w pool mem buf data) := by
  rw [sizeofHeader] at hfits
  rw [messageStored, sizeofHeader]
  refine (((SameOutside.refl _ _ mem).store ?_ ?_).storeWord ?_ ?_).storeWord ?_ ?_ <;> omega

/-- The bytes of a message are behind its header. -/
theorem loadBytes_messageStored
    (pool : FixedMemoryPool) (mem : Bytes) (buf : Nat) (data : List UInt8) :
    loadBytes (messageStored w pool mem buf data) (buf + sizeofHeader w) data.length = data := by
  unfold messageStored sizeofHeader storeWord
  rw [loadBytes_storeBytes_apart (.inl (by rw [ByteBlock.length_leBytes]; omega)),
    loadBytes_storeBytes_apart (.inl (by rw [ByteBlock.length_leBytes]; omega)),
    loadBytes_storeBytes_self]

theorem messageHold_takes (w : Nat) : TakesPacket w (messageHold w) := by
  intro s i free used data h hlt hfits
  have hne := h.placed.blockAt_ne i
  have hroom := payloadRoom_eq hlt (Nat.le_trans (Nat.le_add_right _ _) hfits)
  refine
    ⟨messageStored w s.pool s.mem (s.pool.blockAt i) data, ?_,
      messageStored_sameOutside s.mem hfits, loadBytes_messageStored _ _ _ _⟩
  rw [messageHold]
  rw [if_neg (by omega), h.create_cons]
  simp only [if_neg hne]
  rfl

/-- The header that `Attach` writes, as `Write` reads it. -/
theorem loadWord_attach
    (mem : Bytes) (buf : Nat) {cap : Nat} (hword : 256 ^ sizeofPtr w = 2 ^ w) (hcap : cap < 2 ^ w) :
    loadWord (sizeofPtr w) (attach w mem buf cap) buf = 0 ∧
      loadWord (sizeofPtr w) (attach w mem buf cap) (buf + sizeofPtr w) = cap := by
  rw [attach]
  constructor
  · rw [loadWord_storeWord_apart (.inr (Nat.le_refl _)),
      loadWord_storeWord_self (by rw [hword]; exact Nat.two_pow_pos w)]
  · exact loadWord_storeWord_self (by rwa [hword])

/-- The first `Write` to a packet that has room for it. -/
theorem write_attach
    (mem : Bytes) (buf : Nat) {cap : Nat} {data : List UInt8} (hword : 256 ^ sizeofPtr w = 2 ^ w)
    (hcap : cap < 2 ^ w) (hlen : data.length ≤ cap) :
    write w (attach w mem buf cap) buf data =
      (storeWord (sizeofPtr w) (storeBytes (attach w mem buf cap) (buf + sizeofHeader w) data) buf
        data.length, true) := by
  obtain ⟨hpos, hcapacity⟩ := loadWord_attach mem buf hword hcap
  have hmod : (0 + data.length) % 2 ^ w = data.length := by
    rw [Nat.zero_add, Nat.mod_eq_of_lt (by omega)]
  rw [write]
  simp only [hpos, hcapacity, hmod, Nat.add_zero]
  rw [if_neg (by omega)]

theorem packageHold_takes (w : Nat) : TakesPacket w (packageHold w) := by
  intro s i free used data h hlt hfits
  have hne := h.placed.blockAt_ne i
  have hroom := payloadRoom_eq hlt (Nat.le_trans (Nat.le_add_right _ _) hfits)
  have hwrite :=
    write_attach s.mem (s.pool.blockAt i) h.placed.word
      (show s.pool.payloadRoom w < 2 ^ w by omega)
      (show data.length ≤ s.pool.payloadRoom w by omega)
  refine
    ⟨(write w (attach w s.mem (s.pool.blockAt i) (s.pool.payloadRoom w)) (s.pool.blockAt i)
      data).1, ?_, ?_, ?_⟩
  · have hsame : (s.taken w i free).payloadRoom w = s.pool.payloadRoom w := rfl
    rw [packageHold]
    rw [h.create_cons]
    simp only [if_neg hne, hsame, hwrite, if_true]
  · rw [hwrite]
    rw [sizeofHeader] at *
    rw [attach]
    refine
      ((((SameOutside.refl _ _ _).storeWord ?_ ?_).storeWord ?_ ?_).store ?_ ?_).storeWord ?_ ?_
        <;> omega
  · rw [hwrite]
    rw [storeWord]
    rw [loadBytes_storeBytes_apart (.inl _), loadBytes_storeBytes_self]
    rw [ByteBlock.length_leBytes]
    rw [sizeofHeader]
    omega

/-- Packets are taken as long as there are free blocks, and none is overwritten by a later one. -/
theorem holdAll_takes
    {hold : Hold} (htakes : TakesPacket w hold) {datas : List (List UInt8)}
    (h : Owned w s free used) (hlt : s.pool.m_elemSize < 2 ^ w)
    (hfits : ∀ data ∈ datas, sizeofHeader w + data.length ≤ s.pool.m_elemSize)
    (hlen : datas.length ≤ free.length) :
    ∃ mem,
      holdAll hold s.pool s.mem datas =
          some ((free.take datas.length).map s.pool.blockAt, mem) ∧
        (∀ j ∈ used, ∀ off n, off + n ≤ s.pool.m_elemSize →
          loadBytes mem (s.pool.blockAt j + off) n = loadBytes s.mem (s.pool.blockAt j + off) n) ∧
        List.Forall₂ (fun buf data => loadBytes mem (buf + sizeofHeader w) data.length = data)
          ((free.take datas.length).map s.pool.blockAt) datas := by
  induction datas generalizing s free used with
  | nil => exact ⟨s.mem, by simp [holdAll], fun _ _ _ _ _ => rfl, by simp⟩
  | cons data rest ih =>
      cases free with
      | nil => simp at hlen
      | cons i free =>
          have hdata := hfits data List.mem_cons_self
          obtain ⟨mem₁, hhold, hsame, hbytes⟩ := htakes h hlt hdata
          have htaken := h.taken.sameOutside List.mem_cons_self hsame
          obtain ⟨mem, hall, hframe, hrest⟩ :=
            ih htaken hlt (fun d hd => hfits d (List.mem_cons_of_mem data hd))
              (Nat.le_of_succ_le_succ hlen)
          refine ⟨mem, ?_, fun j hj off n hoff => ?_, ?_⟩
          · rw [holdAll]
            rw [hhold]
            simp only [hall, Option.map_some, List.length_cons, List.take_succ_cons, List.map_cons]
            rfl
          · have hij : i ≠ j := by
              rintro rfl
              exact h.not_free hj List.mem_cons_self
            have hapart :
                Apart (s.pool.blockAt i) s.pool.m_elemSize (s.pool.blockAt j + off) n :=
              (apart_blockAt s.pool hij).mono (Nat.le_refl _) (Nat.le_refl _)
                (Nat.le_add_right _ off) (by omega)
            exact
              (hframe j (List.mem_cons_of_mem i hj) off n hoff).trans (hsame.loadBytes_eq hapart)
          · exact List.Forall₂.cons
              ((hframe i List.mem_cons_self (sizeofHeader w) data.length hdata).trans hbytes) hrest

end Holding

section Sizes

variable {w maxPacketPayload maxPackets malloc : Nat}

/-- Sizes that fit are what the constructor computes with. -/
theorem SizesFit.sizes
    (hw : w = 32 ∨ w = 64) (hpos : 0 < maxPackets)
    (hfits : SizesFit w maxPacketPayload maxPackets) :
    (sizeofHeader w + maxPacketPayload) % 2 ^ w = sizeofHeader w + maxPacketPayload ∧
      max (sizeofPtr w) (sizeofHeader w + maxPacketPayload) =
        sizeofHeader w + maxPacketPayload := by
  obtain ⟨-, hptr, -⟩ := word_of_build hw
  have hround := Nat.lt_of_le_of_lt (Nat.le_mul_of_pos_right _ hpos) hfits
  have hle := le_roundUp hptr (sizeofHeader w + maxPacketPayload)
  refine ⟨Nat.mod_eq_of_lt (by omega), ?_⟩
  rw [sizeofHeader]
  omega

/-- The block of a size that fits has room for it. -/
theorem SizesFit.elementSize
    (hw : w = 32 ∨ w = 64) (hpos : 0 < maxPackets)
    (hfits : SizesFit w maxPacketPayload maxPackets) :
    sizeofHeader w + maxPacketPayload ≤ elementSize w (sizeofHeader w + maxPacketPayload) ∧
      elementSize w (sizeofHeader w + maxPacketPayload) < 2 ^ w ∧
        mallocSize w (sizeofHeader w + maxPacketPayload) maxPackets =
          elementSize w (sizeofHeader w + maxPacketPayload) * maxPackets := by
  obtain ⟨-, hptr, -⟩ := word_of_build hw
  have hround := Nat.lt_of_le_of_lt (Nat.le_mul_of_pos_right _ hpos) hfits
  have hmax := (hfits.sizes hw hpos).2
  have helem :
      Addresses.elementSize w (sizeofHeader w + maxPacketPayload) =
        roundUp (sizeofPtr w) (sizeofHeader w + maxPacketPayload) := by
    rw [elementSize_eq hw (by rwa [hmax]), hmax]
  rw [mallocSize]
  rw [helem, Nat.mod_eq_of_lt hfits]
  exact ⟨le_roundUp hptr _, hround, rfl⟩

/-- Where the sizes fit, and there was memory, the packets can be held. -/
theorem SizesFit.provides
    (hw : w = 32 ∨ w = 64) (hpos : 0 < maxPackets)
    (hfits : SizesFit w maxPacketPayload maxPackets)
    (hmalloc :
      Malloced w malloc (mallocSize w ((sizeofHeader w + maxPacketPayload) % 2 ^ w) maxPackets))
    {hold : Hold} (htakes : TakesPacket w hold) (mem : Bytes) :
    Provides w maxPacketPayload maxPackets malloc hold
      (newPool w maxPacketPayload maxPackets malloc mem) := by
  intro datas hlen hpayload
  obtain ⟨hmod, hmax⟩ := hfits.sizes hw hpos
  obtain ⟨hge, hlt, hasked⟩ := hfits.elementSize hw hpos
  rw [newPool, allocated]
  rw [hmod] at hmalloc ⊢
  rw [if_neg hmalloc.ne, hasked]
  have hproduct :
      roundUp (sizeofPtr w) (max (sizeofPtr w) (sizeofHeader w + maxPacketPayload)) * maxPackets <
        2 ^ w := by
    rw [hmax]
    exact hfits
  have howned := owned_init hw hpos hproduct hmalloc mem
  have hpool :
      (init w (sizeofHeader w + maxPacketPayload) maxPackets malloc mem).pool = _ :=
    pool_init hmalloc.ne mem
  have hcount : datas.length = (List.range maxPackets).length :=
    hlen.trans List.length_range.symm
  obtain ⟨mem', hall, -, hbytes⟩ :=
    holdAll_takes htakes howned (by rw [hpool]; exact hlt)
      (fun data hd => by rw [hpool, hpayload data hd]; exact hge) (Nat.le_of_eq hcount)
  rw [List.take_of_length_le (Nat.le_of_eq hcount.symm)] at hall hbytes
  refine ⟨_, mem', hall, ?_, ?_, hbytes⟩
  · rw [List.pairwise_map, hpool]
    refine List.nodup_range.imp fun hij => (apart_blockAt _ hij).mono (Nat.le_refl _) ?_
      (Nat.le_refl _) ?_
    · exact Nat.add_le_add_left hge _
    · exact Nat.add_le_add_left hge _
  · intro a ha
    obtain ⟨i, hi, rfl⟩ := List.mem_map.mp ha
    have hend := blockAt_end (howned.lt_of_free hi)
    rw [hpool] at hend ⊢
    exact ⟨Nat.le_add_right _ _, Nat.le_trans (Nat.add_le_add_left hge _) hend⟩

/-- The pool that the queues use by its blocks is the one on the memory of bytes. -/
theorem SizesFit.refines
    (hw : w = 32 ∨ w = 64) (hpos : 0 < maxPackets)
    (hfits : SizesFit w maxPacketPayload maxPackets)
    (hmalloc :
      Malloced w malloc (mallocSize w ((sizeofHeader w + maxPacketPayload) % 2 ^ w) maxPackets))
    (bytes : Bytes) {env : InitEnv} (hgave : env.malloc = true) (payloadSize : Nat)
    (mem : Memory) :
    Refines w (init w ((sizeofHeader w + maxPacketPayload) % 2 ^ w) maxPackets malloc bytes)
      (initPool w maxPacketPayload maxPackets env)
      ((initPool w maxPacketPayload maxPackets env).link payloadSize mem)
      (List.range maxPackets) [] := by
  obtain ⟨hmod, hmax⟩ := hfits.sizes hw hpos
  rw [initPool]
  rw [hgave]
  refine refines_make hw hpos ?_ hmalloc bytes env.id payloadSize mem
  rw [hmod, hmax]
  exact hfits

/-- Where there is room for the packets, none of the sizes wrapped around. -/
theorem sizesFit_of_room
    (hw : w = 32 ∨ w = 64) (hpos : 0 < maxPackets)
    (hroom :
      maxPackets * (sizeofHeader w + maxPacketPayload) ≤
        mallocSize w ((sizeofHeader w + maxPacketPayload) % 2 ^ w) maxPackets) :
    SizesFit w maxPacketPayload maxPackets := by
  obtain ⟨-, hptr, -⟩ := word_of_build hw
  rw [mallocSize, elementSize, alignUp] at hroom
  rw [SizesFit]
  have hheader : 2 * sizeofPtr w ≤ sizeofHeader w + maxPacketPayload := Nat.le_add_right _ _
  generalize sizeofHeader w + maxPacketPayload = n at hroom hheader ⊢
  have hlt : n < 2 ^ w := by
    have hle := Nat.le_mul_of_pos_left n hpos
    have hmod := Nat.mod_lt
      ((max (sizeofPtr w) (n % 2 ^ w) + (sizeofPtr w - 1)) % 2 ^ w / sizeofPtr w * sizeofPtr w *
        maxPackets) (Nat.two_pow_pos w)
    omega
  have hmax : max (sizeofPtr w) n = n := by omega
  rw [Nat.mod_eq_of_lt hlt, hmax] at hroom
  have hproduct := Nat.mul_pos hpos (show 0 < n by omega)
  by_cases hsum : n + (sizeofPtr w - 1) < 2 ^ w
  · -- the rounding adds less than the size, so the product cannot wrap around and still be enough
    rw [Nat.mod_eq_of_lt hsum] at hroom
    change maxPackets * n ≤ roundUp (sizeofPtr w) n * maxPackets % 2 ^ w at hroom
    by_contra hwrap
    have hbelow : maxPackets * n < 2 ^ w :=
      Nat.lt_of_le_of_lt hroom (Nat.mod_lt _ (Nat.two_pow_pos w))
    have hup : roundUp (sizeofPtr w) n ≤ n + (sizeofPtr w - 1) := Nat.div_mul_le_self _ _
    have hdouble : roundUp (sizeofPtr w) n * maxPackets ≤ 2 * (maxPackets * n) := by
      have hle := Nat.mul_le_mul_right maxPackets (show roundUp (sizeofPtr w) n ≤ 2 * n by omega)
      rwa [Nat.mul_assoc, Nat.mul_comm n] at hle
    rw [Nat.mod_eq_sub_mod (by omega), Nat.mod_eq_of_lt (by omega)] at hroom
    omega
  · -- the rounding wraps around to nothing
    have hsmall : (n + (sizeofPtr w - 1)) % 2 ^ w < sizeofPtr w := by
      rw [Nat.mod_eq_sub_mod (by omega), Nat.mod_eq_of_lt (by omega)]
      omega
    rw [Nat.div_eq_of_lt hsmall, Nat.zero_mul, Nat.zero_mul, Nat.zero_mod] at hroom
    omega

/-- Packets that are held have room. -/
theorem Provides.room
    {hold : Hold} {made : FixedMemoryPool × Bytes}
    (h : Provides w maxPacketPayload maxPackets malloc hold made) :
    maxPackets * (sizeofHeader w + maxPacketPayload) ≤
      allocated w maxPacketPayload maxPackets malloc := by
  obtain ⟨bufs, mem, -, hapart, hin, hbytes⟩ :=
    h (List.replicate maxPackets (List.replicate maxPacketPayload 0)) List.length_replicate
      fun data hd => by rw [List.eq_of_mem_replicate hd, List.length_replicate]
  have hlen := hbytes.length_eq
  rw [List.length_replicate] at hlen
  have hmul := length_mul_le_of_apart hapart hin
  rwa [hlen] at hmul

/-- A new pool has room for the packets if and only if there was memory and the sizes fit. -/
theorem provides_iff
    (hw : w = 32 ∨ w = 64) (hpos : 0 < maxPackets)
    (hmalloc :
      malloc ≠ 0 →
        Malloced w malloc
          (mallocSize w ((sizeofHeader w + maxPacketPayload) % 2 ^ w) maxPackets))
    {hold : Hold} (htakes : TakesPacket w hold) (mem : Bytes) :
    Provides w maxPacketPayload maxPackets malloc hold
        (newPool w maxPacketPayload maxPackets malloc mem) ↔
      malloc ≠ 0 ∧ SizesFit w maxPacketPayload maxPackets := by
  obtain ⟨-, hptr, -⟩ := word_of_build hw
  constructor
  · intro h
    have hroom := h.room
    rw [allocated] at hroom
    split_ifs at hroom with hnull
    · have hheader : 0 < maxPackets * (sizeofHeader w + maxPacketPayload) :=
        Nat.mul_pos hpos (by unfold sizeofHeader; omega)
      omega
    · exact ⟨hnull, sizesFit_of_room hw hpos hroom⟩
  · rintro ⟨hne, hfits⟩
    exact hfits.provides hw hpos (hmalloc hne) htakes mem

/--
An `Init` that returns 0 provides what it was asked for if and only if one of
its own checks fails, so that it does not return 0, or there was memory and
none of the sizes wraps around.
-/
theorem init_provides_iff
    (env : InitAnswers) (hw : w = 32 ∨ w = 64) (hpos : 0 < maxPackets)
    (hmalloc :
      env.malloc ≠ 0 →
        Malloced w env.malloc
          (mallocSize w ((sizeofHeader w + maxPacketPayload) % 2 ^ w) maxPackets))
    (mem : Bytes) :
    (InitProvides w maxPacketPayload maxPackets env.malloc (packageHold w)
        (packageQueueInit w maxPacketPayload maxPackets env mem) ↔
      env.createSemaphore = false ∨ env.newPool = false ∨
        env.malloc ≠ 0 ∧ SizesFit w maxPacketPayload maxPackets) ∧
    (InitProvides w maxPacketPayload maxPackets env.malloc (messageHold w)
        (messageQueueInit w maxPacketPayload maxPackets env mem) ↔
      env.newPool = false ∨
        env.malloc ≠ 0 ∧ SizesFit w maxPacketPayload maxPackets) := by
  have hpackage := provides_iff hw hpos hmalloc (packageHold_takes w) mem
  have hmessage := provides_iff hw hpos hmalloc (messageHold_takes w) mem
  unfold InitProvides packageQueueInit messageQueueInit
  constructor
  · split_ifs with hsem hnew
    · simp [hsem]
    · simp [hnew]
    · simp [hsem, hnew, hpackage]
  · split_ifs with hnew
    · simp [hnew]
    · simp [hnew, hmessage]

end Sizes

/-- Two packets of 16 bytes, for which there is memory. -/
theorem init_provides_iff_example :
    InitProvides 64 16 2 4096 (packageHold 64)
      (packageQueueInit 64 16 2 ⟨true, true, 4096⟩ fun _ => 0) := by
  have hmalloc :
      (4096 : Nat) ≠ 0 → Malloced 64 4096 (mallocSize 64 ((sizeofHeader 64 + 16) % 2 ^ 64) 2) :=
    fun _ => ⟨by decide, by decide, by decide⟩
  have hfits : SizesFit 64 16 2 := by
    rw [SizesFit]
    decide
  exact
    (init_provides_iff ⟨true, true, 4096⟩ (.inr rfl) (by decide) hmalloc _).1.mpr
      (.inr (.inr ⟨by decide, hfits⟩))

/-- There is no memory, and both queues return 0. -/
theorem init_without_memory :
    ¬ InitProvides 64 16 2 0 (packageHold 64)
        (packageQueueInit 64 16 2 ⟨true, true, 0⟩ fun _ => 0) ∧
    ¬ InitProvides 64 16 2 0 (messageHold 64)
        (messageQueueInit 64 16 2 ⟨true, true, 0⟩ fun _ => 0) := by
  have hnone (hold : Hold) (made : FixedMemoryPool × Bytes) : ¬ Provides 64 16 2 0 hold made :=
    fun h => absurd h.room (by decide)
  constructor
  · intro h
    obtain ⟨made, -, hmade⟩ := h rfl
    exact hnone _ made hmade
  · intro h
    obtain ⟨made, -, hmade⟩ := h rfl
    exact hnone _ made hmade

end Addresses
end Baselib
end IocpNetlib
