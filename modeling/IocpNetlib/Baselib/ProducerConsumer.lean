import IocpNetlib.Baselib.PackageQueue
import IocpNetlib.Lib.Reach
import Mathlib.Data.List.Perm.Basic

/-!
# Producers and consumers of a `PackageQueue`

Any number of threads allocate packets, write to them and push them; any number
of threads wait for the semaphore, take the front packet and later destroy it.
A state holds the queue, the packets of both sides, the consumers between `Wait`
and the lock, and what was pushed and popped so far.
-/

namespace IocpNetlib
namespace Baselib

open ByteBlock Reachability

/-- A `PacketWrite` with its block, and the bytes of its accepted `Write`s. -/
structure PacketWrite where
  m_buf : BlockID
  written : List UInt8
deriving DecidableEq, Repr

/-- A `PacketRead` with its block, and the bytes it showed when it was attached. -/
structure PacketRead where
  m_buf : BlockID
  bytes : Option (List UInt8)
deriving DecidableEq, Repr

/-- The packet that a reader of a pushed packet should see. -/
def PacketWrite.sent (pw : PacketWrite) : PacketRead :=
  { m_buf := pw.m_buf
    bytes := some pw.written }

/-- The packet that a reader of a block sees. -/
def PacketRead.attach (mem : Memory) (buf : BlockID) : PacketRead :=
  { m_buf := buf
    bytes := packetBytes mem buf }

/-- A queue in use. -/
structure QueueState where
  queue : PackageQueue
  mem : Memory
  writers : List PacketWrite
  waiting : Nat
  readers : List PacketRead
  pushed : List PacketWrite
  popped : List PacketRead
  popEmpty : Nat
  broken : Bool

/-- The state after an `Init`. -/
def QueueState.start (queue : PackageQueue) (mem : Memory) : QueueState :=
  { queue := queue
    mem := mem
    writers := []
    waiting := 0
    readers := []
    pushed := []
    popped := []
    popEmpty := 0
    broken := false }

/-- The steps of the threads. -/
inductive QueueOp
  | alloc
  | write (i : Nat) (data : List UInt8)
  | push (i : Nat)
  | wait
  | popLocked
  | release (i : Nat)

/--
One step.  `broken` is set by a step that uses memory outside the blocks of the
pool; a `Wait` that times out changes nothing.
-/
def QueueState.step (w : Nat) (s : QueueState) : QueueOp → Option QueueState
  | .alloc =>
      match s.queue.allocWritePacket w s.mem with
      | none => some { s with broken := true }
      | some (q, mem, none) => some { s with queue := q, mem := mem }
      | some (q, mem, some buf) =>
          some { s with queue := q, mem := mem, writers := s.writers ++ [⟨buf, []⟩] }
  | .write i data =>
      match s.writers[i]? with
      | none => none
      | some pw =>
          match Baselib.write w s.mem pw.m_buf data with
          | none => some { s with broken := true }
          | some (mem, false) => some { s with mem := mem }
          | some (mem, true) =>
              some
                { s with
                  mem := mem
                  writers := s.writers.eraseIdx i ++ [⟨pw.m_buf, pw.written ++ data⟩] }
  | .push i =>
      match s.writers[i]? with
      | none => none
      | some pw =>
          some
            { s with
              queue := (s.queue.push (some pw.m_buf)).1
              writers := s.writers.eraseIdx i
              pushed := s.pushed ++ [pw] }
  | .wait =>
      match s.queue.m_sem.wait with
      | none => none
      | some sem =>
          some { s with queue := { s.queue with m_sem := sem }, waiting := s.waiting + 1 }
  | .popLocked =>
      match s.waiting with
      | 0 => none
      | waiting + 1 =>
          match s.queue.popLocked with
          | (q, _, some buf) =>
              some
                { s with
                  queue := q
                  waiting := waiting
                  readers := s.readers ++ [.attach s.mem buf]
                  popped := s.popped ++ [.attach s.mem buf] }
          | (q, _, none) =>
              some { s with queue := q, waiting := waiting, popEmpty := s.popEmpty + 1 }
  | .release i =>
      match s.readers[i]? with
      | none => none
      | some pr =>
          some
            { s with
              queue := (s.queue.release s.mem pr.m_buf).1
              mem := (s.queue.release s.mem pr.m_buf).2
              readers := s.readers.eraseIdx i }

/-- The blocks of writers, of a queue and of readers. -/
def heldBy (writers : List PacketWrite) (queue : List BlockID) (readers : List PacketRead) :
    List BlockID :=
  writers.map (·.m_buf) ++ queue ++ readers.map (·.m_buf)

/-- The blocks that are not free. -/
def QueueState.held (s : QueueState) : List BlockID :=
  heldBy s.writers s.queue.m_queue s.readers

/-- A `Write` does not wrap around. -/
def QueueState.writeFits (w : Nat) (s : QueueState) : QueueOp → Prop
  | .write i data =>
      ∀ pw, s.writers[i]? = some pw → pw.written.length + data.length < 2 ^ w
  | _ => True

/-- Nor does the semaphore stay behind a `Push`. -/
def QueueState.counted (w : Nat) (s : QueueState) (op : QueueOp) : Prop :=
  s.writeFits w op ∧
    match op with
    | .push _ => ∀ count, s.queue.m_sem = some count → count < semaphoreMax
    | _ => True

instance (w : Nat) (s : QueueState) (op : QueueOp) : Decidable (s.writeFits w op) :=
  match op with
  | .write i data =>
      inferInstanceAs
        (Decidable (∀ pw ∈ s.writers[i]?, pw.written.length + data.length < 2 ^ w))
  | .alloc | .push _ | .wait | .popLocked | .release _ => isTrue trivial

instance (w : Nat) (s : QueueState) (op : QueueOp) : Decidable (s.counted w op) :=
  match op with
  | .push _ =>
      inferInstanceAs (Decidable (True ∧ ∀ count ∈ s.queue.m_sem, count < semaphoreMax))
  | .write i data =>
      inferInstanceAs (Decidable (s.writeFits w (.write i data) ∧ True))
  | .alloc | .wait | .popLocked | .release _ => isTrue ⟨trivial, trivial⟩

/-- Nothing is lost, duplicated or reordered, and no consumer is woken for nothing. -/
structure QueueState.Conserved (blocks : List BlockID) (s : QueueState) : Prop where
  blocks :
    ∃ pool free, s.queue.m_pool = some pool ∧ pool.Free s.mem free ∧
      (free ++ s.held).Nodup ∧ (free ++ s.held).Perm blocks
  order :
    s.pushed.map (·.sent) = s.popped ++ s.queue.m_queue.map (.attach s.mem)
  readers : ∀ pr ∈ s.readers, pr ∈ s.popped ∧ packetBytes s.mem pr.m_buf = pr.bytes
  count : ∃ count, s.queue.m_sem = some count ∧ count + s.waiting = s.queue.m_queue.length
  popEmpty : s.popEmpty = 0
  sound : s.broken = false

/-- A block holds exactly the bytes that were written to its packet. -/
structure PacketWrite.Filled (size : Nat) (mem : Memory) (pw : PacketWrite) : Prop where
  writePos : (mem pw.m_buf).writePos = .num pw.written.length
  bytes : (mem pw.m_buf).payload.take pw.written.length = pw.written
  bound : pw.written.length ≤ size
  capacity : (mem pw.m_buf).capacity = size

/--
The invariant, for one pool and one order of its free blocks, after `lost` calls
of `ReleaseSemaphore` failed.
-/
structure QueueState.Inv
    (w size : Nat) (blocks : List BlockID) (lost : Nat) (pool : FixedMemoryPool)
    (free : List BlockID) (s : QueueState) : Prop where
  m_pool : s.queue.m_pool = some pool
  header : sizeofHeader w ≤ pool.m_elemSize
  capacity : payloadSize w pool = size
  linked : pool.Free s.mem free
  nodup : (free ++ s.held).Nodup
  perm : (free ++ s.held).Perm blocks
  payload : ∀ b ∈ blocks, (s.mem b).payload.length = size
  writers : ∀ pw ∈ s.writers, pw.Filled size s.mem
  order : s.pushed.map (·.sent) = s.popped ++ s.queue.m_queue.map (.attach s.mem)
  readers : ∀ pr ∈ s.readers, pr ∈ s.popped ∧ packetBytes s.mem pr.m_buf = pr.bytes
  count : ∃ count, s.queue.m_sem = some count ∧ count + s.waiting + lost = s.queue.m_queue.length
  popEmpty : s.popEmpty = 0
  sound : s.broken = false

section Packets

variable {size : Nat} {mem : Memory} {b : BlockID} {x : PacketBlock}

/-- A writer's block shows what its reader should see. -/
theorem PacketWrite.Filled.attach_eq
    {pw : PacketWrite} (h : pw.Filled size mem) :
    PacketRead.attach mem pw.m_buf = pw.sent := by
  rw [PacketRead.attach, packetBytes, PacketWrite.sent]
  rw [h.writePos]
  simp only [h.bytes]

/-- A write to another block does not change what a block shows. -/
theorem packetBytes_update {c : BlockID} (hne : c ≠ b) :
    packetBytes (Function.update mem b x) c = packetBytes mem c := by
  unfold packetBytes
  rw [Function.update_of_ne hne]

theorem PacketWrite.Filled.update
    {pw : PacketWrite} (h : pw.Filled size mem) (hne : pw.m_buf ≠ b) :
    pw.Filled size (Function.update mem b x) := by
  have hsame : Function.update mem b x pw.m_buf = mem pw.m_buf :=
    Function.update_of_ne hne x mem
  constructor
  · rw [hsame]
    exact h.writePos
  · rw [hsame]
    exact h.bytes
  · exact h.bound
  · rw [hsame]
    exact h.capacity

theorem filled_update
    {writers : List PacketWrite} (h : ∀ pw ∈ writers, pw.Filled size mem)
    (hb : b ∉ writers.map PacketWrite.m_buf) :
    ∀ pw ∈ writers, pw.Filled size (Function.update mem b x) := by
  intro pw hpw
  have hne : pw.m_buf ≠ b := fun he => hb (he ▸ List.mem_map_of_mem hpw)
  exact (h pw hpw).update hne

theorem attach_update {queue : List BlockID} (hb : b ∉ queue) :
    queue.map (.attach (Function.update mem b x)) = queue.map (PacketRead.attach mem) := by
  refine List.map_congr_left fun c hc => ?_
  have hne : c ≠ b := fun he => hb (he ▸ hc)
  unfold PacketRead.attach
  rw [packetBytes_update hne]

theorem shown_update
    {readers popped : List PacketRead}
    (h : ∀ pr ∈ readers, pr ∈ popped ∧ packetBytes mem pr.m_buf = pr.bytes)
    (hb : b ∉ readers.map PacketRead.m_buf) :
    ∀ pr ∈ readers,
      pr ∈ popped ∧ packetBytes (Function.update mem b x) pr.m_buf = pr.bytes := by
  intro pr hpr
  have hne : pr.m_buf ≠ b := fun he => hb (he ▸ List.mem_map_of_mem hpr)
  rw [packetBytes_update hne]
  exact h pr hpr

theorem payload_update
    {blocks : List BlockID} (h : ∀ b ∈ blocks, (mem b).payload.length = size)
    (hx : x.payload.length = (mem b).payload.length) :
    ∀ c ∈ blocks, (Function.update mem b x c).payload.length = size := by
  intro c hc
  by_cases he : c = b
  · subst he
    rw [Function.update_self, hx]
    exact h c hc
  · rw [Function.update_of_ne he]
    exact h c hc

/-- An element of a list, and the others. -/
theorem perm_eraseIdx {α : Type} {l : List α} {i : Nat} {a : α} (h : l[i]? = some a) :
    l.Perm (a :: l.eraseIdx i) := by
  obtain ⟨hi, rfl⟩ := List.getElem?_eq_some_iff.mp h
  exact (List.getElem_cons_eraseIdx_perm hi).symm

section Held

variable {writers : List PacketWrite} {queue : List BlockID} {readers : List PacketRead}

theorem mem_heldBy {c : BlockID} :
    c ∈ heldBy writers queue readers ↔
      (c ∈ writers.map PacketWrite.m_buf ∨ c ∈ queue) ∨ c ∈ readers.map PacketRead.m_buf := by
  simp only [heldBy, List.mem_append]

theorem heldBy_writer
    {i : Nat} {pw : PacketWrite} (hi : writers[i]? = some pw) :
    (heldBy writers queue readers).Perm
      (pw.m_buf :: heldBy (writers.eraseIdx i) queue readers) := by
  have hperm := (perm_eraseIdx hi).map PacketWrite.m_buf
  exact (hperm.append_right queue).append_right _

theorem heldBy_reader
    {i : Nat} {pr : PacketRead} (hi : readers[i]? = some pr) :
    (heldBy writers queue readers).Perm
      (pr.m_buf :: heldBy writers queue (readers.eraseIdx i)) := by
  have hperm := (perm_eraseIdx hi).map PacketRead.m_buf
  exact (hperm.append_left _).trans List.perm_middle

theorem heldBy_newWriter (pw : PacketWrite) :
    (heldBy (writers ++ [pw]) queue readers).Perm
      (pw.m_buf :: heldBy writers queue readers) := by
  have hperm : (writers ++ [pw]).Perm (pw :: writers) :=
    List.perm_append_comm
  exact ((hperm.map PacketWrite.m_buf).append_right queue).append_right _

theorem heldBy_newReader (pr : PacketRead) :
    (heldBy writers queue (readers ++ [pr])).Perm
      (pr.m_buf :: heldBy writers queue readers) := by
  have hperm : (readers ++ [pr]).Perm (pr :: readers) :=
    List.perm_append_comm
  exact ((hperm.map PacketRead.m_buf).append_left _).trans List.perm_middle

theorem heldBy_front (c : BlockID) :
    (heldBy writers (c :: queue) readers).Perm (c :: heldBy writers queue readers) :=
  (List.perm_middle.append_right _)

theorem heldBy_back (c : BlockID) :
    (heldBy writers (queue ++ [c]) readers).Perm (c :: heldBy writers queue readers) := by
  have hperm : (queue ++ [c]).Perm (c :: queue) :=
    List.perm_append_comm
  exact ((hperm.append_left _).append_right _).trans (heldBy_front c)

end Held

end Packets

section Invariant

variable {w size lost : Nat} {blocks free : List BlockID} {pool : FixedMemoryPool}
variable {s s' : QueueState}

/-- Without a free block `AllocWritePacket` gives none. -/
theorem QueueState.Inv.allocWritePacket_nil
    (h : s.Inv w size blocks lost pool []) :
    s.queue.allocWritePacket w s.mem = some (s.queue, s.mem, none) := by
  rw [PackageQueue.allocWritePacket]
  rw [h.m_pool]
  simp only [h.linked.allocRaw_nil, ← h.m_pool]

/-- Otherwise it attaches the packet to the first one. -/
theorem QueueState.Inv.allocWritePacket_cons
    {b : BlockID} (h : s.Inv w size blocks lost pool (b :: free)) :
    s.queue.allocWritePacket w s.mem =
      some ({ s.queue with m_pool := some (pool.taken s.mem b) },
        attach s.mem b size, some b) := by
  obtain ⟨hraw, -⟩ := h.linked.allocRaw_cons
  have hsize : payloadSize w (pool.taken s.mem b) = size := h.capacity
  rw [PackageQueue.allocWritePacket]
  rw [h.m_pool]
  simp only [hraw, hsize]
  exact if_neg (Nat.not_lt.mpr h.header)

/-- `AllocWritePacket` hands out the first free block. -/
theorem QueueState.Inv.alloc_cons
    {b : BlockID} (h : s.Inv w size blocks lost pool (b :: free)) :
    ∃ s', s.step w .alloc = some s' ∧ s'.writers = s.writers ++ [PacketWrite.mk b []] ∧
      s'.queue.m_queue = s.queue.m_queue ∧ s'.waiting = s.waiting ∧
      s'.Inv w size blocks lost (pool.taken s.mem b) free := by
  obtain ⟨-, hlinked⟩ := h.linked.allocRaw_cons
  have halloc := h.allocWritePacket_cons
  have hfresh : b ∉ free ++ s.held := (List.nodup_cons.mp h.nodup).1
  simp only [held, List.mem_append, mem_heldBy, not_or] at hfresh
  obtain ⟨hrest, ⟨hwriters, hqueue⟩, hreaders⟩ := hfresh
  have hmove :
      (free ++ heldBy (s.writers ++ [PacketWrite.mk b []]) s.queue.m_queue s.readers).Perm
        ((b :: free) ++ s.held) :=
    ((heldBy_newWriter _).append_left free).trans List.perm_middle
  have hs :
      s.step w .alloc =
        some
          { s with
            queue := { s.queue with m_pool := some (pool.taken s.mem b) }
            mem := attach s.mem b size
            writers := s.writers ++ [PacketWrite.mk b []] } := by
    simp only [step, halloc]
  refine ⟨_, hs, rfl, rfl, rfl, ?_⟩
  constructor
  · rfl
  · exact h.header
  · exact h.capacity
  · exact hlinked.write hrest _
  · exact hmove.nodup_iff.mpr h.nodup
  · exact hmove.trans h.perm
  · exact payload_update h.payload rfl
  · intro pw hpw
    rcases List.mem_append.mp hpw with hold | hnew
    · exact filled_update h.writers hwriters pw hold
    · obtain rfl := List.mem_singleton.mp hnew
      constructor
      · simp [attach]
      · simp
      · simp
      · simp [attach]
  · exact h.order.trans (by rw [attach, attach_update hqueue])
  · exact shown_update h.readers hreaders
  · exact h.count
  · exact h.popEmpty
  · exact h.sound

/-- `AllocWritePacket` finds no free block, or hands out the first one. -/
theorem QueueState.Inv.alloc
    (h : s.Inv w size blocks lost pool free) (hs : s.step w .alloc = some s') :
    ∃ pool' free', s'.Inv w size blocks lost pool' free' := by
  cases free with
  | nil =>
      have halloc := h.allocWritePacket_nil
      simp only [step, halloc, Option.some.injEq] at hs
      subst hs
      exact ⟨pool, [], h⟩
  | cons b rest =>
      obtain ⟨s₁, hs₁, -, -, -, hinv⟩ := h.alloc_cons
      rw [hs₁, Option.some.injEq] at hs
      subst hs
      exact ⟨pool.taken s.mem b, rest, hinv⟩

/-- A block that one writer holds is held by nobody else. -/
theorem QueueState.Inv.writer_unique
    (h : s.Inv w size blocks lost pool free) {i : Nat} {pw : PacketWrite}
    (hi : s.writers[i]? = some pw) :
    pw ∈ s.writers ∧ pw.m_buf ∉ free ∧ pw.m_buf ∉ (s.writers.eraseIdx i).map PacketWrite.m_buf ∧
      pw.m_buf ∉ s.queue.m_queue ∧ pw.m_buf ∉ s.readers.map PacketRead.m_buf := by
  have hmove :
      (free ++ s.held).Perm
        (pw.m_buf :: (free ++ heldBy (s.writers.eraseIdx i) s.queue.m_queue s.readers)) :=
    ((heldBy_writer hi).append_left free).trans List.perm_middle
  obtain ⟨hnot, -⟩ := List.nodup_cons.mp (hmove.nodup_iff.mp h.nodup)
  simp only [List.mem_append, mem_heldBy, not_or] at hnot
  obtain ⟨hfree, ⟨hwriters, hqueue⟩, hreaders⟩ := hnot
  exact ⟨List.mem_of_getElem? hi, hfree, hwriters, hqueue, hreaders⟩

/-- A `Write` is refused, or appends its bytes to the packet. -/
theorem QueueState.Inv.write
    (h : s.Inv w size blocks lost pool free) {i : Nat} {data : List UInt8}
    (hfits : s.writeFits w (.write i data)) (hs : s.step w (.write i data) = some s') :
    s'.Inv w size blocks lost pool free := by
  simp only [step] at hs
  split at hs
  · exact absurd hs (by simp)
  · next pw hi =>
      obtain ⟨hpw, hfree, hwriters, hqueue, hreaders⟩ := h.writer_unique hi
      have hfilled := h.writers pw hpw
      have hmod :
          (pw.written.length + data.length) % 2 ^ w = pw.written.length + data.length :=
        Nat.mod_eq_of_lt (hfits pw hi)
      have hblock : pw.m_buf ∈ blocks := by
        refine h.perm.subset ?_
        simp only [held, List.mem_append, mem_heldBy]
        exact Or.inr (Or.inl (Or.inl (List.mem_map_of_mem hpw)))
      have hlength := h.payload pw.m_buf hblock
      rw [Baselib.write] at hs
      rw [hfilled.writePos] at hs
      simp only [hmod, hfilled.capacity] at hs
      by_cases hlt : size < pw.written.length + data.length
      · rw [if_pos hlt] at hs
        simp only [Option.some.injEq] at hs
        subst hs
        exact h
      · rw [if_neg hlt] at hs
        simp only [Option.some.injEq] at hs
        subst hs
        have hroom : pw.written.length + data.length ≤ (s.mem pw.m_buf).payload.length := by
          omega
        have hmove :
            (free ++ heldBy
              (s.writers.eraseIdx i ++ [PacketWrite.mk pw.m_buf (pw.written ++ data)])
              s.queue.m_queue s.readers).Perm (free ++ s.held) :=
          ((heldBy_newWriter (PacketWrite.mk pw.m_buf (pw.written ++ data))).trans
            (heldBy_writer hi).symm).append_left free
        constructor
        · exact h.m_pool
        · exact h.header
        · exact h.capacity
        · exact h.linked.write hfree _
        · exact hmove.nodup_iff.mpr h.nodup
        · exact hmove.trans h.perm
        · exact payload_update h.payload (length_memcpy hroom)
        · intro pw' hpw'
          rcases List.mem_append.mp hpw' with hold | hnew
          · exact filled_update
              (fun p hp => h.writers p (List.mem_of_mem_eraseIdx hp)) hwriters pw' hold
          · obtain rfl := List.mem_singleton.mp hnew
            constructor
            · simp
            · simp only [Function.update_self, List.length_append]
              rw [take_memcpy _ _ (by omega), hfilled.bytes]
            · simp only [List.length_append]
              omega
            · simp only [Function.update_self]
        · exact h.order.trans (by rw [attach_update hqueue])
        · exact shown_update h.readers hreaders
        · exact h.count
        · exact h.popEmpty
        · exact h.sound

/-- `Push` hands a block from its writer to the end of the queue, and posts. -/
theorem QueueState.Inv.push
    (h : s.Inv w size blocks lost pool free) {i : Nat} (hs : s.step w (.push i) = some s') :
    ∃ count, s.queue.m_sem = some count ∧
      s'.Inv w size blocks (if count < semaphoreMax then lost else lost + 1) pool free := by
  obtain ⟨count, hsem, hcount⟩ := h.count
  refine ⟨count, hsem, ?_⟩
  simp only [step] at hs
  split at hs
  · exact absurd hs (by simp)
  · next pw hi =>
      obtain ⟨hpw, -⟩ := h.writer_unique hi
      simp only [Option.some.injEq] at hs
      subst hs
      have hmove :
          (free ++ heldBy (s.writers.eraseIdx i) (s.queue.m_queue ++ [pw.m_buf])
            s.readers).Perm (free ++ s.held) :=
        ((heldBy_back _).trans (heldBy_writer hi).symm).append_left free
      constructor
      · exact h.m_pool
      · exact h.header
      · exact h.capacity
      · exact h.linked
      · exact hmove.nodup_iff.mpr h.nodup
      · exact hmove.trans h.perm
      · exact h.payload
      · exact fun p hp => h.writers p (List.mem_of_mem_eraseIdx hp)
      · simp only [PackageQueue.push, List.map_append, List.map_cons, List.map_nil, h.order,
          (h.writers pw hpw).attach_eq, List.append_assoc]
      · exact h.readers
      · refine ⟨if count < semaphoreMax then count + 1 else count, ?_, ?_⟩
        · simp only [PackageQueue.push, CSemaphore.post, hsem, Option.map_some]
        · simp only [PackageQueue.push, List.length_append, List.length_singleton]
          split <;> omega
      · exact h.popEmpty
      · exact h.sound

/-- A consumer that gets past `Wait` takes one from the count. -/
theorem CSemaphore.wait_eq {sem sem' : CSemaphore} (h : sem.wait = some sem') :
    ∃ count, sem = some (count + 1) ∧ sem' = some count := by
  unfold CSemaphore.wait at h
  split at h
  · next count =>
      simp only [Option.some.injEq] at h
      exact ⟨count, rfl, h.symm⟩
  · exact absurd h (by simp)

theorem QueueState.Inv.wait
    (h : s.Inv w size blocks lost pool free) (hs : s.step w .wait = some s') :
    s'.Inv w size blocks lost pool free := by
  simp only [step] at hs
  split at hs
  · exact absurd hs (by simp)
  · next sem' hwait =>
      simp only [Option.some.injEq] at hs
      subst hs
      obtain ⟨count, hsem, rfl⟩ := CSemaphore.wait_eq hwait
      obtain ⟨count', hsem', hsum⟩ := h.count
      have hcount : count' = count + 1 := by
        rw [hsem, Option.some.injEq] at hsem'
        exact hsem'.symm
      refine { h with count := ⟨count, rfl, ?_⟩ }
      change count + (s.waiting + 1) + lost = s.queue.m_queue.length
      omega

/-- A consumer with the lock finds a packet and takes it. -/
theorem QueueState.Inv.popLocked
    (h : s.Inv w size blocks lost pool free) (hs : s.step w .popLocked = some s') :
    s'.Inv w size blocks lost pool free := by
  obtain ⟨count, hsem, hsum⟩ := h.count
  simp only [step] at hs
  split at hs
  · exact absurd hs (by simp)
  · next waiting hwaiting =>
      cases hqueue : s.queue.m_queue with
      | nil =>
          rw [hqueue, hwaiting] at hsum
          exact absurd hsum (by simp)
      | cons buf rest =>
          simp only [PackageQueue.popLocked, hqueue, Option.some.injEq] at hs
          subst hs
          have hmove :
              (free ++ heldBy s.writers rest (s.readers ++ [.attach s.mem buf])).Perm
                (free ++ s.held) := by
            rw [held, hqueue]
            exact ((heldBy_newReader _).trans (heldBy_front buf).symm).append_left free
          constructor
          · exact h.m_pool
          · exact h.header
          · exact h.capacity
          · exact h.linked
          · exact hmove.nodup_iff.mpr h.nodup
          · exact hmove.trans h.perm
          · exact h.payload
          · exact h.writers
          · rw [h.order, hqueue]
            simp
          · intro pr hpr
            rcases List.mem_append.mp hpr with hold | hnew
            · obtain ⟨hpopped, hbytes⟩ := h.readers pr hold
              exact ⟨List.mem_append_left _ hpopped, hbytes⟩
            · obtain rfl := List.mem_singleton.mp hnew
              exact ⟨List.mem_append_right _ hnew, rfl⟩
          · refine ⟨count, hsem, ?_⟩
            rw [hqueue, hwaiting, List.length_cons] at hsum
            change count + waiting + lost = rest.length
            omega
          · exact h.popEmpty
          · exact h.sound

/-- The destructor of a packet gives its block back. -/
theorem QueueState.Inv.release
    (h : s.Inv w size blocks lost pool free) {i : Nat} (hs : s.step w (.release i) = some s') :
    ∃ pool' free', s'.Inv w size blocks lost pool' free' := by
  simp only [step] at hs
  split at hs
  · exact absurd hs (by simp)
  · next pr hi =>
      have hrelease :
          s.queue.release s.mem pr.m_buf =
            ({ s.queue with m_pool := some (pool.freeRaw pr.m_buf) },
              pool.freeRawMem s.mem pr.m_buf) := by
        rw [PackageQueue.release]
        rw [h.m_pool]
      simp only [hrelease, Option.some.injEq] at hs
      subst hs
      have hmove :
          (free ++ s.held).Perm
            (pr.m_buf :: (free ++ heldBy s.writers s.queue.m_queue (s.readers.eraseIdx i))) :=
        ((heldBy_reader hi).append_left free).trans List.perm_middle
      have hnodup := hmove.nodup_iff.mp h.nodup
      obtain ⟨hnot, -⟩ := List.nodup_cons.mp hnodup
      simp only [List.mem_append, mem_heldBy, not_or] at hnot
      obtain ⟨hfree, ⟨hwriters, hqueue⟩, hreaders⟩ := hnot
      refine ⟨pool.freeRaw pr.m_buf, pr.m_buf :: free, ?_⟩
      constructor
      · rfl
      · exact h.header
      · exact h.capacity
      · exact h.linked.freeRaw hfree
      · exact hnodup
      · exact hmove.symm.trans h.perm
      · exact payload_update h.payload rfl
      · exact filled_update h.writers hwriters
      · exact h.order.trans (by rw [FixedMemoryPool.freeRawMem, attach_update hqueue])
      · exact shown_update
          (fun p hp => h.readers p (List.mem_of_mem_eraseIdx hp)) hreaders
      · exact h.count
      · exact h.popEmpty
      · exact h.sound

/-- A step that is counted keeps the invariant, and no call of `ReleaseSemaphore` fails. -/
theorem QueueState.Inv.step
    (h : s.Inv w size blocks lost pool free) {op : QueueOp} (hcounted : s.counted w op)
    (hs : s.step w op = some s') :
    ∃ pool' free', s'.Inv w size blocks lost pool' free' := by
  obtain ⟨hfits, hpost⟩ := hcounted
  cases op with
  | alloc => exact h.alloc hs
  | write i data => exact ⟨pool, free, h.write hfits hs⟩
  | push i =>
      obtain ⟨count, hsem, hinv⟩ := h.push hs
      rw [if_pos (hpost count hsem)] at hinv
      exact ⟨pool, free, hinv⟩
  | wait => exact ⟨pool, free, h.wait hs⟩
  | popLocked => exact ⟨pool, free, h.popLocked hs⟩
  | release i => exact h.release hs

theorem QueueState.Inv.conserved (h : s.Inv w size blocks 0 pool free) :
    s.Conserved blocks := by
  constructor
  · exact ⟨pool, free, h.m_pool, h.linked, h.nodup, h.perm⟩
  · exact h.order
  · exact h.readers
  · exact h.count
  · exact h.popEmpty
  · exact h.sound

end Invariant

section Runs

variable {w maxPacketPayload maxPackets : Nat} {env : InitEnv} {mem mem' : Memory}
variable {q : PackageQueue} {pool : FixedMemoryPool}

/-- The invariant holds after an `Init` that makes a valid pool. -/
theorem QueueState.Inv.start
    (hinit : PackageQueue.new.init w maxPacketPayload maxPackets env mem = some (q, mem', 0))
    (hpool : q.m_pool = some pool) (hvalid : pool.isValid = true)
    (hfits : initFits w maxPacketPayload = true) :
    (QueueState.start q mem').Inv w (payloadSize w pool) pool.blocks 0 pool pool.blocks := by
  obtain ⟨hmalloc, hpos, hmake, rfl, rfl⟩ := PackageQueue.init_new hinit hpool hvalid
  have hlinked := FixedMemoryPool.free_make w env.id
    ((sizeofHeader w + maxPacketPayload) % 2 ^ w) (pool.m_elemSize - sizeofHeader w) hpos mem
  rw [← hmalloc] at hlinked
  change (initPool w maxPacketPayload maxPackets env).Free _ _ at hlinked
  obtain ⟨hheader, hlt⟩ := header_le_elemSize hfits maxPackets env
  rw [← hmake] at hheader hlt
  have hheld :
      pool.blocks ++
        QueueState.held (.start { PackageQueue.new with m_sem := some 0, m_pool := some pool }
          (pool.link (pool.m_elemSize - sizeofHeader w) mem)) = pool.blocks :=
    List.append_nil _
  constructor
  · rfl
  · exact hheader
  · rfl
  · rw [hmake] at hlinked ⊢
    exact hlinked
  · rw [hheld]
    exact pool.nodup_blocks
  · rw [hheld]
  · intro b hb
    obtain ⟨hid, -⟩ := FixedMemoryPool.mem_blocks.mp hb
    simp only [QueueState.start, FixedMemoryPool.link, if_pos hid, List.length_replicate]
    exact (payloadSize_eq hheader hlt).symm
  · intro pw hpw
    exact absurd hpw List.not_mem_nil
  · rfl
  · intro pr hpr
    exact absurd hpr List.not_mem_nil
  · exact ⟨0, rfl, rfl⟩
  · rfl
  · rfl

/--
Whatever the threads do, blocks, packets and the semaphore agree, as long as
the sizes do not wrap around and no `Push` meets a semaphore at its largest
count.
-/
theorem packageQueue_conserves
    (hinit : PackageQueue.new.init w maxPacketPayload maxPackets env mem = some (q, mem', 0))
    (hpool : q.m_pool = some pool) (hvalid : pool.isValid = true)
    (hfits : initFits w maxPacketPayload = true)
    {s : QueueState}
    (hreach :
      Reach (fun s op => QueueState.step w s op) (QueueState.counted w)
        (QueueState.start q mem') s) :
    s.Conserved pool.blocks := by
  have hinv :
      ∃ pool' free', s.Inv w (payloadSize w pool) pool.blocks 0 pool' free' := by
    refine hreach.invariant
      (I := fun s => ∃ pool' free', s.Inv w (payloadSize w pool) pool.blocks 0 pool' free')
      ⟨pool, pool.blocks, QueueState.Inv.start hinit hpool hvalid hfits⟩ ?_
    rintro s s' op ⟨pool', free', h⟩ hcounted hs
    exact h.step hcounted hs
  obtain ⟨pool', free', h⟩ := hinv
  exact h.conserved

theorem packageQueue_conserves_example :
    ∃ (q : PackageQueue) (mem : Memory) (s : QueueState),
      PackageQueue.new.init 64 8 2 ⟨true, true, true, 0⟩ (fun _ => ⟨.num 0, 0, []⟩) =
        some (q, mem, 0) ∧
      s.popped = [⟨⟨0, 1⟩, some [7]⟩, ⟨⟨0, 0⟩, some [1, 2]⟩] ∧
      s.Conserved [⟨0, 0⟩, ⟨0, 1⟩] := by
  have hinit :
      PackageQueue.new.init 64 8 2 ⟨true, true, true, 0⟩ (fun _ => ⟨.num 0, 0, []⟩) =
        some
          ({ PackageQueue.new with
              m_sem := some 0
              m_pool := some (initPool 64 8 2 ⟨true, true, true, 0⟩) },
            (initPool 64 8 2 ⟨true, true, true, 0⟩).link 8 (fun _ => ⟨.num 0, 0, []⟩), 0) := by
    rfl
  have hrun :
      (runAll (fun s op => QueueState.step 64 s op) (QueueState.counted 64)
        (QueueState.start
          { PackageQueue.new with
            m_sem := some 0
            m_pool := some (initPool 64 8 2 ⟨true, true, true, 0⟩) }
          ((initPool 64 8 2 ⟨true, true, true, 0⟩).link 8 (fun _ => ⟨.num 0, 0, []⟩)))
        [.alloc, .write 0 [1], .alloc, .write 1 [7], .push 1, .wait, .write 0 [2], .push 0,
          .popLocked, .wait, .release 0, .popLocked, .alloc]).any
        (fun s => decide (s.popped = [⟨⟨0, 1⟩, some [7]⟩, ⟨⟨0, 0⟩, some [1, 2]⟩])) = true := by
    decide
  obtain ⟨s, hreach, hpopped⟩ := exists_reach_of_runAll hrun
  exact ⟨_, _, s, hinit, of_decide_eq_true hpopped,
    packageQueue_conserves hinit rfl (by decide) (by decide) hreach⟩

/-- One producer that allocates and pushes, and no consumer. -/
theorem exists_pushed
    (hinit : PackageQueue.new.init w maxPacketPayload maxPackets env mem = some (q, mem', 0))
    (hpool : q.m_pool = some pool) (hvalid : pool.isValid = true)
    (hfits : initFits w maxPacketPayload = true) :
    ∀ n, n ≤ pool.blocks.length →
      ∃ s pool' free,
        Reach (fun s op => QueueState.step w s op) (QueueState.writeFits w)
          (QueueState.start q mem') s ∧
        s.Inv w (payloadSize w pool) pool.blocks (n - semaphoreMax) pool' free ∧
        s.writers = [] ∧ s.waiting = 0 ∧ s.queue.m_queue.length = n ∧
        free.length + n = pool.blocks.length := by
  intro n
  induction n with
  | zero =>
      intro _
      have hinv := QueueState.Inv.start hinit hpool hvalid hfits
      obtain ⟨-, -, -, rfl, -⟩ := PackageQueue.init_new hinit hpool hvalid
      exact ⟨_, pool, pool.blocks, .start, hinv, rfl, rfl, rfl, rfl⟩
  | succ n ih =>
      intro hn
      obtain ⟨s, pool', free, hreach, hinv, hwriters, hwaiting, hlength, hfree⟩ := ih (by omega)
      obtain ⟨b, rest, rfl⟩ : ∃ b rest, free = b :: rest :=
        List.exists_cons_of_length_pos (by omega)
      obtain ⟨s₁, hs₁, hwriters₁, hqueue₁, hwaiting₁, hinv₁⟩ := hinv.alloc_cons
      rw [hwriters, List.nil_append] at hwriters₁
      have hs₂ :
          s₁.step w (.push 0) =
            some
              { s₁ with
                queue := (s₁.queue.push (some b)).1
                writers := []
                pushed := s₁.pushed ++ [PacketWrite.mk b []] } := by
        simp [QueueState.step, hwriters₁]
      obtain ⟨count, hsem, hinv₂⟩ := hinv₁.push hs₂
      obtain ⟨count', hsem', hsum⟩ := hinv₁.count
      rw [hsem, Option.some.injEq] at hsem'
      subst hsem'
      rw [hqueue₁, hwaiting₁, hwaiting, hlength] at hsum
      have hlost :
          (if count < semaphoreMax then n - semaphoreMax else n - semaphoreMax + 1) =
            n + 1 - semaphoreMax := by
        split <;> omega
      rw [hlost] at hinv₂
      have halloc : s.writeFits w .alloc := trivial
      have hpush : s₁.writeFits w (.push 0) := trivial
      have hreach₂ := (hreach.next halloc hs₁).next hpush hs₂
      refine ⟨_, _, rest, hreach₂, hinv₂, rfl, ?_, ?_, ?_⟩
      · exact hwaiting₁.trans hwaiting
      · simp only [PackageQueue.push, hqueue₁, List.length_append, hlength,
          List.length_singleton]
      · rw [List.length_cons] at hfree
        omega

end Runs

/--
With more packets in the queue than the largest count of the semaphore, a packet
is in the queue that no consumer is woken for.
-/
theorem packageQueue_loses_a_post :
    ∃ (q : PackageQueue) (mem : Memory) (pool : FixedMemoryPool) (s : QueueState),
      PackageQueue.new.init 64 0 (2 ^ 31) ⟨true, true, true, 0⟩ (fun _ => ⟨.num 0, 0, []⟩) =
        some (q, mem, 0) ∧
      q.m_pool = some pool ∧ pool.isValid = true ∧
      Reach (fun s op => QueueState.step 64 s op) (QueueState.writeFits 64)
        (QueueState.start q mem) s ∧
      s.queue.m_sem = some (2 ^ 31 - 1) ∧ s.waiting = 0 ∧ s.queue.m_queue.length = 2 ^ 31 ∧
      ¬ s.Conserved pool.blocks := by
  have hfits : initFits 64 0 = true := by decide
  have hinit :
      PackageQueue.new.init 64 0 (2 ^ 31) ⟨true, true, true, 0⟩ (fun _ => ⟨.num 0, 0, []⟩) =
        some
          ({ PackageQueue.new with
              m_sem := some 0
              m_pool := some (initPool 64 0 (2 ^ 31) ⟨true, true, true, 0⟩) },
            (initPool 64 0 (2 ^ 31) ⟨true, true, true, 0⟩).link
              ((initPool 64 0 (2 ^ 31) ⟨true, true, true, 0⟩).m_elemSize - sizeofHeader 64)
              (fun _ => ⟨.num 0, 0, []⟩), 0) := by
    rfl
  have hvalid : (initPool 64 0 (2 ^ 31) ⟨true, true, true, 0⟩).isValid = true := by decide
  have hlength : (initPool 64 0 (2 ^ 31) ⟨true, true, true, 0⟩).blocks.length = 2 ^ 31 := by
    rw [FixedMemoryPool.blocks, List.length_map, List.length_range]
    rfl
  obtain ⟨s, pool', free, hreach, hinv, -, hwaiting, hqueue, -⟩ :=
    exists_pushed hinit rfl hvalid hfits (2 ^ 31) (Nat.le_of_eq hlength.symm)
  obtain ⟨count, hsem, hsum⟩ := hinv.count
  have hcount : count = 2 ^ 31 - 1 := by
    rw [hwaiting, hqueue, semaphoreMax] at hsum
    omega
  subst hcount
  refine ⟨_, _, _, s, hinit, rfl, hvalid, hreach, hsem, hwaiting, hqueue, fun h => ?_⟩
  obtain ⟨count, hsem', hall⟩ := h.count
  rw [hsem, Option.some.injEq] at hsem'
  rw [← hsem', hwaiting, hqueue] at hall
  omega

end Baselib
end IocpNetlib
