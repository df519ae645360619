import IocpNetlib.Baselib.MessageQueue
import IocpNetlib.Baselib.QueueCapacity

/-!
# `MessageQueue` is a bounded queue

The queue holds the addresses of the blocks of its messages, on a memory of
bytes in which the header of a message is overwritten by a link of the free
list once the message was popped.  `Simulates` relates it to the list of the
messages; every operation keeps it, and returns what the list says.

The blocks can be too small for a header, where the size that `Init` computes
wraps around; then the room for a message wraps around as well, and `Push` takes
what does not fit.
-/

namespace IocpNetlib
namespace Baselib
namespace Addresses

open ByteMemory

/-- The fields of a queue after `Init`, and the memory. -/
structure MessageQueue where
  m_queue : List Nat
  m_pool : FixedMemoryPool
  mem : Bytes

section Code

variable (w : Nat)

/-- `Release`. -/
def MessageQueue.release (q : MessageQueue) (buf : Nat) : MessageQueue :=
  let (pool, mem) := q.m_pool.free w q.mem buf
  { q with m_pool := pool, mem := mem }

/-- The loop of `Clear`, over the blocks in the queue. -/
def MessageQueue.clearLoop (q : MessageQueue) : List Nat → MessageQueue
  | [] => { q with m_queue := [] }
  | buf :: rest => clearLoop ({ q with m_queue := rest }.release w buf) rest

/-- `Clear`. -/
def MessageQueue.clear (q : MessageQueue) : MessageQueue :=
  q.clearLoop w q.m_queue

/-- `Front`: the address and the number of the bytes. -/
def MessageQueue.front (q : MessageQueue) : Option (Nat × Nat) :=
  match q.m_queue with
  | [] => none
  | raw :: _ => some (raw + sizeofHeader w, loadWord (sizeofPtr w) q.mem raw)

/-- `IsEmpty`. -/
def MessageQueue.isEmpty (q : MessageQueue) : Bool :=
  q.m_queue.isEmpty

/-- `GetQueueSize`. -/
def MessageQueue.getQueueSize (q : MessageQueue) : Nat :=
  q.m_queue.length

/-- `Push`, and what it returns. -/
def MessageQueue.push (q : MessageQueue) (data : List UInt8) : MessageQueue × Bool :=
  if q.m_pool.payloadRoom w < data.length then (q, false)
  else
    let (buf, pool, mem) := q.m_pool.create w q.mem
    if buf = 0 then ({ q with m_pool := pool, mem := mem }, false)
    else
      ({ m_queue := q.m_queue ++ [buf]
         m_pool := pool
         mem := messageStored w pool mem buf data }, true)

/-- `Pop`. -/
def MessageQueue.pop (q : MessageQueue) : MessageQueue × MPopResult :=
  match q.m_queue with
  | [] => (q, .MPOP_EMPTY)
  | buf :: rest => ({ q with m_queue := rest }.release w buf, .MPOP_OK)

/-- A call of a queue. -/
inductive QueueCall
  | push (data : List UInt8)
  | pop
  | front
  | clear
  | isEmpty
  | getQueueSize
deriving DecidableEq, Repr

/-- What a call returns; for `Front`, the bytes at the address it returns, and their number. -/
inductive QueueAnswer
  | pushed (taken : Bool)
  | popped (result : MPopResult)
  | front (message : Option (List UInt8 × Nat))
  | cleared
  | empty (isEmpty : Bool)
  | size (n : Nat)
deriving DecidableEq, Repr

/-- A call. -/
def MessageQueue.call (q : MessageQueue) : QueueCall → MessageQueue × QueueAnswer
  | .push data => let (q', taken) := q.push w data; (q', .pushed taken)
  | .pop => let (q', result) := q.pop w; (q', .popped result)
  | .front => (q, .front ((q.front w).map fun r => (loadBytes q.mem r.1 r.2, r.2)))
  | .clear => (q.clear w, .cleared)
  | .isEmpty => (q, .empty q.isEmpty)
  | .getQueueSize => (q, .size q.getQueueSize)

/-- The answers of a sequence of calls, and the queue after them. -/
def MessageQueue.calls (q : MessageQueue) : List QueueCall → List QueueAnswer × MessageQueue
  | [] => ([], q)
  | c :: cs =>
      let (q', answer) := q.call w c
      let (answers, q'') := calls q' cs
      (answer :: answers, q'')

end Code

section Fifo

/-- A call of a queue of at most `n` messages, of which each has room `room`. -/
def fifoCall (room : List UInt8 → Bool) (n : Nat) (msgs : List (List UInt8)) :
    QueueCall → List (List UInt8) × QueueAnswer
  | .push data =>
      if room data = true ∧ msgs.length < n then (msgs ++ [data], .pushed true)
      else (msgs, .pushed false)
  | .pop =>
      match msgs with
      | [] => ([], .popped .MPOP_EMPTY)
      | _ :: rest => (rest, .popped .MPOP_OK)
  | .front => (msgs, .front (msgs.head?.map fun msg => (msg, msg.length)))
  | .clear => ([], .cleared)
  | .isEmpty => (msgs, .empty msgs.isEmpty)
  | .getQueueSize => (msgs, .size msgs.length)

/-- The answers of a sequence of calls. -/
def fifoCalls (room : List UInt8 → Bool) (n : Nat) :
    List (List UInt8) → List QueueCall → List QueueAnswer
  | _, [] => []
  | msgs, c :: cs =>
      (fifoCall room n msgs c).2 :: fifoCalls room n (fifoCall room n msgs c).1 cs

/-- As long as there is room, messages that fit are taken. -/
theorem fifoCalls_pushes
    {room : List UInt8 → Bool} {n : Nat} {msgs datas : List (List UInt8)}
    (hlen : msgs.length + datas.length ≤ n) (hfits : ∀ data ∈ datas, room data = true) :
    fifoCalls room n msgs (datas.map .push) = datas.map fun _ => .pushed true := by
  induction datas generalizing msgs with
  | nil => rfl
  | cons data rest ih =>
      rw [List.length_cons] at hlen
      have htaken : fifoCall room n msgs (.push data) = (msgs ++ [data], .pushed true) :=
        if_pos ⟨hfits data List.mem_cons_self, by omega⟩
      have hrest :
          fifoCalls room n (msgs ++ [data]) (rest.map .push) = rest.map fun _ => .pushed true :=
        ih (by rw [List.length_append, List.length_singleton]; omega)
          fun d hd => hfits d (List.mem_cons_of_mem data hd)
      simp only [List.map_cons, fifoCalls, htaken, hrest]

end Fifo

/-- A message fits in a block behind its header. -/
def fitsBlock (w elemSize : Nat) (data : List UInt8) : Bool :=
  decide (sizeofHeader w + data.length ≤ elemSize)

/--
The queue answers every sequence of calls as a bounded queue does; after it a
`Push` that returns `false` changes nothing, and after a `Clear` there is room
for `n` messages.
-/
def RefinesFifo (w n : Nat) (q : MessageQueue) : Prop :=
  ∀ cs : List QueueCall,
    (q.calls w cs).1 = fifoCalls (fitsBlock w q.m_pool.m_elemSize) n [] cs ∧
      (∀ data : List UInt8,
        ((q.calls w cs).2.push w data).2 = false →
          ((q.calls w cs).2.push w data).1 = (q.calls w cs).2) ∧
      ∀ datas : List (List UInt8),
        datas.length ≤ n →
          (∀ data ∈ datas, fitsBlock w q.m_pool.m_elemSize data = true) →
            (((q.calls w cs).2.clear w).calls w (datas.map .push)).1 =
              datas.map fun _ => .pushed true

/-- The block `buf` has the message `msg`. -/
structure HasMessage (w elemSize : Nat) (mem : Bytes) (buf : Nat) (msg : List UInt8) : Prop where
  writePos : loadWord (sizeofPtr w) mem buf = msg.length
  bytes : loadBytes mem (buf + sizeofHeader w) msg.length = msg
  fits : sizeofHeader w + msg.length ≤ elemSize

/-- The pool of a queue, the memory, and the blocks that it handed out. -/
def MessageQueue.state (q : MessageQueue) : State :=
  { pool := q.m_pool, mem := q.mem, live := q.m_queue }

/-- The queue stands for the list `msgs`. -/
structure Simulates (w : Nat) (q : MessageQueue) (free used : List Nat)
    (msgs : List (List UInt8)) : Prop where
  owned : Owned w q.state free used
  messages : List.Forall₂ (HasMessage w q.m_pool.m_elemSize q.mem) q.m_queue msgs
  header : sizeofHeader w ≤ q.m_pool.m_elemSize
  elem_lt : q.m_pool.m_elemSize < 2 ^ w

section Steps

variable {w : Nat} {q : MessageQueue} {s : State} {free used : List Nat} {i : Nat}
variable {msgs : List (List UInt8)} {data : List UInt8}

/-- The order of the blocks that are handed out does not matter. -/
theorem Owned.perm
    (h : Owned w s free used) {used' : List Nat} (hperm : used'.Perm used) :
    Owned w { s with live := used'.map s.pool.blockAt } free used' where
  placed := h.placed
  live := rfl
  parts := (hperm.append_left free).trans h.parts
  chain := h.chain
  count := h.count

/-- A message does not see what is written to other blocks. -/
theorem HasMessage.frame
    {elemSize a m buf : Nat} {mem mem' : Bytes} {msg : List UInt8}
    (h : HasMessage w elemSize mem buf msg) (hsame : SameOutside a m mem mem')
    (hapart : Apart a m buf elemSize) :
    HasMessage w elemSize mem' buf msg where
  writePos := by
    have hfits := h.fits
    rw [sizeofHeader] at hfits
    have hword : Apart a m buf (sizeofPtr w) :=
      hapart.mono (Nat.le_refl _) (Nat.le_refl _) (Nat.le_refl _) (by omega)
    exact (congrArg ByteBlock.leNat (hsame.loadBytes_eq hword)).trans h.writePos
  bytes := by
    have hfits := h.fits
    have hbytes : Apart a m (buf + sizeofHeader w) msg.length :=
      hapart.mono (Nat.le_refl _) (Nat.le_refl _) (Nat.le_add_right _ _) (by omega)
    exact (hsame.loadBytes_eq hbytes).trans h.bytes
  fits := h.fits

/-- What `Push` leaves in the block. -/
theorem hasMessage_messageStored
    {pool : FixedMemoryPool} {buf : Nat} (mem : Bytes) (hword : 256 ^ sizeofPtr w = 2 ^ w)
    (hlt : pool.m_elemSize < 2 ^ w)
    (hfits : sizeofHeader w + data.length ≤ pool.m_elemSize) :
    HasMessage w pool.m_elemSize (messageStored w pool mem buf data) buf data where
  writePos := by
    rw [messageStored]
    rw [loadWord_storeWord_apart (.inr (Nat.le_refl _))]
    exact loadWord_storeWord_self (by omega)
  bytes := loadBytes_messageStored pool mem buf data
  fits := hfits

/-- The messages of all blocks but the one at place `i` stay. -/
theorem frame_messages
    {rest : List Nat} {others : List (List UInt8)}
    {mem : Bytes} (hsub : ∀ j ∈ rest, i ≠ j)
    (hothers :
      List.Forall₂ (HasMessage w q.m_pool.m_elemSize q.mem)
        (rest.map q.m_pool.blockAt) others)
    (hsame : SameOutside (q.m_pool.blockAt i) q.m_pool.m_elemSize q.mem mem) :
    List.Forall₂ (HasMessage w q.m_pool.m_elemSize mem) (rest.map q.m_pool.blockAt) others := by
  rw [List.forall₂_map_left_iff] at hothers ⊢
  have hmem := (List.forall₂_and_left rest others).mpr ⟨hsub, hothers⟩
  exact hmem.imp fun j msg hj => hj.2.frame hsame (apart_blockAt q.m_pool hj.1)

theorem Simulates.length (h : Simulates w q free used msgs) :
    msgs.length = used.length ∧ free.length + msgs.length = q.m_pool.m_capacity := by
  have hlen := h.messages.length_eq
  have hlive : q.m_queue = used.map q.m_pool.blockAt := h.owned.live
  rw [hlive, List.length_map] at hlen
  refine ⟨hlen.symm, ?_⟩
  rw [← hlen]
  exact h.owned.length

/-- A `Push` of a message that fits, when there is a free block. -/
theorem Simulates.push_taken
    (h : Simulates w q (i :: free) used msgs)
    (hfits : sizeofHeader w + data.length ≤ q.m_pool.m_elemSize) :
    (q.push w data).2 = true ∧
      Simulates w (q.push w data).1 free (used ++ [i]) (msgs ++ [data]) ∧
        SameBlocks (q.push w data).1.m_pool q.m_pool := by
  have howned := h.owned
  have hroom := payloadRoom_eq h.elem_lt h.header
  have hne : q.m_pool.blockAt i ≠ 0 := howned.placed.blockAt_ne i
  have hcreate :
      q.m_pool.create w q.mem = (q.m_pool.blockAt i, q.state.taken w i free, q.mem) :=
    howned.create_cons
  have hpush :
      q.push w data =
        ({ m_queue := q.m_queue ++ [q.m_pool.blockAt i]
           m_pool := q.state.taken w i free
           mem := messageStored w (q.state.taken w i free) q.mem (q.m_pool.blockAt i) data },
          true) := by
    rw [MessageQueue.push]
    rw [if_neg (by omega), hcreate]
    simp only [if_neg hne]
  have hsame :
      SameOutside (q.m_pool.blockAt i) q.m_pool.m_elemSize q.mem
        (messageStored w (q.state.taken w i free) q.mem (q.m_pool.blockAt i) data) :=
    messageStored_sameOutside q.mem hfits
  have hlive : q.m_queue = used.map q.m_pool.blockAt := howned.live
  rw [hpush]
  refine ⟨rfl, ⟨?_, ?_, h.header, h.elem_lt⟩, ⟨rfl, rfl, rfl⟩⟩
  · have hstored := (howned.taken.sameOutside List.mem_cons_self hsame).perm
      (List.perm_append_singleton i used)
    rw [List.map_append] at hstored
    rw [MessageQueue.state]
    rw [hlive]
    exact hstored
  · have hold := h.messages
    rw [hlive] at hold
    have hapart : ∀ j ∈ used, i ≠ j := by
      rintro j hj rfl
      exact howned.not_free hj List.mem_cons_self
    have hkept := frame_messages hapart hold hsame
    rw [← hlive] at hkept
    refine List.rel_append hkept (List.Forall₂.cons ?_ List.Forall₂.nil)
    exact hasMessage_messageStored q.mem howned.placed.word h.elem_lt hfits

/-- A `Push` of a message that does not fit, or when there is no free block. -/
theorem Simulates.push_refused
    (h : Simulates w q free used msgs)
    (hno : ¬ sizeofHeader w + data.length ≤ q.m_pool.m_elemSize ∨ free = []) :
    q.push w data = (q, false) := by
  have hroom := payloadRoom_eq h.elem_lt h.header
  have hheader := h.header
  rw [MessageQueue.push]
  by_cases hsize : q.m_pool.payloadRoom w < data.length
  · rw [if_pos hsize]
  · rcases hno with hno | rfl
    · omega
    · have hraw : q.m_pool.allocRaw w q.mem = (0, q.m_pool) := h.owned.allocRaw_nil
      rw [if_neg hsize]
      rw [FixedMemoryPool.create]
      rw [hraw]
      rfl

/-- The first message is taken out of the queue, and its block is freed. -/
theorem Simulates.release
    {buf : Nat} {rest : List Nat} {msg : List UInt8} {others : List (List UInt8)}
    (h : Simulates w q free used (msg :: others)) (hqueue : q.m_queue = buf :: rest) :
    ∃ i used',
      used = i :: used' ∧
        Simulates w ({ q with m_queue := rest }.release w buf) (i :: free) used' others ∧
          SameBlocks ({ q with m_queue := rest }.release w buf).m_pool q.m_pool ∧
            ({ q with m_queue := rest }.release w buf).m_queue = rest := by
  have howned := h.owned
  have hlive : q.m_queue = used.map q.m_pool.blockAt := howned.live
  cases used with
  | nil =>
      rw [hqueue] at hlive
      simp at hlive
  | cons i used' =>
      rw [hqueue, List.map_cons, List.cons.injEq] at hlive
      obtain ⟨rfl, rfl⟩ := hlive
      have hne : q.m_pool.blockAt i ≠ 0 := howned.placed.blockAt_ne i
      have hnodup := (List.nodup_append.mp howned.nodup).2.1
      have hfreed := howned.freeRaw List.mem_cons_self
      rw [List.erase_cons_head] at hfreed
      have hreleased :
          { q with m_queue := used'.map q.m_pool.blockAt }.release w (q.m_pool.blockAt i) =
            { m_queue := used'.map q.m_pool.blockAt
              m_pool := (q.m_pool.freeRaw w q.mem (q.m_pool.blockAt i)).1
              mem := (q.m_pool.freeRaw w q.mem (q.m_pool.blockAt i)).2 } := by
        rw [MessageQueue.release, FixedMemoryPool.free]
        simp only [if_neg hne]
      have hblocks := sameBlocks_freeRaw (w := w) q.m_pool q.mem (q.m_pool.blockAt i)
      have hsame :
          SameOutside (q.m_pool.blockAt i) q.m_pool.m_elemSize q.mem
            (q.m_pool.freeRaw w q.mem (q.m_pool.blockAt i)).2 := by
        rw [FixedMemoryPool.freeRaw]
        rw [if_neg hne]
        exact (SameOutside.refl _ _ q.mem).storeWord (Nat.le_refl _)
          (Nat.add_le_add_left howned.placed.elem_ge _)
      have hold := h.messages
      rw [hqueue] at hold
      have hothers := (List.forall₂_cons.mp hold).2
      have hapart : ∀ j ∈ used', i ≠ j := by
        rintro j hj rfl
        exact (List.nodup_cons.mp hnodup).1 hj
      refine ⟨i, used', rfl, ?_, ?_, ?_⟩
      · rw [hreleased]
        refine ⟨?_, ?_, ?_, ?_⟩
        · have hlist :
              (q.m_queue.erase (q.m_pool.blockAt i)) = used'.map q.m_pool.blockAt := by
            rw [hqueue, List.erase_cons_head]
          rw [MessageQueue.state] at hfreed ⊢
          simp only at hfreed ⊢
          rw [hlist] at hfreed
          exact hfreed
        · rw [hblocks.elemSize]
          exact frame_messages hapart hothers hsame
        · rw [hblocks.elemSize]
          exact h.header
        · rw [hblocks.elemSize]
          exact h.elem_lt
      · rw [hreleased]
        exact hblocks
      · rw [hreleased]

/-- `Clear` frees the blocks of all messages. -/
theorem Simulates.clearLoop
    (h : Simulates w q free used msgs) :
    ∃ free',
      Simulates w (q.clearLoop w q.m_queue) free' [] [] ∧
        SameBlocks (q.clearLoop w q.m_queue).m_pool q.m_pool := by
  induction msgs generalizing q free used with
  | nil =>
      have hnil := List.forall₂_nil_right_iff.mp h.messages
      have hused := h.length.1
      obtain rfl : used = [] := List.length_eq_zero_iff.mp hused.symm
      cases q with
      | mk queue pool mem =>
          simp only at hnil
          subst hnil
          exact ⟨free, h, SameBlocks.refl pool⟩
  | cons msg others ih =>
      obtain ⟨buf, rest, -, -, hqueue⟩ := List.forall₂_cons_right_iff.mp h.messages
      obtain ⟨i, used', -, hreleased, hblocks, hrest⟩ := h.release hqueue
      obtain ⟨free', hcleared, hsame⟩ := ih hreleased
      rw [hrest] at hcleared hsame
      rw [hqueue]
      exact ⟨free', hcleared, hsame.trans hblocks⟩

theorem Simulates.push
    (h : Simulates w q free used msgs) (data : List UInt8) :
    ∃ free' used',
      Simulates w (q.call w (.push data)).1 free' used'
          (fifoCall (fitsBlock w q.m_pool.m_elemSize) q.m_pool.m_capacity msgs (.push data)).1 ∧
        (q.call w (.push data)).2 =
          (fifoCall (fitsBlock w q.m_pool.m_elemSize) q.m_pool.m_capacity msgs
            (.push data)).2 ∧
        SameBlocks (q.call w (.push data)).1.m_pool q.m_pool := by
  have hlen := h.length.2
  rw [MessageQueue.call, fifoCall, fitsBlock]
  simp only [decide_eq_true_eq]
  by_cases hfits : sizeofHeader w + data.length ≤ q.m_pool.m_elemSize
  · cases free with
    | nil =>
        have hrefused : q.push w data = (q, false) := h.push_refused (.inr rfl)
        rw [List.length_nil] at hlen
        rw [hrefused, if_neg (by omega)]
        exact ⟨_, _, h, rfl, SameBlocks.refl q.m_pool⟩
    | cons i free =>
        obtain ⟨hanswer, hsim, hsame⟩ := h.push_taken hfits
        rw [List.length_cons] at hlen
        rw [if_pos ⟨hfits, by omega⟩, hanswer]
        exact ⟨_, _, hsim, rfl, hsame⟩
  · rw [h.push_refused (.inl hfits), if_neg fun hboth => hfits hboth.1]
    exact ⟨_, _, h, rfl, SameBlocks.refl q.m_pool⟩

/-- Every call keeps the queue and the list together, and answers what the list says. -/
theorem Simulates.call
    (h : Simulates w q free used msgs) (c : QueueCall) :
    ∃ free' used',
      Simulates w (q.call w c).1 free' used'
          (fifoCall (fitsBlock w q.m_pool.m_elemSize) q.m_pool.m_capacity msgs c).1 ∧
        (q.call w c).2 =
          (fifoCall (fitsBlock w q.m_pool.m_elemSize) q.m_pool.m_capacity msgs c).2 ∧
        SameBlocks (q.call w c).1.m_pool q.m_pool := by
  cases c with
  | push data => exact h.push data
  | pop =>
      cases msgs with
      | nil =>
          have hpop : q.pop w = (q, .MPOP_EMPTY) := by
            rw [MessageQueue.pop]
            rw [List.forall₂_nil_right_iff.mp h.messages]
          rw [MessageQueue.call]
          simp only [hpop]
          exact ⟨free, used, h, rfl, SameBlocks.refl q.m_pool⟩
      | cons msg others =>
          obtain ⟨buf, rest, -, -, hqueue⟩ := List.forall₂_cons_right_iff.mp h.messages
          obtain ⟨i, used', -, hreleased, hblocks, -⟩ := h.release hqueue
          have hpop : q.pop w = ({ q with m_queue := rest }.release w buf, .MPOP_OK) := by
            rw [MessageQueue.pop]
            rw [hqueue]
          rw [MessageQueue.call]
          simp only [hpop]
          exact ⟨_, _, hreleased, rfl, hblocks⟩
  | front =>
      refine ⟨free, used, h, ?_, SameBlocks.refl q.m_pool⟩
      rw [MessageQueue.call, MessageQueue.front, fifoCall]
      cases msgs with
      | nil =>
          rw [List.forall₂_nil_right_iff.mp h.messages]
          rfl
      | cons msg others =>
          obtain ⟨buf, rest, hfirst, -, hqueue⟩ := List.forall₂_cons_right_iff.mp h.messages
          rw [hqueue]
          simp only [Option.map_some, List.head?_cons, hfirst.writePos, hfirst.bytes]
  | clear =>
      obtain ⟨free', hcleared, hsame⟩ := h.clearLoop
      exact ⟨free', [], hcleared, rfl, hsame⟩
  | isEmpty =>
      refine ⟨free, used, h, ?_, SameBlocks.refl q.m_pool⟩
      have hlen := h.messages.length_eq
      have hempty : q.m_queue.isEmpty = msgs.isEmpty := by
        rw [Bool.eq_iff_iff, List.isEmpty_iff_length_eq_zero, List.isEmpty_iff_length_eq_zero, hlen]
      exact congrArg QueueAnswer.empty hempty
  | getQueueSize =>
      refine ⟨free, used, h, ?_, SameBlocks.refl q.m_pool⟩
      exact congrArg QueueAnswer.size h.messages.length_eq

/-- The answers of a sequence of calls are those of the list, and a refused `Push` is no change. -/
theorem Simulates.calls
    (h : Simulates w q free used msgs) (cs : List QueueCall) :
    (q.calls w cs).1 =
        fifoCalls (fitsBlock w q.m_pool.m_elemSize) q.m_pool.m_capacity msgs cs ∧
      (∃ free' used' msgs', Simulates w (q.calls w cs).2 free' used' msgs') ∧
        SameBlocks (q.calls w cs).2.m_pool q.m_pool := by
  induction cs generalizing q free used msgs with
  | nil => exact ⟨rfl, ⟨free, used, msgs, h⟩, SameBlocks.refl q.m_pool⟩
  | cons c cs ih =>
      obtain ⟨free', used', hsim, hanswer, hsame⟩ := h.call c
      obtain ⟨hanswers, hlast, hsame'⟩ := ih hsim
      rw [hsame.elemSize, hsame.capacity] at hanswers
      refine ⟨?_, hlast, hsame'.trans hsame⟩
      rw [MessageQueue.calls, fifoCalls]
      simp only [hanswers, hanswer]

/-- A `Push` that is refused leaves the queue as it is. -/
theorem Simulates.push_false
    (h : Simulates w q free used msgs) (hfalse : (q.push w data).2 = false) :
    (q.push w data).1 = q := by
  by_cases hfits : sizeofHeader w + data.length ≤ q.m_pool.m_elemSize
  · cases free with
    | nil => rw [h.push_refused (.inr rfl)]
    | cons i free =>
        rw [(h.push_taken hfits).1] at hfalse
        exact absurd hfalse (by simp)
  · rw [h.push_refused (.inl hfits)]

/-- An empty queue stays a bounded queue. -/
theorem Simulates.refinesFifo
    (h : Simulates w q free used []) :
    RefinesFifo w q.m_pool.m_capacity q := by
  intro cs
  obtain ⟨hanswers, ⟨free', used', msgs', hlast⟩, hsame⟩ := h.calls cs
  refine ⟨hanswers, fun data => hlast.push_false, fun datas hlen hfits => ?_⟩
  obtain ⟨free'', hcleared, hsame'⟩ := hlast.clearLoop
  have hpushes := (hcleared.calls (datas.map .push)).1
  rw [(hsame'.trans hsame).elemSize, (hsame'.trans hsame).capacity] at hpushes
  exact hpushes.trans (fifoCalls_pushes (by rwa [List.length_nil, Nat.zero_add]) hfits)

end Steps

section Init

variable {w maxPacketPayload maxPackets malloc : Nat}

/-- The pool of an `Init` is valid: its blocks are in what `malloc` gave. -/
structure ValidPool (w maxPacketPayload maxPackets malloc : Nat) : Prop where
  malloced :
    Malloced w malloc (mallocSize w ((sizeofHeader w + maxPacketPayload) % 2 ^ w) maxPackets)
  capacity_pos : 0 < maxPackets
  elem_ge : sizeofPtr w ≤ elementSize w ((sizeofHeader w + maxPacketPayload) % 2 ^ w)
  inside : elementSize w ((sizeofHeader w + maxPacketPayload) % 2 ^ w) * maxPackets < 2 ^ w

/-- The size of a block that can hold a link was rounded without wrapping around. -/
theorem elementSize_of_ge
    {size : Nat} (hw : w = 32 ∨ w = 64) (hsize : size < 2 ^ w)
    (hge : sizeofPtr w ≤ elementSize w size) :
    elementSize w size = roundUp (sizeofPtr w) (max (sizeofPtr w) size) := by
  obtain ⟨hword, hpos, -⟩ := word_of_build hw
  have hptr : sizeofPtr w < 2 ^ w := by
    rw [← hword]
    exact Nat.lt_pow_self (by decide)
  rw [elementSize, alignUp] at hge ⊢
  by_cases hsum : max (sizeofPtr w) size + (sizeofPtr w - 1) < 2 ^ w
  · rw [Nat.mod_eq_of_lt hsum]
    rfl
  · have hsmall : (max (sizeofPtr w) size + (sizeofPtr w - 1)) % 2 ^ w < sizeofPtr w := by
      rw [Nat.mod_eq_sub_mod (by omega), Nat.mod_eq_of_lt (by omega)]
      omega
    rw [Nat.div_eq_of_lt hsmall, Nat.zero_mul] at hge
    omega

/-- A header fits in a block if and only if the size that `Init` asks for is more than a word. -/
theorem header_fits_iff
    {size : Nat} (hpos : 0 < sizeofPtr w) :
    sizeofHeader w ≤ roundUp (sizeofPtr w) (max (sizeofPtr w) size) ↔ sizeofPtr w < size := by
  rw [sizeofHeader, roundUp]
  constructor
  · intro h
    have hdiv := Nat.le_of_mul_le_mul_right h hpos
    rw [Nat.le_div_iff_mul_le hpos] at hdiv
    omega
  · intro h
    refine Nat.mul_le_mul_right _ ((Nat.le_div_iff_mul_le hpos).mpr ?_)
    omega

/-- The queue after an `Init` that made the pool `made`. -/
def MessageQueue.afterInit (made : FixedMemoryPool × Bytes) : MessageQueue :=
  { m_queue := []
    m_pool := made.1
    mem := made.2 }

/-- The blocks of a valid pool are all free after `Init`. -/
theorem ValidPool.owned
    (hvalid : ValidPool w maxPacketPayload maxPackets malloc) (hw : w = 32 ∨ w = 64)
    (mem : Bytes) :
    Owned w (MessageQueue.afterInit (newPool w maxPacketPayload maxPackets malloc mem)).state
      (List.range maxPackets) [] := by
  have hround := elementSize_of_ge hw (Nat.mod_lt _ (Nat.two_pow_pos w)) hvalid.elem_ge
  have hfits := hvalid.inside
  rw [hround] at hfits
  exact owned_init hw hvalid.capacity_pos hfits hvalid.malloced mem

/-- A message of no bytes is taken when there is a free block, whatever its size is. -/
theorem push_nil
    {q : MessageQueue} {free used : List Nat} {i : Nat} (h : Owned w q.state (i :: free) used) :
    (q.push w []).2 = true := by
  have hcreate :
      q.m_pool.create w q.mem = (q.m_pool.blockAt i, q.state.taken w i free, q.mem) :=
    h.create_cons
  have hne : q.m_pool.blockAt i ≠ 0 := h.placed.blockAt_ne i
  rw [MessageQueue.push]
  rw [List.length_nil, if_neg (Nat.not_lt_zero _), hcreate]
  simp only [if_neg hne]

/--
A queue with a valid pool of `maxPackets` blocks is a queue of at most as many
messages if and only if the size of header and payload, as `Init` computes it,
is more than a word.
-/
theorem messageQueue_refines_iff
    {env : InitAnswers} {mem : Bytes} {made : FixedMemoryPool × Bytes} (hw : w = 32 ∨ w = 64)
    (hinit : messageQueueInit w maxPacketPayload maxPackets env mem = (0, some made))
    (hvalid : ValidPool w maxPacketPayload maxPackets env.malloc) :
    RefinesFifo w maxPackets (MessageQueue.afterInit made) ↔
      sizeofPtr w < (sizeofHeader w + maxPacketPayload) % 2 ^ w := by
  obtain ⟨-, hpos, -⟩ := word_of_build hw
  obtain rfl : newPool w maxPacketPayload maxPackets env.malloc mem = made := by
    rw [messageQueueInit] at hinit
    split_ifs at hinit
    · simp at hinit
    · simpa using hinit
  have howned := hvalid.owned hw mem
  have hround := elementSize_of_ge hw (Nat.mod_lt _ (Nat.two_pow_pos w)) hvalid.elem_ge
  have hpool :
      (MessageQueue.afterInit (newPool w maxPacketPayload maxPackets env.malloc mem)).m_pool = _ :=
    pool_init hvalid.malloced.ne mem
  have helem :
      (MessageQueue.afterInit
          (newPool w maxPacketPayload maxPackets env.malloc mem)).m_pool.m_elemSize =
        elementSize w ((sizeofHeader w + maxPacketPayload) % 2 ^ w) := by
    rw [hpool]
  have hcap :
      (MessageQueue.afterInit
          (newPool w maxPacketPayload maxPackets env.malloc mem)).m_pool.m_capacity =
        maxPackets := by
    rw [hpool]
  have hlt := Nat.lt_of_le_of_lt (Nat.le_mul_of_pos_right _ hvalid.capacity_pos) hvalid.inside
  rw [← header_fits_iff hpos, ← hround, ← helem]
  constructor
  · intro h
    by_contra hsmall
    -- a block that is too small for a header still takes a message of no bytes
    have hpositive := hvalid.capacity_pos
    obtain ⟨m, hm⟩ : ∃ m, maxPackets = m + 1 := ⟨maxPackets - 1, by omega⟩
    have hfirst : List.range maxPackets = 0 :: List.range' 1 m := by
      rw [hm, List.range_eq_range']
      rfl
    rw [hfirst] at howned
    have htaken := push_nil howned
    have hanswers := (h [.push []]).1
    simp [MessageQueue.calls, MessageQueue.call, htaken, fifoCalls, fifoCall, fitsBlock,
      hsmall] at hanswers
  · intro hheader
    have hsim :
        Simulates w (MessageQueue.afterInit (newPool w maxPacketPayload maxPackets env.malloc mem))
          (List.range maxPackets) [] [] :=
      { owned := howned
        messages := List.Forall₂.nil
        header := hheader
        elem_lt := by rwa [helem] }
    have hrefines := hsim.refinesFifo
    rwa [hcap] at hrefines

end Init

/-- A queue of two messages of up to 16 bytes. -/
theorem messageQueue_refines_iff_example :
    RefinesFifo 64 2 (MessageQueue.afterInit (newPool 64 16 2 4096 fun _ => 0)) := by
  have hvalid : ValidPool 64 16 2 4096 :=
    ⟨⟨by decide, by decide, by decide⟩, by decide, by decide, by decide⟩
  exact
    (messageQueue_refines_iff (.inr rfl)
      (show messageQueueInit 64 16 2 ⟨true, true, 4096⟩ (fun _ => 0) = (0, some _) from rfl)
      hvalid).mpr (by decide)

/-- The size of header and payload wraps around to nothing; a message without room is taken. -/
theorem messageQueue_without_header :
    (messageQueueInit 64 (2 ^ 64 - 16) 2 ⟨true, true, 4096⟩ fun _ => 0).1 = 0 ∧
      ValidPool 64 (2 ^ 64 - 16) 2 4096 ∧
        ¬ RefinesFifo 64 2
          (MessageQueue.afterInit (newPool 64 (2 ^ 64 - 16) 2 4096 fun _ => 0)) := by
  refine ⟨rfl, ⟨⟨by decide, by decide, by decide⟩, by decide, by decide, by decide⟩, fun h => ?_⟩
  exact absurd (h [.push []]).1 (by decide)

end Addresses
end Baselib
end IocpNetlib
