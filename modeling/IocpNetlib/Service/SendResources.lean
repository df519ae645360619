import IocpNetlib.Baselib.DynamicMemoryPool
import IocpNetlib.Lib.Reach
import IocpNetlib.Service.Client

/-!
# The contexts and packets of sends

`PostSend`, `PostSendHttp` and `PostSpecial` take blocks from three pools, and
the blocks of an operation that was posted go back when its completion is
handled.  Here each post call and each completion handler is one step.

A callback of the application may itself post, from within a handler and, when
the last operation of a client fails to start, from within a post; such calls
are part of the step they are made in.  Callbacks return normally, and a call
that the C library stops does not take a step.
-/

namespace IocpNetlib
namespace Service

open Baselib Reachability

/-- The pools that `PostSend`, `PostSendHttp` and `PostSpecial` use. -/
inductive SendPool
  | sendIOContext
  | sendPacket
  | exceptionContext
deriving DecidableEq, Repr

/-- The fields of an `IOContext` that its completion reads. -/
structure IOContext where
  mOperationType : OpType
  mPointer : Option Nat
deriving DecidableEq, Repr

/-- `IOContext::Reset`. -/
def IOContext.reset : IOContext :=
  { mOperationType := .idle
    mPointer := none }

/--
An operation that was posted and not completed: its context, and whether it was
queued by `PostQueuedCompletionStatus` or posted by `WSASend`.
-/
structure Posted where
  context : Nat
  queued : Bool
deriving DecidableEq, Repr

/--
The pools, the memory of the contexts and the outstanding operations.  The last
two fields are the blocks that were obtained from and released to each pool.
-/
structure SendState where
  pool : SendPool → DynamicMemoryPool Nat
  context : Nat → IOContext
  outstanding : List Posted
  obtained : SendPool → List Nat
  released : SendPool → List Nat

/-- The pools after `CreateAllPool`. -/
def SendState.start (maxCache : SendPool → Nat) : SendState :=
  { pool := fun k => .make (maxCache k)
    context := fun _ => .reset
    outstanding := []
    obtained := fun _ => []
    released := fun _ => [] }

/--
`AllocSendIOContext`, `AllocSendPacket` and `AllocExceptionIOContext`: a block
that `operator new` would return now, which is no block of any pool, or `none`
when the result is `NULL`.
-/
def SendState.alloc (s : SendState) (k : SendPool) : Option Nat → Option (SendState × Option Nat)
  | none => some (s, none)
  | some p =>
      if p ∈ (s.pool .sendIOContext).m_heap ∨ p ∈ (s.pool .sendPacket).m_heap ∨
          p ∈ (s.pool .exceptionContext).m_heap then none
      else
        some
          ({ s with
              pool := Function.update s.pool k ((s.pool k).create p).1
              obtained :=
                Function.update s.obtained k (((s.pool k).create p).2 :: s.obtained k) },
            some ((s.pool k).create p).2)

/-- `ReleaseSendIOContext`, `ReleaseSendPacket` and `ReleaseExceptionIOContext`. -/
def SendState.release (s : SendState) (k : SendPool) : Option Nat → SendState
  | none => s
  | some b =>
      { s with
        pool := Function.update s.pool k ((s.pool k).free b)
        released := Function.update s.released k (b :: s.released k) }

/-- A context is written. -/
def SendState.setContext (s : SendState) (ct : Nat) (x : IOContext) : SendState :=
  { s with context := Function.update s.context ct x }

/-- An operation is posted. -/
def SendState.post (s : SendState) (ct : Nat) (queued : Bool) : SendState :=
  { s with outstanding := s.outstanding ++ [⟨ct, queued⟩] }

/--
A post call.  `context` and `packet` are the blocks that are offered, `posted`
says whether the operation starts, and `onClosed` are the calls that `OnClosed`
makes when `CheckRelease` finds that it was the last one.
-/
inductive Call
  | send (context packet : Option Nat) (posted : Bool) (onClosed : List Call)
  | special (opType : OpType) (context : Option Nat) (posted : Bool) (onClosed : List Call)

/-- The types that `PostSpecial` is called with. -/
def isSpecial : OpType → Bool
  | .timeout | .closed | .connectExTimeout => true
  | _ => false

mutual

/-- `PostSend` and `PostSendHttp`, which use their blocks alike, and `PostSpecial`. -/
def SendState.call (s : SendState) : Call → Option SendState
  | .send ctx pkt posted onClosed =>
      match s.alloc .sendIOContext ctx with
      | none => none
      | some (s, none) => some s
      | some (s, some context) =>
          match (s.setContext context .reset).alloc .sendPacket pkt with
          | none => none
          | some (s, none) => some (s.release .sendIOContext (some context))
          | some (s, some sendPacket) =>
              if posted then
                some ((s.setContext context ⟨.send, some sendPacket⟩).post context false)
              else
                match (s.setContext context ⟨.send, some sendPacket⟩).calls onClosed with
                | none => none
                | some s =>
                    some ((s.release .sendIOContext (some context)).release .sendPacket
                      (some sendPacket))
  | .special opType ctx posted onClosed =>
      if isSpecial opType = false then none
      else
        match s.alloc .exceptionContext ctx with
        | none => none
        | some (s, none) => s.calls onClosed
        | some (s, some ct) =>
            if posted then some ((s.setContext ct ⟨opType, none⟩).post ct true)
            else
              ((s.setContext ct ⟨opType, none⟩).release .exceptionContext (some ct)).calls onClosed

/-- The calls that a callback makes. -/
def SendState.calls (s : SendState) : List Call → Option SendState
  | [] => some s
  | c :: cs =>
      match s.call c with
      | none => none
      | some s => s.calls cs

end

/-- What `OnCompleteOperation` does to the pools; the size of a send does not matter. -/
def SendState.onCompleteOperation (s : SendState) (bSuccess : Bool) (ct : Nat) : SendState :=
  match bSuccess, (s.context ct).mOperationType with
  | false, .send =>
      (s.release .sendPacket (s.context ct).mPointer).release .sendIOContext (some ct)
  | true, .send =>
      -- `OnSendCompletion`
      (s.release .sendPacket (s.context ct).mPointer).release .sendIOContext (some ct)
  | true, .timeout => s.release .exceptionContext (some ct)
  | true, .closed => s.release .exceptionContext (some ct)
  | true, .connectExTimeout => s.release .exceptionContext (some ct)
  | _, _ => s

/--
A step: a call of the application, of the timer or of `ConnectServer`; the
completion of an outstanding operation, with the calls that its callbacks make
after the blocks went back; or that of a receive, an accept or a connect, which
uses no such block.
-/
inductive SendAction
  | call (c : Call)
  | complete (j : Nat) (bSuccess : Bool) (callbacks : List Call)
  | other (callbacks : List Call)

/-- Packets posted to the port only complete with success. -/
def SendState.step (s : SendState) : SendAction → Option SendState
  | .call c => s.call c
  | .complete j bSuccess callbacks =>
      match s.outstanding[j]? with
      | none => none
      | some p =>
          if p.queued = true ∧ bSuccess = false then none
          else
            (SendState.onCompleteOperation { s with outstanding := s.outstanding.eraseIdx j }
              bSuccess p.context).calls callbacks
  | .other callbacks => s.calls callbacks

/-- The blocks that outstanding operations hold. -/
def blocksOf (context : Nat → IOContext) (outstanding : List Posted) : SendPool → List Nat
  | .sendIOContext => (outstanding.filter (!·.queued)).map (·.context)
  | .sendPacket => (outstanding.filter (!·.queued)).filterMap fun p => (context p.context).mPointer
  | .exceptionContext => (outstanding.filter (·.queued)).map (·.context)

/--
The blocks of a pool that are in use are `blocks`, each once, and every other
block that was obtained from it was released as often.
-/
structure SendState.Accounts (s : SendState) (k : SendPool) (blocks : List Nat) : Prop where
  owns : (s.pool k).Owns blocks
  balance : (s.obtained k).Perm (s.released k ++ blocks)

/-- One more block of a pool. -/
def hold (held : SendPool → List Nat) (k : SendPool) (b : Nat) : SendPool → List Nat :=
  Function.update held k (b :: held k)

theorem mem_hold (held : SendPool → List Nat) (k : SendPool) (b : Nat) : b ∈ hold held k b k := by
  simp [hold]

theorem hold_comm
    (held : SendPool → List Nat) {k k' : SendPool} (hne : k ≠ k') (a b : Nat) :
    hold (hold held k a) k' b = hold (hold held k' b) k a := by
  unfold hold
  rw [Function.update_of_ne hne.symm, Function.update_of_ne hne]
  exact Function.update_comm hne _ _ held

/--
The invariant while the blocks `held` are neither released nor those of an
outstanding operation.
-/
structure SendState.Inv (held : SendPool → List Nat) (s : SendState) : Prop where
  accounts : ∀ k, s.Accounts k (blocksOf s.context s.outstanding k ++ held k)
  disjoint : ∀ k k' a, k ≠ k' → a ∈ (s.pool k).m_heap → a ∉ (s.pool k').m_heap
  sends :
    ∀ p ∈ s.outstanding, p.queued = false →
      ∃ sendPacket, s.context p.context = ⟨.send, some sendPacket⟩
  specials :
    ∀ p ∈ s.outstanding, p.queued = true → isSpecial (s.context p.context).mOperationType = true

section Accounts

variable {s : SendState} {k : SendPool} {blocks : List Nat}

theorem SendState.Accounts.perm
    (h : s.Accounts k blocks) {blocks' : List Nat} (hperm : blocks'.Perm blocks) :
    s.Accounts k blocks' :=
  ⟨h.owns.perm hperm, h.balance.trans (hperm.symm.append_left _)⟩

/-- A block that is obtained is one more in use. -/
theorem SendState.Accounts.alloc
    (h : s.Accounts k blocks) {o : Option Nat} {s' : SendState} {b : Nat}
    (hs : s.alloc k o = some (s', some b)) :
    s'.Accounts k (b :: blocks) ∧
      ∀ a ∈ (s'.pool k).m_heap, a ∈ (s.pool k).m_heap ∨ ∀ k', a ∉ (s.pool k').m_heap := by
  cases o with
  | none => simp [SendState.alloc] at hs
  | some p =>
      simp only [SendState.alloc] at hs
      split_ifs at hs with hused
      simp only [Option.some.injEq, Prod.mk.injEq] at hs
      obtain ⟨rfl, rfl⟩ := hs
      have hfresh : ∀ k', p ∉ (s.pool k').m_heap := by
        intro k' hp
        cases k' with
        | sendIOContext => exact hused (Or.inl hp)
        | sendPacket => exact hused (Or.inr (Or.inl hp))
        | exceptionContext => exact hused (Or.inr (Or.inr hp))
      obtain ⟨howns, hheap⟩ := h.owns.create fun _ => hfresh k
      simp only [Function.update_self]
      constructor
      · constructor
        · simpa using howns
        · have hmove := (h.balance.cons ((s.pool k).create p).2).trans List.perm_middle.symm
          simpa using hmove
      · intro a ha
        rcases hheap a ha with hold | rfl
        · exact Or.inl hold
        · exact Or.inr hfresh

/-- A block that is released is one less in use. -/
theorem SendState.Accounts.release
    {b : Nat} (h : s.Accounts k (b :: blocks)) :
    (s.release k (some b)).Accounts k blocks ∧
      ∀ a ∈ ((s.release k (some b)).pool k).m_heap, a ∈ (s.pool k).m_heap := by
  obtain ⟨howns, hheap⟩ := h.owns.free
  simp only [SendState.release, Function.update_self]
  constructor
  · constructor
    · simpa using howns
    · have hmove := h.balance.trans List.perm_middle
      simpa using hmove
  · exact hheap

end Accounts

section Blocks

variable {context : Nat → IOContext} {outstanding : List Posted}

theorem blocksOf_perm
    {outstanding' : List Posted} (h : outstanding.Perm outstanding') (k : SendPool) :
    (blocksOf context outstanding k).Perm (blocksOf context outstanding' k) := by
  cases k with
  | sendIOContext => exact (h.filter _).map _
  | sendPacket => exact (h.filter _).filterMap _
  | exceptionContext => exact (h.filter _).map _

/-- The blocks of a send are its context and its packet. -/
theorem blocksOf_send
    {ct sendPacket : Nat} (hct : context ct = ⟨.send, some sendPacket⟩)
    (held : SendPool → List Nat) (k : SendPool) :
    (blocksOf context (⟨ct, false⟩ :: outstanding) k ++ held k).Perm
      (blocksOf context outstanding k ++
        hold (hold held .sendIOContext ct) .sendPacket sendPacket k) := by
  cases k with
  | sendIOContext => simpa [blocksOf, hold] using List.perm_middle.symm
  | sendPacket => simpa [blocksOf, hold, hct] using List.perm_middle.symm
  | exceptionContext => simp [blocksOf, hold]

/-- The block of a special is its context. -/
theorem blocksOf_special
    (context : Nat → IOContext) (ct : Nat) (held : SendPool → List Nat) (k : SendPool) :
    (blocksOf context (⟨ct, true⟩ :: outstanding) k ++ held k).Perm
      (blocksOf context outstanding k ++ hold held .exceptionContext ct k) := by
  cases k with
  | sendIOContext => simp [blocksOf, hold]
  | sendPacket => simp [blocksOf, hold]
  | exceptionContext => simpa [blocksOf, hold] using List.perm_middle.symm

/-- The context of another operation may change. -/
theorem blocksOf_update
    {ct : Nat} (hct : ∀ p ∈ outstanding, p.context ≠ ct) (x : IOContext) (k : SendPool) :
    blocksOf (Function.update context ct x) outstanding k = blocksOf context outstanding k := by
  cases k with
  | sendIOContext => rfl
  | exceptionContext => rfl
  | sendPacket =>
      refine List.filterMap_congr fun p hp => ?_
      rw [Function.update_of_ne (hct p (List.mem_of_mem_filter hp))]

end Blocks

section Invariant

variable {s s' : SendState} {held : SendPool → List Nat}

/-- A context that is held is not that of an outstanding operation. -/
theorem SendState.Inv.not_outstanding
    (h : s.Inv held) {ct : Nat} (hct : ct ∈ held .sendIOContext ∨ ct ∈ held .exceptionContext) :
    ∀ p ∈ s.outstanding, p.context ≠ ct := by
  intro p hp he
  have hsends := (h.accounts .sendIOContext).owns
  have hspecials := (h.accounts .exceptionContext).owns
  have hin :
      (p.queued = false → p.context ∈ blocksOf s.context s.outstanding .sendIOContext) ∧
        (p.queued = true → p.context ∈ blocksOf s.context s.outstanding .exceptionContext) := by
    constructor
    · intro hq
      exact List.mem_map_of_mem (List.mem_filter.mpr ⟨hp, by simp [hq]⟩)
    · intro hq
      exact List.mem_map_of_mem (List.mem_filter.mpr ⟨hp, hq⟩)
  cases hq : p.queued with
  | false =>
      have hown := hin.1 hq
      rcases hct with hheld | hheld
      · exact (List.nodup_append.mp hsends.nodup_live).2.2 _ hown _ hheld he
      · exact h.disjoint .sendIOContext .exceptionContext p.context (by simp)
          (hsends.mem_heap (List.mem_append_left _ hown))
          (hspecials.mem_heap (List.mem_append_right _ (he ▸ hheld)))
  | true =>
      have hown := hin.2 hq
      rcases hct with hheld | hheld
      · exact h.disjoint .exceptionContext .sendIOContext p.context (by simp)
          (hspecials.mem_heap (List.mem_append_left _ hown))
          (hsends.mem_heap (List.mem_append_right _ (he ▸ hheld)))
      · exact (List.nodup_append.mp hspecials.nodup_live).2.2 _ hown _ hheld he

theorem SendState.Inv.setContext
    (h : s.Inv held) {ct : Nat} (hct : ct ∈ held .sendIOContext ∨ ct ∈ held .exceptionContext)
    (x : IOContext) :
    (s.setContext ct x).Inv held := by
  have hnot := h.not_outstanding hct
  constructor
  · intro k
    have haccounts := h.accounts k
    constructor
    · simpa only [SendState.setContext, blocksOf_update hnot] using haccounts.owns
    · simpa only [SendState.setContext, blocksOf_update hnot] using haccounts.balance
  · exact h.disjoint
  · intro p hp hq
    simp only [SendState.setContext, Function.update_of_ne (hnot p hp)]
    exact h.sends p hp hq
  · intro p hp hq
    simp only [SendState.setContext, Function.update_of_ne (hnot p hp)]
    exact h.specials p hp hq

/-- A block is obtained and held. -/
theorem SendState.Inv.alloc
    (h : s.Inv held) {k : SendPool} {o : Option Nat} {b : Nat}
    (hs : s.alloc k o = some (s', some b)) :
    s'.Inv (hold held k b) := by
  obtain ⟨haccounts, hheap⟩ := (h.accounts k).alloc hs
  obtain ⟨hcontext, houtstanding, hother⟩ :
      s'.context = s.context ∧ s'.outstanding = s.outstanding ∧
        ∀ k', k' ≠ k → s'.pool k' = s.pool k' ∧ s'.obtained k' = s.obtained k' ∧
          s'.released k' = s.released k' := by
    cases o with
    | none => simp [SendState.alloc] at hs
    | some p =>
        simp only [SendState.alloc] at hs
        split_ifs at hs
        simp only [Option.some.injEq, Prod.mk.injEq] at hs
        obtain ⟨rfl, -⟩ := hs
        refine ⟨rfl, rfl, fun k' hk => ⟨?_, ?_, rfl⟩⟩
        · exact Function.update_of_ne hk _ _
        · exact Function.update_of_ne hk _ _
  have hpool : ∀ k' a, a ∈ (s'.pool k').m_heap →
      a ∈ (s.pool k').m_heap ∨ k' = k ∧ ∀ k', a ∉ (s.pool k').m_heap := by
    intro k' a ha
    by_cases hk : k' = k
    · subst hk
      rcases hheap a ha with hold | hnew
      · exact Or.inl hold
      · exact Or.inr ⟨rfl, hnew⟩
    · rw [(hother k' hk).1] at ha
      exact Or.inl ha
  constructor
  · intro k'
    rw [hcontext, houtstanding]
    by_cases hk : k' = k
    · subst hk
      refine haccounts.perm ?_
      simp only [hold, Function.update_self]
      exact List.perm_middle
    · obtain ⟨hp, ho, hr⟩ := hother k' hk
      have hsame := h.accounts k'
      simp only [hold, Function.update_of_ne hk]
      constructor
      · rw [hp]
        exact hsame.owns
      · rw [ho, hr]
        exact hsame.balance
  · intro k₁ k₂ a hne h₁ h₂
    rcases hpool k₁ a h₁ with hold₁ | ⟨rfl, hnew₁⟩
    · rcases hpool k₂ a h₂ with hold₂ | ⟨-, hnew₂⟩
      · exact h.disjoint k₁ k₂ a hne hold₁ hold₂
      · exact hnew₂ k₁ hold₁
    · rcases hpool k₂ a h₂ with hold₂ | ⟨rfl, -⟩
      · exact hnew₁ k₂ hold₂
      · exact hne rfl
  · rw [hcontext, houtstanding]
    exact h.sends
  · rw [hcontext, houtstanding]
    exact h.specials

/-- A block that is held is released. -/
theorem SendState.Inv.release
    {k : SendPool} {b : Nat} (h : s.Inv (hold held k b)) :
    (s.release k (some b)).Inv held := by
  have hown :
      s.Accounts k (b :: (blocksOf s.context s.outstanding k ++ held k)) := by
    refine (h.accounts k).perm ?_
    simp only [hold, Function.update_self]
    exact List.perm_middle.symm
  obtain ⟨haccounts, hheap⟩ := hown.release
  have hpool : ∀ k' a, a ∈ ((s.release k (some b)).pool k').m_heap → a ∈ (s.pool k').m_heap := by
    intro k' a ha
    by_cases hk : k' = k
    · subst hk
      exact hheap a ha
    · simpa only [SendState.release, Function.update_of_ne hk] using ha
  constructor
  · intro k'
    by_cases hk : k' = k
    · subst hk
      exact haccounts
    · have hsame := h.accounts k'
      simp only [hold, Function.update_of_ne hk] at hsame
      constructor
      · simpa only [SendState.release, Function.update_of_ne hk] using hsame.owns
      · simpa only [SendState.release, Function.update_of_ne hk] using hsame.balance
  · intro k₁ k₂ a hne h₁ h₂
    exact h.disjoint k₁ k₂ a hne (hpool k₁ a h₁) (hpool k₂ a h₂)
  · exact h.sends
  · exact h.specials

/-- The context and the packet of a send go with the operation. -/
theorem SendState.Inv.postSend
    {ct sendPacket : Nat}
    (h : s.Inv (hold (hold held .sendIOContext ct) .sendPacket sendPacket))
    (hct : s.context ct = ⟨.send, some sendPacket⟩) :
    (s.post ct false).Inv held := by
  have hback : (s.outstanding ++ [Posted.mk ct false]).Perm (⟨ct, false⟩ :: s.outstanding) :=
    List.perm_append_comm
  constructor
  · intro k
    have hperm := ((blocksOf_perm hback k).append_right (held k)).trans (blocksOf_send hct held k)
    have haccounts := (h.accounts k).perm hperm
    exact ⟨haccounts.owns, haccounts.balance⟩
  · exact h.disjoint
  · intro p hp hq
    rcases List.mem_append.mp hp with hold | hnew
    · exact h.sends p hold hq
    · rw [List.mem_singleton.mp hnew]
      exact ⟨sendPacket, hct⟩
  · intro p hp hq
    rcases List.mem_append.mp hp with hold | hnew
    · exact h.specials p hold hq
    · rw [List.mem_singleton.mp hnew] at hq
      exact absurd hq (by simp)

/-- The context of a special goes with the operation. -/
theorem SendState.Inv.postSpecial
    {ct : Nat} (h : s.Inv (hold held .exceptionContext ct))
    (hct : isSpecial (s.context ct).mOperationType = true) :
    (s.post ct true).Inv held := by
  have hback : (s.outstanding ++ [Posted.mk ct true]).Perm (⟨ct, true⟩ :: s.outstanding) :=
    List.perm_append_comm
  constructor
  · intro k
    have hperm :=
      ((blocksOf_perm hback k).append_right (held k)).trans
        (blocksOf_special s.context ct held k)
    have haccounts := (h.accounts k).perm hperm
    exact ⟨haccounts.owns, haccounts.balance⟩
  · exact h.disjoint
  · intro p hp hq
    rcases List.mem_append.mp hp with hold | hnew
    · exact h.sends p hold hq
    · rw [List.mem_singleton.mp hnew] at hq
      exact absurd hq (by simp)
  · intro p hp hq
    rcases List.mem_append.mp hp with hold | hnew
    · exact h.specials p hold hq
    · rw [List.mem_singleton.mp hnew]
      exact hct

/-- `AllocSendIOContext` and its like return `NULL` without taking a block. -/
theorem SendState.alloc_none {k : SendPool} {o : Option Nat}
    (hs : s.alloc k o = some (s', none)) : s' = s := by
  cases o with
  | none =>
      simp only [SendState.alloc, Option.some.injEq, Prod.mk.injEq, and_true] at hs
      exact hs.symm
  | some p =>
      simp only [SendState.alloc] at hs
      split_ifs at hs
      simp at hs

mutual

/-- A call keeps the blocks that are held around it. -/
theorem SendState.Inv.call {s s' : SendState} {held : SendPool → List Nat}
    (h : s.Inv held) : ∀ {c : Call}, s.call c = some s' → s'.Inv held
  | .send ctx pkt posted onClosed, hs => by
      rw [SendState.call] at hs
      split at hs
      · exact absurd hs (by simp)
      · next halloc =>
          simp only [Option.some.injEq] at hs
          rw [← hs, SendState.alloc_none halloc]
          exact h
      · next s₁ context hcontext =>
          have h₁ := h.alloc hcontext
          have h₂ := h₁.setContext (Or.inl (mem_hold held _ context)) .reset
          split at hs
          · exact absurd hs (by simp)
          · next s₂ hpacket =>
              simp only [Option.some.injEq] at hs
              rw [← hs, SendState.alloc_none hpacket]
              exact h₂.release
          · next s₂ sendPacket hpacket =>
              have h₃ := h₂.alloc hpacket
              have hin :
                  context ∈
                    hold (hold held .sendIOContext context) .sendPacket sendPacket
                      .sendIOContext := by
                simp [hold]
              have h₄ := h₃.setContext (Or.inl hin) ⟨.send, some sendPacket⟩
              split at hs
              · simp only [Option.some.injEq] at hs
                rw [← hs]
                exact h₄.postSend (by simp [SendState.setContext])
              · split at hs
                · exact absurd hs (by simp)
                · next s₃ honClosed =>
                    have h₅ := h₄.calls honClosed
                    rw [hold_comm held (by simp)] at h₅
                    simp only [Option.some.injEq] at hs
                    rw [← hs]
                    exact h₅.release.release
  | .special opType ctx posted onClosed, hs => by
      rw [SendState.call] at hs
      by_cases htype : isSpecial opType = false
      · rw [if_pos htype] at hs
        exact absurd hs (by simp)
      · rw [if_neg htype] at hs
        split at hs
        · exact absurd hs (by simp)
        · next halloc =>
            rw [SendState.alloc_none halloc] at hs
            exact h.calls hs
        · next s₁ ct hct =>
            have h₁ :=
              (h.alloc hct).setContext (Or.inr (mem_hold held _ ct)) ⟨opType, none⟩
            split at hs
            · simp only [Option.some.injEq] at hs
              rw [← hs]
              refine h₁.postSpecial ?_
              simpa [SendState.setContext] using htype
            · exact h₁.release.calls hs

theorem SendState.Inv.calls {s s' : SendState} {held : SendPool → List Nat}
    (h : s.Inv held) : ∀ {cs : List Call}, s.calls cs = some s' → s'.Inv held
  | [], hs => by
      rw [SendState.calls, Option.some.injEq] at hs
      exact hs ▸ h
  | c :: cs, hs => by
      rw [SendState.calls] at hs
      split at hs
      · exact absurd hs (by simp)
      · next hcall => exact (h.call hcall).calls hs

end

/-- The blocks of an operation that completes are held by its handler. -/
theorem SendState.Inv.takeSend
    (h : s.Inv held) {j : Nat} {p : Posted} (hj : s.outstanding[j]? = some p)
    (hq : p.queued = false) :
    ∃ sendPacket, s.context p.context = ⟨.send, some sendPacket⟩ ∧
      SendState.Inv (hold (hold held .sendIOContext p.context) .sendPacket sendPacket)
        { s with outstanding := s.outstanding.eraseIdx j } := by
  obtain ⟨sendPacket, hct⟩ := h.sends p (List.mem_of_getElem? hj) hq
  obtain ⟨hlt, hp⟩ := List.getElem?_eq_some_iff.mp hj
  have hback : (Posted.mk p.context false :: s.outstanding.eraseIdx j).Perm s.outstanding := by
    rw [← hq]
    exact hp ▸ List.getElem_cons_eraseIdx_perm hlt
  refine ⟨sendPacket, hct, ?_⟩
  constructor
  · intro k
    have hperm :=
      (blocksOf_send hct held k).symm.trans ((blocksOf_perm hback k).append_right (held k))
    have haccounts := (h.accounts k).perm hperm
    exact ⟨haccounts.owns, haccounts.balance⟩
  · exact h.disjoint
  · exact fun p hp => h.sends p (List.mem_of_mem_eraseIdx hp)
  · exact fun p hp => h.specials p (List.mem_of_mem_eraseIdx hp)

theorem SendState.Inv.takeSpecial
    (h : s.Inv held) {j : Nat} {p : Posted} (hj : s.outstanding[j]? = some p)
    (hq : p.queued = true) :
    SendState.Inv (hold held .exceptionContext p.context)
      { s with outstanding := s.outstanding.eraseIdx j } := by
  obtain ⟨hlt, hp⟩ := List.getElem?_eq_some_iff.mp hj
  have hback : (Posted.mk p.context true :: s.outstanding.eraseIdx j).Perm s.outstanding := by
    rw [← hq]
    exact hp ▸ List.getElem_cons_eraseIdx_perm hlt
  constructor
  · intro k
    have hperm :=
      (blocksOf_special s.context p.context held k).symm.trans
        ((blocksOf_perm hback k).append_right (held k))
    have haccounts := (h.accounts k).perm hperm
    exact ⟨haccounts.owns, haccounts.balance⟩
  · exact h.disjoint
  · exact fun p hp => h.sends p (List.mem_of_mem_eraseIdx hp)
  · exact fun p hp => h.specials p (List.mem_of_mem_eraseIdx hp)

/-- A handler releases the blocks of its operation. -/
theorem SendState.Inv.onCompleteOperation
    (h : s.Inv held) {j : Nat} {p : Posted} (hj : s.outstanding[j]? = some p)
    {bSuccess : Bool} (hsuccess : ¬ (p.queued = true ∧ bSuccess = false)) :
    SendState.Inv held
      (SendState.onCompleteOperation { s with outstanding := s.outstanding.eraseIdx j }
        bSuccess p.context) := by
  cases hq : p.queued with
  | false =>
      obtain ⟨sendPacket, hct, htaken⟩ := h.takeSend hj hq
      have hreleased := htaken.release.release
      unfold SendState.onCompleteOperation
      cases bSuccess with
      | false =>
          simp only [hct]
          exact hreleased
      | true =>
          simp only [hct]
          exact hreleased
  | true =>
      have hgood : bSuccess = true := by
        rw [hq] at hsuccess
        simpa using hsuccess
      subst hgood
      have hreleased := (h.takeSpecial hj hq).release
      have hspecial := h.specials p (List.mem_of_getElem? hj) hq
      unfold SendState.onCompleteOperation
      cases htype : (s.context p.context).mOperationType with
      | timeout => exact hreleased
      | closed => exact hreleased
      | connectExTimeout => exact hreleased
      | _ =>
          rw [htype] at hspecial
          exact absurd hspecial (by decide)

/-- A step keeps the invariant, with no block held around it. -/
theorem SendState.Inv.step
    (h : s.Inv held) {act : SendAction} (hs : s.step act = some s') :
    s'.Inv held := by
  cases act with
  | call c => exact h.call hs
  | complete j bSuccess callbacks =>
      simp only [SendState.step] at hs
      split at hs
      · exact absurd hs (by simp)
      · next p hj =>
          by_cases hsuccess : p.queued = true ∧ bSuccess = false
          · rw [if_pos hsuccess] at hs
            exact absurd hs (by simp)
          · rw [if_neg hsuccess] at hs
            exact (h.onCompleteOperation hj hsuccess).calls hs
  | other callbacks => exact h.calls hs

end Invariant

theorem SendState.Inv.start (maxCache : SendPool → Nat) :
    (SendState.start maxCache).Inv fun _ => [] := by
  constructor
  · intro k
    cases k <;> exact ⟨DynamicMemoryPool.owns_make _, List.Perm.refl []⟩
  · intro k k' a _ ha
    exact absurd ha List.not_mem_nil
  · intro p hp
    exact absurd hp List.not_mem_nil
  · intro p hp
    exact absurd hp List.not_mem_nil

/-- The number of outstanding sends. -/
def SendState.sendCount (s : SendState) : Nat :=
  s.outstanding.countP (!·.queued)

/-- The number of outstanding specials. -/
def SendState.specialCount (s : SendState) : Nat :=
  s.outstanding.countP (·.queued)

/-- Nothing leaks, nothing is released twice, and the counts are those of the operations. -/
structure SendState.Conserved (s : SendState) : Prop where
  balance :
    ∀ k, (s.obtained k).Perm (s.released k ++ blocksOf s.context s.outstanding k) ∧
      (blocksOf s.context s.outstanding k).Nodup
  sendIOContext : (s.pool .sendIOContext).m_usedCount = s.sendCount
  sendPacket : (s.pool .sendPacket).m_usedCount = s.sendCount
  exceptionContext : (s.pool .exceptionContext).m_usedCount = s.specialCount

/-- Every send has a packet. -/
theorem length_packets
    {context : Nat → IOContext} {outstanding : List Posted}
    (h :
      ∀ p ∈ outstanding, p.queued = false →
        ∃ sendPacket, context p.context = ⟨.send, some sendPacket⟩) :
    (blocksOf context outstanding .sendPacket).length = outstanding.countP (!·.queued) := by
  induction outstanding with
  | nil => rfl
  | cons p ps ih =>
      have hrest := ih fun q hq => h q (List.mem_cons_of_mem _ hq)
      simp only [blocksOf] at hrest ⊢
      cases hq : p.queued with
      | false =>
          obtain ⟨sendPacket, hct⟩ := h p List.mem_cons_self hq
          simp [hq, hct, hrest]
      | true => simp [hq, hrest]

/--
In every run, whatever the order of posts and completions and however they end,
the blocks in use are those of the outstanding operations.
-/
theorem sendResources_conserved
    {maxCache : SendPool → Nat} {s : SendState}
    (hreach :
      Reach (fun s act => SendState.step s act) (fun _ _ => True) (SendState.start maxCache) s) :
    s.Conserved := by
  have hinv : s.Inv fun _ => [] :=
    hreach.invariant (SendState.Inv.start maxCache) fun h _ hs => h.step hs
  have haccounts : ∀ k, s.Accounts k (blocksOf s.context s.outstanding k) := by
    intro k
    simpa using hinv.accounts k
  constructor
  · exact fun k => ⟨(haccounts k).balance, (haccounts k).owns.nodup_live⟩
  · rw [(haccounts .sendIOContext).owns.used, blocksOf, List.length_map,
      ← List.countP_eq_length_filter]
    rfl
  · rw [(haccounts .sendPacket).owns.used]
    exact length_packets hinv.sends
  · rw [(haccounts .exceptionContext).owns.used, blocksOf, List.length_map,
      ← List.countP_eq_length_filter]
    rfl

theorem sendResources_conserved_example :
    ∃ s : SendState, s.sendCount = 1 ∧ s.specialCount = 1 ∧ (s.released .sendPacket).length = 2 ∧
      s.Conserved := by
  have hrun :
      (runAll (fun s act => SendState.step s act) (fun _ _ => True)
        (SendState.start fun _ => 1)
        [.call (.send (some 1) (some 2) true []), .call (.send (some 3) (some 4) true []),
          .call (.special .closed (some 5) true []), .complete 0 true [],
          .call (.send (some 6) (some 7) false [.special .closed (some 8) true []]),
          .complete 1 true []]).any
        (fun s =>
          decide (s.sendCount = 1 ∧ s.specialCount = 1 ∧ (s.released .sendPacket).length = 2)) =
        true := by
    decide +kernel
  obtain ⟨s, hreach, hcounts⟩ := exists_reach_of_runAll hrun
  obtain ⟨hsends, hspecials, hreleased⟩ := of_decide_eq_true hcounts
  exact ⟨s, hsends, hspecials, hreleased, sendResources_conserved hreach⟩

end Service
end IocpNetlib
