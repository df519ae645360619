import IocpNetlib.Service.IdleClock
import IocpNetlib.Service.Pending
import IocpNetlib.Service.SocketIDs

/-!
# A pass of `checkStatus`

`TcpService::checkStatus` walks over `mTcpClientMap` with an iterator while
`SetTimeout` may erase from the same map: a `PostSpecial` that fails gives up one
more `mPendingIO` than it took, and `CheckRelease` removes the client at zero.
The pass is taken on its own, without other threads in between, and every read
through the iterator is checked.
-/

namespace IocpNetlib
namespace Service

open Ledger Reachability

/-- How a `PostSpecial` goes: no context, a context but no packet in the queue, or both. -/
inductive PostOutcome
  | noContext
  | notQueued
  | queued
deriving DecidableEq, Repr

/-- `TcpClient::IncreaseIOCount`. -/
def State.increaseIOCount (s : State) (a : Addr) : State :=
  s.setClient a { s.client a with mPendingIo := (s.client a).mPendingIo + 1 }

/-- `TcpClient::DecreaseIOCount`. -/
def State.decreaseIOCount (s : State) (a : Addr) : State :=
  s.setClient a { s.client a with mPendingIo := (s.client a).mPendingIo - 1 }

/-- A call that is recorded of the client. -/
def State.record (s : State) (a : Addr) (k : Kind) : State :=
  { s with log := ⟨(s.client a).serial, (s.client a).mLogicSocketID, k⟩ :: s.log }

/-- `ReleaseRecvPacket`, for a client that has a receive buffer. -/
def State.releaseRecvPacket (s : State) (a : Addr) : State :=
  if (s.client a).mRecvPacketBuffer then
    (s.record a (.release .recvPacket)).setClient a
      { s.client a with mRecvPacketBuffer := false, holdsRecvPacket := false }
  else s

/-- The exchange of `CONN_CLOSING`, and what follows when it succeeds. -/
def State.casClosed (s : State) (a : Addr) : State :=
  if (s.client a).mConnState = .closing then
    let s₁ := (s.setClient a { s.client a with mConnState := .closed }).releaseRecvPacket a
    s₁.record a (.onClosed (s₁.client a).mLastErrorCode)
  else s

/-- `TcpClient::CheckRelease`. -/
def State.checkRelease (s : State) (a : Addr) : State :=
  let s₁ := s.decreaseIOCount a
  if (s₁.client a).mPendingIo = 0 then
    (s₁.casClosed a).removeClient ((s₁.casClosed a).client a).mLogicSocketID
  else s₁

/-- `TcpClient::PostSpecial`. -/
def State.postSpecial (s : State) (a : Addr) (opType : OpType) : PostOutcome → State
  | .noContext => ((s.increaseIOCount a).decreaseIOCount a).checkRelease a
  | .notQueued =>
      let s₁ := (s.increaseIOCount a).record a (.acquire .exceptionContext)
      ((s₁.record a (.release .exceptionContext)).decreaseIOCount a).checkRelease a
  | .queued =>
      let s₁ := (s.increaseIOCount a).record a (.acquire .exceptionContext)
      { s₁ with outstanding := s₁.outstanding ++ [(a, opType)] }

/-- `mTcpClientMap.begin()`; the iterator at the end is `none`. -/
def State.begin (s : State) : Option SocketID :=
  s.mTcpClientMap.head?.map Prod.fst

/-- The entry behind the one the iterator is at. -/
def State.next (s : State) (itor : SocketID) : Option SocketID :=
  (s.mTcpClientMap.dropWhile fun e => e.1 ≠ itor).tail.head?.map Prod.fst

/-- `itor->second`, for a client that has not been freed. -/
def State.deref (s : State) (itor : SocketID) : Option Addr :=
  (s.mTcpClientMap.lookup itor).filter fun a => (s.client a).live

/--
What a pass works with: the build, `mClientTimeoutSec`, the tick it has read, the
`mLastTickTime` of each client, and how the `PostSpecial` of each client goes.
-/
structure StatusCheck where
  build : Build
  mClientTimeoutSec : Int
  now : Nat
  mLastTickTime : Addr → Nat
  post : SocketID → PostOutcome

/--
A pass under way: the service, the clients that were not accepting when the
iterator was at them, and those `SetTimeout` was called on, once for each time
that `mStats["Timeout"]` was counted up.
-/
structure Sweep where
  service : State
  visited : List SocketID
  timedOut : List SocketID

/-- Why a pass has no meaning: a read through an iterator whose entry is gone. -/
inductive SweepFault
  | erased (itor : SocketID)
  | outOfFuel
deriving DecidableEq, Repr

/-- `TcpClient::IsAccepting`. -/
def TcpClient.isAccepting (c : TcpClient) : Bool :=
  decide (c.mOperationType = .accept)

/-- `IsMarkedDestroy() && !IsActive()`. -/
def TcpClient.isDestroyed (c : TcpClient) : Bool :=
  c.mMarkedDestroy && !decide (0 < c.mReferenceCount)

/-- A visit frees the client. -/
def TcpClient.isSwept (c : TcpClient) : Bool :=
  !c.isAccepting && c.isDestroyed

namespace StatusCheck

variable (k : StatusCheck)

/-- The timeout test of the pass. -/
def isIdle (a : Addr) : Bool :=
  k.build.idle k.mClientTimeoutSec k.now (k.mLastTickTime a)

/-- The visit of a client that is not accepting, up to `IsMarkedDestroy`. -/
def timeOut (p : Sweep) (itor : SocketID) (a : Addr) : Sweep :=
  if k.isIdle a then
    { service := p.service.postSpecial a .timeout (k.post itor)
      visited := p.visited ++ [itor]
      timedOut := p.timedOut ++ [itor] }
  else { p with visited := p.visited ++ [itor] }

/-- The body of the loop, with the iterator it goes on with. -/
def visit (p : Sweep) (itor : SocketID) : Except SweepFault (Sweep × Option SocketID) :=
  match p.service.deref itor with
  | none => .error (.erased itor)
  | some a =>
      if (p.service.client a).isAccepting then .ok (p, p.service.next itor)
      else
        let p₁ := k.timeOut p itor a
        -- `itor->second` is read once more, to free a client that is marked
        match p₁.service.sweep a itor with
        | none => .error (.erased itor)
        | some s => .ok ({ p₁ with service := s }, p₁.service.next itor)

/-- The loop, for at most as many iterations as it has fuel. -/
def loop : Nat → Option SocketID → Sweep → Except SweepFault Sweep
  | _, none, p => .ok p
  | 0, some _, _ => .error .outOfFuel
  | n + 1, some itor, p =>
      match k.visit p itor with
      | .error e => .error e
      | .ok (p', itor') => loop n itor' p'

/-- `TcpService::checkStatus`. -/
def checkStatus (s : State) : Except SweepFault Sweep :=
  k.loop s.mTcpClientMap.length s.begin ⟨s, [], []⟩

/-- The visit of this entry erases it, and reads through the iterator afterwards. -/
def Loses (s : State) (e : SocketID × Addr) : Prop :=
  (s.client e.2).isAccepting = false ∧ k.isIdle e.2 = true ∧ k.post e.1 ≠ .queued ∧
    (s.client e.2).mPendingIo = 1 ∧ (s.client e.2).mLogicSocketID = e.1 ∧
    ¬ 0 < (s.client e.2).mReferenceCount

end StatusCheck

/--
What holds of the map whatever runs: ids and clients are there once, a client in
the map has not been freed, and a client has its own id or that of no entry.
-/
structure State.Indexed (s : State) : Prop where
  keys : (s.mTcpClientMap.map Prod.fst).Nodup
  clients : (s.mTcpClientMap.map Prod.snd).Nodup
  live : ∀ e ∈ s.mTcpClientMap, (s.client e.2).live = true
  own : ∀ e ∈ s.mTcpClientMap, ∀ e' ∈ s.mTcpClientMap,
    (s.client e.2).mLogicSocketID = e'.1 → e' = e

/-- What one client can do to the service without leaving the map. -/
structure State.Stays (s s' : State) (a : Addr) : Prop where
  map : s'.mTcpClientMap = s.mTcpClientMap
  other : ∀ b, b ≠ a → s'.client b = s.client b
  live : (s'.client a).live = (s.client a).live
  mLogicSocketID : (s'.client a).mLogicSocketID = (s.client a).mLogicSocketID
  mReferenceCount : (s'.client a).mReferenceCount = (s.client a).mReferenceCount
  isDestroyed : (s'.client a).isDestroyed = (s.client a).isDestroyed

section Stays

variable {s s' s'' : State} {a : Addr} {id : SocketID}

theorem State.Stays.refl (s : State) (a : Addr) : s.Stays s a :=
  ⟨rfl, fun _ _ => rfl, rfl, rfl, rfl, rfl⟩

theorem State.Stays.trans (h : s.Stays s' a) (h' : s'.Stays s'' a) : s.Stays s'' a where
  map := h'.map.trans h.map
  other := fun b hb => (h'.other b hb).trans (h.other b hb)
  live := h'.live.trans h.live
  mLogicSocketID := h'.mLogicSocketID.trans h.mLogicSocketID
  mReferenceCount := h'.mReferenceCount.trans h.mReferenceCount
  isDestroyed := h'.isDestroyed.trans h.isDestroyed

/-- The fields that decide about removal are left alone. -/
theorem stays_setClient
    {c : TcpClient} (hlive : c.live = (s.client a).live)
    (hid : c.mLogicSocketID = (s.client a).mLogicSocketID)
    (href : c.mReferenceCount = (s.client a).mReferenceCount)
    (hmark : c.isDestroyed = (s.client a).isDestroyed) :
    s.Stays (s.setClient a c) a where
  map := rfl
  other := fun _ hb => setClient_other s hb c
  live := by rw [setClient_self, hlive]
  mLogicSocketID := by rw [setClient_self, hid]
  mReferenceCount := by rw [setClient_self, href]
  isDestroyed := by rw [setClient_self, hmark]

theorem stays_record (s : State) (a : Addr) (k : Kind) : s.Stays (s.record a k) a :=
  ⟨rfl, fun _ _ => rfl, rfl, rfl, rfl, rfl⟩

theorem stays_increaseIOCount (s : State) (a : Addr) : s.Stays (s.increaseIOCount a) a :=
  stays_setClient rfl rfl rfl rfl

theorem stays_decreaseIOCount (s : State) (a : Addr) : s.Stays (s.decreaseIOCount a) a :=
  stays_setClient rfl rfl rfl rfl

theorem stays_releaseRecvPacket (s : State) (a : Addr) : s.Stays (s.releaseRecvPacket a) a := by
  rw [State.releaseRecvPacket]
  split_ifs
  · exact (stays_record s a _).trans (stays_setClient rfl rfl rfl rfl)
  · exact .refl s a

theorem stays_casClosed (s : State) (a : Addr) : s.Stays (s.casClosed a) a := by
  rw [State.casClosed]
  split_ifs
  · have hclosed : s.Stays (s.setClient a { s.client a with mConnState := .closed }) a :=
      stays_setClient rfl rfl rfl rfl
    exact (hclosed.trans (stays_releaseRecvPacket _ a)).trans (stays_record _ a _)
  · exact .refl s a

theorem State.Indexed.stays (h : s.Indexed) (hs : s.Stays s' a) : s'.Indexed := by
  have hid : ∀ b, (s'.client b).mLogicSocketID = (s.client b).mLogicSocketID := by
    intro b
    by_cases hb : b = a
    · rw [hb, hs.mLogicSocketID]
    · rw [hs.other b hb]
  refine ⟨by rw [hs.map]; exact h.keys, by rw [hs.map]; exact h.clients, ?_, ?_⟩
  · intro e he
    rw [hs.map] at he
    by_cases hb : e.2 = a
    · rw [hb, hs.live, ← hb]
      exact h.live e he
    · rw [hs.other _ hb]
      exact h.live e he
  · intro e he e' he' heq
    rw [hs.map] at he he'
    rw [hid] at heq
    exact h.own e he e' he' heq

end Stays

section PostSpecial

variable {s : State} {a : Addr} {id : SocketID}

/-- `RemoveClient` finds no other entry, and leaves a client that is in use. -/
theorem removeClient_stays
    (h : s.Indexed) (he : (id, a) ∈ s.mTcpClientMap)
    (huse : (s.client a).mLogicSocketID = id → 0 < (s.client a).mReferenceCount) :
    s.Stays (s.removeClient (s.client a).mLogicSocketID) a := by
  rw [State.removeClient]
  split
  · exact .refl s a
  · next b hlook =>
      have hself := h.own _ he _ (lookup_mem hlook) rfl
      obtain ⟨hid, rfl⟩ := Prod.mk.inj hself
      have hactive := huse hid
      rw [if_pos hactive]
      refine stays_setClient ?_ ?_ ?_ ?_
      · rw [removed_active hactive]
      · rw [removed_active hactive]
      · rw [removed_active hactive]
      · rw [removed_active hactive, TcpClient.isDestroyed, TcpClient.isDestroyed]
        simp [hactive]

/-- `RemoveClient` erases the entry of a client that is not in use. -/
theorem removeClient_erases
    (h : s.Indexed) (he : (id, a) ∈ s.mTcpClientMap)
    (hid : (s.client a).mLogicSocketID = id) (huse : ¬ 0 < (s.client a).mReferenceCount) :
    (s.removeClient (s.client a).mLogicSocketID).mTcpClientMap.lookup id = none := by
  have hlook : s.mTcpClientMap.lookup id = some a := lookup_of_mem h.keys he
  have hgone : (s.mTcpClientMap.filter fun e => e.1 ≠ id).lookup id = none := by
    rw [List.lookup_eq_none_iff]
    intro e he'
    have hne : e.1 ≠ id := of_decide_eq_true (List.mem_filter.mp he').2
    exact bne_iff_ne.mpr hne.symm
  rw [hid, State.removeClient, hlook]
  simp only [if_neg huse]
  exact hgone

/-- A failed `PostSpecial` takes one from the count of the client, with nothing to show for it. -/
theorem postSpecial_failed
    (s : State) (a : Addr) (opType : OpType) {o : PostOutcome} (ho : o ≠ .queued) :
    ∃ s₁, s.Stays s₁ a ∧ (s₁.client a).mPendingIo = (s.client a).mPendingIo ∧
      s.postSpecial a opType o = s₁.checkRelease a := by
  have hinc := stays_increaseIOCount s a
  cases o with
  | noContext =>
      refine ⟨_, hinc.trans (stays_decreaseIOCount _ a), ?_, rfl⟩
      simp only [State.decreaseIOCount, State.increaseIOCount, setClient_self]
      omega
  | notQueued =>
      refine ⟨_, ((hinc.trans (stays_record _ a _)).trans (stays_record _ a _)).trans
        (stays_decreaseIOCount _ a), ?_, rfl⟩
      simp only [State.decreaseIOCount, State.increaseIOCount, State.record, setClient_self]
      omega
  | queued => exact absurd rfl ho

/-- The client stays where it is, unless its last operation is given up and nobody uses it. -/
theorem postSpecial_stays
    (h : s.Indexed) (he : (id, a) ∈ s.mTcpClientMap) (opType : OpType) {o : PostOutcome}
    (huse : o ≠ .queued → (s.client a).mPendingIo = 1 → (s.client a).mLogicSocketID = id →
      0 < (s.client a).mReferenceCount) :
    s.Stays (s.postSpecial a opType o) a := by
  by_cases ho : o = .queued
  · rw [ho]
    exact (stays_increaseIOCount s a).trans ⟨rfl, fun _ _ => rfl, rfl, rfl, rfl, rfl⟩
  · obtain ⟨s₁, hstays, hpending, hpost⟩ := postSpecial_failed s a opType ho
    have hdec := hstays.trans (stays_decreaseIOCount s₁ a)
    rw [hpost, State.checkRelease]
    split_ifs with hzero
    · have hcas := hdec.trans (stays_casClosed _ a)
      refine hcas.trans (removeClient_stays (h.stays hcas) (by rw [hcas.map]; exact he) ?_)
      intro hid
      rw [hcas.mLogicSocketID] at hid
      rw [hcas.mReferenceCount]
      refine huse ho ?_ hid
      rw [State.decreaseIOCount, setClient_self, hpending] at hzero
      have hzero' : (s.client a).mPendingIo - 1 = 0 := hzero
      omega
    · exact hdec

/-- The entry is gone when `PostSpecial` fails for a client with one operation and no user. -/
theorem postSpecial_erases
    (h : s.Indexed) (he : (id, a) ∈ s.mTcpClientMap) (opType : OpType) {o : PostOutcome}
    (ho : o ≠ .queued) (hone : (s.client a).mPendingIo = 1)
    (hid : (s.client a).mLogicSocketID = id) (huse : ¬ 0 < (s.client a).mReferenceCount) :
    (s.postSpecial a opType o).mTcpClientMap.lookup id = none := by
  obtain ⟨s₁, hstays, hpending, hpost⟩ := postSpecial_failed s a opType ho
  have hzero : ((s₁.decreaseIOCount a).client a).mPendingIo = 0 := by
    rw [State.decreaseIOCount, setClient_self]
    show (s₁.client a).mPendingIo - 1 = 0
    omega
  have hcas := (hstays.trans (stays_decreaseIOCount s₁ a)).trans (stays_casClosed _ a)
  rw [hpost, State.checkRelease, if_pos hzero]
  apply removeClient_erases (h.stays hcas)
  · rw [hcas.map]
    exact he
  · rw [hcas.mLogicSocketID, hid]
  · rw [hcas.mReferenceCount]
    exact huse

end PostSpecial

section Visit

variable {s s' : State} {pre rest : List (SocketID × Addr)} {e : SocketID × Addr}

theorem TcpClient.isDestroyed_iff (c : TcpClient) :
    c.isDestroyed = true ↔ c.mMarkedDestroy ∧ ¬ 0 < c.mReferenceCount := by
  rw [TcpClient.isDestroyed, Bool.and_eq_true, Bool.not_eq_true', decide_eq_false_iff_not]

/-- Entries are erased, and the clients of the others are left alone. -/
theorem State.Indexed.sublist
    (h : s.Indexed) (hsub : s'.mTcpClientMap.Sublist s.mTcpClientMap)
    (hclient : ∀ x ∈ s'.mTcpClientMap, s'.client x.2 = s.client x.2) :
    s'.Indexed where
  keys := h.keys.sublist (hsub.map _)
  clients := h.clients.sublist (hsub.map _)
  live := fun x hx => by
    rw [hclient x hx]
    exact h.live x (hsub.mem hx)
  own := fun x hx y hy hid => by
    rw [hclient x hx] at hid
    exact h.own x (hsub.mem hx) y (hsub.mem hy) hid

theorem State.Indexed.key_ne
    (h : s.Indexed) (hmap : s.mTcpClientMap = pre ++ e :: rest) :
    (∀ x ∈ pre, x.1 ≠ e.1 ∧ x.2 ≠ e.2) ∧ ∀ x ∈ rest, x.1 ≠ e.1 ∧ x.2 ≠ e.2 := by
  have hkeys := h.keys
  have hclients := h.clients
  rw [hmap, List.map_append, List.map_cons, List.nodup_middle, List.nodup_cons,
    List.mem_append, List.mem_map, List.mem_map] at hkeys hclients
  refine ⟨fun x hx => ⟨fun heq => ?_, fun heq => ?_⟩, fun x hx => ⟨fun heq => ?_, fun heq => ?_⟩⟩
  · exact hkeys.1 (Or.inl ⟨x, hx, heq⟩)
  · exact hclients.1 (Or.inl ⟨x, hx, heq⟩)
  · exact hkeys.1 (Or.inr ⟨x, hx, heq⟩)
  · exact hclients.1 (Or.inr ⟨x, hx, heq⟩)

theorem State.Indexed.deref (h : s.Indexed) (he : e ∈ s.mTcpClientMap) :
    s.deref e.1 = some e.2 := by
  rw [State.deref, lookup_of_mem h.keys he, Option.filter_some, if_pos (h.live e he)]

/-- `++itor`. -/
theorem State.Indexed.next
    (h : s.Indexed) (hmap : s.mTcpClientMap = pre ++ e :: rest) :
    s.next e.1 = rest.head?.map Prod.fst := by
  have hpre : ∀ x ∈ pre, (decide (x.1 ≠ e.1)) = true := fun x hx =>
    decide_eq_true ((h.key_ne hmap).1 x hx).1
  rw [State.next, hmap, List.dropWhile_append_of_pos hpre, List.dropWhile_cons]
  simp

theorem filter_key
    (h : s.Indexed) (hmap : s.mTcpClientMap = pre ++ e :: rest) :
    (s.mTcpClientMap.filter fun x => x.1 ≠ e.1) = pre ++ rest := by
  have hpre : ∀ x ∈ pre, (decide (x.1 ≠ e.1)) = true := fun x hx =>
    decide_eq_true ((h.key_ne hmap).1 x hx).1
  have hrest : ∀ x ∈ rest, (decide (x.1 ≠ e.1)) = true := fun x hx =>
    decide_eq_true ((h.key_ne hmap).2 x hx).1
  rw [hmap, List.filter_append, List.filter_cons, List.filter_eq_self.mpr hpre,
    List.filter_eq_self.mpr hrest]
  simp

/-- The end of a visit whose entry is still there. -/
theorem sweep_ok (h : s.Indexed) (hmap : s.mTcpClientMap = pre ++ e :: rest) :
    ∃ s', s.sweep e.2 e.1 = some s' ∧ s'.Indexed ∧
      s'.mTcpClientMap = pre ++ (if (s.client e.2).isDestroyed then [] else [e]) ++ rest ∧
      (∀ b, b ≠ e.2 → s'.client b = s.client b) ∧
      (s'.client e.2).live = !(s.client e.2).isDestroyed := by
  have he : e ∈ s.mTcpClientMap := by
    rw [hmap]
    exact List.mem_append_right _ List.mem_cons_self
  have hlook : s.mTcpClientMap.lookup e.1 = some e.2 := lookup_of_mem h.keys he
  have hother : ∀ c b, b ≠ e.2 → (s.setClient e.2 c).client b = s.client b :=
    fun c b hb => setClient_other s hb c
  refine ⟨_, by rw [State.sweep, if_pos hlook], ?_⟩
  by_cases hdestroyed : (s.client e.2).isDestroyed = true
  · have hgone := (TcpClient.isDestroyed_iff _).mp hdestroyed
    rw [if_pos hgone, if_pos hdestroyed, filter_key h hmap, List.append_nil]
    refine ⟨h.sublist ?_ ?_, rfl, hother _, ?_⟩
    · rw [hmap]
      exact (List.sublist_cons_self e rest).append_left pre
    · intro x hx
      apply hother
      rcases List.mem_append.mp hx with hx | hx
      · exact ((h.key_ne hmap).1 x hx).2
      · exact ((h.key_ne hmap).2 x hx).2
    · rw [hdestroyed, swept_free hgone]
      exact congrArg TcpClient.live (setClient_self s e.2 _)
  · have hkept := fun hgone => hdestroyed ((TcpClient.isDestroyed_iff _).mpr hgone)
    rw [if_neg hkept, if_neg hdestroyed, swept_kept hkept]
    have hstays : s.Stays (s.setClient e.2 (s.client e.2)) e.2 := stays_setClient rfl rfl rfl rfl
    refine ⟨h.stays hstays, ?_, hother _, ?_⟩
    · rw [hmap, List.append_assoc]
      rfl
    · rw [Bool.not_eq_true] at hdestroyed
      rw [hdestroyed, hstays.live, h.live e he]
      rfl

namespace StatusCheck

variable {k : StatusCheck} {p p' : Sweep}

/-- The visits a pass makes to these entries. -/
def visits (client : Addr → TcpClient) (m : List (SocketID × Addr)) : List SocketID :=
  (m.filter fun e => !(client e.2).isAccepting).map Prod.fst

/-- The clients among them that `SetTimeout` is called on. -/
def timeouts (k : StatusCheck) (client : Addr → TcpClient) (m : List (SocketID × Addr)) :
    List SocketID :=
  (m.filter fun e => !(client e.2).isAccepting && k.isIdle e.2).map Prod.fst

/-- What a part of a pass over the entries `m` has done. -/
structure Done (k : StatusCheck) (p p' : Sweep) (m : List (SocketID × Addr)) : Prop where
  indexed : p'.service.Indexed
  visited : p'.visited = p.visited ++ visits p.service.client m
  timedOut : p'.timedOut = p.timedOut ++ k.timeouts p.service.client m
  other : ∀ b, b ∉ m.map Prod.snd → p'.service.client b = p.service.client b
  live : ∀ e ∈ m, (p'.service.client e.2).live = !(p.service.client e.2).isSwept

/-- `SetTimeout` leaves the client in the map, where the visit does not lose its entry. -/
theorem timeOut_stays
    (h : p.service.Indexed) (he : e ∈ p.service.mTcpClientMap)
    (hacc : (p.service.client e.2).isAccepting = false) (hkeep : ¬ k.Loses p.service e) :
    p.service.Stays (k.timeOut p e.1 e.2).service e.2 := by
  rw [timeOut]
  split_ifs with hidle
  · apply postSpecial_stays h he
    intro hpost hone hid
    by_contra huse
    exact hkeep ⟨hacc, hidle, hpost, hone, hid, huse⟩
  · exact .refl _ _

theorem timeOut_visited (k : StatusCheck) (p : Sweep) (e : SocketID × Addr) :
    (k.timeOut p e.1 e.2).visited = p.visited ++ [e.1] ∧
      (k.timeOut p e.1 e.2).timedOut = p.timedOut ++ if k.isIdle e.2 then [e.1] else [] := by
  rw [timeOut]
  split_ifs
  · exact ⟨rfl, rfl⟩
  · exact ⟨rfl, (List.append_nil _).symm⟩

/-- A visit that keeps its entry, and where it goes on. -/
theorem visit_ok
    (h : p.service.Indexed) (hmap : p.service.mTcpClientMap = pre ++ e :: rest)
    (hkeep : ¬ k.Loses p.service e) :
    ∃ p', k.visit p e.1 = .ok (p', rest.head?.map Prod.fst) ∧ k.Done p p' [e] ∧
      p'.service.mTcpClientMap =
        (pre ++ [e].filter fun x => !(p.service.client x.2).isSwept) ++ rest := by
  have he : e ∈ p.service.mTcpClientMap := by
    rw [hmap]
    exact List.mem_append_right _ List.mem_cons_self
  rw [visit, h.deref he]
  cases hacc : (p.service.client e.2).isAccepting with
  | true =>
      refine ⟨p, by simp only [hacc, if_true, h.next hmap], ?_, ?_⟩
      · refine ⟨h, ?_, ?_, fun _ _ => rfl, ?_⟩
        · simp [visits, hacc]
        · simp [timeouts, hacc]
        · intro x hx
          rw [List.mem_singleton.mp hx, TcpClient.isSwept, hacc, h.live e he]
          rfl
      · rw [hmap]
        simp [TcpClient.isSwept, hacc]
  | false =>
      have hstays := timeOut_stays h he hacc hkeep
      obtain ⟨hvisited, htimedOut⟩ := timeOut_visited k p e
      have h₁ := h.stays hstays
      have hmap₁ := hstays.map.trans hmap
      obtain ⟨s', hsweep, hs', hmap', hother, hlive⟩ := sweep_ok h₁ hmap₁
      have hswept : (p.service.client e.2).isSwept = (p.service.client e.2).isDestroyed := by
        rw [TcpClient.isSwept, hacc]
        rfl
      refine ⟨{ k.timeOut p e.1 e.2 with service := s' }, ?_, ⟨hs', ?_, ?_, ?_, ?_⟩, ?_⟩
      · simp only [hacc, Bool.false_eq_true, if_false, hsweep, h₁.next hmap₁]
      · show (k.timeOut p e.1 e.2).visited = _
        rw [hvisited, visits]
        simp [hacc]
      · show (k.timeOut p e.1 e.2).timedOut = _
        rw [htimedOut, timeouts]
        cases hidle : k.isIdle e.2 <;> simp [hacc, hidle]
      · intro b hb
        have hne : b ≠ e.2 := by simpa using hb
        exact (hother b hne).trans (hstays.other b hne)
      · intro x hx
        rw [List.mem_singleton.mp hx, hswept, ← hstays.isDestroyed]
        exact hlive
      · show s'.mTcpClientMap = _
        rw [hmap', hstays.isDestroyed]
        cases hd : (p.service.client e.2).isDestroyed <;> simp [hswept, hd]

/-- A visit that erases its own entry, and reads it again. -/
theorem visit_loses
    (h : p.service.Indexed) (he : e ∈ p.service.mTcpClientMap) (hlose : k.Loses p.service e) :
    k.visit p e.1 = .error (.erased e.1) := by
  obtain ⟨hacc, hidle, hpost, hone, hid, huse⟩ := hlose
  have hgone := postSpecial_erases h he .timeout hpost hone hid huse
  have hlost : (p.service.postSpecial e.2 .timeout (k.post e.1)).sweep e.2 e.1 = none := by
    rw [State.sweep, hgone, if_neg (by simp)]
  rw [visit, h.deref he]
  simp only [hacc, Bool.false_eq_true, if_false, timeOut, hidle, if_true, hlost]

theorem loses_congr {s s' : State} {x : SocketID × Addr}
    (hclient : s'.client x.2 = s.client x.2) :
    k.Loses s' x ↔ k.Loses s x := by
  rw [Loses, Loses, hclient]

theorem Done.refl (h : p.service.Indexed) : k.Done p p [] where
  indexed := h
  visited := (List.append_nil _).symm
  timedOut := (List.append_nil _).symm
  other := fun _ _ => rfl
  live := fun _ hx => absurd hx List.not_mem_nil

/-- A visit and the rest of the pass. -/
theorem Done.cons
    {p'' : Sweep} (hvisit : k.Done p p' [e]) (hrest : k.Done p' p'' rest)
    (hkeep : ∀ x ∈ rest, p'.service.client x.2 = p.service.client x.2)
    (hne : ∀ x ∈ rest, x.2 ≠ e.2) :
    k.Done p p'' (e :: rest) where
  indexed := hrest.indexed
  visited := by
    have hcongr : visits p'.service.client rest = visits p.service.client rest := by
      rw [visits, visits]
      exact congrArg _ (List.filter_congr fun x hx => by rw [hkeep x hx])
    rw [hrest.visited, hvisit.visited, hcongr, List.append_assoc, visits, visits, visits,
      ← List.map_append, ← List.filter_append, List.singleton_append]
  timedOut := by
    have hcongr : k.timeouts p'.service.client rest = k.timeouts p.service.client rest := by
      rw [timeouts, timeouts]
      exact congrArg _ (List.filter_congr fun x hx => by rw [hkeep x hx])
    rw [hrest.timedOut, hvisit.timedOut, hcongr, List.append_assoc, timeouts, timeouts,
      timeouts, ← List.map_append, ← List.filter_append, List.singleton_append]
  other := fun b hb => by
    rw [List.map_cons, List.mem_cons, not_or] at hb
    rw [hrest.other b hb.2]
    apply hvisit.other
    simpa using hb.1
  live := by
    intro x hx
    rcases List.mem_cons.mp hx with hself | hx
    · have hlater : x.2 ∉ rest.map Prod.snd := by
        intro hmem
        obtain ⟨y, hy, heq⟩ := List.mem_map.mp hmem
        exact hne y hy (heq.trans (congrArg Prod.snd hself))
      rw [hrest.other _ hlater]
      exact hvisit.live x (List.mem_singleton.mpr hself)
    · rw [hrest.live x hx, hkeep x hx]

/-- A pass over entries of which none is lost comes to the end of the map. -/
theorem loop_ok :
    ∀ {rest pre : List (SocketID × Addr)} {p : Sweep},
      p.service.Indexed → p.service.mTcpClientMap = pre ++ rest →
      (∀ e ∈ rest, ¬ k.Loses p.service e) →
      ∃ p', k.loop rest.length (rest.head?.map Prod.fst) p = .ok p' ∧ k.Done p p' rest ∧
        p'.service.mTcpClientMap =
          pre ++ rest.filter fun x => !(p.service.client x.2).isSwept := by
  intro rest
  induction rest with
  | nil =>
      intro pre p h hmap _
      refine ⟨p, rfl, .refl h, ?_⟩
      rw [hmap, List.filter_nil]
  | cons e rest ih =>
      intro pre p h hmap hkeep
      obtain ⟨p', hvisit, hdone, hmap'⟩ := visit_ok h hmap (hkeep e List.mem_cons_self)
      have hne : ∀ x ∈ rest, x.2 ≠ e.2 := fun x hx => ((h.key_ne hmap).2 x hx).2
      have hsame : ∀ x ∈ rest, p'.service.client x.2 = p.service.client x.2 := by
        intro x hx
        apply hdone.other
        simpa using hne x hx
      have hkeep' : ∀ x ∈ rest, ¬ k.Loses p'.service x := fun x hx hlose =>
        hkeep x (List.mem_cons_of_mem _ hx) ((loses_congr (hsame x hx)).mp hlose)
      obtain ⟨p'', hloop, hdone', hmap''⟩ := ih hdone.indexed hmap' hkeep'
      refine ⟨p'', ?_, hdone.cons hdone' hsame hne, ?_⟩
      · show k.loop (rest.length + 1) (some e.1) p = .ok p''
        rw [loop, hvisit]
        exact hloop
      · have hcongr :
            (rest.filter fun x => !(p'.service.client x.2).isSwept) =
              rest.filter fun x => !(p.service.client x.2).isSwept :=
          List.filter_congr fun x hx => by rw [hsame x hx]
        rw [hmap'', hcongr, List.append_assoc, ← List.filter_append, List.singleton_append]

/-- A pass that comes to an entry it loses goes no further. -/
theorem loop_loses :
    ∀ {rest pre : List (SocketID × Addr)} {p : Sweep},
      p.service.Indexed → p.service.mTcpClientMap = pre ++ rest →
      (∃ e ∈ rest, k.Loses p.service e) →
      ∃ e ∈ rest, k.loop rest.length (rest.head?.map Prod.fst) p = .error (.erased e.1) := by
  intro rest
  induction rest with
  | nil =>
      intro _ _ _ _ hex
      obtain ⟨e, he, -⟩ := hex
      exact absurd he List.not_mem_nil
  | cons e rest ih =>
      intro pre p h hmap hex
      have he : e ∈ p.service.mTcpClientMap := by
        rw [hmap]
        exact List.mem_append_right _ List.mem_cons_self
      by_cases hlose : k.Loses p.service e
      · refine ⟨e, List.mem_cons_self, ?_⟩
        show k.loop (rest.length + 1) (some e.1) p = _
        rw [loop, visit_loses h he hlose]
      · obtain ⟨p', hvisit, hdone, hmap'⟩ := visit_ok h hmap hlose
        obtain ⟨x, hx, hxlose⟩ := hex
        have hx' : x ∈ rest := by
          rcases List.mem_cons.mp hx with rfl | hx
          · exact absurd hxlose hlose
          · exact hx
        have hsame : p'.service.client x.2 = p.service.client x.2 := by
          apply hdone.other
          simpa using ((h.key_ne hmap).2 x hx').2
        obtain ⟨y, hy, hloop⟩ :=
          ih hdone.indexed hmap' ⟨x, hx', (loses_congr hsame).mpr hxlose⟩
        refine ⟨y, List.mem_cons_of_mem _ hy, ?_⟩
        show k.loop (rest.length + 1) (some e.1) p = _
        rw [loop, hvisit]
        exact hloop

end StatusCheck

end Visit

section Entered

variable {s s' : State} {a b : Addr} {id : SocketID}

/-- What a client in the map has for an id, in any run. -/
structure State.Entered (s : State) : Prop where
  keys : (s.mTcpClientMap.map Prod.fst).Nodup
  clients : (s.mTcpClientMap.map Prod.snd).Nodup
  entry : ∀ e ∈ s.mTcpClientMap, e.1 ≠ 0 ∧ (s.client e.2).live = true ∧
    ((s.client e.2).mLogicSocketID = e.1 ∨ (s.client e.2).mLogicSocketID = 0)
  allocating : ∀ x ∈ s.allocating, x.1 ≠ 0

theorem State.Entered.indexed (h : s.Entered) : s.Indexed where
  keys := h.keys
  clients := h.clients
  live := fun e he => (h.entry e he).2.1
  own := fun e he e' he' hid => by
    rcases (h.entry e he).2.2 with hown | hzero
    · exact List.inj_on_of_nodup_map h.keys he' he (hid.symm.trans hown)
    · exact absurd (hid.symm.trans hzero) (h.entry e' he').1

theorem State.Entered.init (http listening : Bool) : (State.init http listening).Entered where
  keys := List.nodup_nil
  clients := List.nodup_nil
  entry := fun _ h => absurd h List.not_mem_nil
  allocating := fun _ h => absurd h List.not_mem_nil

/-- One client changes, and is at most reset. -/
theorem State.Entered.keep
    (h : s.Entered) {c : TcpClient}
    (hmap : s'.mTcpClientMap = s.mTcpClientMap) (hallocating : s'.allocating = s.allocating)
    (hclient : s'.client = (s.setClient b c).client) (hlive : c.live = (s.client b).live)
    (hid : c.mLogicSocketID = (s.client b).mLogicSocketID ∨ c.mLogicSocketID = 0) :
    s'.Entered where
  keys := by rw [hmap]; exact h.keys
  clients := by rw [hmap]; exact h.clients
  entry := by
    intro e he
    rw [hmap] at he
    obtain ⟨hkey, hlive', hid'⟩ := h.entry e he
    rw [hclient]
    by_cases hb : e.2 = b
    · rw [hb] at hlive' hid' ⊢
      rw [setClient_self, hlive]
      refine ⟨hkey, hlive', ?_⟩
      rcases hid with hsame | hzero
      · rw [hsame]
        exact hid'
      · exact Or.inr hzero
    · rw [setClient_other s hb]
      exact ⟨hkey, hlive', hid'⟩
  allocating := by rw [hallocating]; exact h.allocating

/-- One client is given back, and its entry erased. -/
theorem State.Entered.free
    (h : s.Entered) (hlook : s.mTcpClientMap.lookup id = some b)
    (hmap : s'.mTcpClientMap = s.mTcpClientMap.filter fun e => e.1 ≠ id)
    (hallocating : s'.allocating = s.allocating)
    (hclient : s'.client = (s.setClient b { s.client b with live := false }).client) :
    s'.Entered where
  keys := by rw [hmap]; exact h.keys.sublist (List.filter_sublist.map _)
  clients := by rw [hmap]; exact h.clients.sublist (List.filter_sublist.map _)
  entry := by
    intro e he
    rw [hmap, List.mem_filter] at he
    have hb : e.2 ≠ b := by
      intro hb
      have hself := List.inj_on_of_nodup_map h.clients he.1 (lookup_mem hlook) hb
      exact absurd (congrArg Prod.fst hself) (of_decide_eq_true he.2)
    rw [hclient, setClient_other s hb]
    exact h.entry e he.1
  allocating := by rw [hallocating]; exact h.allocating

theorem State.Entered.run (h : s.Entered) {j : Nat} {o : Outcome} (hs : s.run j o = some s') :
    s'.Entered := by
  obtain ⟨b, i, rest, hj, hcase⟩ := run_cases hs
  rcases hcase with ⟨-, id, -, rfl⟩ | ⟨-, id, -, hsweep⟩ | ⟨ch, hch, rfl⟩
  · rw [State.removeClient]
    split
    · exact ⟨h.keys, h.clients, h.entry, h.allocating⟩
    · next a hlook =>
        by_cases hactive : 0 < (s.client a).mReferenceCount
        · exact h.keep (c := (s.client a).removed) (if_pos hactive) rfl rfl
            (by rw [removed_active hactive]) (Or.inl (by rw [removed_active hactive]))
        · refine h.free hlook (if_neg hactive) rfl ?_
          rw [← removed_idle hactive]
          rfl
  · obtain ⟨hlook, rfl⟩ := sweep_eq hsweep
    by_cases hfree : (s.client b).mMarkedDestroy ∧ ¬ 0 < (s.client b).mReferenceCount
    · refine h.free hlook (if_pos hfree) rfl ?_
      rw [← swept_free hfree]
      rfl
    · exact h.keep (c := (s.client b).swept) (if_neg hfree) rfl rfl
        (by rw [swept_kept hfree]) (Or.inl (by rw [swept_kept hfree]))
  · obtain ⟨hlive, -⟩ := exec_life (v := s.view b) hch
    refine h.keep (c := ch.client) rfl rfl rfl hlive ?_
    rcases exec_keepsID hch with ⟨-, -, hzero, -⟩ | hsame
    · exact Or.inr hzero
    · exact Or.inl hsame

/-- A new client has a block that no entry of the map has. -/
theorem State.Entered.alloc
    (h : s.Entered) {j : Nat} {o : Outcome} (hs : s.allocTcpClient j b o = some s') :
    s'.Entered := by
  obtain ⟨id, accepting, hj, hcase⟩ := allocTcpClient_cases hs
  have hallocating : ∀ x ∈ s.allocating.eraseIdx j, x.1 ≠ 0 := fun x hx =>
    h.allocating x (List.mem_of_mem_eraseIdx hx)
  rcases hcase with ⟨-, rfl⟩ | ⟨-, hdead, rfl⟩
  · exact ⟨h.keys, h.clients, h.entry, hallocating⟩
  · have hother : ∀ e ∈ s.mTcpClientMap, e.2 ≠ b := by
      intro e he hb
      have hlive := (h.entry e he).2.1
      rw [hb, hdead] at hlive
      exact Bool.false_ne_true hlive
    have hentry :
        ∀ e ∈ s.mTcpClientMap, e.1 ≠ 0 ∧
          ((s.setClient b (.fresh id s.nextSerial)).client e.2).live = true ∧
          (((s.setClient b (.fresh id s.nextSerial)).client e.2).mLogicSocketID = e.1 ∨
            ((s.setClient b (.fresh id s.nextSerial)).client e.2).mLogicSocketID = 0) := by
      intro e he
      rw [setClient_other s (hother e he)]
      exact h.entry e he
    by_cases hsome : (s.mTcpClientMap.lookup id).isSome = true
    · simp only [if_pos hsome]
      exact ⟨h.keys, h.clients, hentry, hallocating⟩
    · simp only [if_neg hsome]
      refine ⟨?_, ?_, ?_, hallocating⟩
      · rw [List.map_cons, List.nodup_cons]
        have hnone := Option.not_isSome_iff_eq_none.mp hsome
        exact ⟨lookup_isNone (Option.isNone_iff_eq_none.mpr hnone), h.keys⟩
      · rw [List.map_cons, List.nodup_cons]
        refine ⟨fun hmem => ?_, h.clients⟩
        obtain ⟨e, he, hb⟩ := List.mem_map.mp hmem
        exact hother e he hb
      · intro e he
        rcases List.mem_cons.mp he with rfl | he
        · refine ⟨h.allocating _ (List.mem_of_getElem? hj), ?_⟩
          show ((s.setClient b _).client b).live = true ∧ _
          rw [setClient_self]
          exact ⟨rfl, Or.inl rfl⟩
        · exact hentry e he

/-- Every step of the service keeps the map in order. -/
theorem State.Entered.step (h : s.Entered) {act : Action} (hs : step s act = some s') :
    s'.Entered := by
  have hfind :
      ∀ {id : SocketID} {code : List Instr}, s.find id code = some s' → s'.Entered := by
    intro id code hfind
    rcases find_cases hfind with ⟨-, rfl⟩ | ⟨b, -, rfl⟩
    · exact h
    · exact h.keep (b := b) rfl rfl rfl rfl (Or.inl rfl)
  cases act with
  | otherService =>
      rcases hs with ⟨⟩
      exact ⟨h.keys, h.clients, h.entry, h.allocating⟩
  | getNextLogicSocketID =>
      rcases hs with ⟨⟩
      refine ⟨h.keys, h.clients, h.entry, ?_⟩
      intro x hx
      rcases List.mem_append.mp hx with hx | hx
      · exact h.allocating x hx
      · rw [List.mem_singleton.mp hx]
        exact nextID_ne_zero _
  | allocTcpClient j b o => exact h.alloc hs
  | send socketID => exact hfind hs
  | closeSocket socketID => exact hfind hs
  | checkStatus =>
      obtain ⟨ts, -, rfl⟩ := checkStatus_cases hs
      exact ⟨h.keys, h.clients, h.entry, h.allocating⟩
  | complete j r =>
      obtain ⟨b, k, code, -, -, rfl⟩ := complete_cases hs
      exact ⟨h.keys, h.clients, h.entry, h.allocating⟩
  | run j o => exact h.run hs

/-- In every run of the service a pass finds the map in order. -/
theorem reach_indexed
    {http listening : Bool} {G : State → Action → Prop}
    (h : Reach step G (State.init http listening) s) :
    s.Indexed :=
  (h.invariant (I := State.Entered) (.init http listening) fun hs _ hstep =>
    hs.step hstep).indexed

end Entered

section Pass

variable {s : State}

/--
What a pass is for: it visits the clients that are not accepting once each, and
frees those that are marked and not in use, with their entries.
-/
structure Sweep.Complete (s : State) (p : Sweep) : Prop where
  visited : p.visited = StatusCheck.visits s.client s.mTcpClientMap
  once : p.visited.Nodup
  map : p.service.mTcpClientMap = s.mTcpClientMap.filter fun e => !(s.client e.2).isSwept
  freed : ∀ a, (s.client a).live = true →
    ((p.service.client a).live = false ↔
      ∃ e ∈ s.mTcpClientMap, e.2 = a ∧ (s.client a).isSwept = true)

namespace StatusCheck

/-- A pass that loses no entry. -/
theorem checkStatus_ok
    (k : StatusCheck) (h : s.Indexed) (hkeep : ∀ e ∈ s.mTcpClientMap, ¬ k.Loses s e) :
    ∃ p, k.checkStatus s = .ok p ∧ p.Complete s ∧
      p.timedOut = k.timeouts s.client s.mTcpClientMap := by
  obtain ⟨p, hloop, hdone, hmap⟩ :=
    loop_ok (k := k) (p := ⟨s, [], []⟩) h (List.nil_append _).symm hkeep
  refine ⟨p, hloop, ⟨?_, ?_, ?_, ?_⟩, ?_⟩
  · rw [hdone.visited, List.nil_append]
  · rw [hdone.visited, List.nil_append]
    exact h.keys.sublist (List.filter_sublist.map _)
  · rw [hmap, List.nil_append]
  · intro a ha
    by_cases hmem : a ∈ s.mTcpClientMap.map Prod.snd
    · obtain ⟨e, he, rfl⟩ := List.mem_map.mp hmem
      rw [hdone.live e he, Bool.not_eq_false']
      exact ⟨fun hswept => ⟨e, he, rfl, hswept⟩, fun ⟨_, _, _, hswept⟩ => hswept⟩
    · rw [hdone.other a hmem, ha]
      refine ⟨fun hfalse => absurd hfalse (by simp), fun ⟨e, he, heq, _⟩ => ?_⟩
      exact absurd (List.mem_map.mpr ⟨e, he, heq⟩) hmem
  · rw [hdone.timedOut, List.nil_append]

/-- A pass that is to lose an entry does not come to its end. -/
theorem checkStatus_loses
    (k : StatusCheck) (h : s.Indexed) {p : Sweep} (hp : k.checkStatus s = .ok p) :
    ∀ e ∈ s.mTcpClientMap, ¬ k.Loses s e := by
  intro e he hlose
  obtain ⟨x, -, hloop⟩ :=
    loop_loses (k := k) (p := ⟨s, [], []⟩) h (List.nil_append _).symm ⟨e, he, hlose⟩
  cases hloop.symm.trans hp

end StatusCheck

/-- A pass at the time `now`, with clients last heard of at the times `last`. -/
def StatusCheck.clocked
    (b : Build) (mClientTimeoutSec : Int) (now : Nat) (last : Addr → Nat)
    (post : SocketID → PostOutcome) : StatusCheck where
  build := b
  mClientTimeoutSec := mClientTimeoutSec
  now := b.getTickCount now
  mLastTickTime := fun a => b.getTickCount (last a)
  post := post

/--
A pass does what it is for exactly if no visit loses its entry: if no client that
is timed out while `PostSpecial` fails has one operation left, its own id, and
nobody who uses it.
-/
theorem checkStatus_survives_iff (k : StatusCheck) (h : s.Indexed) :
    (∃ p, k.checkStatus s = .ok p ∧ p.Complete s) ↔
      ∀ e ∈ s.mTcpClientMap, ¬ k.Loses s e := by
  constructor
  · rintro ⟨p, hp, -⟩
    exact k.checkStatus_loses h hp
  · intro hkeep
    obtain ⟨p, hp, hcomplete, -⟩ := k.checkStatus_ok h hkeep
    exact ⟨p, hp, hcomplete⟩

/-- A service with a client that has posted its first receive. -/
def oneClient : State :=
  { State.init false true with
    client := fun a =>
      if a = 0 then
        { TcpClient.fresh 1 1 with
          mOperationType := .recv
          mConnState := .connected
          mPendingIo := 1 }
      else .unused
    mTcpClientMap := [(1, 0)]
    nextSerial := 2 }

theorem oneClient_indexed : oneClient.Indexed where
  keys := by decide
  clients := by decide
  live := by decide
  own := by decide

theorem checkStatus_survives_example :
    ∃ p, (StatusCheck.clocked .tick64 10 20001 (fun _ => 1) fun _ => .queued).checkStatus
        oneClient = .ok p ∧ p.Complete oneClient :=
  (checkStatus_survives_iff _ oneClient_indexed).mpr fun _ _ hlose => hlose.2.2.1 rfl

/-- The receive of a client is outstanding, and no context is left to time it out with. -/
theorem checkStatus_erased :
    ¬ ∀ (k : StatusCheck) (http listening : Bool) (s : State),
      Runs (fun _ _ => true) http listening s →
        ∃ p, k.checkStatus s = .ok p ∧ p.Complete s := by
  intro hclaim
  obtain ⟨s, hs, hp⟩ :=
    exists_run (fun _ _ => true) false true acceptAndRecv
      (fun s => decide (s.mTcpClientMap = [(1, 0)]) &&
        (decide ((s.client 0).mOperationType = .recv) && (decide ((s.client 0).mPendingIo = 1) &&
          (decide ((s.client 0).mLogicSocketID = 1) &&
            decide (¬ 0 < (s.client 0).mReferenceCount)))))
      (by decide +kernel)
  simp only [Bool.and_eq_true, decide_eq_true_eq] at hp
  obtain ⟨hmap, hop, hone, hid, huse⟩ := hp
  let k := StatusCheck.clocked .tick64 10 20001 (fun _ => 1) fun _ => .noContext
  obtain ⟨p, hcheck, -⟩ := hclaim k false true s hs
  refine k.checkStatus_loses (reach_indexed hs) hcheck (1, 0) ?_ ⟨?_, ?_, ?_, hone, hid, huse⟩
  · rw [hmap]
    exact List.mem_singleton_self _
  · rw [TcpClient.isAccepting, hop]
    rfl
  · exact (idle_iff _ _ _ _).mpr (by decide +kernel)
  · decide

theorem StatusCheck.mem_timeouts
    (k : StatusCheck) (h : s.Indexed) {e : SocketID × Addr} (he : e ∈ s.mTcpClientMap) :
    e.1 ∈ k.timeouts s.client s.mTcpClientMap ↔
      (s.client e.2).isAccepting = false ∧ k.isIdle e.2 = true := by
  rw [timeouts, List.mem_map]
  constructor
  · rintro ⟨x, hx, hkey⟩
    rw [List.mem_filter, Bool.and_eq_true, Bool.not_eq_true'] at hx
    rw [List.inj_on_of_nodup_map h.keys hx.1 he hkey] at hx
    exact hx.2
  · intro hidle
    refine ⟨e, ?_, rfl⟩
    rw [List.mem_filter, Bool.and_eq_true, Bool.not_eq_true']
    exact ⟨he, hidle⟩

/-- `SetTimeout` is called on the clients that have been idle for too long, and on no others. -/
def Sweep.TimesOut (s : State) (T : Int) (now : Nat) (last : Addr → Nat) (p : Sweep) : Prop :=
  ∀ e ∈ s.mTcpClientMap, (s.client e.2).isAccepting = false →
    (e.1 ∈ p.timedOut ↔ (last e.2 : Int) + T * 1000 < now)

/--
A pass times out the right clients exactly if it comes to its end and the clock
and the product are accurate for every client that is not accepting.
-/
theorem checkStatus_timesOut_iff
    (b : Build) {T : Int} (h0 : 0 ≤ T) {now : Nat} {last : Addr → Nat}
    (post : SocketID → PostOutcome) (h : s.Indexed)
    (hclock : ∀ e ∈ s.mTcpClientMap, now < last e.2 + 2 ^ b.tickBits) :
    (∃ p, (StatusCheck.clocked b T now last post).checkStatus s = .ok p ∧
        p.TimesOut s T now last) ↔
      (∀ e ∈ s.mTcpClientMap, ¬ (StatusCheck.clocked b T now last post).Loses s e) ∧
        ∀ e ∈ s.mTcpClientMap, (s.client e.2).isAccepting = false →
          b.Accurate T now (last e.2) := by
  let k := StatusCheck.clocked b T now last post
  have hexact : ∀ e ∈ s.mTcpClientMap,
      (k.isIdle e.2 = true ↔ (last e.2 : Int) + T * 1000 < now) ↔ b.Accurate T now (last e.2) :=
    fun e he => idle_exact_iff h0 (hclock e he)
  constructor
  · rintro ⟨p, hp, htimes⟩
    have hkeep := k.checkStatus_loses h hp
    refine ⟨hkeep, fun e he hacc => ?_⟩
    obtain ⟨p', hp', -, htimedOut⟩ := k.checkStatus_ok h hkeep
    cases hp.symm.trans hp'
    have hmem := htimes e he hacc
    rw [htimedOut, k.mem_timeouts h he] at hmem
    exact (hexact e he).mp (by simpa [hacc] using hmem)
  · rintro ⟨hkeep, haccurate⟩
    obtain ⟨p, hp, -, htimedOut⟩ := k.checkStatus_ok h hkeep
    refine ⟨p, hp, fun e he hacc => ?_⟩
    rw [htimedOut, k.mem_timeouts h he, ← (hexact e he).mpr (haccurate e he hacc)]
    simp [hacc]

theorem checkStatus_timesOut_example :
    ∃ p, (StatusCheck.clocked .tick32 10 20001 (fun _ => 1) fun _ => .queued).checkStatus
        oneClient = .ok p ∧ p.TimesOut oneClient 10 20001 fun _ => 1 := by
  refine (checkStatus_timesOut_iff .tick32 (by decide) _ oneClient_indexed ?_).mpr ⟨?_, ?_⟩
  · intro _ _
    decide
  · exact fun _ _ hlose => hlose.2.2.1 rfl
  · intro _ _ _
    exact accurate_of_small (by decide) (by decide) (by decide)

/--
A client that is not timed out: in the 64-bit build the product of 2147484
seconds is negative, in the 32-bit build the counter wraps a second after the
client was heard of.
-/
theorem checkStatus_misses_idle :
    (¬ ∀ (T : Int) (now : Nat) (last : Addr → Nat) (post : SocketID → PostOutcome) (s : State),
      0 ≤ T → s.Indexed → (∀ e ∈ s.mTcpClientMap, now < last e.2 + 2 ^ 64) →
        ∃ p, (StatusCheck.clocked .tick64 T now last post).checkStatus s = .ok p ∧
          p.TimesOut s T now last) ∧
    (¬ ∀ (T : Int) (now : Nat) (last : Addr → Nat) (post : SocketID → PostOutcome) (s : State),
      0 ≤ T → s.Indexed → (∀ e ∈ s.mTcpClientMap, now < last e.2 + 2 ^ 32) →
        ∃ p, (StatusCheck.clocked .tick32 T now last post).checkStatus s = .ok p ∧
          p.TimesOut s T now last) := by
  have hmissed :
      ∀ {b : Build} {T : Int} {now last : Nat},
        b.idle T (b.getTickCount now) (b.getTickCount last) = false →
        (last : Int) + T * 1000 < now →
        ∀ p, (StatusCheck.clocked b T now (fun _ => last) fun _ => .queued).checkStatus
            oneClient = .ok p → ¬ p.TimesOut oneClient T now fun _ => last := by
    intro b T now last hnot hidle p hp htimes
    let k := StatusCheck.clocked b T now (fun _ => last) fun _ => .queued
    obtain ⟨p', hp', -, htimedOut⟩ :=
      k.checkStatus_ok oneClient_indexed (k.checkStatus_loses oneClient_indexed hp)
    cases hp.symm.trans hp'
    have hone : ((1, 0) : SocketID × Addr) ∈ oneClient.mTcpClientMap := List.mem_singleton_self _
    have hmem := (htimes (1, 0) hone (by decide)).mpr hidle
    rw [htimedOut, k.mem_timeouts oneClient_indexed hone] at hmem
    exact Bool.false_ne_true (hnot.symm.trans hmem.2)
  constructor
  · intro hclaim
    obtain ⟨p, hp, htimes⟩ :=
      hclaim 2147484 3000000000 (fun _ => 1) (fun _ => .queued) oneClient (by decide)
        oneClient_indexed (fun _ _ => by decide)
    exact hmissed (by decide +kernel) (by decide) p hp htimes
  · intro hclaim
    obtain ⟨p, hp, htimes⟩ :=
      hclaim 10 (2 ^ 32 + 100000) (fun _ => 2 ^ 32 - 1000) (fun _ => .queued) oneClient
        (by decide) oneClient_indexed (fun _ _ => by decide)
    exact hmissed (by decide +kernel) (by decide) p hp htimes

end Pass

end Service
end IocpNetlib
