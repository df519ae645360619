import IocpNetlib.Service.Simulation

/-!
# `NetService::StopNetService`

The stopping thread marks the service, takes it off the list of the assist
thread, cancels the acceptor and the sockets of the clients, waits a while for
the client map to get empty, deletes the five pools and then the service.  It
does not know what is outstanding or running: completions that are handled late
find pool pointers that are `NULL`, or no service at all.

Time is not modelled: each of the two waits may end at any time.
-/

namespace IocpNetlib
namespace Service

open Ledger Reachability

/-- The pools of a `TcpService`. -/
inductive ServicePool
  | tcpClient
  | other (pool : Pool)
deriving DecidableEq, Repr

/-- The order in which `ReleaseAllPool` deletes the pools. -/
def releaseOrder : List ServicePool :=
  [.tcpClient, .other .sendIOContext, .other .sendPacket, .other .recvPacket,
    .other .exceptionContext]

/--
What a thread runs: `checkStatus`, a call of the API, a completion handler, or
the completion handler of the acceptor, which still has `PostAccept` and
`DecrementPending` behind its code.
-/
inductive Role
  | assist
  | caller
  | handler
  | acceptHandler
deriving DecidableEq, Repr

/-- The thread runs a completion handler. -/
def Role.handles : Role → Bool
  | .handler => true
  | .acceptHandler => true
  | _ => false

/-- What `StopNetService` does next. -/
inductive StopStage
  | running
  | removeService
  | releaseAcceptor
  | cancelClients
  -- `mTcpClientPoolLock` is held
  | cancelling (rest : List Addr)
  | drain
  | sleeping
  -- `ReleaseAllPool`, after that many pools
  | releasing (k : Nat)
  | deleteService
  | deleted
deriving DecidableEq, Repr

/-- The pool pointers that are `NULL`. -/
def StopStage.null : StopStage → List ServicePool
  | .releasing k => releaseOrder.take k
  | .deleteService => releaseOrder
  | .deleted => releaseOrder
  | _ => []

/-- The stopping thread holds `mTcpClientPoolLock`. -/
def StopStage.locks : StopStage → Bool
  | .cancelling _ => true
  | .sleeping => true
  | _ => false

/-- A pool has been deleted. -/
def StopStage.released : StopStage → Bool
  | .releasing k => decide (0 < k)
  | .deleteService => true
  | .deleted => true
  | _ => false

/-- A thread used a pool pointer that is `NULL`, or a service that has been deleted. -/
structure Fault where
  role : Role
  pool : Option ServicePool
deriving DecidableEq, Repr

/-- A service, and the thread that stops it. -/
structure StopState where
  service : State
  role : Nat → Role
  stage : StopStage
  faults : List Fault

/-- The service after `StartNetService`; only the assist thread runs. -/
def StopState.start (http listening : Bool) : StopState :=
  { service := .init http listening
    role := fun _ => .assist
    stage := .running
    faults := [] }

/-- The steps; `timed` says that the wait for the clients is over. -/
inductive StopAction
  | service (act : Action)
  | acceptReturned (j : Nat)
  | stopNetService
  | next (timed : Bool)
deriving DecidableEq, Repr

/-- The pool an instruction allocates from. -/
def allocates (c : TcpClient) : Instr → Option Pool
  | .allocSendIOContext => some .sendIOContext
  | .allocSendPacket => some .sendPacket
  | .allocRecvPacket => if c.mRecvPacketBuffer then none else some .recvPacket
  | .allocExceptionIOContext _ => some .exceptionContext
  | _ => none

/-- `RemoveClient` with this id finds a client that nobody refers to. -/
def State.removes (s : State) (socketID : SocketID) : Bool :=
  match s.mTcpClientMap.lookup socketID with
  | none => false
  | some a => decide (¬ 0 < (s.client a).mReferenceCount)

/-- The pool an instruction gives a block back to; none of them checks the pointer. -/
def State.frees (s : State) (a : Addr) : Instr → Option ServicePool
  | .releaseSendIOContext => some (.other .sendIOContext)
  | .releaseSendPacket => some (.other .sendPacket)
  | .releaseExceptionIOContext => some (.other .exceptionContext)
  | .freeRecvPacket => if (s.client a).mRecvPacketBuffer then some (.other .recvPacket) else none
  | .removeSelf => if s.removes (s.client a).mLogicSocketID then some .tcpClient else none
  | .removeClient socketID => if s.removes socketID then some .tcpClient else none
  | .sweep _ =>
      if (s.client a).mMarkedDestroy ∧ ¬ 0 < (s.client a).mReferenceCount then some .tcpClient
      else none
  | _ => none

/-- An instruction that takes `mTcpClientPoolLock`. -/
def Instr.needsLock : Instr → Bool
  | .removeSelf => true
  | .removeClient _ => true
  | .sweep _ => true
  | _ => false

/--
What keeps a step of the service from being taken: `AllocTcpClient` returns at
once behind `mMarkedStop`, a service off the list is not swept, another thread
has to wait for the lock, a pool that is `NULL` has no block, and `NetService`
has no service to pass a call on to.
-/
def StopState.blocked (s : StopState) : Action → Bool
  | .otherService => false
  | .getNextLogicSocketID => decide (s.stage ≠ .running)
  | .checkStatus => decide (s.stage ≠ .running ∧ s.stage ≠ .removeService)
  | .allocTcpClient _ _ o => s.stage.locks || decide (o = .ok ∧ .tcpClient ∈ s.stage.null)
  | .send _ => s.stage.locks || decide (s.stage = .deleted)
  | .closeSocket _ => s.stage.locks || decide (s.stage = .deleted)
  | .complete _ _ => false
  | .run j o =>
      match s.service.threads[j]? with
      | some ((a, i) :: _) =>
          (i.needsLock && s.stage.locks) ||
            decide (o = .ok ∧
              ∃ pool ∈ allocates (s.service.client a) i, .other pool ∈ s.stage.null)
      | _ => false

/-- What a step of the service uses that is not there any more. -/
def StopState.uses (s : StopState) : Action → List Fault
  | .run j _ =>
      match s.service.threads[j]? with
      | some ((a, i) :: _) =>
          (if s.stage = .deleted then [⟨s.role j, none⟩] else []) ++
            match s.service.frees a i with
            | none => []
            | some pool => if pool ∈ s.stage.null then [⟨s.role j, some pool⟩] else []
      | _ => []
  | .complete _ _ => if s.stage = .deleted then [⟨.handler, none⟩] else []
  | .allocTcpClient j _ _ =>
      match s.service.allocating[j]? with
      | some (_, accepting) =>
          if s.stage = .deleted then [⟨if accepting then .handler else .caller, none⟩] else []
      | none => []
  | _ => []

/-- What the thread that a step starts runs. -/
def newRole (s : State) : Action → Role
  | .complete j _ =>
      match s.outstanding[j]? with
      | some (_, .accept) => .acceptHandler
      | _ => .handler
  | .allocTcpClient j _ _ =>
      match s.allocating[j]? with
      | some (_, true) => .handler
      | _ => .caller
  | _ => .caller

/-- `TcpClient::CancelIO`, for a client that is not accepting. -/
def State.cancel (s : State) (a : Addr) : State :=
  if (s.client a).mOperationType = .accept then s
  else s.setClient a { s.client a with socketOpen := false }

/--
The next step of the stopping thread.  `RemoveService` waits for the assist
thread.  `PostCancel` closes the listen socket; the accepts it cancels complete
like all others.  A round of the second wait keeps the lock while it sleeps.
-/
def StopState.next (s : StopState) (timed : Bool) : Option StopState :=
  match s.stage with
  | .running => none
  | .removeService =>
      if s.service.locked then none else some { s with stage := .releaseAcceptor }
  | .releaseAcceptor => some { s with stage := .cancelClients }
  | .cancelClients =>
      if s.service.locked then none
      else some { s with stage := .cancelling (s.service.mTcpClientMap.map Prod.snd) }
  | .cancelling [] => some { s with stage := .drain }
  | .cancelling (a :: rest) =>
      some { s with service := s.service.cancel a, stage := .cancelling rest }
  | .drain =>
      if timed ∨ s.service.mTcpClientMap = [] then some { s with stage := .releasing 0 }
      else some { s with stage := .sleeping }
  | .sleeping => some { s with stage := .drain }
  | .releasing k =>
      some
        { s with
          stage :=
            if k + 1 < releaseOrder.length then .releasing (k + 1) else .deleteService }
  | .deleteService => some { s with stage := .deleted }
  | .deleted => none

/-- A step of the service; a thread it starts comes behind all others. -/
def StopState.serve (s : StopState) (act : Action) (service : State) : StopState :=
  { s with
    service := service
    role := fun j =>
      if j = s.service.threads.length then newRole s.service act else s.role j
    faults := s.faults ++ s.uses act }

/-- One step. -/
def StopState.step (s : StopState) : StopAction → Option StopState
  | .service act =>
      if s.blocked act then none
      else
        match Service.step s.service act with
        | none => none
        | some service => some (s.serve act service)
  | .acceptReturned j =>
      if s.role j = .acceptHandler ∧ s.service.threads[j]? = some [] then
        some
          { s with
            role := fun k => if k = j then .handler else s.role k
            faults := s.faults ++ if s.stage = .deleted then [⟨.acceptHandler, none⟩] else [] }
      else none
  | .stopNetService =>
      if s.stage = .running then some { s with stage := .removeService } else none
  | .next timed => s.next timed

/-- No completion handler has used a `NULL` pool, or a service that was deleted. -/
def StopState.Safe (s : StopState) : Prop :=
  ∀ f ∈ s.faults, f.role.handles = false

/--
What an instruction still needs before a post: an open socket, and blocks of
pools.  The others do not lead to a post.
-/
def Instr.needs : Instr → Option (Bool × List Pool)
  | .postQueued _ => some (false, [])
  | .postSpecial _ | .allocExceptionIOContext _ | .wait _ | .visit _ =>
      some (false, [.exceptionContext])
  | .allocSendIOContext => some (true, [.sendIOContext, .sendPacket])
  | .allocSendPacket => some (true, [.sendPacket])
  | .increaseRef | .postConnect _ | .connectEx _ | .acceptEx | .acceptConnection
  | .storeConnected _ | .postRecv _ | .wsaRecv _ | .allocRecvPacket | .splitPacket
  | .increaseSend | .wsaSend => some (true, [])
  | _ => none

/-- The instruction, or what follows it, may still post an operation. -/
def MayPost (null : List ServicePool) (c : TcpClient) (i : Instr) : Prop :=
  ∃ x ∈ i.needs, (x.1 = true → c.socketOpen = true) ∧ ∀ pool ∈ x.2, .other pool ∉ null

instance (null : List ServicePool) (c : TcpClient) (i : Instr) : Decidable (MayPost null c i) :=
  inferInstanceAs
    (Decidable
      (∃ x ∈ i.needs, (x.1 = true → c.socketOpen = true) ∧ ∀ pool ∈ x.2, .other pool ∉ null))

/-- What is left to run cannot post an operation. -/
def State.Harmless (s : State) (null : List ServicePool) (code : List (Addr × Instr)) : Prop :=
  ∀ x ∈ code, ¬ MayPost null (s.client x.1) x.2

/-- A thread that runs no completion handler and cannot post an operation. -/
def StopState.idle (s : StopState) (j : Nat) (code : List (Addr × Instr)) : Prop :=
  if (s.role j).handles then s.role j = .handler ∧ code = []
  else s.service.Harmless s.stage.null code

/-- No operation is outstanding, no completion handler runs, and none can be posted any more. -/
structure StopState.Drained (s : StopState) : Prop where
  outstanding : s.service.outstanding = []
  threads : ∀ x ∈ s.service.threads.zipIdx, s.idle x.2 x.1
  allocating : ∀ e ∈ s.service.allocating, e.2 = false

/--
The pools are deleted when the service is drained, and from then on no call of
the API starts that could post an operation.
-/
def StopState.orderly (s : StopState) : StopAction → Prop
  | .next _ => s.stage = .releasing 0 → s.Drained
  | .service (.send socketID) =>
      s.stage.released = true →
        ∀ a ∈ s.service.mTcpClientMap.lookup socketID,
          s.service.Harmless s.stage.null (owned a sendCode)
  | .service (.closeSocket socketID) =>
      s.stage.released = true →
        ∀ a ∈ s.service.mTcpClientMap.lookup socketID,
          s.service.Harmless s.stage.null (owned a closeCode)
  | _ => True

instance (s : State) (null : List ServicePool) (code : List (Addr × Instr)) :
    Decidable (s.Harmless null code) :=
  inferInstanceAs (Decidable (∀ x ∈ code, ¬ MayPost null (s.client x.1) x.2))

instance (s : StopState) (j : Nat) (code : List (Addr × Instr)) : Decidable (s.idle j code) :=
  inferInstanceAs
    (Decidable
      (if (s.role j).handles then s.role j = .handler ∧ code = []
        else s.service.Harmless s.stage.null code))

instance (s : StopState) : Decidable s.Drained :=
  decidable_of_iff
    (s.service.outstanding = [] ∧ (∀ x ∈ s.service.threads.zipIdx, s.idle x.2 x.1) ∧
      ∀ e ∈ s.service.allocating, e.2 = false)
    ⟨fun h => ⟨h.1, h.2.1, h.2.2⟩, fun h => ⟨h.outstanding, h.threads, h.allocating⟩⟩

instance StopState.decidableOrderly (s : StopState) (a : StopAction) : Decidable (s.orderly a) :=
  match a with
  | .next _ => inferInstanceAs (Decidable (s.stage = .releasing 0 → s.Drained))
  | .service (.send socketID) =>
      inferInstanceAs
        (Decidable
          (s.stage.released = true →
            ∀ a ∈ s.service.mTcpClientMap.lookup socketID,
              s.service.Harmless s.stage.null (owned a sendCode)))
  | .service (.closeSocket socketID) =>
      inferInstanceAs
        (Decidable
          (s.stage.released = true →
            ∀ a ∈ s.service.mTcpClientMap.lookup socketID,
              s.service.Harmless s.stage.null (owned a closeCode)))
  | .service .otherService | .service .getNextLogicSocketID | .service (.allocTcpClient ..)
  | .service .checkStatus | .service (.complete ..) | .service (.run ..) | .acceptReturned _
  | .stopNetService => isTrue trivial

section Exec

variable {http : Bool} {c : TcpClient} {i : Instr} {o : Outcome} {ch : Change}
variable {null : List ServicePool}

/-- No instruction opens a socket. -/
theorem exec_socketOpen
    (h : exec http c i o = some ch) (hopen : ch.client.socketOpen = true) :
    c.socketOpen = true := by
  revert h
  fun_cases exec http c i o
  all_goals
    rintro ⟨⟩ <;> first | exact hopen | exact absurd hopen Bool.false_ne_true

theorem MayPost.mono
    {c' : TcpClient} {null' : List ServicePool} (h : MayPost null' c' i)
    (hopen : c'.socketOpen = true → c.socketOpen = true) (hnull : null ⊆ null') :
    MayPost null c i := by
  obtain ⟨x, hx, hsocket, hpools⟩ := h
  exact
    ⟨x, hx, fun hneeds => hopen (hsocket hneeds), fun pool hpool hnone =>
      hpools pool hpool (hnull hnone)⟩

theorem not_mayPost (h : i.needs = none) : ¬ MayPost null c i := by
  rintro ⟨x, hx, _⟩
  rw [h] at hx
  exact absurd hx (by simp)

/-- An instruction that posts could post. -/
theorem exec_post (h : exec http c i o = some ch) (hpost : ch.post ≠ []) :
    MayPost null c i := by
  revert h
  fun_cases exec http c i o
  all_goals
    rintro ⟨⟩ <;>
      first
        | exact absurd rfl hpost
        | exact ⟨_, rfl, fun _ => by assumption, fun _ hpool => absurd hpool List.not_mem_nil⟩
        | exact ⟨_, rfl, fun h => absurd h Bool.false_ne_true,
            fun _ hpool => absurd hpool List.not_mem_nil⟩

theorem needs_onOk (site : RecvSite) : ∀ i ∈ site.onOk, i.needs = none := by
  cases site <;> decide

theorem needs_onFail (site : RecvSite) : ∀ i ∈ site.onFail, i.needs = none := by
  cases site <;> decide

theorem needs_refused (http : Bool) : ∀ i ∈ refused http, i.needs = none := by
  cases http <;> decide

theorem needs_onSendCompletion (c : TcpClient) (full : Bool) :
    ∀ i ∈ Instr.releaseSendPacket :: .releaseSendIOContext :: sendResult c full,
      i.needs = none := by
  rw [sendResult]
  split_ifs <;> decide

theorem needs_checkRelease (c : TcpClient) :
    ∀ i ∈ if c.mPendingIo - 1 = 0 then [Instr.casClosed] else [], i.needs = none := by
  split_ifs <;> decide

theorem needs_sendFailed :
    ∀ i ∈ [Instr.checkRelease, .releaseSendIOContext, .releaseSendPacket], i.needs = none := by
  decide

theorem needs_postFailed :
    ∀ i ∈ [Instr.releaseExceptionIOContext, .decreaseIOCount, .checkRelease],
      i.needs = none := by
  decide

/-- A pool block is taken on the way to a post. -/
theorem MayPost.allocated
    {i' : Instr} {sock : Bool} {pool : Pool} {pools : List Pool} (hmay : MayPost null c i')
    (hneeds' : i'.needs = some (sock, pools)) (hneeds : i.needs = some (sock, pool :: pools))
    (hpool : .other pool ∉ null) :
    MayPost null c i := by
  obtain ⟨x, hx, hsocket, hpools⟩ := hmay
  obtain rfl := Option.some.inj (hneeds'.symm.trans hx)
  exact ⟨_, hneeds, hsocket, List.forall_mem_cons.mpr ⟨hpool, hpools⟩⟩

/-- What an instruction leads to, it could already post. -/
theorem exec_push
    (h : exec http c i o = some ch)
    (hpool : o = .ok → ∀ pool ∈ allocates c i, .other pool ∉ null)
    {i' : Instr} (hmem : i' ∈ ch.push) (hmay : MayPost null ch.client i') :
    MayPost null c i := by
  revert h
  fun_cases exec http c i o
  case case5 hopen =>
    rintro ⟨⟩
    exact ⟨_, rfl, fun _ => hopen, fun _ hnone => absurd hnone List.not_mem_nil⟩
  case case47 =>
    rintro ⟨⟩
    obtain rfl := List.mem_singleton.mp hmem
    exact hmay.allocated rfl rfl (hpool rfl _ rfl)
  case case49 =>
    rintro ⟨⟩
    obtain rfl := List.mem_singleton.mp hmem
    exact hmay.allocated rfl rfl (hpool rfl _ rfl)
  case case54 =>
    rintro ⟨⟩
    exact absurd hmay (not_mayPost (needs_sendFailed _ hmem))
  case case59 =>
    rintro ⟨⟩
    exact absurd hmay (not_mayPost (needs_postFailed _ hmem))
  case case56 =>
    rintro ⟨⟩
    obtain rfl := List.mem_singleton.mp hmem
    exact hmay.allocated rfl rfl (hpool rfl _ rfl)
  all_goals
    rintro ⟨⟩ <;>
      first
        | exact absurd hmem List.not_mem_nil
        | exact absurd hmay (not_mayPost (needs_onOk _ _ hmem))
        | exact absurd hmay (not_mayPost (needs_onFail _ _ hmem))
        | exact absurd hmay (not_mayPost (needs_refused _ _ hmem))
        | exact absurd hmay (not_mayPost (needs_onSendCompletion _ _ _ hmem))
        | exact absurd hmay (not_mayPost (needs_checkRelease _ _ hmem))
        | (obtain rfl := List.mem_singleton.mp hmem
           first | exact hmay | exact absurd hmay (not_mayPost rfl))
        | (rcases List.mem_pair.mp hmem with rfl | rfl <;>
            first | exact hmay | exact absurd hmay (not_mayPost rfl))

end Exec

section Drained

variable {s s' : StopState}

theorem StopState.Drained.thread
    (h : s.Drained) {j : Nat} {code : List (Addr × Instr)}
    (hj : s.service.threads[j]? = some code) : s.idle j code :=
  h.threads (code, j) (List.mk_mem_zipIdx_iff_getElem?.mpr hj)

/-- With fewer open sockets and fewer pools, harmless code stays harmless. -/
theorem State.Harmless.mono
    {t t' : State} {null null' : List ServicePool} {code : List (Addr × Instr)}
    (h : t.Harmless null code)
    (hopen : ∀ a, (t'.client a).socketOpen = true → (t.client a).socketOpen = true)
    (hnull : null ⊆ null') :
    t'.Harmless null' code := by
  intro x hx hmay
  exact h x hx (hmay.mono (hopen x.1) hnull)

/--
A step that opens no socket and posts nothing, and gives harmless code to threads
that run no handler.
-/
theorem StopState.Drained.keep
    (h : s.Drained) (houtstanding : s'.service.outstanding = [])
    (hopen : ∀ a, (s'.service.client a).socketOpen = true →
      (s.service.client a).socketOpen = true)
    (hnull : s.stage.null ⊆ s'.stage.null)
    (hthreads : ∀ j code, s'.service.threads[j]? = some code →
      (s.service.threads[j]? = some code ∧ s'.role j = s.role j) ∨
        ((s'.role j).handles = false ∧ s'.service.Harmless s'.stage.null code))
    (hallocating : ∀ e ∈ s'.service.allocating, e ∈ s.service.allocating) :
    s'.Drained where
  outstanding := houtstanding
  threads := by
    intro x hx
    obtain ⟨code, j⟩ := x
    have hj := List.mk_mem_zipIdx_iff_getElem?.mp hx
    show s'.idle j code
    rcases hthreads j code hj with ⟨hbefore, hrole⟩ | ⟨hrole, hharmless⟩
    · have hidle := h.thread hbefore
      rw [StopState.idle] at hidle ⊢
      rw [hrole]
      split_ifs at hidle ⊢ with hhandles
      · exact hidle
      · exact hidle.mono hopen hnull
    · rw [StopState.idle]
      rw [hrole]
      exact hharmless
  allocating := fun e he => h.allocating e (hallocating e he)

theorem setClient_socketOpen
    {t : State} {a : Addr} {c : TcpClient}
    (hc : c.socketOpen = true → (t.client a).socketOpen = true) (b : Addr) :
    ((t.setClient a c).client b).socketOpen = true → (t.client b).socketOpen = true := by
  by_cases hb : b = a
  · subst hb
    rw [setClient_self]
    exact hc
  · rw [setClient_other t hb]
    exact id

theorem removed_socketOpen (c : TcpClient) : c.removed.socketOpen = c.socketOpen := by
  rw [TcpClient.removed]
  split_ifs <;> rfl

theorem swept_socketOpen (c : TcpClient) : c.swept.socketOpen = c.socketOpen := by
  rw [TcpClient.swept]
  split_ifs <;> rfl

theorem removeClient_socketOpen (t : State) (id : SocketID) (b : Addr) :
    ((t.removeClient id).client b).socketOpen = true → (t.client b).socketOpen = true := by
  rw [State.removeClient]
  split
  · exact fun h => h
  · next a _ => exact setClient_socketOpen (fun h => removed_socketOpen (t.client a) ▸ h) b

theorem removeClient_allocating (t : State) (id : SocketID) :
    (t.removeClient id).allocating = t.allocating := by
  rw [State.removeClient]
  split <;> rfl

theorem serve_role {act : Action} {t : State} {j : Nat} (hj : j < s.service.threads.length) :
    (s.serve act t).role j = s.role j :=
  if_neg (Nat.ne_of_lt hj)

/-- A step that leaves the threads as they are. -/
theorem StopState.Drained.sameThreads
    (h : s.Drained) {act : Action} {t : State} (hthreads : t.threads = s.service.threads)
    (houtstanding : t.outstanding = s.service.outstanding)
    (hclient : t.client = s.service.client)
    (hallocating : ∀ e ∈ t.allocating, e ∈ s.service.allocating) :
    (s.serve act t).Drained := by
  refine h.keep (houtstanding.trans h.outstanding) ?_ (List.Subset.refl _) ?_ hallocating
  · intro a hopen
    exact hclient ▸ hopen
  · intro k code hk
    have hk : t.threads[k]? = some code := hk
    rw [hthreads] at hk
    obtain ⟨hlt, -⟩ := List.getElem?_eq_some_iff.mp hk
    exact Or.inl ⟨hk, serve_role hlt⟩

/-- A thread that runs no handler takes its next step. -/
theorem StopState.Drained.setThread
    (h : s.Drained) {act : Action} {t : State} {j : Nat} {code : List (Addr × Instr)}
    (hj : j < s.service.threads.length) (hrole : (s.role j).handles = false)
    (hthreads : t.threads = s.service.threads.set j code)
    (hharmless : t.Harmless s.stage.null code)
    (houtstanding : t.outstanding = [])
    (hopen : ∀ a, (t.client a).socketOpen = true → (s.service.client a).socketOpen = true)
    (hallocating : t.allocating = s.service.allocating) :
    (s.serve act t).Drained := by
  refine h.keep houtstanding hopen (List.Subset.refl _) ?_ ?_
  · intro k code' hk
    have hk : t.threads[k]? = some code' := hk
    rw [hthreads] at hk
    by_cases hkj : j = k
    · subst hkj
      rw [List.getElem?_set_self hj] at hk
      obtain rfl := Option.some.inj hk
      refine Or.inr ⟨?_, hharmless⟩
      rw [serve_role hj]
      exact hrole
    · rw [List.getElem?_set_ne hkj] at hk
      obtain ⟨hlt, -⟩ := List.getElem?_eq_some_iff.mp hk
      exact Or.inl ⟨hk, serve_role hlt⟩
  · intro e he
    exact hallocating ▸ he

/-- A drained service has no completion handler that could run. -/
theorem StopState.Drained.caller
    (h : s.Drained) {j : Nat} {x : Addr × Instr} {rest : List (Addr × Instr)}
    (hj : s.service.threads[j]? = some (x :: rest)) :
    (s.role j).handles = false ∧ s.service.Harmless s.stage.null (x :: rest) := by
  have hidle := h.thread hj
  rw [StopState.idle] at hidle
  split_ifs at hidle with hhandles
  · exact absurd hidle.2 (by simp)
  · exact ⟨by simpa using hhandles, hidle⟩

theorem StopState.Drained.run
    (h : s.Drained) {j : Nat} {o : Outcome} {t : State}
    (hblocked : s.blocked (.run j o) = false) (hrun : s.service.run j o = some t) :
    (s.serve (.run j o) t).Drained := by
  obtain ⟨b, i, rest, hj, hcase⟩ := run_cases hrun
  obtain ⟨hrole, hharmless⟩ := h.caller hj
  obtain ⟨hlt, -⟩ := List.getElem?_eq_some_iff.mp hj
  have hrest : s.service.Harmless s.stage.null rest :=
    fun x hx => hharmless x (List.mem_cons_of_mem _ hx)
  rcases hcase with ⟨-, id, -, rfl⟩ | ⟨-, id, -, hsweep⟩ | ⟨ch, hch, rfl⟩
  · have hopen := removeClient_socketOpen (s.service.setThread j rest) id
    obtain ⟨-, -, hthreads, hops, -, -⟩ := removeClient_keeps (s.service.setThread j rest) id
    exact
      h.setThread hlt hrole hthreads (hrest.mono hopen (List.Subset.refl _))
        (hops.trans h.outstanding) hopen (removeClient_allocating _ id)
  · obtain ⟨-, rfl⟩ := sweep_eq hsweep
    have hopen := setClient_socketOpen (t := s.service.setThread j rest) (a := b)
      (fun hopen => swept_socketOpen (s.service.client b) ▸ hopen)
    exact
      h.setThread hlt hrole rfl (hrest.mono hopen (List.Subset.refl _)) h.outstanding hopen rfl
  · have hnot : ¬ MayPost s.stage.null (s.service.client b) i :=
      hharmless (b, i) List.mem_cons_self
    have hpost : ch.post = [] := by
      by_contra hpost
      exact hnot (exec_post hch hpost)
    have hpool : o = .ok →
        ∀ pool ∈ allocates (s.service.client b) i, .other pool ∉ s.stage.null := by
      intro ho pool hpool hnone
      simp only [StopState.blocked, hj, Bool.or_eq_false_iff, decide_eq_false_iff_not] at hblocked
      exact hblocked.2 ⟨ho, pool, hpool, hnone⟩
    have hopen := setClient_socketOpen (t := s.service) (a := b) (exec_socketOpen hch)
    refine h.setThread hlt hrole rfl ?_ ?_ hopen rfl
    · intro x hx
      rcases List.mem_append.mp hx with hx | hx
      · obtain ⟨i', hi', rfl⟩ := List.mem_map.mp hx
        have hclient :
            ((s.service.setThread j (owned b ch.push ++ rest)).apply b ch).client b = ch.client :=
          setClient_self (s.service.setThread j _) b ch.client
        rw [hclient]
        intro hmay
        exact hnot (exec_push hch hpool hi' hmay)
      · exact hrest.mono hopen (List.Subset.refl _) x hx
    · show s.service.outstanding ++ owned b ch.post = []
      rw [h.outstanding, hpost]
      rfl

/-- A call of the API finds a client, and cannot post an operation on it. -/
theorem StopState.Drained.find
    (h : s.Drained) {act : Action} {t : State} {socketID : SocketID} {code : List Instr}
    (hrole : newRole s.service act = .caller)
    (hcode : ∀ a ∈ s.service.mTcpClientMap.lookup socketID,
      s.service.Harmless s.stage.null (owned a code))
    (hfind : s.service.find socketID code = some t) :
    (s.serve act t).Drained := by
  rcases find_cases hfind with ⟨-, rfl⟩ | ⟨a, hlookup, rfl⟩
  · exact h.sameThreads rfl rfl rfl fun _ he => he
  · have hopen := setClient_socketOpen (t := s.service) (a := a)
      (c := { s.service.client a with
        mReferenceCount := (s.service.client a).mReferenceCount + 1 }) (fun hopen => hopen)
    refine h.keep h.outstanding hopen (List.Subset.refl _) ?_ (fun _ he => he)
    intro k code' hk
    have hk : (s.service.threads ++ [owned a code])[k]? = some code' := hk
    by_cases hlt : k < s.service.threads.length
    · rw [List.getElem?_append_left hlt] at hk
      exact Or.inl ⟨hk, serve_role hlt⟩
    · rw [List.getElem?_append_right (Nat.le_of_not_lt hlt)] at hk
      obtain ⟨hk, hmem⟩ : k = s.service.threads.length ∧ owned a code = code' := by
        rw [List.getElem?_singleton] at hk
        split_ifs at hk with hzero
        exact ⟨by omega, Option.some.inj hk⟩
      subst hk hmem
      refine Or.inr ⟨?_, (hcode a hlookup).mono hopen (List.Subset.refl _)⟩
      show (if s.service.threads.length = s.service.threads.length then newRole s.service act
        else _ : Role).handles = false
      rw [if_pos rfl, hrole]
      rfl

/-- `AllocTcpClient` finds no client pool. -/
theorem StopState.Drained.allocFailed
    (h : s.Drained) {j : Nat} {a : Addr} {o : Outcome} {t : State}
    (hnull : .tcpClient ∈ s.stage.null) (hblocked : s.blocked (.allocTcpClient j a o) = false)
    (halloc : s.service.allocTcpClient j a o = some t) :
    (s.serve (.allocTcpClient j a o) t).Drained := by
  obtain ⟨id, accepting, hj, ⟨-, rfl⟩ | ⟨ho, -, -⟩⟩ := allocTcpClient_cases halloc
  · refine h.sameThreads rfl rfl rfl ?_
    intro e he
    exact (List.eraseIdx_sublist _ _).mem he
  · rw [StopState.blocked, Bool.or_eq_false_iff, decide_eq_false_iff_not] at hblocked
    exact absurd ⟨ho, hnull⟩ hblocked.2

/-- The next pool is deleted. -/
theorem StopState.Drained.stage
    (h : s.Drained) {stage : StopStage} (hnull : s.stage.null ⊆ stage.null) :
    { s with stage := stage }.Drained :=
  h.keep h.outstanding (fun _ hopen => hopen) hnull (fun _ _ hj => Or.inl ⟨hj, rfl⟩)
    (fun _ he => he)

theorem released_tcpClient {stage : StopStage} (h : stage.released = true) :
    .tcpClient ∈ stage.null := by
  cases stage with
  | releasing k =>
      obtain ⟨k, rfl⟩ : ∃ n, k = n + 1 := ⟨k - 1, by simp [StopStage.released] at h; omega⟩
      exact List.mem_cons_self
  | deleteService => exact List.mem_cons_self
  | deleted => exact List.mem_cons_self
  | _ => exact absurd h Bool.false_ne_true

/-- The steps of a drained service whose pools are being deleted. -/
theorem StopState.Drained.serve
    (h : s.Drained) (hreleased : s.stage.released = true) {act : Action} {t : State}
    (horderly : s.orderly (.service act)) (hblocked : s.blocked act = false)
    (hs : Service.step s.service act = some t) :
    (s.serve act t).Drained ∧ ∀ f ∈ s.uses act, f.role.handles = false := by
  cases act with
  | otherService =>
      obtain rfl := Option.some.inj hs
      exact
        ⟨h.sameThreads rfl rfl rfl fun _ he => he, fun f hf => absurd hf List.not_mem_nil⟩
  | getNextLogicSocketID =>
      rw [StopState.blocked, decide_eq_false_iff_not, not_not] at hblocked
      rw [hblocked] at hreleased
      exact absurd hreleased Bool.false_ne_true
  | allocTcpClient j a o =>
      refine ⟨h.allocFailed (released_tcpClient hreleased) hblocked hs, ?_⟩
      obtain ⟨id, accepting, hj, -⟩ := allocTcpClient_cases hs
      have haccepting : accepting = false :=
        h.allocating (id, accepting) (List.mem_of_getElem? hj)
      subst haccepting
      intro f hf
      rw [StopState.uses, hj] at hf
      split_ifs at hf
      · rw [List.mem_singleton.mp hf]
        rfl
      · exact absurd hf List.not_mem_nil
  | send socketID =>
      exact
        ⟨h.find rfl (horderly hreleased) hs, fun f hf => absurd hf List.not_mem_nil⟩
  | closeSocket socketID =>
      exact
        ⟨h.find rfl (horderly hreleased) hs, fun f hf => absurd hf List.not_mem_nil⟩
  | checkStatus =>
      rw [StopState.blocked, decide_eq_false_iff_not] at hblocked
      refine absurd ⟨?_, ?_⟩ hblocked
      · intro hstage
        rw [hstage] at hreleased
        exact absurd hreleased Bool.false_ne_true
      · intro hstage
        rw [hstage] at hreleased
        exact absurd hreleased Bool.false_ne_true
  | complete j r =>
      obtain ⟨b, k, code, hj, -, -⟩ := complete_cases hs
      rw [h.outstanding] at hj
      exact absurd hj (by simp)
  | run j o =>
      refine ⟨h.run hblocked hs, ?_⟩
      obtain ⟨b, i, rest, hj, -⟩ := run_cases hs
      obtain ⟨hrole, -⟩ := h.caller hj
      intro f hf
      rw [StopState.uses, hj] at hf
      rcases List.mem_append.mp hf with hf | hf
      · split_ifs at hf
        · rw [List.mem_singleton.mp hf]
          exact hrole
        · exact absurd hf List.not_mem_nil
      · split at hf
        · exact absurd hf List.not_mem_nil
        · split_ifs at hf
          · rw [List.mem_singleton.mp hf]
            exact hrole
          · exact absurd hf List.not_mem_nil

/-- Before the first pool is deleted nothing can go wrong; behind it nothing runs that could. -/
structure StopState.Inv (s : StopState) : Prop where
  early : s.stage.released = false → s.faults = []
  late : s.stage.released = true → s.Drained ∧ s.Safe

theorem null_of_not_released {stage : StopStage} (h : stage.released = false) :
    stage.null = [] ∧ stage ≠ .deleted := by
  cases stage with
  | releasing k =>
      have hk : k = 0 := by simpa [StopStage.released] using h
      subst hk
      exact ⟨rfl, by simp⟩
  | deleteService => exact absurd h (by simp [StopStage.released])
  | deleted => exact absurd h (by simp [StopStage.released])
  | _ => exact ⟨rfl, by simp⟩

/-- Nothing is missing before the first pool is deleted. -/
theorem uses_early (h : s.stage.released = false) (act : Action) : s.uses act = [] := by
  obtain ⟨hnull, hstage⟩ := null_of_not_released h
  cases act with
  | run j o =>
      rw [StopState.uses, hnull]
      split
      · rw [if_neg hstage]
        split <;> simp
      · rfl
  | complete j r => exact if_neg hstage
  | allocTcpClient j a o =>
      rw [StopState.uses]
      split
      · exact if_neg hstage
      · rfl
  | _ => rfl

theorem StopState.Inv.quiet
    {stage : StopStage} {t : State} (h : s.Inv) (hbefore : s.stage.released = false)
    (hafter : stage.released = false) :
    { s with service := t, stage := stage }.Inv where
  early := fun _ => h.early hbefore
  late := fun hreleased => by
    have hreleased : stage.released = true := hreleased
    rw [hafter] at hreleased
    exact absurd hreleased Bool.false_ne_true

/-- A further pool, or the service, is deleted. -/
theorem StopState.Inv.delete
    {stage : StopStage} (hdrained : s.Drained) (hsafe : s.Safe)
    (hnull : s.stage.null ⊆ stage.null) (hafter : stage.released = true) :
    { s with stage := stage }.Inv where
  early := fun hreleased => by
    have hreleased : stage.released = false := hreleased
    rw [hafter] at hreleased
    exact absurd hreleased (by simp)
  late := fun _ => ⟨hdrained.stage hnull, hsafe⟩

/--
The stopping thread works on the service before the first pool is deleted, and
from then on only makes more pointers `NULL`.
-/
theorem next_cases {timed : Bool} (hs : s.next timed = some s') :
    (s.stage.released = false ∧
      ∃ t stage, stage.released = false ∧ s' = { s with service := t, stage := stage }) ∨
    ((s.stage = .releasing 0 ∨ s.stage.released = true) ∧
      ∃ stage, stage.released = true ∧ s.stage.null ⊆ stage.null ∧
        s' = { s with stage := stage }) := by
  obtain ⟨service, role, stage, faults⟩ := s
  cases stage with
  | running => exact absurd hs (by simp [StopState.next])
  | removeService =>
      simp only [StopState.next] at hs
      split_ifs at hs
      obtain rfl := Option.some.inj hs
      exact Or.inl ⟨rfl, _, _, rfl, rfl⟩
  | releaseAcceptor =>
      obtain rfl := Option.some.inj hs
      exact Or.inl ⟨rfl, _, _, rfl, rfl⟩
  | cancelClients =>
      simp only [StopState.next] at hs
      split_ifs at hs
      obtain rfl := Option.some.inj hs
      exact Or.inl ⟨rfl, _, _, rfl, rfl⟩
  | cancelling rest =>
      cases rest with
      | nil =>
          obtain rfl := Option.some.inj hs
          exact Or.inl ⟨rfl, _, _, rfl, rfl⟩
      | cons a rest =>
          obtain rfl := Option.some.inj hs
          exact Or.inl ⟨rfl, _, _, rfl, rfl⟩
  | drain =>
      simp only [StopState.next] at hs
      split_ifs at hs
      · obtain rfl := Option.some.inj hs
        exact Or.inl ⟨rfl, _, _, rfl, rfl⟩
      · obtain rfl := Option.some.inj hs
        exact Or.inl ⟨rfl, _, _, rfl, rfl⟩
  | sleeping =>
      obtain rfl := Option.some.inj hs
      exact Or.inl ⟨rfl, _, _, rfl, rfl⟩
  | releasing k =>
      have hbefore :
          StopStage.releasing k = .releasing 0 ∨ (StopStage.releasing k).released = true := by
        cases k with
        | zero => exact Or.inl rfl
        | succ k => exact Or.inr (by simp [StopStage.released])
      obtain rfl := Option.some.inj hs
      refine Or.inr ⟨hbefore, _, ?_, ?_, rfl⟩
      · split_ifs
        · simp [StopStage.released]
        · rfl
      · split_ifs
        · exact List.take_subset_take_left _ (Nat.le_succ k)
        · exact List.take_subset _ _
  | deleteService =>
      obtain rfl := Option.some.inj hs
      exact Or.inr ⟨Or.inr rfl, .deleted, rfl, List.Subset.refl _, rfl⟩
  | deleted => exact absurd hs (by simp [StopState.next])

theorem StopState.Inv.next
    (h : s.Inv) {timed : Bool} (horderly : s.orderly (.next timed))
    (hs : s.next timed = some s') :
    s'.Inv := by
  obtain ⟨hbefore, t, stage, hafter, rfl⟩ | ⟨hbefore, stage, hafter, hnull, rfl⟩ :=
    next_cases hs
  · exact h.quiet hbefore hafter
  · have hnow : s.Drained ∧ s.Safe := by
      rcases hbefore with hstage | hreleased
      · have hnone : s.faults = [] := h.early (by rw [hstage]; rfl)
        refine ⟨horderly hstage, ?_⟩
        intro f hf
        rw [hnone] at hf
        exact absurd hf List.not_mem_nil
      · exact h.late hreleased
    exact StopState.Inv.delete hnow.1 hnow.2 hnull hafter

theorem StopState.Inv.step
    (h : s.Inv) {a : StopAction} (horderly : s.orderly a) (hs : s.step a = some s') :
    s'.Inv := by
  cases a with
  | service act =>
      rw [StopState.step] at hs
      split_ifs at hs with hblocked
      rw [Bool.not_eq_true] at hblocked
      split at hs
      · exact absurd hs (by simp)
      · next t ht =>
          obtain rfl := Option.some.inj hs
          constructor
          · intro hearly
            have hearly : s.stage.released = false := hearly
            show s.faults ++ s.uses act = []
            rw [h.early hearly, uses_early hearly]
            rfl
          · intro hlate
            obtain ⟨hdrained, hsafe⟩ := h.late hlate
            obtain ⟨hdrained', huses⟩ := hdrained.serve hlate horderly hblocked ht
            refine ⟨hdrained', ?_⟩
            intro f hf
            rcases List.mem_append.mp hf with hf | hf
            · exact hsafe f hf
            · exact huses f hf
  | acceptReturned j =>
      rw [StopState.step] at hs
      by_cases hj : s.role j = .acceptHandler ∧ s.service.threads[j]? = some []
      · rw [if_pos hj] at hs
        obtain rfl := Option.some.inj hs
        constructor
        · intro hearly
          have hearly : s.stage.released = false := hearly
          obtain ⟨-, hstage⟩ := null_of_not_released hearly
          show s.faults ++ _ = []
          rw [h.early hearly, if_neg hstage]
          rfl
        · intro hlate
          -- a drained service has no such handler
          have hidle := (h.late hlate).1.thread hj.2
          rw [StopState.idle] at hidle
          rw [hj.1] at hidle
          exact absurd hidle (by simp [Role.handles])
      · rw [if_neg hj] at hs
        exact absurd hs (by simp)
  | stopNetService =>
      rw [StopState.step] at hs
      split_ifs at hs with hstage
      obtain rfl := Option.some.inj hs
      exact h.quiet (by rw [hstage]; rfl) rfl
  | next timed => exact h.next horderly hs

/-- Nothing keeps the stopping thread from deleting the pools and the service. -/
theorem reach_deleted (hstage : s.stage = .releasing 0) :
    Reach StopState.step (fun _ _ => True) s { s with stage := .deleted } := by
  obtain ⟨service, role, stage, faults⟩ := s
  subst hstage
  have hone : ∀ stage stage' : StopStage,
      StopState.next ⟨service, role, stage, faults⟩ true = some ⟨service, role, stage', faults⟩ →
        Reach StopState.step (fun _ _ => True) ⟨service, role, stage, faults⟩
          ⟨service, role, stage', faults⟩ :=
    fun _ _ h => .single (a := .next true) trivial h
  have hpools :
      Reach StopState.step (fun _ _ => True) ⟨service, role, .releasing 0, faults⟩
        ⟨service, role, .releasing 4, faults⟩ :=
    (((hone _ (.releasing 1) rfl).trans (hone _ (.releasing 2) rfl)).trans
      (hone _ (.releasing 3) rfl)).trans (hone _ _ rfl)
  exact (hpools.trans (hone _ .deleteService rfl)).trans (hone _ _ rfl)

/-- A completion that is outstanding when the pools are deleted can be handled too late. -/
theorem handled_too_late
    {j : Nat} {r : Completion} {t : State} (hstage : s.stage = .releasing 0)
    (hcomplete : Service.step s.service (.complete j r) = some t) :
    ∃ s', Reach StopState.step (fun _ _ => True) s s' ∧ ¬ s'.Safe := by
  have hlate :
      StopState.step { s with stage := .deleted } (.service (.complete j r)) =
        some (StopState.serve { s with stage := .deleted } (.complete j r) t) := by
    rw [StopState.step, if_neg (by simp [StopState.blocked])]
    show (match Service.step s.service (.complete j r) with
      | none => none
      | some service => some _) = _
    rw [hcomplete]
  refine ⟨_, (reach_deleted hstage).trans (.single trivial hlate), ?_⟩
  intro hsafe
  have hhandles := hsafe ⟨.handler, none⟩ (List.mem_append_right _ List.mem_cons_self)
  exact absurd hhandles (by decide)

/--
If the pools are deleted only once nothing is outstanding, no completion handler
runs and no call of the API can post any more, then no completion handler uses a
`NULL` pool or a deleted service, whatever the service was doing when it was
stopped.  With a completion outstanding, some order of the steps ends in such a
use.
-/
theorem stopNetService_safe (http listening : Bool) :
    (∀ s, Reach StopState.step StopState.orderly (.start http listening) s → s.Safe) ∧
    ∀ s j r t, Reach StopState.step (fun _ _ => True) (.start http listening) s →
      s.stage = .releasing 0 → Service.step s.service (.complete j r) = some t →
        ∃ s', Reach StopState.step (fun _ _ => True) s s' ∧ ¬ s'.Safe := by
  refine ⟨?_, fun s j r t _ hstage hcomplete => handled_too_late hstage hcomplete⟩
  intro s h
  have hinv : s.Inv := by
    refine h.invariant ⟨fun _ => rfl, fun hlate => absurd hlate Bool.false_ne_true⟩ ?_
    intro s s' a hinv horderly hs
    exact hinv.step horderly hs
  cases hreleased : s.stage.released with
  | true => exact (hinv.late hreleased).2
  | false =>
      intro f hf
      rw [hinv.early hreleased] at hf
      exact absurd hf List.not_mem_nil

section Examples

/-- A connection is accepted, and the service is stopped with its receive outstanding. -/
def acceptAndStop : List StopAction :=
  [.service .getNextLogicSocketID, .service (.allocTcpClient 0 0 .ok), .service (.run 1 .ok),
    .service (.complete 0 (.success true)), .service (.run 2 .ok), .service (.run 2 .ok),
    .service (.run 2 .ok), .service (.run 2 .ok), .service (.run 2 .ok), .acceptReturned 2,
    .stopNetService, .next false, .next false, .next false, .next false, .next false]

/-- The handler of the cancelled receive, up to `RemoveClient`. -/
def handleCancelled : List StopAction :=
  [.service (.complete 0 .failure), .service (.run 3 .ok), .service (.run 3 .ok),
    .service (.run 3 .ok), .service (.run 3 .ok), .service (.run 3 .ok), .service (.run 3 .ok)]

/-- `ReleaseAllPool`. -/
def releaseAllPool : List StopAction :=
  [.next true, .next true, .next true, .next true, .next true, .next true]

theorem stopNetService_safe_example :
    ∃ s, Reach StopState.step StopState.orderly (.start false true) s ∧
      s.stage = .deleted ∧ s.Safe := by
  have hrun :
      (runAll StopState.step StopState.orderly (.start false true)
        (acceptAndStop ++ handleCancelled ++ [.service (.run 3 .ok)] ++ releaseAllPool ++
          [.next true])).any (fun s => decide (s.stage = .deleted)) = true := by
    decide +kernel
  obtain ⟨s, hs, hp⟩ := exists_reach_of_runAll hrun
  exact ⟨s, hs, of_decide_eq_true hp, (stopNetService_safe false true).1 s hs⟩

/-- The wait is over before the handler of the cancelled receive removes its client. -/
theorem stopNetService_null_pool :
    ¬ ∀ (http listening : Bool) (s : StopState),
      Reach StopState.step (fun _ _ => True) (.start http listening) s → s.Safe := by
  intro hclaim
  have hrun :
      (runAll StopState.step (fun _ _ => True) (.start false true)
        (acceptAndStop ++ handleCancelled ++ releaseAllPool ++ [.service (.run 3 .ok)])).any
          (fun s => decide (s.faults = [⟨.handler, some .tcpClient⟩])) = true := by
    decide +kernel
  obtain ⟨s, hs, hp⟩ := exists_reach_of_runAll hrun
  have hfaults : s.faults = [⟨.handler, some .tcpClient⟩] := of_decide_eq_true hp
  have hhandles := hclaim false true s hs ⟨.handler, some .tcpClient⟩
    (by rw [hfaults]; exact List.mem_cons_self)
  exact absurd hhandles (by decide)

end Examples

end Drained

end Service
end IocpNetlib
