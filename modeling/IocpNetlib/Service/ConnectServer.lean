import IocpNetlib.Service.Reported

/-!
# What `ConnectServer` returns

`ConnectServer` waits for the semaphore that a worker posts when the connect
is done, and then reads `mConnState`.  It gives up after `waitMS`, but the
connect goes on, and a worker may disconnect the client before its state is
read.  Where neither crosses a connect that succeeds, the result of
`ConnectServer` says whether `OnConnected` is called.
-/

namespace IocpNetlib
namespace Service

open Ledger Reachability

/-- A result of `ConnectServer` that is not an id. -/
def Kind.isRefused : Kind → Bool
  | .connectServer result => decide (result = 0)
  | _ => false

/-- A connect that was successful and is on its way to `OnConnected`. -/
def establishShare : Weight where
  instr
    | .storeConnected .connect => 1
    | .postRecv .connect => 1
    | .wsaRecv .connect => 1
    | _ => 0
  op _ := 0

/-- `ConnectServer` while it waits and before it reads the state. -/
def waitShare : Weight where
  instr
    | .wait _ => 1
    | .readConnState _ => 1
    | _ => 0
  op _ := 0

/--
The steps that keep the result right: the counters stay right up to the last
`CheckRelease`, the wait is not given up while `OnConnected` was called or is on
its way, no connect succeeds after `ConnectServer` has returned 0, and a client
that was announced or is about to be is not disconnected before `ConnectServer`
has read its state.
-/
def resultAgrees (v : View) (ℓ : Label) : Bool :=
  closeKept v ℓ &&
    match ℓ with
    | .run (.wait _) .fail => decide (v.announced + v.held establishShare = 0)
    | .complete .connectEx (.success _) => decide (v.seen Kind.isRefused = 0)
    | .run (.setDisconnect _) _ =>
        decide
          (v.client.mConnState ≠ .connected ∨ v.held waitShare = 0 ∨
            v.announced + v.held firstShare = 0)
    | _ => true

/-- `ConnectServer` before it has a result. -/
def undecidedShare : Weight where
  instr
    | .increaseRef => 1
    | .postConnect _ => 1
    | .connectEx _ => 1
    | .wait _ => 1
    | .readConnState _ => 1
    | _ => 0
  op _ := 0

/-- `PostConnect`, whose failure is a result. -/
def attemptShare : Weight where
  instr
    | .postConnect _ => 1
    | .connectEx _ => 1
    | _ => 0
  op _ := 0

/-- The read of `mConnState` after the wait. -/
def readStateShare : Weight where
  instr
    | .readConnState _ => 1
    | _ => 0
  op _ := 0

/-- A post of the semaphore. -/
def semPostShare : Weight where
  instr
    | .semPost => 1
    | _ => 0
  op _ := 0

/-- A connect that failed or timed out. -/
def storeClosedShare : Weight where
  instr
    | .storeClosed => 1
    | _ => 0
  op _ := 0

def OpType.isConnectExTimeout : OpType → Nat
  | .connectExTimeout => 1
  | _ => 0

/-- The time-out that `ConnectServer` posts. -/
def timeOutShare : Weight where
  instr
    | .postSpecial opType => opType.isConnectExTimeout
    | .allocExceptionIOContext opType => opType.isConnectExTimeout
    | .postQueued opType => opType.isConnectExTimeout
    | _ => 0
  op k := k.isConnectExTimeout

/-- A connect before it is decided, and a connect that has failed. -/
def preludeShare : Weight where
  instr
    | .increaseRef => 1
    | .postConnect _ => 1
    | .connectEx _ => 1
    | .storeConnected .connect => 1
    | .storeClosed => 1
    | _ => 0
  op
    | .connectEx => 1
    | _ => 0

section Exec

variable {http : Bool} {c : TcpClient} {i : Instr} {o : Outcome} {ch : Change}

/-- `ConnectServer` goes on until it has one result. -/
theorem exec_undecidedShare (h : exec http c i o = some ch) :
    undecidedShare.code ch.push + occurs Kind.isRefused ch.event +
        occurs Kind.isConnected ch.event ≤ undecidedShare.instr i := by
  revert h
  fun_cases exec http c i o
  case case14 nSocketID =>
    rintro ⟨⟩
    generalize (if c.mConnState = .connected then nSocketID else 0) = result
    by_cases hzero : result = 0
    · simp [occurs, Kind.isRefused, Kind.isConnected, hzero, undecidedShare]
    · simp [occurs, Kind.isRefused, Kind.isConnected, hzero, undecidedShare]
  case case26 site _ | case29 site =>
    rintro ⟨⟩
    cases site <;> exact Nat.zero_le _
  case case41 =>
    rintro ⟨⟩
    cases http <;> exact Nat.zero_le _
  case case44 full =>
    rintro ⟨⟩
    simp only [Change.next, sendResult]
    split_ifs <;> exact Nat.zero_le _
  case case62 =>
    rintro ⟨⟩
    simp only [Change.next]
    split_ifs <;> exact Nat.zero_le _
  all_goals
    rintro ⟨⟩ <;> exact Nat.le_of_ble_eq_true rfl

/-- The time-out is posted with the result that goes with it. -/
theorem exec_timeOutShare (h : exec http c i o = some ch) :
    timeOutShare.code ch.push + timeOutShare.ops ch.post ≤
      timeOutShare.instr i + occurs Kind.isRefused ch.event := by
  revert h
  fun_cases exec http c i o
  case case26 site _ | case29 site =>
    rintro ⟨⟩
    cases site <;> exact Nat.zero_le _
  case case41 =>
    rintro ⟨⟩
    cases http <;> exact Nat.zero_le _
  case case44 full =>
    rintro ⟨⟩
    simp only [Change.next, sendResult]
    split_ifs <;> exact Nat.zero_le _
  case case58 opType =>
    rintro ⟨⟩
    exact Nat.le_of_eq (Nat.zero_add _)
  case case62 =>
    rintro ⟨⟩
    simp only [Change.next]
    split_ifs <;> exact Nat.zero_le _
  all_goals
    rintro ⟨⟩ <;> first | exact Nat.zero_le _ | exact Nat.le_refl _

/-- `CONN_CLOSED` is stored by the code of a completion only. -/
theorem exec_storeClosedShare (h : exec http c i o = some ch) :
    storeClosedShare.code ch.push = 0 := by
  revert h
  fun_cases exec http c i o
  case case26 site _ | case29 site =>
    rintro ⟨⟩
    cases site <;> rfl
  case case41 =>
    rintro ⟨⟩
    cases http <;> rfl
  case case44 full =>
    rintro ⟨⟩
    simp only [Change.next, sendResult]
    split_ifs <;> rfl
  case case62 =>
    rintro ⟨⟩
    simp only [Change.next]
    split_ifs <;> rfl
  all_goals
    rintro ⟨⟩ <;> rfl

/-- An established connection goes on to `OnConnected`, or fails. -/
theorem exec_establishShare
    (hstray : strayShare.instr i = 0) (hconnect : acceptorShare.instr i = 0)
    (h : exec http c i o = some ch) :
    occurs Kind.isOnConnected ch.event + onConnectedShare.code ch.push +
        establishShare.code ch.push ≤ onConnectedShare.instr i + establishShare.instr i := by
  revert h
  fun_cases exec http c i o
  case case24 site | case25 site | case26 site _ | case28 site | case29 site =>
    rintro ⟨⟩
    cases site <;>
      first
        | exact Nat.le_of_ble_eq_true rfl
        | exact absurd hstray (by decide)
        | exact absurd hconnect (by decide)
  case case41 =>
    rintro ⟨⟩
    cases http <;> exact Nat.zero_le _
  case case44 full =>
    rintro ⟨⟩
    simp only [Change.next, sendResult]
    split_ifs <;> exact Nat.zero_le _
  case case62 =>
    rintro ⟨⟩
    simp only [Change.next]
    split_ifs <;> exact Nat.zero_le _
  all_goals
    rintro ⟨⟩ <;> exact Nat.le_of_ble_eq_true rfl

/-- What was announced stays so, and what is about to be is. -/
theorem exec_announcedLeft (h : exec http c i o = some ch) :
    onConnectedShare.instr i ≤
      occurs Kind.isOnConnected ch.event + onConnectedShare.code ch.push := by
  revert h
  fun_cases exec http c i o
  all_goals
    rintro ⟨⟩ <;> first | exact Nat.zero_le _ | exact Nat.le_refl _

/-- The four ways to a result of 0. -/
theorem exec_refused
    {k : Kind} (h : exec http c i o = some ch) (hevent : ch.event = some k)
    (hk : k.isRefused = true) :
    0 < attemptShare.instr i ∨ (∃ id, i = .wait id ∧ o = .fail) ∨
      ∃ id, i = .readConnState id ∧ (c.mConnState ≠ .connected ∨ id = 0) := by
  revert h
  fun_cases exec http c i o
  case case14 nSocketID =>
    rintro ⟨⟩
    cases hevent
    refine Or.inr (Or.inr ⟨_, rfl, ?_⟩)
    have hzero := of_decide_eq_true hk
    by_cases hconnected : c.mConnState = .connected
    · rw [if_pos hconnected] at hzero
      exact Or.inr hzero
    · exact Or.inl hconnected
  all_goals
    rintro ⟨⟩ <;>
      first
        | exact Or.inl Nat.one_pos
        | exact Or.inr (Or.inl ⟨_, rfl, rfl⟩)
        | cases hevent <;> exact absurd hk Bool.false_ne_true

theorem exec_connected
    {k : Kind} (h : exec http c i o = some ch) (hevent : ch.event = some k)
    (hk : k.isConnected = true) :
    ∃ id, i = .readConnState id ∧ c.mConnState = .connected ∧ k = .connectServer id := by
  revert h
  fun_cases exec http c i o
  case case14 nSocketID =>
    rintro ⟨⟩
    cases hevent
    have hne := of_decide_eq_true hk
    by_cases hconnected : c.mConnState = .connected
    · exact ⟨_, rfl, hconnected, by rw [if_pos hconnected]⟩
    · rw [if_neg hconnected] at hne
      exact absurd rfl hne
  all_goals
    rintro ⟨⟩ <;> cases hevent <;> exact absurd hk Bool.false_ne_true

/-- `ConnectServer` waits once the connect is posted. -/
theorem exec_waitShare (h : exec http c i o = some ch) :
    waitShare.code ch.push ≤ waitShare.instr i ∨ ∃ id, i = .connectEx id := by
  revert h
  fun_cases exec http c i o
  case case26 site _ | case29 site =>
    rintro ⟨⟩
    cases site <;> exact Or.inl (Nat.zero_le _)
  case case41 =>
    rintro ⟨⟩
    cases http <;> exact Or.inl (Nat.zero_le _)
  case case44 full =>
    rintro ⟨⟩
    simp only [Change.next, sendResult]
    split_ifs <;> exact Or.inl (Nat.zero_le _)
  case case62 =>
    rintro ⟨⟩
    simp only [Change.next]
    split_ifs <;> exact Or.inl (Nat.zero_le _)
  all_goals
    rintro ⟨⟩ <;>
      first
        | exact Or.inl (Nat.zero_le _)
        | exact Or.inl (Nat.le_refl _)
        | exact Or.inr ⟨_, rfl⟩

theorem exec_readStateShare (h : exec http c i o = some ch) :
    readStateShare.code ch.push = 0 ∨ ∃ id, i = .wait id ∧ 0 < c.mConnctRemoteSem := by
  revert h
  fun_cases exec http c i o
  case case26 site _ | case29 site =>
    rintro ⟨⟩
    cases site <;> exact Or.inl rfl
  case case41 =>
    rintro ⟨⟩
    cases http <;> exact Or.inl rfl
  case case44 full =>
    rintro ⟨⟩
    simp only [Change.next, sendResult]
    split_ifs <;> exact Or.inl rfl
  case case62 =>
    rintro ⟨⟩
    simp only [Change.next]
    split_ifs <;> exact Or.inl rfl
  all_goals
    rintro ⟨⟩ <;>
      first
        | exact Or.inl rfl
        | exact Or.inr ⟨_, rfl, by assumption⟩

/-- A worker posts the semaphore when it is about to call `OnConnected`. -/
theorem exec_semPostShare (h : exec http c i o = some ch) :
    semPostShare.code ch.push = 0 ∨ 0 < onConnectedShare.code ch.push := by
  revert h
  fun_cases exec http c i o
  case case26 site _ | case29 site =>
    rintro ⟨⟩
    cases site <;> first | exact Or.inl rfl | exact Or.inr Nat.one_pos
  case case41 =>
    rintro ⟨⟩
    cases http <;> exact Or.inl rfl
  case case44 full =>
    rintro ⟨⟩
    simp only [Change.next, sendResult]
    split_ifs <;> exact Or.inl rfl
  case case62 =>
    rintro ⟨⟩
    simp only [Change.next]
    split_ifs <;> exact Or.inl rfl
  all_goals
    rintro ⟨⟩ <;> exact Or.inl rfl

theorem exec_sem (h : exec http c i o = some ch) (hpos : 0 < ch.client.mConnctRemoteSem) :
    0 < c.mConnctRemoteSem ∨ i = .semPost := by
  revert h
  fun_cases exec http c i o
  all_goals
    rintro ⟨⟩ <;>
      first
        | exact Or.inl hpos
        | exact Or.inr rfl
        | exact absurd hpos (Nat.lt_irrefl 0)
        | exact Or.inl (by assumption)

/-- Only the acceptor resets a client, and with it its id. -/
theorem exec_logicID (hconnect : acceptorShare.instr i = 0) (h : exec http c i o = some ch) :
    ch.client.mLogicSocketID = c.mLogicSocketID := by
  revert h
  fun_cases exec http c i o
  case case23 id => exact absurd hconnect Nat.one_ne_zero
  all_goals
    rintro ⟨⟩ <;> rfl

theorem exec_preludeShare (hstray : strayShare.instr i = 0) (h : exec http c i o = some ch) :
    preludeShare.code ch.push + preludeShare.ops ch.post ≤ preludeShare.instr i ∧
      ((∃ site, i = .storeConnected site) →
        preludeShare.code ch.push + preludeShare.ops ch.post = 0) := by
  revert h
  fun_cases exec http c i o
  case case24 site =>
    rintro ⟨⟩
    exact ⟨Nat.zero_le _, fun _ => rfl⟩
  case case26 site _ | case29 site =>
    rintro ⟨⟩
    cases site <;> exact ⟨Nat.zero_le _, fun _ => rfl⟩
  case case41 =>
    rintro ⟨⟩
    cases http <;> exact ⟨Nat.zero_le _, fun _ => rfl⟩
  case case44 full =>
    rintro ⟨⟩
    simp only [Change.next, sendResult]
    split_ifs <;> exact ⟨Nat.zero_le _, fun _ => rfl⟩
  case case58 opType =>
    rintro ⟨⟩
    cases opType <;>
      first | exact ⟨Nat.zero_le _, fun _ => rfl⟩ | exact absurd hstray (by decide)
  case case62 =>
    rintro ⟨⟩
    simp only [Change.next]
    split_ifs <;> exact ⟨Nat.zero_le _, fun _ => rfl⟩
  all_goals
    rintro ⟨⟩ <;>
      refine ⟨Nat.le_of_ble_eq_true rfl, ?_⟩ <;> rintro ⟨_, ⟨⟩⟩

end Exec

section Complete

variable {k : OpType} {r : Completion} {code : List Instr}

/-- The code of a completion is not code of `ConnectServer`. -/
theorem complete_undecidedShare (h : onCompleteOperation k r = some code) :
    undecidedShare.code code = 0 ∧ waitShare.code code = 0 ∧ readStateShare.code code = 0 ∧
      timeOutShare.code code = 0 ∧ acceptorShare.code code ≤ acceptorShare.op k := by
  revert h
  fun_cases onCompleteOperation k r
  all_goals
    rintro ⟨⟩ <;> exact ⟨rfl, rfl, rfl, rfl, Nat.le_of_ble_eq_true rfl⟩

theorem complete_establishShare (h : onCompleteOperation k r = some code) :
    setupShare.code code + storeClosedShare.code code ≤ setupShare.op k + timeOutShare.op k ∧
      (establishShare.code code = 0 ∨ (k = .connectEx ∧ ∃ full, r = .success full)) ∧
        (preludeShare.code code ≤ preludeShare.op k ∨ k = .connectExTimeout) := by
  revert h
  fun_cases onCompleteOperation k r
  case case10 full =>
    rintro ⟨⟩
    exact ⟨Nat.le_refl _, Or.inr ⟨rfl, full, rfl⟩, Or.inl (Nat.le_refl _)⟩
  case case12 =>
    rintro ⟨⟩
    exact ⟨Nat.le_refl _, Or.inl rfl, Or.inr rfl⟩
  all_goals
    rintro ⟨⟩ <;>
      exact ⟨Nat.le_of_ble_eq_true rfl, Or.inl rfl, Or.inl (Nat.le_of_ble_eq_true rfl)⟩

/-- The semaphore is posted for a connect that failed or timed out. -/
theorem complete_semPostShare (h : onCompleteOperation k r = some code) :
    semPostShare.code code = 0 ∨ k = .connectExTimeout ∨
      (k = .connectEx ∧ setupShare.code code = 0) := by
  revert h
  fun_cases onCompleteOperation k r
  all_goals
    rintro ⟨⟩ <;>
      first
        | exact Or.inl rfl
        | exact Or.inr (Or.inl rfl)
        | exact Or.inr (Or.inr ⟨rfl, rfl⟩)

end Complete

/--
An attempt of `ConnectServer` and the connection it is about, where the service
does not listen.
-/
structure View.Attempt (v : View) : Prop where
  acceptor : v.held acceptorShare = 0
  ident : v.client.mLogicSocketID = v.client.allocID
  named : 0 < v.held undecidedShare → v.client.allocID ≠ 0
  undecided :
    v.held undecidedShare + v.seen Kind.isRefused + v.seen Kind.isConnected ≤ 1
  token :
    v.announced + v.held setupShare + v.held storeClosedShare + v.held timeOutShare ≤
      1 + v.seen Kind.isRefused
  timeOut : v.held timeOutShare ≤ v.seen Kind.isRefused
  refused : 0 < v.seen Kind.isRefused → v.announced + v.held establishShare = 0
  connected : 0 < v.held waitShare → 0 < v.announced + v.held firstShare →
    v.client.mConnState = .connected
  prelude : 0 < v.held undecidedShare → 0 < v.held preludeShare →
    v.client.mConnState ≠ .connected
  posted :
    0 < v.held readStateShare ∨
      (0 < v.held undecidedShare ∧
        (0 < v.held semPostShare ∨ 0 < v.client.mConnctRemoteSem)) →
    0 < v.announced ∨ (v.client.mConnState ≠ .connected ∧ v.held setupShare = 0)
  returned : 0 < v.seen Kind.isConnected → v.announced = 1

section Steps

variable {http : Bool} {v v' : View} {ℓ : Label}

theorem resultAgrees_kept (v : View) (ℓ : Label) (hG : resultAgrees v ℓ = true) :
    closeKept v ℓ = true := by
  unfold resultAgrees at hG
  rw [Bool.and_eq_true] at hG
  exact hG.1

theorem waitShare_le (hv : v.Lawful) :
    v.held waitShare ≤ v.held undecidedShare ∧ v.held waitShare ≤ v.held referenceShare ∧
      v.held readStateShare ≤ v.held waitShare :=
  ⟨hv.mono (fun i => by cases i <;> exact Nat.le_of_ble_eq_true rfl) (fun k => Nat.zero_le _),
    hv.mono (fun i => by cases i <;> exact Nat.le_of_ble_eq_true rfl) (fun k => Nat.zero_le _),
    hv.mono (fun i => by cases i <;> exact Nat.le_of_ble_eq_true rfl) (fun k => Nat.zero_le _)⟩

/-- A connect that is not posted yet, and one that has succeeded, are not set up twice. -/
theorem attemptShare_le (hv : v.Lawful) :
    v.held firstShare + v.held attemptShare ≤ v.held setupShare ∧
      v.held establishShare + v.held attemptShare ≤ v.held setupShare ∧
        v.held preludeShare ≤ v.held setupShare + v.held storeClosedShare := by
  refine ⟨?_, ?_, ?_⟩
  · rw [← hv.add]
    exact hv.mono
      (fun i => by
        cases i
        case postRecv site | wsaRecv site => cases site <;> decide
        all_goals exact Nat.le_of_ble_eq_true rfl)
      (fun k => Nat.zero_le _)
  · rw [← hv.add]
    exact hv.mono
      (fun i => by
        cases i
        case storeConnected site | postRecv site | wsaRecv site => cases site <;> decide
        all_goals exact Nat.le_of_ble_eq_true rfl)
      (fun k => Nat.zero_le _)
  · rw [← hv.add]
    exact hv.mono
      (fun i => by
        cases i
        case storeConnected site => cases site <;> decide
        all_goals exact Nat.le_of_ble_eq_true rfl)
      (fun k => by cases k <;> decide)

/-- What `announced` counts is not lost, and grows by a connection that is set up. -/
theorem announced_run
    {i : Instr} {o : Outcome} {ch : Change}
    (hexec : exec http v.client i o = some ch)
    (held : ∀ W : Weight,
      v'.held W + W.instr i = v.held W + W.code ch.push + W.ops ch.post)
    (seen : ∀ p, v'.seen p = v.seen p + occurs p ch.event) :
    v.announced ≤ v'.announced := by
  have hheld := held onConnectedShare
  have hseen := seen Kind.isOnConnected
  have hleft := exec_announcedLeft hexec
  rw [ops_zero (W := onConnectedShare) fun _ => rfl] at hheld
  unfold View.announced
  omega

/-- A connected client is not taken out of its state while `ConnectServer` waits. -/
theorem View.Attempt.run_connected
    {i : Instr} {o : Outcome} {ch : Change}
    (hv : v.Settled) (h : v.Attempt)
    (hG : resultAgrees v (.run i o) = true)
    (hexec : exec http v.client i o = some ch)
    (own : ∀ W : Weight, W.instr i ≤ v.held W)
    (held : ∀ W : Weight,
      v'.held W + W.instr i = v.held W + W.code ch.push + W.ops ch.post)
    (seen : ∀ p, v'.seen p = v.seen p + occurs p ch.event)
    (hwait : 0 < v'.held waitShare) (hpos : 0 < v'.announced + v'.held firstShare) :
    ch.client.mConnState = .connected := by
  obtain ⟨hundecided, -, -⟩ := waitShare_le hv.toLawful
  obtain ⟨hfirstLe, -, -⟩ := attemptShare_le hv.toLawful
  have hheldW := held waitShare
  have hheldF := held firstShare
  have hheldC := held onConnectedShare
  have hseen := seen Kind.isOnConnected
  rw [ops_zero (W := waitShare) fun _ => rfl] at hheldW
  rw [ops_zero (W := firstShare) fun _ => rfl] at hheldF
  rw [ops_zero (W := onConnectedShare) fun _ => rfl] at hheldC
  have hdecided := h.undecided
  have htoken := h.token
  rcases exec_firstShare hexec with hle | hconnected
  · have hbefore : 0 < v.announced + v.held firstShare := by
      rw [View.announced] at hpos ⊢
      omega
    rcases exec_waitShare hexec with hshare | ⟨id, rfl⟩
    · have hwaits : 0 < v.held waitShare := by omega
      rcases exec_leavesConnected hexec (h.connected hwaits hbefore) with hstill | hfall
      · exact hstill
      · exfalso
        have hacceptor := h.acceptor
        have hownA := own acceptorShare
        cases i
        case closeSocket => exact absurd hownA (by rw [hacceptor]; decide)
        case reset id => exact absurd hownA (by rw [hacceptor]; exact Nat.not_succ_le_zero 0)
        case storeClosed =>
          have hone : 1 ≤ v.held storeClosedShare := own storeClosedShare
          omega
        case setDisconnect errCode =>
          rw [resultAgrees] at hG
          rw [Bool.and_eq_true] at hG
          rcases of_decide_eq_true hG.2 with hnot | hnone | hnone
          · exact hnot (h.connected hwaits hbefore)
          · omega
          · omega
        all_goals exact absurd hfall (Nat.lt_irrefl 0)
    · have hone : 1 ≤ v.held attemptShare := own attemptShare
      have hone' : 1 ≤ v.held undecidedShare := own undecidedShare
      omega
  · exact hconnected

/-- When `ConnectServer` returns 0 no connection is on its way. -/
theorem View.Attempt.run_refused
    {i : Instr} {o : Outcome} {ch : Change} {k : Kind}
    (hv : v.Settled) (h : v.Attempt)
    (hG : resultAgrees v (.run i o) = true)
    (hexec : exec http v.client i o = some ch)
    (own : ∀ W : Weight, W.instr i ≤ v.held W)
    (hevent : ch.event = some k) (hk : k.isRefused = true) :
    v.announced + v.held establishShare = 0 := by
  obtain ⟨hundecided, hreference, hreadLe⟩ := waitShare_le hv.toLawful
  obtain ⟨-, hestablish, -⟩ := attemptShare_le hv.toLawful
  have hdecided := h.undecided
  have htoken := h.token
  rcases exec_refused hexec hevent hk with hattempt | ⟨id, rfl, rfl⟩ | ⟨id, rfl, hstate⟩
  · have hone := Nat.lt_of_lt_of_le hattempt (own attemptShare)
    have hone' : 1 ≤ v.held undecidedShare := by
      refine Nat.le_trans ?_ (own undecidedShare)
      cases i
      case postConnect | connectEx => exact Nat.le_refl _
      all_goals exact absurd hattempt (Nat.lt_irrefl 0)
    omega
  · rw [resultAgrees] at hG
    rw [Bool.and_eq_true] at hG
    exact of_decide_eq_true hG.2
  · have hread : 1 ≤ v.held readStateShare := own readStateShare
    have hnot : v.client.mConnState ≠ .connected := by
      rcases hstate with hnot | hzero
      · exact hnot
      · -- the id that was drawn for the client is not zero
        have hsaved := own (otherID v.client.allocID)
        rw [hv.saved] at hsaved
        have hid := otherID_zero (Nat.le_zero.mp hsaved) id rfl
        exact absurd (hid.symm.trans hzero) (h.named (by omega))
    have hnone : ¬ 0 < v.announced + v.held firstShare :=
      fun hpos => hnot (h.connected (by omega) hpos)
    rcases h.posted (Or.inl (by omega)) with hpos | ⟨-, hsetup⟩
    · omega
    · omega

/-- After a post of the semaphore the result of the connect is in the state. -/
theorem View.Attempt.run_posted
    {i : Instr} {o : Outcome} {ch : Change}
    (hstray : strayShare.instr i = 0) (h : v.Attempt)
    (hexec : exec http v.client i o = some ch)
    (own : ∀ W : Weight, W.instr i ≤ v.held W)
    (client : v'.client = ch.client)
    (held : ∀ W : Weight,
      v'.held W + W.instr i = v.held W + W.code ch.push + W.ops ch.post)
    (seen : ∀ p, v'.seen p = v.seen p + occurs p ch.event)
    (hposted : 0 < v'.held readStateShare ∨
      (0 < v'.held undecidedShare ∧
        (0 < v'.held semPostShare ∨ 0 < v'.client.mConnctRemoteSem))) :
    0 < v'.announced ∨ (ch.client.mConnState ≠ .connected ∧ v'.held setupShare = 0) := by
  have hmore := announced_run hexec held seen
  have hheldU := held undecidedShare
  have hheldR := held readStateShare
  have hheldP := held semPostShare
  have hheldS := held setupShare
  have hheldC := held onConnectedShare
  rw [ops_zero (W := undecidedShare) fun _ => rfl] at hheldU
  rw [ops_zero (W := readStateShare) fun _ => rfl] at hheldR
  rw [ops_zero (W := semPostShare) fun _ => rfl] at hheldP
  rw [ops_zero (W := onConnectedShare) fun _ => rfl] at hheldC
  have hundecided := exec_undecidedShare hexec
  have hsetup := exec_setupShare hstray hexec
  have hleft := exec_announcedLeft hexec
  have hownS := own setupShare
  have hownC := own onConnectedShare
  have hstill :
      0 < v.held readStateShare ∨
          (0 < v.held undecidedShare ∧
            (0 < v.held semPostShare ∨ 0 < v.client.mConnctRemoteSem)) →
        0 < v'.announced ∨ (ch.client.mConnState ≠ .connected ∧ v'.held setupShare = 0) := by
    intro hbefore
    rcases h.posted hbefore with hpos | ⟨hnot, hnone⟩
    · exact Or.inl (by omega)
    · refine Or.inr ⟨fun hconnected => ?_, by omega⟩
      rcases exec_entersConnected hexec hconnected with hconnected' | ⟨site, rfl⟩
      · exact hnot hconnected'
      · have hone : setupShare.instr (.storeConnected site) = 1 := rfl
        omega
  rw [client] at hposted
  rcases hposted with hread | ⟨hpos, hpost | hsem⟩
  · rcases exec_readStateShare hexec with hnone | ⟨id, rfl, hsem⟩
    · exact hstill (Or.inl (by omega))
    · exact hstill (Or.inr ⟨own undecidedShare, Or.inr hsem⟩)
  · rcases exec_semPostShare hexec with hnone | hconnected
    · exact hstill (Or.inr ⟨by omega, Or.inl (by omega)⟩)
    · refine Or.inl ?_
      rw [View.announced]
      omega
  · rcases exec_sem hexec hsem with hsem' | rfl
    · exact hstill (Or.inr ⟨by omega, Or.inr hsem'⟩)
    · exact hstill (Or.inr ⟨by omega, Or.inl (own semPostShare)⟩)

theorem View.Attempt.run
    {i : Instr} {o : Outcome} {ch : Change}
    (hv : v.Settled) (h : v.Attempt)
    (hG : resultAgrees v (.run i o) = true)
    (hexec : exec http v.client i o = some ch)
    (own : ∀ W : Weight, W.instr i ≤ v.held W)
    (client : v'.client = ch.client)
    (held : ∀ W : Weight,
      v'.held W + W.instr i = v.held W + W.code ch.push + W.ops ch.post)
    (seen : ∀ p, v'.seen p = v.seen p + occurs p ch.event) :
    v'.Attempt := by
  have hstray : strayShare.instr i = 0 := by
    have := own strayShare
    have := hv.stray
    omega
  have hconnect : acceptorShare.instr i = 0 := by
    have := own acceptorShare
    have := h.acceptor
    omega
  have hmore := announced_run hexec held seen
  have hheldA := held acceptorShare
  have hheldU := held undecidedShare
  have hheldS := held setupShare
  have hheldD := held storeClosedShare
  have hheldT := held timeOutShare
  have hheldE := held establishShare
  have hheldC := held onConnectedShare
  have hheldP := held preludeShare
  rw [ops_zero (W := undecidedShare) fun _ => rfl] at hheldU
  rw [ops_zero (W := storeClosedShare) fun _ => rfl] at hheldD
  rw [ops_zero (W := establishShare) fun _ => rfl] at hheldE
  rw [ops_zero (W := onConnectedShare) fun _ => rfl] at hheldC
  have hseenR := seen Kind.isRefused
  have hseenI := seen Kind.isConnected
  have hseenC := seen Kind.isOnConnected
  have hacceptor : acceptorShare.code ch.push + acceptorShare.ops ch.post = 0 := by
    obtain ⟨hpush, hpost⟩ := acceptorShare_closed.exec hexec hconnect
    rw [hpush, hpost]
  have hundecided := exec_undecidedShare hexec
  have hsetup := exec_setupShare hstray hexec
  have htimeOut := exec_timeOutShare hexec
  have hstore := exec_storeClosedShare hexec
  have hestablish := exec_establishShare hstray hconnect hexec
  have hownT := own timeOutShare
  have hownS := own setupShare
  have hownC := own onConnectedShare
  have hdecided := h.undecided
  have htoken := h.token
  have hbefore := h.acceptor
  have htimed := h.timeOut
  have htoken' : v'.announced + v'.held setupShare + v'.held storeClosedShare +
      v'.held timeOutShare ≤ 1 + v'.seen Kind.isRefused := by
    rw [View.announced] at htoken ⊢
    omega
  have hdecided' :
      v'.held undecidedShare + v'.seen Kind.isRefused + v'.seen Kind.isConnected ≤ 1 := by
    omega
  constructor
  case acceptor => omega
  case ident =>
    rw [client, (exec_life hexec).2, exec_logicID hconnect hexec]
    exact h.ident
  case named =>
    intro hpos
    rw [client, (exec_life hexec).2]
    exact h.named (by omega)
  case undecided => exact hdecided'
  case token => exact htoken'
  case timeOut => omega
  case refused =>
    intro hpos
    have hnone : v.announced + v.held establishShare = 0 := by
      by_cases hold : 0 < v.seen Kind.isRefused
      · exact h.refused hold
      · obtain ⟨k, hevent, hk⟩ :=
          occurs_pos (show 0 < occurs Kind.isRefused ch.event by omega)
        exact h.run_refused hv hG hexec own hevent hk
    rw [View.announced] at hnone ⊢
    omega
  case connected =>
    rw [client]
    exact h.run_connected hv hG hexec own held seen
  case prelude =>
    intro hpos hprelude
    rw [client]
    intro hconnected
    obtain ⟨hshare, hdone⟩ := exec_preludeShare hstray hexec
    rcases exec_entersConnected hexec hconnected with hold | ⟨site, rfl⟩
    · exact h.prelude (by omega) (by omega) hold
    · have hcode := hdone ⟨site, rfl⟩
      obtain ⟨-, -, hle⟩ := attemptShare_le hv.toLawful
      have hone : preludeShare.instr (.storeConnected site) = 1 := by
        cases site
        case connect => rfl
        case accept => exact absurd hconnect (by decide)
        case again => exact absurd hstray (by decide)
      omega
  case posted =>
    intro hposted
    rw [client]
    exact
      h.run_posted hstray hexec own client held seen
        (by rw [client] at hposted ⊢; exact hposted)
  case returned =>
    intro hpos
    have hsome : 0 < v'.announced := by
      by_cases hold : 0 < v.seen Kind.isConnected
      · have := h.returned hold
        omega
      · obtain ⟨k, hevent, hk⟩ :=
          occurs_pos (show 0 < occurs Kind.isConnected ch.event by omega)
        obtain ⟨id, rfl, hconnected, -⟩ := exec_connected hexec hevent hk
        rcases h.posted (Or.inl (own readStateShare)) with hannounced | ⟨hnot, -⟩
        · omega
        · exact absurd hconnected hnot
    omega

/-- After the completion of a connect its result is in the state, or soon will be. -/
theorem View.Attempt.complete_posted
    {k : OpType} {r : Completion} {code : List Instr}
    (hv : v.Settled) (h : v.Attempt)
    (hexec : onCompleteOperation k r = some code)
    (own : ∀ W : Weight, W.op k ≤ v.held W)
    (held : ∀ W : Weight, v'.held W + W.op k = v.held W + W.code code)
    (hposted : 0 < v.held readStateShare ∨
      (0 < v.held undecidedShare ∧
        (0 < v'.held semPostShare ∨ 0 < v.client.mConnctRemoteSem))) :
    0 < v.announced ∨ (v.client.mConnState ≠ .connected ∧ v'.held setupShare = 0) := by
  obtain ⟨hundecided, -, hreadLe⟩ := waitShare_le hv.toLawful
  have hheldS := held setupShare
  have hheldP := held semPostShare
  have hzero : semPostShare.op k = 0 := rfl
  have hsetup := (complete_setupShare hexec).1
  have hpos : 0 < v.held undecidedShare := by omega
  have hdecided := h.undecided
  have htoken := h.token
  rcases complete_semPostShare hexec with hnone | rfl | ⟨rfl, hdone⟩
  · have hbefore : 0 < v.held readStateShare ∨
        (0 < v.held undecidedShare ∧
          (0 < v.held semPostShare ∨ 0 < v.client.mConnctRemoteSem)) := by
      rw [show v'.held semPostShare = v.held semPostShare by omega] at hposted
      exact hposted
    rcases h.posted hbefore with hannounced | ⟨hnot, hset⟩
    · exact Or.inl hannounced
    · exact Or.inr ⟨hnot, by omega⟩
  · -- the time-out is posted after the result
    have hone : 1 ≤ v.held timeOutShare := own timeOutShare
    have := h.timeOut
    omega
  · have hone : 1 ≤ v.held setupShare := own setupShare
    have hset : setupShare.op .connectEx = 1 := rfl
    exact Or.inr ⟨h.prelude hpos (own preludeShare), by omega⟩

theorem View.Attempt.complete
    {k : OpType} {r : Completion} {code : List Instr}
    (hv : v.Settled) (h : v.Attempt)
    (hG : resultAgrees v (.complete k r) = true)
    (hexec : onCompleteOperation k r = some code)
    (own : ∀ W : Weight, W.op k ≤ v.held W)
    (client : v'.client = v.client)
    (held : ∀ W : Weight, v'.held W + W.op k = v.held W + W.code code)
    (seen : ∀ p, v'.seen p = v.seen p) :
    v'.Attempt := by
  obtain ⟨hundecidedC, hwaitC, hreadC, htimeOutC, hacceptorC⟩ := complete_undecidedShare hexec
  obtain ⟨hsetupC, hestablishC, hpreludeC⟩ := complete_establishShare hexec
  obtain ⟨-, -, -, hconnectedC⟩ := complete_announced hexec
  have hfirstC := (complete_setupShare hexec).2.1
  have hplain := fun W => View.held_plain (W := W) held
  have hheldU := hplain undecidedShare (fun _ => rfl) hundecidedC
  have hheldF := hplain firstShare (fun _ => rfl) hfirstC
  have hannounced : v'.announced = v.announced := by
    unfold View.announced
    rw [seen, hplain onConnectedShare (fun _ => rfl) hconnectedC]
  have hheldA := held acceptorShare
  have hheldS := held setupShare
  have hheldD := held storeClosedShare
  have hheldT := held timeOutShare
  have hheldE := held establishShare
  have hheldP := held preludeShare
  have hzeroD : storeClosedShare.op k = 0 := rfl
  have hzeroE : establishShare.op k = 0 := rfl
  have hownT := own timeOutShare
  have hownS := own setupShare
  have hownA := own acceptorShare
  have hacceptor := h.acceptor
  have htoken := h.token
  have htimed := h.timeOut
  have hdecided := h.undecided
  constructor
  case acceptor => omega
  case ident =>
    rw [client]
    exact h.ident
  case named =>
    rw [hheldU, client]
    exact h.named
  case undecided =>
    rw [hheldU, seen, seen]
    exact hdecided
  case token =>
    rw [hannounced, seen]
    omega
  case timeOut =>
    rw [seen]
    omega
  case refused =>
    rw [seen, hannounced]
    intro hpos
    have hnone := h.refused hpos
    rcases hestablishC with hzero | ⟨rfl, full, rfl⟩
    · omega
    · unfold resultAgrees at hG
      rw [Bool.and_eq_true] at hG
      have := of_decide_eq_true hG.2
      omega
  case connected =>
    rw [hplain waitShare (fun _ => rfl) hwaitC, hannounced, hheldF, client]
    exact h.connected
  case prelude =>
    rw [hheldU, client]
    intro hpos hprelude
    rcases hpreludeC with hle | rfl
    · exact h.prelude hpos (by omega)
    · have hone : timeOutShare.op .connectExTimeout = 1 := rfl
      omega
  case posted =>
    rw [hplain readStateShare (fun _ => rfl) hreadC, hheldU, client, hannounced]
    exact h.complete_posted hv hexec own held
  case returned =>
    rw [seen, hannounced]
    exact h.returned

theorem View.Attempt.quiet
    (h : v.Attempt) (hq : v.Quiet v') (hsetup : v'.held setupShare ≤ v.held setupShare) :
    v'.Attempt := by
  obtain ⟨_, _, _, hclient⟩ := id hq.client
  have hannounced : v'.announced = v.announced := by
    unfold View.announced
    rw [hq.seen, hq.held onConnectedShare {}]
  have htoken := h.token
  constructor
  case acceptor =>
    rw [hq.held acceptorShare {}]
    exact h.acceptor
  case ident =>
    rw [hclient]
    exact h.ident
  case named =>
    rw [hq.held undecidedShare {}, hclient]
    exact h.named
  case undecided =>
    rw [hq.held undecidedShare {}, hq.seen, hq.seen]
    exact h.undecided
  case token =>
    rw [hannounced, hq.held storeClosedShare {}, hq.held timeOutShare {}, hq.seen]
    omega
  case timeOut =>
    rw [hq.held timeOutShare {}, hq.seen]
    exact h.timeOut
  case refused =>
    rw [hq.seen, hannounced, hq.held establishShare {}]
    exact h.refused
  case connected =>
    rw [hq.held waitShare {}, hannounced, hq.held firstShare {}, hclient]
    exact h.connected
  case prelude =>
    rw [hq.held undecidedShare {}, hq.held preludeShare {}, hclient]
    exact h.prelude
  case posted =>
    rw [hq.held readStateShare {}, hq.held undecidedShare {}, hq.held semPostShare {}, hclient,
      hannounced]
    intro hposted
    rcases h.posted hposted with hpos | ⟨hnot, hnone⟩
    · exact Or.inl hpos
    · exact Or.inr ⟨hnot, by omega⟩
  case returned =>
    rw [hq.seen, hannounced]
    exact h.returned

/-- Nothing is left of an attempt on a block that is handed out. -/
theorem View.Attempt.dead
    (hv : v.Sound) (h : v.Attempt) (hlive : v.client.live = false) :
    v.held undecidedShare = 0 ∧ v.held onConnectedShare = 0 ∧
      v.held setupShare + v.held storeClosedShare + v.held semPostShare = 0 ∧
        v.held timeOutShare = 0 := by
  obtain ⟨hpending, howner, href, -⟩ := hv.toCounters.dead hv.toLawful hlive 0
  have hacceptor := h.acceptor
  have hundecided : v.held undecidedShare ≤
      v.held ((pendingShare.add ownerShare).add referenceShare) :=
    hv.mono (fun i => by cases i <;> exact Nat.le_of_ble_eq_true rfl) (fun k => Nat.zero_le _)
  rw [hv.add, hv.add] at hundecided
  have hset : v.held ((setupShare.add storeClosedShare).add semPostShare) = 0 :=
    hv.dead_held hlive _
      (fun i => by
        cases i
        case storeConnected site | postRecv site | wsaRecv site | recvFailed site |
            onConnected site =>
          cases site <;> decide
        all_goals exact Nat.le_of_ble_eq_true rfl)
      (fun k => by cases k <;> decide)
  rw [hv.add, hv.add] at hset
  refine ⟨by omega, ?_, hset, ?_⟩
  · have hle := hv.held_split onConnectedShare
    have hbusy := hv.held_busy onConnectedShare hpending
    have hidle : v.held onConnectedShare.idle ≤ v.held acceptorShare :=
      hv.mono
        (fun i => by
          cases i
          case storeConnected site | postRecv site | wsaRecv site | recvFailed site |
              onConnected site =>
            cases site <;> decide
          all_goals exact Nat.le_of_ble_eq_true rfl)
        (fun k => by cases k <;> decide)
    omega
  · by_contra hne
    have hsome := hv.owed (W := timeOutShare) (T := pendingShare.add referenceShare)
      (fun i hi => by
        cases i
        case postSpecial opType =>
          cases opType
          case connectExTimeout => exact Or.inr ⟨_, rfl, Nat.one_pos⟩
          all_goals exact absurd hi (Nat.lt_irrefl 0)
        case allocExceptionIOContext | postQueued => exact Or.inl Nat.one_pos
        all_goals exact absurd hi (Nat.lt_irrefl 0))
      (fun k hk => by
        cases k
        case connectExTimeout => exact Nat.one_pos
        all_goals exact absurd hk (Nat.lt_irrefl 0))
      (Nat.pos_of_ne_zero hne)
    rw [hv.add] at hsome
    omega

theorem View.Attempt.alloc
    {id : SocketID} {n : Nat}
    (hv : v.Sound) (h : v.Attempt) (hid : id ≠ 0)
    (hlive : v.client.live = false)
    (client : v'.client = .fresh id n)
    (held : ∀ W : Weight, v'.held W = v.held W + W.instr .increaseRef)
    (seen : ∀ p, v'.seen p = 0) :
    v'.Attempt := by
  obtain ⟨hundecided, hconnected, hset, htimeOut⟩ := h.dead hv hlive
  obtain ⟨hwaitLe, -, hreadLe⟩ := waitShare_le hv.toLawful
  have hfirstLe := firstShare_le hv.toLawful
  have hstate : v'.client.mConnState = .closed := by
    rw [client]
    rfl
  have hsem : v'.client.mConnctRemoteSem = 0 := by
    rw [client]
    rfl
  have halloc : v'.client.allocID = id := by
    rw [client]
    rfl
  have hannounced : v'.announced = 0 := by
    rw [View.announced]
    rw [seen, held, hconnected]
    rfl
  have hheldA : v'.held acceptorShare = v.held acceptorShare := held acceptorShare
  have hheldW : v'.held waitShare = v.held waitShare := held waitShare
  have hheldR : v'.held readStateShare = v.held readStateShare := held readStateShare
  have hheldP : v'.held semPostShare = v.held semPostShare := held semPostShare
  have hheldU : v'.held undecidedShare = v.held undecidedShare + 1 := held undecidedShare
  have hheldS : v'.held setupShare = v.held setupShare + 1 := held setupShare
  have hheldD : v'.held storeClosedShare = v.held storeClosedShare := held storeClosedShare
  have hheldT : v'.held timeOutShare = v.held timeOutShare := held timeOutShare
  have hacceptor := h.acceptor
  constructor
  case acceptor => omega
  case ident =>
    rw [client]
    rfl
  case named =>
    rw [halloc]
    exact fun _ => hid
  case undecided =>
    rw [seen, seen]
    omega
  case token =>
    rw [hannounced, seen]
    omega
  case timeOut => omega
  case refused =>
    rw [seen]
    exact fun hpos => absurd hpos (Nat.lt_irrefl 0)
  case connected => omega
  case prelude =>
    rw [hstate]
    exact fun _ _ hconn => by cases hconn
  case posted => omega
  case returned =>
    rw [seen]
    exact fun hpos => absurd hpos (Nat.lt_irrefl 0)

theorem View.Attempt.step
    (hv : v.Settled) (h : v.Attempt) (hG : resultAgrees v ℓ = true) (hof : ℓ.Of false)
    (hs : ClientStep http v ℓ v') :
    v'.Attempt := by
  cases hs with
  | run hexec own release client held seen =>
      exact h.run hv hG hexec own client held seen
  | remove removes client held seen =>
      exact h.quiet (.remove removes client held seen) (by have := held setupShare; omega)
  | sweep client held seen =>
      exact h.quiet (.sweep client held seen) (Nat.le_of_eq (held _))
  | complete hexec own client held seen => exact h.complete hv hG hexec own client held seen
  | @find code _ hexec live client held seen =>
      have hsetup : v'.held setupShare = v.held setupShare := by
        rw [held]
        rcases hexec with rfl | rfl <;> rfl
      exact h.quiet (.find hexec client held seen) (Nat.le_of_eq hsetup)
  | alloc hexec live client held seen =>
      obtain ⟨rfl, hid⟩ := hof
      exact h.alloc (hv.sound (View.not_released live)) hid live client held seen

/-- Where the service listens `ConnectServer` does not get as far as a client. -/
def View.NoAttempt (v : View) : Prop :=
  v.held undecidedShare + v.seen Kind.isRefused + v.seen Kind.isConnected = 0

theorem View.NoAttempt.quiet (h : v.NoAttempt) (hq : v.Quiet v') : v'.NoAttempt := by
  rw [View.NoAttempt]
  rw [hq.held undecidedShare {}, hq.seen, hq.seen]
  exact h

theorem View.NoAttempt.step (h : v.NoAttempt) (hof : ℓ.Of true) (hs : ClientStep http v ℓ v') :
    v'.NoAttempt := by
  rw [View.NoAttempt] at h
  cases hs with
  | run hexec own release client held seen =>
      have hheld := held undecidedShare
      rw [ops_zero (W := undecidedShare) fun _ => rfl] at hheld
      have hundecided := exec_undecidedShare hexec
      rw [View.NoAttempt]
      rw [seen, seen]
      omega
  | remove removes client held seen =>
      exact View.NoAttempt.quiet h (.remove removes client held seen)
  | sweep client held seen => exact View.NoAttempt.quiet h (.sweep client held seen)
  | @complete k r code _ hexec own client held seen =>
      have hheld := held undecidedShare
      have hcode := (complete_undecidedShare hexec).1
      have hzero : undecidedShare.op k = 0 := rfl
      rw [View.NoAttempt]
      rw [seen, seen]
      omega
  | find hexec live client held seen => exact View.NoAttempt.quiet h (.find hexec client held seen)
  | alloc hexec live client held seen =>
      obtain ⟨rfl, -⟩ := hof
      have hheld : v'.held undecidedShare = v.held undecidedShare := held undecidedShare
      rw [View.NoAttempt]
      rw [seen, seen]
      omega

end Steps

section Runs

variable {http listening : Bool} {s s' : State}

theorem runs_attempt (h : Runs resultAgrees http false s) (a : Addr) : (s.view a).Attempt := by
  refine settled_invariant resultAgrees_kept ?_ ?_ h a
  · intro v hclient hheld hseen
    have hnone : ∀ W : Weight, ¬ 0 < v.held W := fun W hpos => by
      rw [hheld] at hpos
      exact Nat.lt_irrefl 0 hpos
    have hfresh : ∀ p, ¬ 0 < v.seen p := fun p hpos => by
      rw [hseen] at hpos
      exact Nat.lt_irrefl 0 hpos
    constructor
    case acceptor => exact hheld _
    case ident =>
      rw [hclient]
      rfl
    case named => exact fun hpos => absurd hpos (hnone _)
    case undecided =>
      rw [hheld, hseen, hseen]
      exact Nat.zero_le _
    case token =>
      rw [View.announced]
      rw [hheld, hheld, hheld, hheld, hseen]
      exact Nat.zero_le _
    case timeOut =>
      rw [hheld]
      exact Nat.zero_le _
    case refused => exact fun hpos => absurd hpos (hfresh _)
    case connected => exact fun hpos => absurd hpos (hnone _)
    case prelude => exact fun hpos => absurd hpos (hnone _)
    case posted =>
      rintro (hpos | ⟨hpos, -⟩)
      · exact absurd hpos (hnone _)
      · exact absurd hpos (hnone _)
    case returned => exact fun hpos => absurd hpos (hfresh _)
  · intro v v' ℓ hv _ hI hG hof hs
    exact hI.step hv hG hof hs

theorem runs_noAttempt (h : Runs resultAgrees http true s) (a : Addr) :
    (s.view a).NoAttempt := by
  refine settled_invariant resultAgrees_kept ?_ ?_ h a
  · intro v _ hheld hseen
    rw [View.NoAttempt]
    rw [hheld, hseen, hseen]
  · intro v v' ℓ _ _ hI _ hof hs
    exact hI.step hof hs

/-- A thread is about to call `OnConnected` for the client with this number. -/
def State.Announcing (s : State) (serial : Nat) : Prop :=
  ∃ t ∈ s.threads, ∃ a site, (a, Instr.onConnected site) ∈ t ∧ (s.client a).serial = serial

theorem announcing_of_held {a : Addr} (h : 0 < s.held a onConnectedShare) :
    s.Announcing (s.client a).serial := by
  rw [State.held] at h
  rcases Nat.eq_zero_or_pos (total (ofOwner a onConnectedShare.instr) s.threads) with
    hzero | hpos
  · obtain ⟨⟨b, k⟩, -, hk⟩ :=
      shares_pos (show 0 < shares (ofOwner a onConnectedShare.op) s.outstanding by omega)
    exact absurd (ofOwner_pos hk).2 (Nat.lt_irrefl 0)
  · obtain ⟨t, ht, htpos⟩ := total_pos hpos
    obtain ⟨⟨b, i⟩, hi, hipos⟩ := shares_pos htpos
    obtain ⟨rfl, hinstr⟩ := ofOwner_pos hipos
    cases i
    case onConnected site => exact ⟨t, ht, b, site, hi, rfl⟩
    all_goals exact absurd hinstr (Nat.lt_irrefl 0)

/-- What is recorded of an attempt once its client is gone. -/
def Settled (seen : (Kind → Bool) → Nat) : Prop :=
  (0 < seen Kind.isRefused → seen Kind.isOnConnected = 0) ∧
    (0 < seen Kind.isConnected → seen Kind.isOnConnected = 1)

/-- The events of one client are recorded under the id it was entered in the map under. -/
theorem runs_identified (h : Runs resultAgrees http false s) :
    ∀ e ∈ s.log, ∀ a, (s.client a).serial = e.serial → e.socketID = (s.client a).allocID := by
  induction h with
  | start => exact fun e he => absurd he List.not_mem_nil
  | @next s s' act hrun hmeets hs ih =>
      intro e he a hserial
      have hsettled := closeRuns_settled resultAgrees_kept hrun
      have hview := step_view hsettled.ordered hsettled.mapped hs a
      have hseen : 0 < (s'.view a).seen fun _ => true := by
        rw [seen_eq, hserial]
        exact recorded_pos he
      have hold : e ∈ s.log → e.socketID = (s'.client a).allocID := by
        intro he'
        rcases hview with ⟨ℓ, -, hclient⟩ | hsame
        · rcases hclient.serial with ⟨-, -, hnone⟩ | ⟨hkeep, halloc⟩
          · rw [hnone] at hseen
            exact absurd hseen (Nat.lt_irrefl 0)
          · exact (ih e he' a (hkeep.symm.trans hserial)).trans halloc.symm
        · have hclient : s'.client a = s.client a := congrArg View.client hsame
          rw [hclient] at hserial ⊢
          exact ih e he' a hserial
      rcases step_log hs with hlog | ⟨b, i, o, ch, k, hlabel, -, -, -, hlog⟩
      · rw [hlog] at he
        exact hold he
      · rw [hlog] at he
        rcases List.mem_cons.mp he with rfl | he'
        · rcases hview with ⟨ℓ, hℓ, hclient⟩ | hsame
          · rw [hlabel] at hℓ
            cases hℓ
            rcases hclient.serial with ⟨-, ⟨_, _, _, hno⟩, -⟩ | ⟨-, halloc⟩
            · cases hno
            · exact (runs_attempt hrun a).ident.trans halloc.symm
          · -- a client whose view does not change has no event recorded
            have hcount := congrArg (fun v => v.seen fun _ => true) hsame
            have hclient : s'.client a = s.client a := congrArg View.client hsame
            simp only [seen_eq, hclient, hlog, recorded, List.countP_cons] at hcount
            rw [hclient] at hserial
            simp [hserial] at hcount
        · exact hold he'

/-- The result of `ConnectServer` is the id that all events of the client carry. -/
def UnderResult (e : Event) (log : List Event) : Prop :=
  (∀ result, e.kind = .connectServer result → result ≠ 0 → e.socketID = result) ∧
    ∀ e' ∈ log, e'.serial = e.serial → e'.socketID = e.socketID

theorem runs_underResult (h : Runs resultAgrees http false s) : Each UnderResult s.log := by
  refine runs_log ?_ h
  intro s b i o ch k hrun hexec hevent hown
  have hsettled := (closeRuns_settled resultAgrees_kept hrun).view b
  have hident : (s.client b).mLogicSocketID = (s.client b).allocID := (runs_attempt hrun b).ident
  refine ⟨?_, fun e' he' hserial => ?_⟩
  · rintro result rfl hne
    obtain ⟨id, rfl, -, hid⟩ := exec_connected hexec hevent (by simpa [Kind.isConnected] using hne)
    cases hid
    have hsaved := hown (otherID (s.client b).allocID)
    have hzero : (s.view b).held (otherID (s.client b).allocID) = 0 := hsettled.saved
    rw [hzero] at hsaved
    exact hident.trans (otherID_zero (Nat.le_zero.mp hsaved) _ rfl).symm
  · exact (runs_identified hrun e' he' b hserial.symm).trans hident.symm

theorem Each.underResult {log : List Event} (h : Each UnderResult log) :
    ∀ e ∈ log, ∀ result, e.kind = .connectServer result → result ≠ 0 →
      ∀ e' ∈ log, e'.serial = e.serial → e'.socketID = result := by
  induction log with
  | nil =>
      intro e he
      exact absurd he List.not_mem_nil
  | cons x log ih =>
      intro e he result hkind hne e' he' hserial
      rcases List.mem_cons.mp he with rfl | hold
      · have hid := h.1.1 result hkind hne
        rcases List.mem_cons.mp he' with rfl | hold'
        · exact hid
        · exact (h.1.2 e' hold' hserial).trans hid
      · rcases List.mem_cons.mp he' with rfl | hold'
        · have hsame := h.1.2 e hold hserial.symm
          exact hsame.symm.trans (ih h.2 e hold result hkind hne e hold rfl)
        · exact ih h.2 e hold result hkind hne e' hold' hserial

/-- A client that is gone has no call of `OnConnected` to come. -/
theorem runs_settled {a : Addr} (h : Runs resultAgrees http false s)
    (hlive : (s.client a).live = false) : Settled (s.view a).seen := by
  have hattempt := runs_attempt h a
  have hsettled := (closeRuns_settled resultAgrees_kept h).view a
  obtain ⟨-, hnone, -, -⟩ := hattempt.dead (hsettled.sound (View.not_released hlive)) hlive
  constructor
  · intro hpos
    have := hattempt.refused hpos
    rw [View.announced] at this
    omega
  · intro hpos
    have := hattempt.returned hpos
    rw [View.announced] at this
    omega

theorem runs_results (h : Runs resultAgrees http false s) (serial : Nat) :
    (0 < recorded s.log serial Kind.isRefused → recorded s.log serial Kind.isOnConnected = 0) ∧
      (0 < recorded s.log serial Kind.isConnected →
        recorded s.log serial Kind.isOnConnected = 1 ∨
          (recorded s.log serial Kind.isOnConnected = 0 ∧ s.Announcing serial)) := by
  have hfresh : Settled fun _ => 0 :=
    ⟨fun hpos => absurd hpos (Nat.lt_irrefl 0), fun hpos => absurd hpos (Nat.lt_irrefl 0)⟩
  rcases clients_recorded resultAgrees_kept hfresh runs_settled h serial with
    hsettled | ⟨a, -, rfl⟩
  · exact ⟨hsettled.1, fun hpos => Or.inl (hsettled.2 hpos)⟩
  · have hattempt := runs_attempt h a
    rw [← seen_eq]
    constructor
    · intro hpos
      have hnone := hattempt.refused hpos
      rw [View.announced] at hnone
      omega
    · intro hpos
      have hone := hattempt.returned hpos
      rw [View.announced] at hone
      rcases Nat.eq_zero_or_pos ((s.view a).held onConnectedShare) with hnone | hcall
      · exact Or.inl (by omega)
      · exact Or.inr ⟨by omega, announcing_of_held hcall⟩

/-- Where the service listens no result of `ConnectServer` is about a client. -/
theorem runs_noResult (h : Runs resultAgrees http true s) :
    Each (fun e _ => ∀ result, e.kind ≠ .connectServer result) s.log := by
  refine runs_log ?_ h
  rintro s b i o ch k hrun hexec hevent hown result rfl
  have hnone := runs_noAttempt hrun b
  rw [View.NoAttempt] at hnone
  have hpos : 0 < undecidedShare.instr i := by
    have hle := exec_undecidedShare hexec
    rw [hevent] at hle
    by_cases hzero : result = 0
    · simp [occurs, Kind.isRefused, hzero] at hle
      omega
    · simp [occurs, Kind.isConnected, hzero] at hle
      omega
  have := hown undecidedShare
  omega

theorem Each.noResult {log : List Event}
    (h : Each (fun e _ => ∀ result, e.kind ≠ .connectServer result) log) :
    ∀ e ∈ log, ∀ result, e.kind ≠ .connectServer result := by
  induction log with
  | nil =>
      intro e he
      exact absurd he List.not_mem_nil
  | cons x log ih =>
      intro e he
      rcases List.mem_cons.mp he with rfl | hold
      · exact h.1
      · exact ih h.2 e hold

/-- Nothing of a kind is recorded where no event is of that kind. -/
theorem recorded_none
    {log : List Event} {p : Kind → Bool} (h : ∀ e ∈ log, p e.kind = false) (n : Nat) :
    recorded log n p = 0 := by
  rw [recorded]
  rw [List.countP_eq_zero]
  intro e he
  simp [h e he]

end Runs

/-- The results of `ConnectServer` that are recorded say what became of the connections. -/
structure State.ResultsAgree (s : State) : Prop where
  refused : ∀ serial, 0 < recorded s.log serial Kind.isRefused →
    recorded s.log serial Kind.isOnConnected = 0
  connected : ∀ serial, 0 < recorded s.log serial Kind.isConnected →
    recorded s.log serial Kind.isOnConnected = 1 ∨
      (recorded s.log serial Kind.isOnConnected = 0 ∧ s.Announcing serial)
  ident : ∀ e ∈ s.log, ∀ result, e.kind = .connectServer result → result ≠ 0 →
    ∀ e' ∈ s.log, e'.serial = e.serial → e'.socketID = result

/--
In every run whose steps meet `resultAgrees`, `OnConnected` is not called for a
client that `ConnectServer` returned 0 for, and is called once, under the id
that was returned, for any other.
-/
theorem connectServer_agrees
    {http listening : Bool} {s : State} (h : Runs resultAgrees http listening s) :
    s.ResultsAgree := by
  cases listening with
  | false =>
      exact
        { refused := fun serial => (runs_results h serial).1
          connected := fun serial => (runs_results h serial).2
          ident := (runs_underResult h).underResult }
  | true =>
      have hnone := (runs_noResult h).noResult
      have hplain : ∀ (p : Kind → Bool), (∀ k, p k = true → ∃ result, k = .connectServer result) →
          ∀ e ∈ s.log, p e.kind = false := by
        intro p hp e he
        by_contra hyes
        obtain ⟨result, hk⟩ := hp e.kind (by simpa using hyes)
        exact hnone e he result hk
      have hrefused := hplain Kind.isRefused fun k hk => by
        cases k
        case connectServer result => exact ⟨result, rfl⟩
        all_goals exact absurd hk Bool.false_ne_true
      have hconnected := hplain Kind.isConnected fun k hk => by
        cases k
        case connectServer result => exact ⟨result, rfl⟩
        all_goals exact absurd hk Bool.false_ne_true
      constructor
      case refused =>
        intro serial hpos
        rw [recorded_none hrefused] at hpos
        exact absurd hpos (Nat.lt_irrefl 0)
      case connected =>
        intro serial hpos
        rw [recorded_none hconnected] at hpos
        exact absurd hpos (Nat.lt_irrefl 0)
      case ident => exact fun e he result hk => absurd hk (hnone e he result)

/-- A connect that succeeds in time. -/
def connectInTime : List Action :=
  [.getNextLogicSocketID, .allocTcpClient 0 0 .ok, .run 1 .ok, .run 1 .ok, .run 1 .ok,
    .complete 0 (.success true), .run 2 .ok, .run 2 .ok, .run 2 .ok, .run 2 .ok, .run 1 .ok,
    .run 1 .ok, .run 2 .ok]

theorem connectServer_agrees_example :
    ∃ s, Runs resultAgrees false false s ∧ 0 < recorded s.log 1 Kind.isConnected ∧
      s.ResultsAgree := by
  obtain ⟨s, hs, hp⟩ :=
    exists_run resultAgrees false false connectInTime
      (fun s => decide (0 < recorded s.log 1 Kind.isConnected)) (by decide +kernel)
  exact ⟨s, hs, of_decide_eq_true hp, connectServer_agrees hs⟩

/-- `ConnectServer` returns 0 for a client that `OnConnected` is called for. -/
theorem connectServer_disagrees :
    ¬ ∀ (http listening : Bool) (s : State),
      Runs (fun _ _ => true) http listening s → s.ResultsAgree := by
  intro hclaim
  obtain ⟨s, hs, hp⟩ :=
    exists_run (fun _ _ => true) false false connectTimeOut
      (fun s =>
        decide
          (0 < recorded s.log 1 Kind.isRefused ∧ 0 < recorded s.log 1 Kind.isOnConnected))
      (by decide +kernel)
  obtain ⟨hrefused, hconnected⟩ := of_decide_eq_true hp
  have hnone := (hclaim _ _ _ hs).refused 1 hrefused
  omega

end Service
end IocpNetlib
