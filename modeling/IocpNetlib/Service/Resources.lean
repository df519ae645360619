import IocpNetlib.Service.Reported

/-!
# What a client holds when it goes back to the pool

The socket of a client is closed where it is disconnected, where a connect or an
accept fails at once, and nowhere else; its receive buffer is given back where
`CONN_CLOSED` follows `CONN_CLOSING`.  In the runs whose steps meet
`resourcesKept` a client holds neither when it is freed.
-/

namespace IocpNetlib
namespace Service

open Ledger Reachability

/--
The address of a connect can be read, `AcceptEx` does not fail at once,
`ConnectEx` does not complete with an error, and a connect that timed out finds
`CONN_CLOSED`.
-/
def disposeKept (v : View) : Label → Bool
  | .run (.postConnect _) o => decide (o ≠ .badAddress)
  | .run .acceptEx o => decide (o = .ok)
  | .run .storeClosed _ => decide (v.client.mConnState = .closed)
  | .complete .connectEx r => decide (r ≠ .failure)
  | _ => true

/-- The steps that keep the resources. -/
def resourcesKept (v : View) (ℓ : Label) : Bool :=
  closeKept v ℓ && throwsKept v ℓ && disposeKept v ℓ

/-- An outgoing connection before `CONN_CONNECTED`. -/
def connectingShare : Weight where
  instr
    | .connectEx _ => 1
    | .connectFailed _ => 1
    | .storeConnected .connect => 1
    | _ => 0
  op
    | .connectEx => 1
    | _ => 0

/-- The acceptor between `CONN_CONNECTED` and the first receive. -/
def acceptRecvShare : Weight where
  instr
    | .postRecv .accept => 1
    | _ => 0
  op _ := 0

/-- The code that takes a client out of `CONN_CLOSING`, `CheckRelease` apart. -/
def reopenShare : Weight where
  instr
    | .storeConnected _ => 1
    | .reset _ => 1
    | .storeClosed => 1
    | _ => 0
  op _ := 0

/-- The end of `SetDisconnect`, which closes the socket. -/
def disconnectedShare : Weight where
  instr
    | .disconnected _ => 1
    | _ => 0
  op _ := 0

/-- The receives of a connection and the code that handles them. -/
def recvShare : Weight where
  instr
    | .allocRecvPacket => 1
    | .splitPacket => 1
    | .postRecv .again => 1
    | .wsaRecv .again => 1
    | .recvFailed .again => 1
    | _ => 0
  op
    | .recv => 1
    | _ => 0
  visit := receiveShare.visit
  sweep := receiveShare.sweep

/-- The code that has returned the receive buffer. -/
def endedShare : Weight where
  instr
    | .onClosed => 1
    | .removeSelf => 1
    | .removeClient _ => 1
    | _ => 0
  op _ := 0

/-- The code that returns the receive buffer. -/
def freeShare : Weight where
  instr
    | .freeRecvPacket => 1
    | _ => 0
  op _ := 0

section Exec

variable {http : Bool} {c : TcpClient} {i : Instr} {o : Outcome} {ch : Change}

theorem exec_holds (h : exec http c i o = some ch) (hholds : ch.client.holdsRecvPacket = true) :
    c.holdsRecvPacket = true ∨ i = .allocRecvPacket := by
  revert h
  fun_cases exec http c i o
  all_goals
    rintro ⟨⟩ <;> first | exact Or.inl hholds | exact Or.inr rfl | cases hholds

theorem exec_buffer
    (hbuffer : c.holdsRecvPacket = true → c.mRecvPacketBuffer = true)
    (h : exec http c i o = some ch) :
    (ch.client.holdsRecvPacket = true → ch.client.mRecvPacketBuffer = true) ∨
      ∃ id, i = .reset id := by
  revert h
  fun_cases exec http c i o
  all_goals
    rintro ⟨⟩ <;>
      first
        | exact Or.inl hbuffer
        | exact Or.inl id
        | exact Or.inl fun _ => rfl
        | exact Or.inr ⟨_, rfl⟩

/-- `CONN_CLOSING` is stored by code that closes the socket. -/
theorem exec_closing
    (h : exec http c i o = some ch) (hclosing : ch.client.mConnState = .closing) :
    ch.client.socketOpen = false ∨ 0 < disconnectedShare.code ch.push ∨
      (c.mConnState = .closing ∧ disconnectedShare.instr i = 0) := by
  revert h
  fun_cases exec http c i o
  all_goals
    rintro ⟨⟩ <;>
      first
        | exact Or.inl rfl
        | exact Or.inr (Or.inl Nat.one_pos)
        | exact Or.inr (Or.inr ⟨hclosing, rfl⟩)
        | cases hclosing

theorem exec_leavesClosing
    (h : exec http c i o = some ch) (hclosing : c.mConnState = .closing) :
    ch.client.mConnState = .closing ∨ 0 < reopenShare.instr i ∨ i = .casClosed := by
  revert h
  fun_cases exec http c i o
  all_goals
    rintro ⟨⟩ <;>
      first
        | exact Or.inl hclosing
        | exact Or.inl rfl
        | exact Or.inr (Or.inl Nat.one_pos)
        | exact Or.inr (Or.inr rfl)

theorem exec_acceptRecv (h : exec http c i o = some ch) :
    acceptRecvShare.code ch.push ≤ acceptRecvShare.instr i ∨
      ch.client.mConnState = .connected := by
  revert h
  fun_cases exec http c i o
  case case26 site _ | case29 site =>
    rintro ⟨⟩
    cases site <;> exact Or.inl (Nat.zero_le _)
  case case41 =>
    rintro ⟨⟩
    cases http <;> exact Or.inl (Nat.zero_le _)
  case case44 full =>
    rintro ⟨⟩
    simp only [Change.next, sendResult]
    split_ifs <;> exact Or.inl (Nat.zero_le _)
  case case62 =>
    rintro ⟨⟩
    simp only [Change.next]
    split_ifs <;> exact Or.inl (Nat.zero_le _)
  all_goals
    rintro ⟨⟩ <;> first | exact Or.inr rfl | exact Or.inl (Nat.zero_le _)

/-- A connect goes on until it fails or `CONN_CONNECTED` is stored. -/
theorem exec_connectingShare (h : exec http c i o = some ch) :
    connectingShare.instr i ≤ connectingShare.code ch.push + connectingShare.ops ch.post ∨
      ch.client.mConnState = .connected ∨
      ∃ id, i = .connectFailed id ∧
        pendingShare.code ch.push + pendingShare.ops ch.post = 0 := by
  revert h
  fun_cases exec http c i o
  all_goals
    rintro ⟨⟩ <;>
      first
        | exact Or.inl (Nat.zero_le _)
        | exact Or.inl (Nat.le_refl _)
        | exact Or.inr (Or.inl rfl)
        | exact Or.inr (Or.inr ⟨_, rfl, rfl⟩)

theorem exec_recvShare (hstray : strayShare.instr i = 0) (h : exec http c i o = some ch) :
    setupShare.code ch.push + setupShare.ops ch.post + recvShare.code ch.push +
        recvShare.ops ch.post ≤ setupShare.instr i + recvShare.instr i := by
  revert h
  fun_cases exec http c i o
  case case24 site | case25 site | case26 site _ | case28 site | case29 site =>
    rintro ⟨⟩
    cases site <;> exact Nat.le_of_ble_eq_true rfl
  case case41 =>
    rintro ⟨⟩
    cases http <;> exact Nat.zero_le _
  case case44 full =>
    rintro ⟨⟩
    simp only [Change.next, sendResult]
    split_ifs <;> exact Nat.zero_le _
  case case58 opType =>
    rintro ⟨⟩
    cases opType <;> first | exact Nat.zero_le _ | exact absurd hstray (by decide)
  case case62 =>
    rintro ⟨⟩
    simp only [Change.next]
    split_ifs <;> exact Nat.zero_le _
  all_goals
    rintro ⟨⟩ <;> exact Nat.le_of_ble_eq_true rfl

/-- The code after the receive buffer was returned, and where it comes from. -/
theorem exec_endedShare
    (haddress : ∀ id, i = .postConnect id → o ≠ .badAddress) (haccept : i = .acceptEx → o = .ok)
    (h : exec http c i o = some ch) :
    endedShare.code ch.push ≤ endedShare.instr i ∨
      (i = .casClosed ∧ c.mConnState ≠ .closing) ∨ i = .freeRecvPacket ∨
        (0 < setupShare.instr i ∧ ch.client.socketOpen = false) := by
  revert h
  fun_cases exec http c i o
  case case3 id => exact absurd rfl (haddress id rfl)
  case case18 => exact absurd (haccept rfl) (by decide)
  case case26 site _ | case29 site =>
    rintro ⟨⟩
    cases site <;> exact Or.inl (Nat.zero_le _)
  case case41 =>
    rintro ⟨⟩
    cases http <;> exact Or.inl (Nat.zero_le _)
  case case44 full =>
    rintro ⟨⟩
    simp only [Change.next, sendResult]
    split_ifs <;> exact Or.inl (Nat.zero_le _)
  case case62 =>
    rintro ⟨⟩
    simp only [Change.next]
    split_ifs <;> exact Or.inl (Nat.zero_le _)
  case case64 hnot =>
    rintro ⟨⟩
    exact Or.inr (Or.inl ⟨rfl, hnot⟩)
  all_goals
    rintro ⟨⟩ <;>
      first
        | exact Or.inl (Nat.le_of_ble_eq_true rfl)
        | exact Or.inr (Or.inr (Or.inl rfl))
        | exact Or.inr (Or.inr (Or.inr ⟨Nat.one_pos, rfl⟩))

theorem exec_freeShare (h : exec http c i o = some ch) :
    freeShare.code ch.push = 0 ∨ (i = .casClosed ∧ c.mConnState = .closing) := by
  revert h
  fun_cases exec http c i o
  case case26 site _ | case29 site =>
    rintro ⟨⟩
    cases site <;> exact Or.inl rfl
  case case41 =>
    rintro ⟨⟩
    cases http <;> exact Or.inl rfl
  case case44 full =>
    rintro ⟨⟩
    simp only [Change.next, sendResult]
    split_ifs <;> exact Or.inl rfl
  case case62 =>
    rintro ⟨⟩
    simp only [Change.next]
    split_ifs <;> exact Or.inl rfl
  case case63 hclosing =>
    rintro ⟨⟩
    exact Or.inr ⟨rfl, hclosing⟩
  all_goals
    rintro ⟨⟩ <;> exact Or.inl rfl

/-- `CheckRelease` returns the receive buffer if there is one. -/
theorem exec_freeRecvPacket
    (hbuffer : c.holdsRecvPacket = true → c.mRecvPacketBuffer = true)
    (h : exec http c .freeRecvPacket o = some ch) :
    ch.client.holdsRecvPacket = false := by
  cases o
  case ok =>
    simp only [exec] at h
    split at h
    · cases h
      rfl
    · next hnone =>
        cases h
        cases hholds : c.holdsRecvPacket
        · exact hholds
        · exact absurd (hbuffer hholds) hnone
  all_goals cases h

/-- The operations of a client that counts none yet. -/
theorem exec_pendingRise
    {v : View} (hkept : countersKept v (.run i o) = true) (h : exec http v.client i o = some ch) :
    pendingShare.code ch.push + pendingShare.ops ch.post ≤ pendingShare.instr i ∨
      0 < connectingShare.code ch.push ∨ 0 < acceptRecvShare.instr i ∨
        i.needsRelease = true ∨ 0 < v.client.mPendingIo := by
  revert h
  fun_cases exec http v.client i o
  case case25 site =>
    rintro ⟨⟩
    cases site
    · exact Or.inr (Or.inr (Or.inl Nat.one_pos))
    all_goals exact Or.inr (Or.inr (Or.inr (Or.inl rfl)))
  case case26 site _ | case28 site | case29 site =>
    rintro ⟨⟩
    cases site <;> exact Or.inl (Nat.le_of_ble_eq_true rfl)
  case case41 =>
    rintro ⟨⟩
    cases http <;> exact Or.inl (Nat.zero_le _)
  case case44 full =>
    rintro ⟨⟩
    simp only [Change.next, sendResult]
    split_ifs <;> exact Or.inl (Nat.zero_le _)
  case case51 | case55 => exact fun _ => Or.inr (Or.inr (Or.inr (Or.inr (of_decide_eq_true hkept))))
  case case57 | case59 => exact absurd hkept (by simp [countersKept])
  case case58 opType =>
    rintro ⟨⟩
    cases opType <;> exact Or.inl (Nat.le_of_ble_eq_true rfl)
  case case62 =>
    rintro ⟨⟩
    simp only [Change.next]
    split_ifs <;> exact Or.inl (Nat.zero_le _)
  all_goals
    rintro ⟨⟩ <;>
      first | exact Or.inl (Nat.le_of_ble_eq_true rfl) | exact Or.inr (Or.inl Nat.one_pos)

end Exec

theorem complete_resources
    {k : OpType} {r : Completion} {code : List Instr}
    (hconnect : k = .connectEx → r ≠ .failure) (h : onCompleteOperation k r = some code) :
    connectingShare.op k ≤ connectingShare.code code ∧
      setupShare.code code + recvShare.code code ≤ setupShare.op k + recvShare.op k ∧
        acceptRecvShare.code code = 0 ∧ casClosedShare.code code = 0 ∧
          disconnectedShare.code code = 0 ∧ freeShare.code code = 0 ∧
            endedShare.code code = 0 := by
  revert h
  fun_cases onCompleteOperation k r
  all_goals
    rintro ⟨⟩ <;>
      first
        | exact ⟨Nat.le_of_ble_eq_true rfl, Nat.le_of_ble_eq_true rfl, rfl, rfl, rfl, rfl, rfl⟩
        | exact absurd rfl (hconnect rfl)

/-- What a client holds, step by step on its way to the pool. -/
structure View.Resources (v : View) : Prop where
  connecting : v.client.mConnState = .closed → 0 < v.held pendingShare →
    0 < v.held connectingShare
  accepted : 0 < v.held acceptRecvShare → v.client.mConnState = .connected
  released : 0 < v.held casClosedShare → v.client.mConnState = .closing
  closing : v.client.mConnState = .closing →
    v.client.socketOpen = false ∨ 0 < v.held disconnectedShare
  buffer : v.client.holdsRecvPacket = true → v.client.mRecvPacketBuffer = true
  setup : v.held setupShare + v.held recvShare ≤ 1
  unused : v.client.holdsRecvPacket = true → v.held setupShare = 0
  free : 0 < v.held freeShare → v.client.socketOpen = false
  ended : 0 < v.held endedShare ∨ (v.client.live = true ∧ v.client.mMarkedDestroy = true) →
    v.client.socketOpen = false ∧ v.client.holdsRecvPacket = false

section Steps

variable {http : Bool} {v v' : View} {ℓ : Label}

theorem resourcesKept_cases {v : View} {ℓ : Label} (hG : resourcesKept v ℓ = true) :
    closeKept v ℓ = true ∧ throwsKept v ℓ = true ∧ disposeKept v ℓ = true := by
  unfold resourcesKept at hG
  rw [Bool.and_eq_true, Bool.and_eq_true] at hG
  exact ⟨hG.1.1, hG.1.2, hG.2⟩

theorem endedShare_le (hv : v.Lawful) : v.held endedShare ≤ v.held ownerShare :=
  hv.mono (fun i => by cases i <;> exact Nat.le_of_ble_eq_true rfl) (fun k => Nat.zero_le _)

/-- While the acceptor posts the first receive the client stays connected. -/
theorem fallShare_exclusive (hv : v.Sound) (haccept : 0 < v.held acceptRecvShare) :
    v.held fallShare = 0 :=
  hv.exclusive haccept fallShare
    (fun i => by
      cases i
      case storeConnected site | postRecv site | wsaRecv site | recvFailed site |
          onConnected site =>
        cases site <;> decide
      all_goals exact Nat.le_of_ble_eq_true rfl)
    (fun k => by cases k <;> decide)

/-- `CheckRelease` is not raced for the state of the client it takes to `CONN_CLOSED`. -/
theorem casClosed_exclusive (hv : v.Sound) (hcas : 0 < v.held casClosedShare) :
    v.held reopenShare = 0 ∧ v.held connectingShare = 0 := by
  have hnone : v.held (reopenShare.add connectingShare) = 0 :=
    hv.exclusive hcas _
      (fun i => by
        cases i
        case storeConnected site | postRecv site | wsaRecv site | recvFailed site |
            onConnected site =>
          cases site <;> decide
        all_goals exact Nat.le_of_ble_eq_true rfl)
      (fun k => by cases k <;> decide)
  rw [hv.add] at hnone
  exact Nat.add_eq_zero_iff.mp hnone

theorem casClosed_owned (hv : v.Sound) (hcas : 0 < v.held casClosedShare) :
    v.held pendingShare = 0 ∧ v.held casClosedShare = 1 := by
  have hle : v.held casClosedShare ≤ v.held ownerShare :=
    hv.mono (fun i => by cases i <;> exact Nat.le_of_ble_eq_true rfl) (fun k => Nat.zero_le _)
  obtain ⟨-, -, hidle, hone⟩ := hv.owned (by omega)
  exact ⟨hidle, by omega⟩

theorem pending_of_disconnected (hv : v.Lawful) (h : 0 < v.held disconnectedShare) :
    0 < v.held pendingShare := by
  refine hv.rooted (fun i hi => ?_) (fun k hk => absurd hk (Nat.lt_irrefl 0)) h
  cases i
  case disconnected => exact Or.inl rfl
  all_goals exact absurd hi (Nat.lt_irrefl 0)

/-- A client in `CONN_CLOSED` that has an operation pending is connecting. -/
theorem View.Resources.run_connecting
    {i : Instr} {o : Outcome} {ch : Change}
    (hv : v.Sound) (h : v.Resources)
    (hkept : countersKept v (.run i o) = true) (hG : disposeKept v (.run i o) = true)
    (hexec : exec http v.client i o = some ch)
    (own : ∀ W : Weight, W.instr i ≤ v.held W)
    (release : i.needsRelease = true → pendingShare.instr i + 1 ≤ v.held pendingShare)
    (held : ∀ W : Weight,
      v'.held W + W.instr i = v.held W + W.code ch.push + W.ops ch.post)
    (hstate : ch.client.mConnState = .closed) (hbusy : 0 < v'.held pendingShare) :
    0 < v'.held connectingShare := by
  have hpending := held pendingShare
  have hconnecting := held connectingShare
  have hownP := own pendingShare
  have hownC := own connectingShare
  rcases Nat.eq_zero_or_pos (v.held pendingShare) with hidle | hpos
  · rcases exec_pendingRise hkept hexec with
      hle | hpush | haccept | hneeds | hio
    · omega
    · omega
    · have hconnected := h.accepted (Nat.lt_of_lt_of_le haccept (own acceptRecvShare))
      rcases exec_leavesConnected hexec hconnected with hstill | hfall
      · rw [hstate] at hstill
        cases hstill
      · have hzero :=
          fallShare_exclusive hv (Nat.lt_of_lt_of_le haccept (own acceptRecvShare))
        have := own fallShare
        omega
    · have := release hneeds
      omega
    · have := hv.pending
      omega
  · have hclosed : v.client.mConnState = .closed := by
      rcases exec_entersClosed hexec hstate with hclosed | ⟨id, rfl⟩ | rfl | ⟨rfl, -, -⟩
      · exact hclosed
      · obtain ⟨-, -, hidle, -⟩ := hv.owned (own ownerShare)
        omega
      · exact of_decide_eq_true hG
      · obtain ⟨-, -, hidle, -⟩ := hv.owned (own ownerShare)
        omega
    have hbefore := h.connecting hclosed hpos
    rcases exec_connectingShare hexec with hle | hconnected | ⟨id, rfl, hnone⟩
    · omega
    · rw [hstate] at hconnected
      cases hconnected
    · -- the failed connect was the only operation
      have hone : v.client.mPendingIo = 1 := of_decide_eq_true hkept
      have hcount := hv.pending
      have hshare : pendingShare.instr (.connectFailed id) = 1 := rfl
      omega

/-- `CheckRelease` goes on to its compare-and-swap in `CONN_CLOSING`. -/
theorem View.Resources.run_released
    {i : Instr} {o : Outcome} {ch : Change}
    (hv : v.Sound) (hv' : v'.Sound) (h : v.Resources) (hdisc' : v'.Disconnected)
    (hexec : exec http v.client i o = some ch)
    (own : ∀ W : Weight, W.instr i ≤ v.held W)
    (client : v'.client = ch.client)
    (held : ∀ W : Weight,
      v'.held W + W.instr i = v.held W + W.code ch.push + W.ops ch.post)
    (hcas : 0 < v'.held casClosedShare) :
    ch.client.mConnState = .closing := by
  have hheld := held casClosedShare
  rw [ops_zero (W := casClosedShare) fun _ => rfl] at hheld
  rcases exec_casClosed hexec with hnone | ⟨rfl, -, hsame, -⟩
  · have hbefore : 0 < v.held casClosedShare := by omega
    rcases exec_leavesClosing hexec (h.released hbefore) with hstill | hreopen | rfl
    · exact hstill
    · have := own reopenShare
      have := (casClosed_exclusive hv hbefore).1
      omega
    · have := (casClosed_owned hv hbefore).2
      have hone : casClosedShare.instr .casClosed = 1 := rfl
      omega
  · cases hstate : ch.client.mConnState with
    | closing => rfl
    | connected => exact absurd (client ▸ hstate) (hdisc' hcas)
    | closed =>
        -- the last operation of a connecting client is followed by more of the connect
        have hbusy : 0 < v.held pendingShare := own pendingShare
        have hbefore := h.connecting (hsame ▸ hstate) hbusy
        have hconnecting := held connectingShare
        have hzero : connectingShare.instr .checkRelease = 0 := rfl
        have := (casClosed_exclusive hv' hcas).2
        omega

/-- What is left to a client that is handed on to its removal. -/
theorem View.Resources.run_ended
    {i : Instr} {o : Outcome} {ch : Change}
    (hv : v.Sound) (h : v.Resources)
    (hG : disposeKept v (.run i o) = true)
    (hexec : exec http v.client i o = some ch)
    (own : ∀ W : Weight, W.instr i ≤ v.held W)
    (release : i.needsRelease = true → pendingShare.instr i + 1 ≤ v.held pendingShare)
    (held : ∀ W : Weight,
      v'.held W + W.instr i = v.held W + W.code ch.push + W.ops ch.post)
    (hend : 0 < v'.held endedShare ∨
      (v.client.live = true ∧ v.client.mMarkedDestroy = true)) :
    ch.client.socketOpen = false ∧ ch.client.holdsRecvPacket = false := by
  have hheld := held endedShare
  rw [ops_zero (W := endedShare) fun _ => rfl] at hheld
  have hle := endedShare_le hv.toLawful
  have hsocket : v.client.socketOpen = false → ch.client.socketOpen = false := fun hshut =>
    Bool.eq_false_iff.mpr fun hopen => Bool.eq_false_iff.mp hshut (exec_socket hexec hopen)
  have hstill :
      0 < v.held endedShare ∨ (v.client.live = true ∧ v.client.mMarkedDestroy = true) →
        ch.client.socketOpen = false ∧ ch.client.holdsRecvPacket = false := by
    intro hbefore
    obtain ⟨hshut, hnone⟩ := h.ended hbefore
    refine ⟨hsocket hshut, Bool.eq_false_iff.mpr fun hholds => ?_⟩
    rcases exec_holds hexec hholds with hheld | rfl
    · exact Bool.eq_false_iff.mp hnone hheld
    · -- a receive is handled only while an operation is pending
      have hpending := release rfl
      obtain ⟨-, hmark, howner⟩ := hv.busy_live (Nat.lt_of_lt_of_le (Nat.succ_pos _) hpending)
      rcases hbefore with hpos | hmarked
      · omega
      · rw [hmark] at hmarked
        exact absurd hmarked.2 Bool.false_ne_true
  rcases hend with hpos | hmarked
  · have haddress : ∀ id, i = .postConnect id → o ≠ .badAddress := by
      rintro id rfl
      exact of_decide_eq_true hG
    have haccept : i = .acceptEx → o = .ok := by
      rintro rfl
      exact of_decide_eq_true hG
    rcases exec_endedShare haddress haccept hexec with
      hshare | ⟨rfl, hnot⟩ | rfl | ⟨hsetup, hshut⟩
    · exact hstill (Or.inl (by omega))
    · exact absurd (h.released (own casClosedShare)) hnot
    · exact ⟨hsocket (h.free (own freeShare)), exec_freeRecvPacket h.buffer hexec⟩
    · refine ⟨hshut, Bool.eq_false_iff.mpr fun hholds => ?_⟩
      rcases exec_holds hexec hholds with hheld | rfl
      · have := h.unused hheld
        have := own setupShare
        omega
      · exact absurd hsetup (Nat.lt_irrefl 0)
  · exact hstill (Or.inr hmarked)

theorem View.Resources.run
    {i : Instr} {o : Outcome} {ch : Change}
    (hv : v.Sound) (hv' : v'.Sound) (h : v.Resources) (hdisc' : v'.Disconnected)
    (hkept : countersKept v (.run i o) = true) (hG : disposeKept v (.run i o) = true)
    (hexec : exec http v.client i o = some ch)
    (own : ∀ W : Weight, W.instr i ≤ v.held W)
    (release : i.needsRelease = true → pendingShare.instr i + 1 ≤ v.held pendingShare)
    (client : v'.client = ch.client)
    (held : ∀ W : Weight,
      v'.held W + W.instr i = v.held W + W.code ch.push + W.ops ch.post) :
    v'.Resources := by
  have hstray : strayShare.instr i = 0 := by
    have := own strayShare
    have := hv.stray
    omega
  have hlive := (exec_life hexec).1
  have hmark :=
    exec_marked (fun hpos => (hv.owned (Nat.lt_of_lt_of_le hpos (own ownerShare))).2.1) hexec
  have haccept := held acceptRecvShare
  have hdisconnected := held disconnectedShare
  have hfree := held freeShare
  have hsetup := held setupShare
  have hrecv := held recvShare
  rw [ops_zero (W := acceptRecvShare) fun _ => rfl] at haccept
  rw [ops_zero (W := disconnectedShare) fun _ => rfl] at hdisconnected
  rw [ops_zero (W := freeShare) fun _ => rfl] at hfree
  have hownA := own acceptRecvShare
  have hownD := own disconnectedShare
  have hownF := own freeShare
  have hownS := own setupShare
  have hownR := own recvShare
  have hflow := exec_recvShare hstray hexec
  have hbound := h.setup
  have hsocket : v.client.socketOpen = false → ch.client.socketOpen = false := fun hshut =>
    Bool.eq_false_iff.mpr fun hopen => Bool.eq_false_iff.mp hshut (exec_socket hexec hopen)
  constructor
  case connecting =>
    rw [client]
    exact h.run_connecting hv hkept hG hexec own release held
  case accepted =>
    intro hpos
    rw [client]
    rcases exec_acceptRecv hexec with hle | hconnected
    · have hbefore : 0 < v.held acceptRecvShare := by omega
      rcases exec_leavesConnected hexec (h.accepted hbefore) with hstill | hfall
      · exact hstill
      · have := fallShare_exclusive hv hbefore
        have := own fallShare
        omega
    · exact hconnected
  case released =>
    rw [client]
    exact h.run_released hv hv' hdisc' hexec own client held
  case closing =>
    rw [client]
    intro hclosing
    rcases exec_closing hexec hclosing with hshut | hpush | ⟨hbefore, hnone⟩
    · exact Or.inl hshut
    · exact Or.inr (by omega)
    · rcases h.closing hbefore with hshut | hpos
      · exact Or.inl (hsocket hshut)
      · exact Or.inr (by omega)
  case buffer =>
    rw [client]
    rcases exec_buffer h.buffer hexec with hstill | ⟨id, rfl⟩
    · exact hstill
    · intro hholds
      rcases exec_holds hexec hholds with hbefore | hno
      · have hone : setupShare.instr (.reset id) = 1 := rfl
        have := h.unused hbefore
        omega
      · cases hno
  case setup => omega
  case unused =>
    rw [client]
    intro hholds
    have hle := exec_setupShare hstray hexec
    rcases exec_holds hexec hholds with hbefore | rfl
    · have hzero := h.unused hbefore
      have hone : recvShare.instr i = 0 ∨ onConnectedShare.instr i = 0 := by
        cases i
        case onConnected => exact Or.inl rfl
        all_goals exact Or.inr rfl
      omega
    · have hone : recvShare.instr .allocRecvPacket = 1 := rfl
      have hzero : onConnectedShare.instr .allocRecvPacket = 0 := rfl
      omega
  case free =>
    rw [client]
    intro hpos
    rcases exec_freeShare hexec with hnone | ⟨rfl, hclosing⟩
    · exact hsocket (h.free (by omega))
    · rcases h.closing hclosing with hshut | hdisc
      · exact hsocket hshut
      · have := pending_of_disconnected hv.toLawful hdisc
        have := (casClosed_owned hv (own casClosedShare)).1
        omega
  case ended =>
    rw [client, hlive, hmark]
    exact h.run_ended hv hG hexec own release held

theorem View.Resources.complete
    {k : OpType} {r : Completion} {code : List Instr}
    (h : v.Resources)
    (hG : disposeKept v (.complete k r) = true)
    (hexec : onCompleteOperation k r = some code)
    (own : ∀ W : Weight, W.op k ≤ v.held W)
    (client : v'.client = v.client)
    (held : ∀ W : Weight, v'.held W + W.op k = v.held W + W.code code) :
    v'.Resources := by
  have hconnect : k = .connectEx → r ≠ .failure := by
    rintro rfl
    exact of_decide_eq_true hG
  obtain ⟨hconnecting, hrecv, haccept, hcas, hdisc, hfree, hended⟩ :=
    complete_resources hconnect hexec
  have hsetup := (complete_setupShare hexec).1
  have hplain := fun W => View.held_plain (W := W) held
  have hheldP := held pendingShare
  have hheldC := held connectingShare
  have hheldS := held setupShare
  have hheldR := held recvShare
  have hownS := own setupShare
  have hownR := own recvShare
  have hpending := complete_pending hexec
  have hbound := h.setup
  constructor
  case connecting =>
    rw [client]
    intro hclosed hbusy
    have := h.connecting hclosed (by omega)
    omega
  case accepted =>
    rw [client, hplain acceptRecvShare (fun _ => rfl) haccept]
    exact h.accepted
  case released =>
    rw [client, hplain casClosedShare (fun _ => rfl) hcas]
    exact h.released
  case closing =>
    rw [client, hplain disconnectedShare (fun _ => rfl) hdisc]
    exact h.closing
  case buffer =>
    rw [client]
    exact h.buffer
  case setup => omega
  case unused =>
    rw [client]
    intro hholds
    have := h.unused hholds
    omega
  case free =>
    rw [client, hplain freeShare (fun _ => rfl) hfree]
    exact h.free
  case ended =>
    rw [client, hplain endedShare (fun _ => rfl) hended]
    exact h.ended

/-- Finding, marking, freeing or sweeping a client closes and opens nothing. -/
theorem View.Resources.quiet
    (h : v.Resources) (hq : v.Quiet v')
    (hsetup : v'.held setupShare ≤ v.held setupShare)
    (hend : 0 < v'.held endedShare ∨ (v'.client.live = true ∧ v'.client.mMarkedDestroy = true) →
      v.client.socketOpen = false ∧ v.client.holdsRecvPacket = false) :
    v'.Resources := by
  obtain ⟨_, _, _, hclient⟩ := id hq.client
  have hbound := h.setup
  have hrecv := hq.held recvShare {}
  constructor
  case connecting =>
    rw [hclient, hq.held pendingShare {}, hq.held connectingShare {}]
    exact h.connecting
  case accepted =>
    rw [hclient, hq.held acceptRecvShare {}]
    exact h.accepted
  case released =>
    rw [hclient, hq.held casClosedShare {}]
    exact h.released
  case closing =>
    rw [hclient, hq.held disconnectedShare {}]
    exact h.closing
  case buffer =>
    rw [hclient]
    exact h.buffer
  case setup => omega
  case unused =>
    rw [hclient]
    intro hholds
    have := h.unused hholds
    omega
  case free =>
    rw [hclient, hq.held freeShare {}]
    exact h.free
  case ended =>
    intro hpos
    have hnone := hend hpos
    rw [hclient]
    exact hnone

theorem View.Resources.alloc
    {first : Instr} {id : SocketID} {n : Nat}
    (hv : v.Sound)
    (hfirst : first = .acceptEx ∨ first = .increaseRef)
    (hlive : v.client.live = false)
    (client : v'.client = .fresh id n)
    (held : ∀ W : Weight, v'.held W = v.held W + W.instr first) :
    v'.Resources := by
  obtain ⟨hpending, howner, -, -⟩ := hv.toCounters.dead hv.toLawful hlive 0
  have hended := endedShare_le hv.toLawful
  have haccept : v.held acceptRecvShare ≤ v.held ownerShare :=
    hv.mono
      (fun i => by
        cases i
        case postRecv site => cases site <;> decide
        all_goals exact Nat.le_of_ble_eq_true rfl)
      (fun k => Nat.zero_le _)
  have hcas : v.held casClosedShare ≤ v.held ownerShare :=
    hv.mono (fun i => by cases i <;> exact Nat.le_of_ble_eq_true rfl) (fun k => Nat.zero_le _)
  have hfree : v.held freeShare ≤ v.held ownerShare :=
    hv.mono (fun i => by cases i <;> exact Nat.le_of_ble_eq_true rfl) (fun k => Nat.zero_le _)
  have hsetup : v.held (setupShare.add recvShare) = 0 :=
    hv.dead_held hlive _
      (fun i => by
        cases i
        case storeConnected site | postRecv site | wsaRecv site | recvFailed site |
            onConnected site =>
          cases site <;> decide
        all_goals exact Nat.le_of_ble_eq_true rfl)
      (fun k => by cases k <;> decide)
  rw [hv.add] at hsetup
  have hheldP := held pendingShare
  have hheldE := held endedShare
  have hheldA := held acceptRecvShare
  have hheldC := held casClosedShare
  have hheldF := held freeShare
  have hheldS := held setupShare
  have hheldR := held recvShare
  have hshares : pendingShare.instr first = 0 ∧ acceptRecvShare.instr first = 0 ∧
      casClosedShare.instr first = 0 ∧ freeShare.instr first = 0 ∧ endedShare.instr first = 0 ∧
        setupShare.instr first = 1 ∧ recvShare.instr first = 0 := by
    rcases hfirst with rfl | rfl <;> exact ⟨rfl, rfl, rfl, rfl, rfl, rfl, rfl⟩
  obtain ⟨hp, ha, hc, hf, he, hs, hr⟩ := hshares
  have hmark : v'.client.mMarkedDestroy = false := by
    rw [client]
    rfl
  have hholds : v'.client.holdsRecvPacket = false := by
    rw [client]
    rfl
  have hstate : v'.client.mConnState = .closed := by
    rw [client]
    rfl
  constructor
  case connecting => omega
  case accepted => omega
  case released => omega
  case closing =>
    rw [hstate]
    exact fun hclosing => by cases hclosing
  case buffer =>
    rw [hholds]
    exact fun hfalse => by cases hfalse
  case setup => omega
  case unused =>
    rw [hholds]
    exact fun hfalse => by cases hfalse
  case free => omega
  case ended =>
    rintro (hpos | ⟨-, hmarked⟩)
    · omega
    · rw [hmark] at hmarked
      cases hmarked

theorem View.Resources.step
    (hv : v.Sound) (hv' : v'.Sound) (h : v.Resources) (hdisc' : v'.Disconnected)
    (hkept : countersKept v ℓ = true) (hG : disposeKept v ℓ = true)
    (hs : ClientStep http v ℓ v') :
    v'.Resources := by
  cases hs with
  | run hexec own release client held seen =>
      exact h.run hv hv' hdisc' hkept hG hexec own release client held
  | @remove i _ removes client held seen =>
      have hsetup := held setupShare
      have hended := held endedShare
      have hone : endedShare.instr i = 1 := by
        cases i
        case removeSelf => rfl
        case removeClient id => rfl
        all_goals exact absurd removes (by simp [Instr.removes])
      exact h.quiet (.remove removes client held seen) (by omega)
        fun _ => h.ended (Or.inl (by omega))
  | sweep client held seen =>
      refine h.quiet (.sweep client held seen) (Nat.le_of_eq (held _)) ?_
      rw [held]
      rintro (hpos | ⟨hlive, hmark⟩)
      · exact h.ended (Or.inl hpos)
      · by_cases hfree : v.client.mMarkedDestroy ∧ ¬ 0 < v.client.mReferenceCount
        · rw [client, swept_free hfree] at hlive
          cases hlive
        · rw [client, swept_kept hfree] at hlive hmark
          exact h.ended (Or.inr ⟨hlive, hmark⟩)
  | complete hexec own client held seen => exact h.complete hG hexec own client held
  | @find code _ hexec live client held seen =>
      have hsetup : v'.held setupShare = v.held setupShare := by
        rw [held]
        rcases hexec with rfl | rfl <;> rfl
      have hended : v'.held endedShare = v.held endedShare := by
        rw [held]
        rcases hexec with rfl | rfl <;> rfl
      refine h.quiet (.find hexec client held seen) (Nat.le_of_eq hsetup) ?_
      rw [hended, client]
      exact h.ended
  | alloc hexec live client held seen => exact .alloc hv hexec live client held

/-- A released client has a closed socket, and gives its receive buffer back. -/
structure View.Emptied (v : View) : Prop where
  socket : v.client.socketOpen = false
  buffer : v.client.holdsRecvPacket = true → v.client.mRecvPacketBuffer = true
  held : v.client.holdsRecvPacket = true →
    0 < v.held freeShare ∨ (v.client.mConnState = .closing ∧ 0 < v.held casClosedShare)

/-- What holds of a client when `CheckRelease` or `RemoveClient` takes it over. -/
theorem View.Resources.emptied
    (hv : v.Sound) (h : v.Resources) (hrel : v.isReleased = true) : v.Emptied := by
  obtain ⟨hlive, hway⟩ := View.released_cases hrel
  obtain ⟨hidle, -, -⟩ := hv.released_idle hrel
  have hsplit : v.held releasedShare ≤
      v.held ((casClosedShare.add freeShare).add endedShare) :=
    hv.mono (fun i => by cases i <;> exact Nat.le_of_ble_eq_true rfl) (fun k => Nat.zero_le _)
  rw [hv.add, hv.add] at hsplit
  rcases Nat.eq_zero_or_pos (v.held casClosedShare) with hnone | hcas
  · rcases Nat.eq_zero_or_pos (v.held freeShare) with hnone' | hfree
    · have hend := h.ended (by
        rcases hway with hmark | honway
        · exact Or.inr ⟨hlive, hmark⟩
        · exact Or.inl (by omega))
      refine ⟨hend.1, h.buffer, fun hholds => ?_⟩
      rw [hend.2] at hholds
      cases hholds
    · exact ⟨h.free hfree, h.buffer, fun _ => Or.inl hfree⟩
  · have hclosing := h.released hcas
    refine ⟨?_, h.buffer, fun _ => Or.inr ⟨hclosing, hcas⟩⟩
    rcases h.closing hclosing with hshut | hdisc
    · exact hshut
    · have := pending_of_disconnected hv.toLawful hdisc
      omega

theorem View.Emptied.run
    {i : Instr} {o : Outcome} {ch : Change}
    (hl : v.Late) (h : v.Emptied)
    (hexec : exec http v.client i o = some ch)
    (own : ∀ W : Weight, W.instr i ≤ v.held W)
    (client : v'.client = ch.client)
    (held : ∀ W : Weight,
      v'.held W + W.instr i = v.held W + W.code ch.push + W.ops ch.post) :
    v'.Emptied := by
  have hrest : restShare.instr i = 0 := by
    have := own restShare
    have := hl.rest
    omega
  have hfree := held freeShare
  have hcas := held casClosedShare
  rw [ops_zero (W := freeShare) fun _ => rfl] at hfree
  rw [ops_zero (W := casClosedShare) fun _ => rfl] at hcas
  constructor
  case socket =>
    rw [client]
    exact Bool.eq_false_iff.mpr fun hopen => Bool.eq_false_iff.mp h.socket (exec_socket hexec hopen)
  case buffer =>
    rw [client]
    rcases exec_buffer h.buffer hexec with hstill | ⟨id, rfl⟩
    · exact hstill
    · exact absurd hrest Nat.one_ne_zero
  case held =>
    rw [client]
    intro hholds
    have hbefore : v.client.holdsRecvPacket = true := by
      rcases exec_holds hexec hholds with hheld | rfl
      · exact hheld
      · exact absurd hrest Nat.one_ne_zero
    have hnot : freeShare.instr i = 0 := by
      by_contra hne
      have hi : i = .freeRecvPacket := by
        cases i
        case freeRecvPacket => rfl
        all_goals exact absurd rfl hne
      subst hi
      rw [exec_freeRecvPacket h.buffer hexec] at hholds
      cases hholds
    rcases exec_lateState hrest hexec with ⟨rfl, hpush⟩ | ⟨hsame, hother⟩
    · rw [hpush] at hfree
      have hone : freeShare.code [.freeRecvPacket] = 1 := rfl
      exact Or.inl (by omega)
    · rcases h.held hbefore with hpos | ⟨hclosing, hpos⟩
      · exact Or.inl (by omega)
      · have := hother hclosing
        exact Or.inr ⟨hsame.trans hclosing, by omega⟩

theorem View.Emptied.quiet (h : v.Emptied) (hq : v.Quiet v') : v'.Emptied := by
  obtain ⟨_, _, _, hclient⟩ := id hq.client
  constructor
  case socket =>
    rw [hclient]
    exact h.socket
  case buffer =>
    rw [hclient]
    exact h.buffer
  case held =>
    rw [hclient, hq.held freeShare {}, hq.held casClosedShare {}]
    exact h.held

theorem View.Emptied.step
    (hl : v.Late) (h : v.Emptied) (hrel : v.isReleased = true) (hs : ClientStep http v ℓ v') :
    v'.Emptied := by
  cases hs with
  | run hexec own release client held seen => exact h.run hl hexec own client held
  | remove removes client held seen => exact h.quiet (.remove removes client held seen)
  | sweep client held seen => exact h.quiet (.sweep client held seen)
  | @complete k r code _ hexec own client held seen =>
      have hone : restShare.op k = 1 := rfl
      have := own restShare
      have := hl.rest
      omega
  | find hexec live client held seen => exact h.quiet (.find hexec client held seen)
  | alloc hexec live client held seen =>
      have hlive := (View.released_cases hrel).1
      rw [live] at hlive
      cases hlive

/-- The resources of a client, from its allocation to the time it is freed. -/
structure View.Disposed (v : View) : Prop where
  before : v.isReleased = false → v.client.live = true → v.Resources ∧ v.Linked
  after : v.isReleased = true → v.Emptied

theorem View.Disposed.step
    (hv : v.Settled) (hv' : v'.Settled) (h : v.Disposed) (hG : resourcesKept v ℓ = true)
    (hs : ClientStep http v ℓ v') :
    v'.Disposed := by
  obtain ⟨hkept, hthrows, hdispose⟩ := resourcesKept_cases hG
  rcases hv.step hkept hs with ⟨hnot, hcounters⟩ | ⟨hrel, hrel', -⟩ | ⟨hrel, hdead, -⟩
  · have hsound := hv.sound hnot
    have hsound' : v'.Sound := { hv'.toLawful, hcounters with }
    have hnew : v'.client.live = true → v'.Resources ∧ v'.Linked := by
      intro hlive'
      cases hlive : v.client.live with
      | true =>
          obtain ⟨hresources, hlinked⟩ := h.before hnot hlive
          have hlinked' := hlinked.step hsound hsound' hthrows hs
          exact ⟨hresources.step hsound hsound' hlinked'.disconnected
            (closeKept_live hnot hkept) hdispose hs, hlinked'⟩
      | false =>
          obtain ⟨_, _, _, hfirst, hfresh, hheld⟩ := hs.revives hlive hlive'
          exact ⟨.alloc hsound hfirst hlive hfresh hheld, .closed (by rw [hfresh]; rfl)⟩
    exact ⟨fun _ => hnew, fun hrel' =>
      (hnew (View.released_cases hrel').1).1.emptied hsound' hrel'⟩
  · have hafter := (h.after hrel).step (hv.late hrel) hrel hs
    refine ⟨fun hnot' => ?_, fun _ => hafter⟩
    rw [hrel'] at hnot'
    cases hnot'
  · refine ⟨fun _ hlive' => ?_, fun hrel' => ?_⟩
    · rw [hdead] at hlive'
      cases hlive'
    · rw [View.not_released hdead] at hrel'
      cases hrel'

/-- A client that is freed has closed its socket and returned its receive buffer. -/
theorem View.Disposed.freed
    (hv : v.Settled) (hv' : v'.Settled) (h : v.Disposed) (hs : ClientStep http v ℓ v')
    (hlive : v.client.live = true) (hfreed : v'.client.live = false) :
    v.client.socketOpen = false ∧ v.client.holdsRecvPacket = false := by
  obtain ⟨hq, -, hend⟩ := hs.frees hlive hfreed
  cases hrel : v.isReleased with
  | false =>
      have hle : v.held endShare ≤ v.held endedShare :=
        hv.mono (fun i => by cases i <;> exact Nat.le_of_ble_eq_true rfl) (fun k => Nat.zero_le _)
      refine (h.before hrel hlive).1.ended ?_
      rcases hend with hend | hmark
      · exact Or.inl (by omega)
      · exact Or.inr ⟨hlive, hmark⟩
  | true =>
      have hcounters := hv'.counters (View.not_released hfreed)
      obtain ⟨-, howner, -, -⟩ := hcounters.dead hv'.toLawful hfreed 0
      have hle : v'.held (freeShare.add casClosedShare) ≤ v'.held ownerShare :=
        hv'.mono (fun i => by cases i <;> exact Nat.le_of_ble_eq_true rfl)
          (fun k => Nat.zero_le _)
      rw [hv'.add, hq.held freeShare {}, hq.held casClosedShare {}] at hle
      refine ⟨(h.after hrel).socket, Bool.eq_false_iff.mpr fun hholds => ?_⟩
      rcases (h.after hrel).held hholds with hfree | ⟨-, hcas⟩
      · omega
      · omega

end Steps

end Service
end IocpNetlib
