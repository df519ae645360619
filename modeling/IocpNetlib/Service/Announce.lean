import IocpNetlib.Service.Closing

/-!
# `OnConnected` comes first

A connection posts its first receive before it calls `OnConnected`.  As long as
no completion of that receive is handled before the call, and the first
receive of an outgoing connection can be posted, no other callback of the
client comes before `OnConnected`.
-/

namespace IocpNetlib
namespace Service

open Ledger Reachability

/-- The call of `OnConnected`. -/
def onConnectedShare : Weight where
  instr
    | .onConnected _ => 1
    | _ => 0
  op _ := 0

/-- The call of `OnConnected` by the acceptor, which counts no operation. -/
def acceptedShare : Weight where
  instr
    | .onConnected .accept => 1
    | _ => 0
  op _ := 0

/-- An outstanding receive. -/
def recvOpShare : Weight where
  instr _ := 0
  op
    | .recv => 1
    | _ => 0
  visit := opShare.visit
  sweep := opShare.sweep

/-- The code that handles a receive and posts the next one. -/
def receiveShare : Weight where
  instr
    | .allocRecvPacket => 1
    | .splitPacket => 1
    | .postRecv .again => 1
    | .wsaRecv .again => 1
    | .recvFailed .again => 1
    | _ => 0
  op _ := 0

/-- The code of a connection that is on its way to `OnConnected`, or to a silent removal. -/
def approachShare : Weight where
  instr
    | .postRecv .accept => 1
    | .postRecv .connect => 1
    | .wsaRecv .accept => 1
    | .wsaRecv .connect => 1
    | .recvFailed .accept => 1
    | .onConnected _ => 1
    | .closeSocket => 1
    | .reset _ => 1
    | _ => 0
  op _ := 0

/--
The steps that keep the order: the counters stay right up to the last
`CheckRelease`, the completion of the first receive is dequeued after the call of
`OnConnected`, and the first receive of an outgoing connection is posted.  For an
outgoing connection a failed receive may come earlier.
-/
def connectedFirst (v : View) (ℓ : Label) : Bool :=
  closeKept v ℓ &&
    match ℓ with
    | .complete .recv (.success true) => decide (v.held onConnectedShare = 0)
    | .complete .recv _ => decide (v.held acceptedShare = 0)
    | .run (.wsaRecv .connect) o => decide (o = .ok)
    | _ => true

/-- A client that `OnConnected` was not called for is not at work yet. -/
structure View.Announced (v : View) : Prop where
  receive : v.seen Kind.isOnConnected = 0 → v.held receiveShare = 0
  report : v.seen Kind.isOnConnected = 0 → v.held reportShare = 0
  approach : v.seen Kind.isOnConnected = 0 → v.client.mConnState ≠ .closed →
    0 < v.held approachShare
  accepted : 0 < v.held acceptedShare → 0 < v.held recvOpShare
  posted : v.seen Kind.isOnConnected = 0 → 0 < v.held recvOpShare →
    0 < v.held onConnectedShare

section Exec

variable {http : Bool} {c : TcpClient} {i : Instr} {o : Outcome} {ch : Change}

theorem exec_receiveShare (hstray : strayShare.instr i = 0) (h : exec http c i o = some ch) :
    receiveShare.code ch.push ≤ receiveShare.instr i := by
  revert h
  fun_cases exec http c i o
  case case24 site =>
    rintro ⟨⟩
    cases site <;> first | exact Nat.zero_le _ | exact absurd hstray (by decide)
  case case25 site | case26 site _ | case28 site | case29 site =>
    rintro ⟨⟩
    cases site <;> first | exact Nat.zero_le _ | exact Nat.le_refl _
  case case41 =>
    rintro ⟨⟩
    cases http <;> exact Nat.zero_le _
  case case44 full =>
    rintro ⟨⟩
    simp only [Change.next, sendResult]
    split_ifs <;> exact Nat.zero_le _
  case case62 =>
    rintro ⟨⟩
    simp only [Change.next]
    split_ifs <;> exact Nat.zero_le _
  all_goals
    rintro ⟨⟩ <;> first | exact Nat.zero_le _ | exact Nat.le_refl _

/-- The code on the way to `OnConnected` calls it, goes on, or takes the state back. -/
theorem exec_approachShare
    (hstray : strayShare.instr i = 0)
    (hposted : i = .wsaRecv .connect → o = .ok)
    (h : exec http c i o = some ch) :
    0 < approachShare.code ch.push ∨ ch.client.mConnState = .closed ∨
      occurs Kind.isOnConnected ch.event = 1 ∨
      (approachShare.instr i = 0 ∧ (c.mConnState = .closed → ch.client.mConnState = .closed)) := by
  revert h
  fun_cases exec http c i o
  case case24 site =>
    rintro ⟨⟩
    cases site
    case again => exact absurd hstray (by decide)
    all_goals exact Or.inl Nat.one_pos
  case case25 site | case26 site _ | case29 site =>
    rintro ⟨⟩
    cases site <;> first | exact Or.inl Nat.one_pos | exact Or.inr (Or.inr (Or.inr ⟨rfl, id⟩))
  case case28 site =>
    rintro ⟨⟩
    cases site
    case accept => exact Or.inl Nat.one_pos
    case connect => exact absurd (hposted rfl) (by decide)
    case again => exact Or.inr (Or.inr (Or.inr ⟨rfl, id⟩))
  case case33 hconnected =>
    rintro ⟨⟩
    refine Or.inr (Or.inr (Or.inr ⟨rfl, fun hclosed => ?_⟩))
    rw [hconnected] at hclosed
    exact absurd hclosed (by decide)
  all_goals
    rintro ⟨⟩ <;>
      first
        | exact Or.inr (Or.inr (Or.inr ⟨rfl, id⟩))
        | exact Or.inr (Or.inl rfl)
        | exact Or.inr (Or.inr (Or.inl rfl))
        | exact Or.inl Nat.one_pos

/-- The acceptor calls `OnConnected` after the first receive is posted. -/
theorem exec_acceptedShare (h : exec http c i o = some ch) :
    acceptedShare.code ch.push ≤ acceptedShare.instr i ∨ 0 < recvOpShare.ops ch.post := by
  revert h
  fun_cases exec http c i o
  case case26 site _ =>
    rintro ⟨⟩
    exact Or.inr Nat.one_pos
  case case29 site =>
    rintro ⟨⟩
    cases site <;> exact Or.inl (Nat.zero_le _)
  case case41 =>
    rintro ⟨⟩
    cases http <;> exact Or.inl (Nat.zero_le _)
  case case44 full =>
    rintro ⟨⟩
    simp only [Change.next, sendResult]
    split_ifs <;> exact Or.inl (Nat.zero_le _)
  case case62 =>
    rintro ⟨⟩
    simp only [Change.next]
    split_ifs <;> exact Or.inl (Nat.zero_le _)
  all_goals
    rintro ⟨⟩ <;> exact Or.inl (Nat.zero_le _)

/-- The first receive is posted by the code that goes on to call `OnConnected`. -/
theorem exec_onConnectedShare
    (hstray : strayShare.instr i = 0) (h : exec http c i o = some ch) :
    0 < onConnectedShare.code ch.push ∨ occurs Kind.isOnConnected ch.event = 1 ∨
      (onConnectedShare.instr i = 0 ∧
        (recvOpShare.ops ch.post = 0 ∨ 0 < receiveShare.instr i)) := by
  revert h
  fun_cases exec http c i o
  case case26 site _ =>
    rintro ⟨⟩
    cases site
    case again => exact Or.inr (Or.inr ⟨rfl, Or.inr Nat.one_pos⟩)
    all_goals exact Or.inl Nat.one_pos
  case case58 opType =>
    rintro ⟨⟩
    cases opType <;>
      first | exact Or.inr (Or.inr ⟨rfl, Or.inl rfl⟩) | exact absurd hstray (by decide)
  all_goals
    rintro ⟨⟩ <;>
      first
        | exact Or.inr (Or.inr ⟨rfl, Or.inl rfl⟩)
        | exact Or.inr (Or.inl rfl)

end Exec

theorem complete_announced
    {k : OpType} {r : Completion} {code : List Instr} (h : onCompleteOperation k r = some code) :
    (receiveShare.code code = 0 ∨ (k = .recv ∧ r = .success true)) ∧
      reportShare.code code = 0 ∧ acceptedShare.code code = 0 ∧ onConnectedShare.code code = 0 := by
  revert h
  fun_cases onCompleteOperation k r
  case case3 =>
    rintro ⟨⟩
    exact ⟨Or.inr ⟨rfl, rfl⟩, rfl, rfl, rfl⟩
  all_goals
    rintro ⟨⟩ <;> exact ⟨Or.inl rfl, rfl, rfl, rfl⟩

section Steps

variable {http : Bool} {v v' : View} {ℓ : Label}

/-- The compare-and-swap of `CheckRelease`. -/
def casClosedShare : Weight where
  instr
    | .casClosed => 1
    | _ => 0
  op _ := 0

/-- The code on the way to `OnConnected`, the call of the acceptor apart. -/
def preparingShare : Weight where
  instr
    | .postRecv .accept => 1
    | .postRecv .connect => 1
    | .wsaRecv .accept => 1
    | .wsaRecv .connect => 1
    | .recvFailed .accept => 1
    | .onConnected .connect => 1
    | .onConnected .again => 1
    | .closeSocket => 1
    | .reset _ => 1
    | _ => 0
  op _ := 0

/-- Where `CheckRelease` has reached zero, no connection is on its way. -/
theorem View.Settled.preparing (hv : v.Settled) (hcas : 0 < v.held casClosedShare) :
    v.held (preparingShare.add recvOpShare) = 0 := by
  cases hrel : v.isReleased with
  | true =>
      have hle : v.held (preparingShare.add recvOpShare) ≤ v.held restShare :=
        hv.mono
          (fun i => by
            cases i
            case storeConnected site | postRecv site | wsaRecv site | recvFailed site |
                onConnected site =>
              cases site <;> decide
            all_goals exact Nat.le_of_ble_eq_true rfl)
          (fun k => by cases k <;> decide)
      exact Nat.le_zero.mp ((hv.late hrel).rest ▸ hle)
  | false =>
      exact (hv.sound hrel).exclusive hcas _
        (fun i => by
          cases i
          case storeConnected site | postRecv site | wsaRecv site | recvFailed site |
              onConnected site =>
            cases site <;> decide
          all_goals exact Nat.le_of_ble_eq_true rfl)
        (fun k => by cases k <;> decide)

theorem View.Announced.noApproach
    (hv : v.Settled) (h : v.Announced) (hcas : 0 < v.held casClosedShare) :
    v.held approachShare = 0 := by
  have hsplit : v.held approachShare ≤ v.held (preparingShare.add acceptedShare) :=
    hv.mono
      (fun i => by
        cases i
        case storeConnected site | postRecv site | wsaRecv site | recvFailed site |
            onConnected site =>
          cases site <;> decide
        all_goals exact Nat.le_of_ble_eq_true rfl)
      (fun k => Nat.zero_le _)
  rw [hv.add] at hsplit
  have hnone := hv.preparing hcas
  rw [hv.add] at hnone
  have haccepted : v.held acceptedShare = 0 := by
    by_contra hne
    have := h.accepted (Nat.pos_of_ne_zero hne)
    omega
  omega

theorem connectedFirst_posted
    {i : Instr} {o : Outcome} (hG : connectedFirst v (.run i o) = true) :
    i = .wsaRecv .connect → o = .ok := by
  rintro rfl
  rw [connectedFirst] at hG
  rw [Bool.and_eq_true] at hG
  exact of_decide_eq_true hG.2

/-- No receive is handled before the acceptor has called `OnConnected`. -/
theorem connectedFirst_completed
    {r : Completion} (hv : v.Lawful) (hG : connectedFirst v (.complete .recv r) = true) :
    v.held acceptedShare = 0 := by
  unfold connectedFirst at hG
  rw [Bool.and_eq_true] at hG
  split at hG
  · next heq =>
      cases heq
      have hle : v.held acceptedShare ≤ v.held onConnectedShare :=
        hv.mono
          (fun i => by
            cases i
            case onConnected site => cases site <;> decide
            all_goals exact Nat.le_of_ble_eq_true rfl)
          (fun k => Nat.zero_le _)
      have hzero := of_decide_eq_true hG.2
      omega
  · exact of_decide_eq_true hG.2
  · next heq => cases heq
  · next hne _ => exact absurd rfl (hne r)

theorem connectedFirst_receive
    (hG : connectedFirst v (.complete .recv (.success true)) = true) :
    v.held onConnectedShare = 0 := by
  rw [connectedFirst] at hG
  rw [Bool.and_eq_true] at hG
  exact of_decide_eq_true hG.2

theorem View.Announced.run
    {i : Instr} {o : Outcome} {ch : Change}
    (hv : v.Settled) (h : v.Announced)
    (hG : connectedFirst v (.run i o) = true)
    (hexec : exec http v.client i o = some ch)
    (own : ∀ W : Weight, W.instr i ≤ v.held W)
    (client : v'.client = ch.client)
    (held : ∀ W : Weight,
      v'.held W + W.instr i = v.held W + W.code ch.push + W.ops ch.post)
    (seen : ∀ p, v'.seen p = v.seen p + occurs p ch.event) :
    v'.Announced := by
  have hstray : strayShare.instr i = 0 := by
    have := own strayShare
    have := hv.stray
    omega
  have hseen := seen Kind.isOnConnected
  have hreceive := held receiveShare
  have hreport := held reportShare
  have happroach := held approachShare
  have haccepted := held acceptedShare
  have hrecv := held recvOpShare
  have hconnected := held onConnectedShare
  rw [ops_zero (W := receiveShare) fun _ => rfl] at hreceive
  rw [ops_zero (W := reportShare) fun _ => rfl] at hreport
  rw [ops_zero (W := approachShare) fun _ => rfl] at happroach
  rw [ops_zero (W := acceptedShare) fun _ => rfl] at haccepted
  rw [ops_zero (W := onConnectedShare) fun _ => rfl] at hconnected
  rw [code_zero (W := recvOpShare) fun _ => rfl] at hrecv
  have hrecvInstr : recvOpShare.instr i = 0 := rfl
  refine ⟨?_, ?_, ?_, ?_, ?_⟩
  · intro hzero
    have := h.receive (by omega)
    have := exec_receiveShare hstray hexec
    omega
  · intro hzero
    have hno := h.report (by omega)
    rcases exec_reportShare hexec with hle | ⟨rfl, hclosing⟩
    · omega
    · have hsome := h.approach (by omega) (by rw [hclosing]; decide)
      have hnone := h.noApproach hv (own casClosedShare)
      omega
  · intro hzero hstate
    rw [client] at hstate
    have hown := own approachShare
    rcases exec_approachShare hstray (connectedFirst_posted hG) hexec with
      hpush | hclosed | hevent | ⟨hinstr, hkeep⟩
    · omega
    · exact absurd hclosed hstate
    · omega
    · have := h.approach (by omega) fun hclosed => hstate (hkeep hclosed)
      omega
  · intro hpos
    have hown := own acceptedShare
    rcases exec_acceptedShare hexec with hle | hpost
    · have := h.accepted (by omega)
      omega
    · omega
  · intro hzero hpos
    have hown := own onConnectedShare
    rcases exec_onConnectedShare hstray hexec with hpush | hevent | ⟨hinstr, hpost⟩
    · omega
    · omega
    · rcases hpost with hnone | hagain
      · have := h.posted (by omega) (by omega)
        omega
      · have := h.receive (by omega)
        have := own receiveShare
        omega

theorem View.Announced.complete
    {k : OpType} {r : Completion} {code : List Instr}
    (hv : v.Settled) (h : v.Announced)
    (hG : connectedFirst v (.complete k r) = true)
    (hexec : onCompleteOperation k r = some code)
    (own : ∀ W : Weight, W.op k ≤ v.held W)
    (client : v'.client = v.client)
    (held : ∀ W : Weight, v'.held W + W.op k = v.held W + W.code code)
    (seen : ∀ p, v'.seen p = v.seen p) :
    v'.Announced := by
  obtain ⟨hcode, hreport0, haccepted0, hconnected0⟩ := complete_announced hexec
  have hreceive := held receiveShare
  have hreport := held reportShare
  have happroach := held approachShare
  have haccepted := held acceptedShare
  have hrecv := held recvOpShare
  have hconnected := held onConnectedShare
  have hreceiveOp : receiveShare.op k = 0 := rfl
  have hreportOp : reportShare.op k = 0 := rfl
  have happroachOp : approachShare.op k = 0 := rfl
  have hacceptedOp : acceptedShare.op k = 0 := rfl
  have hconnectedOp : onConnectedShare.op k = 0 := rfl
  rw [code_zero (W := recvOpShare) fun _ => rfl] at hrecv
  refine ⟨?_, ?_, ?_, ?_, ?_⟩
  · intro hzero
    rw [seen] at hzero
    have := h.receive hzero
    rcases hcode with hcode | ⟨rfl, rfl⟩
    · omega
    · have hnone : v.held onConnectedShare = 0 := connectedFirst_receive hG
      have := h.posted hzero (own recvOpShare)
      omega
  · intro hzero
    rw [seen] at hzero
    have := h.report hzero
    omega
  · intro hzero hstate
    rw [seen] at hzero
    rw [client] at hstate
    have := h.approach hzero hstate
    omega
  · intro hpos
    have hsome := h.accepted (by omega)
    have hop : recvOpShare.op k = 0 := by
      cases k
      case recv =>
        have := connectedFirst_completed hv.toLawful hG
        omega
      all_goals rfl
    omega
  · intro hzero hpos
    rw [seen] at hzero
    have := h.posted hzero (by omega)
    omega

theorem View.Announced.quiet (h : v.Announced) (hq : v.Quiet v') : v'.Announced := by
  have hstate : v'.client.mConnState = v.client.mConnState := by
    obtain ⟨_, _, _, hclient⟩ := hq.client
    rw [hclient]
  refine ⟨?_, ?_, ?_, ?_, ?_⟩
  · rw [hq.seen, hq.held receiveShare {}]
    exact h.receive
  · rw [hq.seen, hq.held reportShare {}]
    exact h.report
  · rw [hq.seen, hq.held approachShare {}, hstate]
    exact h.approach
  · rw [hq.held acceptedShare {}, hq.held recvOpShare {}]
    exact h.accepted
  · rw [hq.seen, hq.held recvOpShare {}, hq.held onConnectedShare {}]
    exact h.posted

/-- Nothing of an earlier client is at work on a block that is handed out. -/
theorem View.Announced.alloc
    {first : Instr} {id : SocketID} {n : Nat}
    (hv : v.Sound) (h : v.Announced)
    (hfirst : first = .acceptEx ∨ first = .increaseRef)
    (hlive : v.client.live = false)
    (client : v'.client = .fresh id n)
    (held : ∀ W : Weight, v'.held W = v.held W + W.instr first) :
    v'.Announced := by
  have hidle :
      ∀ W : Weight, W.instr .acceptEx = 0 → W.instr .increaseRef = 0 → v'.held W = v.held W := by
    intro W haccept hincrease
    rw [held]
    rcases hfirst with rfl | rfl
    · rw [haccept, Nat.add_zero]
    · rw [hincrease, Nat.add_zero]
  have hnone : v.held ((receiveShare.add reportShare).add recvOpShare) = 0 :=
    hv.dead_held hlive _
      (fun i => by
        cases i
        case storeConnected site | postRecv site | wsaRecv site | recvFailed site |
            onConnected site =>
          cases site <;> decide
        all_goals exact Nat.le_of_ble_eq_true rfl)
      (fun k => by cases k <;> decide)
  rw [hv.add, hv.add] at hnone
  refine ⟨?_, ?_, ?_, ?_, ?_⟩
  · intro _
    rw [hidle receiveShare rfl rfl]
    omega
  · intro _
    rw [hidle reportShare rfl rfl]
    omega
  · intro _ hstate
    rw [client] at hstate
    exact absurd rfl hstate
  · rw [hidle acceptedShare rfl rfl, hidle recvOpShare rfl rfl]
    exact h.accepted
  · rw [hidle recvOpShare rfl rfl]
    omega

theorem View.Announced.step
    (hv : v.Settled) (h : v.Announced) (hG : connectedFirst v ℓ = true)
    (hs : ClientStep http v ℓ v') :
    v'.Announced := by
  cases hs with
  | run hexec own release client held seen => exact h.run hv hG hexec own client held seen
  | remove removes client held seen => exact h.quiet (.remove removes client held seen)
  | sweep client held seen => exact h.quiet (.sweep client held seen)
  | complete hexec own client held seen => exact h.complete hv hG hexec own client held seen
  | find hexec live client held seen => exact h.quiet (.find hexec client held seen)
  | alloc hexec live client held seen =>
      exact h.alloc (hv.sound (View.not_released live)) hexec live client held

end Steps

theorem connectedFirst_kept (v : View) (ℓ : Label) (hG : connectedFirst v ℓ = true) :
    closeKept v ℓ = true := by
  unfold connectedFirst at hG
  rw [Bool.and_eq_true] at hG
  exact hG.1

theorem runs_announced
    {http listening : Bool} {s : State} (h : Runs connectedFirst http listening s) (a : Addr) :
    (s.view a).Announced := by
  refine settled_invariant connectedFirst_kept ?_ ?_ h a
  · intro v hclient hheld hseen
    refine ⟨?_, ?_, ?_, ?_, ?_⟩
    · exact fun _ => hheld _
    · exact fun _ => hheld _
    · rw [hclient]
      exact fun _ hstate => absurd rfl hstate
    · rw [hheld]
      exact fun hpos => absurd hpos (Nat.lt_irrefl 0)
    · rw [hheld]
      exact fun _ hpos => absurd hpos (Nat.lt_irrefl 0)
  · intro v v' ℓ hv _ hI hG _ hs
    exact hI.step hv hG hs

/-- `OnReceived` and `OnClosed` are called for clients that `OnConnected` was called for. -/
def AfterConnected (e : Event) (log : List Event) : Prop :=
  e.kind.isOnReceived = true ∨ e.kind.isOnClosed = true →
    0 < recorded log e.serial Kind.isOnConnected

/--
In every run whose steps meet `connectedFirst` no other callback of a client
comes before `OnConnected`.
-/
theorem onConnected_first
    {http listening : Bool} {s : State} (h : Runs connectedFirst http listening s) :
    Each AfterConnected s.log := by
  refine runs_log ?_ h
  intro s b i o ch k hrun hexec hevent hown hkind
  have hannounced := runs_announced hrun b
  refine Nat.pos_of_ne_zero fun hzero => ?_
  rcases hkind with hreceived | hclosed
  · rw [exec_onReceived hexec hevent hreceived] at hown
    have hnone := hannounced.receive hzero
    have hsome : 1 ≤ (s.view b).held receiveShare := hown receiveShare
    omega
  · rw [exec_onClosed hexec hevent hclosed] at hown
    have hnone := hannounced.report hzero
    have hsome : 1 ≤ (s.view b).held reportShare := hown reportShare
    omega

theorem onConnected_first_example :
    ∃ s, Runs connectedFirst false true s ∧ 0 < recorded s.log 1 Kind.isOnClosed ∧
      Each AfterConnected s.log := by
  obtain ⟨s, hs, hp⟩ :=
    exists_run connectedFirst false true acceptAndClose
      (fun s => decide (0 < recorded s.log 1 Kind.isOnClosed)) (by decide +kernel)
  exact ⟨s, hs, of_decide_eq_true hp, onConnected_first hs⟩

/-- A worker handles the first receive while another is about to call `OnConnected`. -/
def receiveBeforeConnected : List Action :=
  [.getNextLogicSocketID, .allocTcpClient 0 0 .ok, .run 1 .ok, .complete 0 (.success true),
    .run 2 .ok, .run 2 .ok, .run 2 .ok, .run 2 .ok, .complete 0 (.success true), .run 3 .ok,
    .run 3 (.deliver false)]

/-- The last call is an `OnReceived` of a client without an `OnConnected` so far. -/
def receivedFirst : List Event → Bool
  | [] => false
  | e :: log => e.kind.isOnReceived && decide (recorded log e.serial Kind.isOnConnected = 0)

/-- `OnReceived` is called before `OnConnected`. -/
theorem onReceived_first :
    ¬ ∀ (http listening : Bool) (s : State),
      Runs (fun _ _ => true) http listening s → Each AfterConnected s.log := by
  intro hclaim
  obtain ⟨s, hs, hp⟩ :=
    exists_run (fun _ _ => true) false true receiveBeforeConnected
      (fun s => receivedFirst s.log) (by decide +kernel)
  have heach := hclaim _ _ _ hs
  cases hlog : s.log with
  | nil => simp [hlog, receivedFirst] at hp
  | cons e log =>
      rw [hlog] at hp heach
      rw [receivedFirst, Bool.and_eq_true, decide_eq_true_eq] at hp
      exact absurd (heach.1 (Or.inl hp.1)) (by omega)

end Service
end IocpNetlib
