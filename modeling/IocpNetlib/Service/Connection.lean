import IocpNetlib.Service.Announce

/-!
# The state of a connection

`mConnState` is written by a few instructions only.  While it is
`CONN_CONNECTED` a receive is outstanding, or code is left that posts the next
one or disconnects the client; so a client whose `mPendingIo` reaches zero is
not connected any more.  Only an `OnReceived` that throws ends the receives of
a client that stays connected.
-/

namespace IocpNetlib
namespace Service

open Ledger Reachability

/-- The receive of a connected client: outstanding, handled, posted again, or given up. -/
def chainShare : Weight where
  instr
    | .postRecv _ => 1
    | .wsaRecv _ => 1
    | .recvFailed _ => 1
    | .allocRecvPacket => 1
    | .splitPacket => 1
    | .setDisconnect _ => 1
    | .closeSocket => 1
    | _ => 0
  op
    | .recv => 1
    | _ => 0

/-- The code that takes a client out of `CONN_CLOSED`. -/
def riseShare : Weight where
  instr
    | .storeConnected _ => 1
    | .closeSocket => 1
    | _ => 0
  op _ := 0

/-- The code that takes a client out of `CONN_CONNECTED`. -/
def fallShare : Weight where
  instr
    | .closeSocket => 1
    | .reset _ => 1
    | .storeClosed => 1
    | .setDisconnect _ => 1
    | _ => 0
  op _ := 0

section Exec

variable {http : Bool} {c : TcpClient} {i : Instr} {o : Outcome} {ch : Change}

theorem exec_leavesClosed (h : exec http c i o = some ch) (hclosed : c.mConnState = .closed) :
    ch.client.mConnState = .closed ∨ 0 < riseShare.instr i := by
  revert h
  fun_cases exec http c i o
  case case33 hconnected =>
    rw [hclosed] at hconnected
    exact absurd hconnected (by decide)
  all_goals
    rintro ⟨⟩ <;> first | exact Or.inl hclosed | exact Or.inl rfl | exact Or.inr Nat.one_pos

/-- `CONN_CLOSED` is stored by `Reset`, by a failed connect and by `CheckRelease`. -/
theorem exec_entersClosed
    (h : exec http c i o = some ch) (hclosed : ch.client.mConnState = .closed) :
    c.mConnState = .closed ∨ (∃ id, i = .reset id) ∨ i = .storeClosed ∨
      (i = .casClosed ∧ c.mConnState = .closing ∧ ch.push = [.freeRecvPacket]) := by
  revert h
  fun_cases exec http c i o
  case case63 hclosing =>
    rintro ⟨⟩
    exact Or.inr (Or.inr (Or.inr ⟨rfl, hclosing, rfl⟩))
  all_goals
    rintro ⟨⟩ <;>
      first
        | exact Or.inl hclosed
        | exact Or.inr (Or.inl ⟨_, rfl⟩)
        | exact Or.inr (Or.inr (Or.inl rfl))
        | cases hclosed

theorem exec_leavesConnected
    (h : exec http c i o = some ch) (hconnected : c.mConnState = .connected) :
    ch.client.mConnState = .connected ∨ 0 < fallShare.instr i := by
  revert h
  fun_cases exec http c i o
  case case63 hclosing =>
    rw [hconnected] at hclosing
    cases hclosing
  all_goals
    rintro ⟨⟩ <;> first | exact Or.inl hconnected | exact Or.inl rfl | exact Or.inr Nat.one_pos

theorem exec_entersConnected
    (h : exec http c i o = some ch) (hconnected : ch.client.mConnState = .connected) :
    c.mConnState = .connected ∨ ∃ site, i = .storeConnected site := by
  revert h
  fun_cases exec http c i o
  all_goals
    rintro ⟨⟩ <;>
      first | exact Or.inl hconnected | exact Or.inr ⟨_, rfl⟩ | cases hconnected

/-- A connected client keeps a receive or the code that disconnects it. -/
theorem exec_chainShare
    (h : exec http c i o = some ch) (hconnected : ch.client.mConnState = .connected)
    (hthrown : occurs Kind.isThrown ch.event = 0) :
    0 < chainShare.code ch.push + chainShare.ops ch.post ∨
      (chainShare.instr i = 0 ∧ c.mConnState = .connected) := by
  revert h
  fun_cases exec http c i o
  case case29 site =>
    rintro ⟨⟩
    cases site <;> exact Or.inl Nat.one_pos
  case case41 =>
    rintro ⟨⟩
    cases http
    · exact Or.inl Nat.one_pos
    · exact Or.inl Nat.two_pos
  case case34 hnot =>
    rintro ⟨⟩
    exact absurd hconnected hnot
  case case72 =>
    rintro ⟨⟩
    cases hthrown
  all_goals
    rintro ⟨⟩ <;>
      first
        | exact Or.inr ⟨rfl, hconnected⟩
        | exact Or.inl (Nat.succ_pos _)
        | cases hconnected

/-- Only `CheckRelease` goes on to its compare-and-swap, when it takes the last share. -/
theorem exec_casClosed (h : exec http c i o = some ch) :
    casClosedShare.code ch.push = 0 ∨
      (i = .checkRelease ∧ c.mPendingIo = 1 ∧ ch.client.mConnState = c.mConnState ∧
        ch.event = none) := by
  revert h
  fun_cases exec http c i o
  case case26 site _ | case29 site =>
    rintro ⟨⟩
    cases site <;> exact Or.inl rfl
  case case41 =>
    rintro ⟨⟩
    cases http <;> exact Or.inl rfl
  case case44 full =>
    rintro ⟨⟩
    simp only [Change.next, sendResult]
    split_ifs <;> exact Or.inl rfl
  case case62 =>
    rintro ⟨⟩
    rcases em (c.mPendingIo - 1 = 0) with hzero | hmore
    · exact Or.inr ⟨rfl, by omega, rfl, rfl⟩
    · rw [Change.next_push, if_neg hmore]
      exact Or.inl rfl
  all_goals
    rintro ⟨⟩ <;> exact Or.inl rfl

end Exec

theorem complete_chainShare
    {k : OpType} {r : Completion} {code : List Instr} (h : onCompleteOperation k r = some code) :
    chainShare.op k ≤ chainShare.code code := by
  revert h
  fun_cases onCompleteOperation k r
  all_goals
    rintro ⟨⟩ <;> exact Nat.le_of_ble_eq_true rfl

theorem complete_casClosed
    {k : OpType} {r : Completion} {code : List Instr} (h : onCompleteOperation k r = some code) :
    casClosedShare.code code = 0 := by
  revert h
  fun_cases onCompleteOperation k r
  all_goals
    rintro ⟨⟩ <;> rfl

section Chained

variable {http : Bool} {v v' : View} {ℓ : Label}

/-- A connected client keeps its receive going, unless an `OnReceived` threw. -/
def View.Chained (v : View) : Prop :=
  v.seen Kind.isThrown = 0 → v.client.mConnState = .connected → 0 < v.held chainShare

/--
After an `OnReceived` that threw, `CheckRelease` does not take `mPendingIO` of
a connected client to zero.
-/
def throwsKept (v : View) : Label → Bool
  | .run .checkRelease _ =>
      decide (v.client.mPendingIo = 1 → v.client.mConnState = .connected →
        v.seen Kind.isThrown = 0)
  | _ => true

theorem View.Chained.quiet (h : v.Chained) (hq : v.Quiet v') : v'.Chained := by
  obtain ⟨_, _, _, hclient⟩ := hq.client
  rw [View.Chained]
  rw [hclient, hq.held chainShare {}, hq.seen]
  exact h

theorem View.Chained.step (h : v.Chained) (hs : ClientStep http v ℓ v') : v'.Chained := by
  cases hs with
  | @run i o ch _ hexec own release client held seen =>
      intro hthrown hconnected
      rw [seen] at hthrown
      rw [client] at hconnected
      have hheld := held chainShare
      have hown := own chainShare
      rcases exec_chainShare hexec hconnected (by omega) with hpush | ⟨hinstr, hbefore⟩
      · omega
      · have := h (by omega) hbefore
        omega
  | remove removes client held seen => exact h.quiet (.remove removes client held seen)
  | sweep client held seen => exact h.quiet (.sweep client held seen)
  | @complete k r code _ hexec own client held seen =>
      intro hthrown hconnected
      rw [seen] at hthrown
      rw [client] at hconnected
      have hheld := held chainShare
      have hcode := complete_chainShare hexec
      have := h hthrown hconnected
      omega
  | find hexec live client held seen => exact h.quiet (.find hexec client held seen)
  | alloc hexec live client held seen =>
      intro _ hconnected
      rw [client] at hconnected
      cases hconnected

/-- When `mPendingIo` has reached zero the client is not connected any more. -/
theorem View.Chained.not_connected
    (hv : v.Sound) (h : v.Chained) (hthrown : v.seen Kind.isThrown = 0)
    (hcas : 0 < v.held casClosedShare) :
    v.client.mConnState ≠ .connected := by
  intro hconnected
  have hpos := h hthrown hconnected
  have hzero : v.held chainShare = 0 :=
    hv.exclusive hcas chainShare
      (fun i => by
        cases i
        case storeConnected site | postRecv site | wsaRecv site | recvFailed site |
            onConnected site =>
          cases site <;> decide
        all_goals exact Nat.le_of_ble_eq_true rfl)
      (fun k => by cases k <;> decide)
  omega

/-- `CheckRelease` has taken the last share of a client that is not connected. -/
def View.Disconnected (v : View) : Prop :=
  0 < v.held casClosedShare → v.client.mConnState ≠ .connected

theorem View.Disconnected.run
    {i : Instr} {o : Outcome} {ch : Change}
    (hv : v.Sound) (hv' : v'.Sound) (h : v.Disconnected) (hc' : v'.Chained)
    (hG : throwsKept v (.run i o) = true)
    (hexec : exec http v.client i o = some ch)
    (own : ∀ W : Weight, W.instr i ≤ v.held W)
    (client : v'.client = ch.client)
    (held : ∀ W : Weight,
      v'.held W + W.instr i = v.held W + W.code ch.push + W.ops ch.post)
    (seen : ∀ p, v'.seen p = v.seen p + occurs p ch.event) :
    v'.Disconnected := by
  intro hcas hconnected
  have hheld := held casClosedShare
  rw [ops_zero (W := casClosedShare) fun _ => rfl] at hheld
  have hnow := hconnected
  rw [client] at hnow
  rcases exec_casClosed hexec with hnone | ⟨rfl, hlast, hsame, hevent⟩
  · have hbefore : 0 < v.held casClosedShare := by omega
    rcases exec_entersConnected hexec hnow with hconn | ⟨site, rfl⟩
    · exact h hbefore hconn
    · -- no code is left that connects the client
      have hzero : v.held riseShare = 0 :=
        hv.exclusive hbefore riseShare
          (fun i => by
            cases i
            case storeConnected site | postRecv site | wsaRecv site | recvFailed site |
                onConnected site =>
              cases site <;> decide
            all_goals exact Nat.le_of_ble_eq_true rfl)
          (fun k => by cases k <;> decide)
      have hone : riseShare.instr (.storeConnected site) = 1 := rfl
      have := own riseShare
      omega
  · have hthrown := of_decide_eq_true hG hlast (hsame ▸ hnow)
    have hkept := seen Kind.isThrown
    rw [hevent] at hkept
    exact hc'.not_connected hv' (hkept.trans hthrown) hcas hconnected

theorem View.Disconnected.step
    (hv : v.Sound) (hv' : v'.Sound) (h : v.Disconnected) (hc' : v'.Chained)
    (hG : throwsKept v ℓ = true) (hs : ClientStep http v ℓ v') :
    v'.Disconnected := by
  cases hs with
  | run hexec own release client held seen =>
      exact h.run hv hv' hc' hG hexec own client held seen
  | @remove i _ removes client held seen =>
      intro hcas
      have hheld := held casClosedShare
      obtain ⟨_, _, _, hclient⟩ := (View.Quiet.remove removes client held seen).client
      rw [hclient]
      exact h (by omega)
  | sweep client held seen =>
      intro hcas
      rw [held] at hcas
      obtain ⟨_, _, _, hclient⟩ := (View.Quiet.sweep client held seen).client
      rw [hclient]
      exact h hcas
  | @complete k r code _ hexec own client held seen =>
      intro hcas
      rw [View.held_plain held (fun _ => rfl) (complete_casClosed hexec)] at hcas
      rw [client]
      exact h hcas
  | find hexec live client held seen =>
      intro hcas
      rw [held] at hcas
      obtain ⟨_, _, _, hclient⟩ := (View.Quiet.find hexec client held seen).client
      rw [hclient]
      exact h (by rcases hexec with rfl | rfl <;> exact hcas)
  | alloc hexec live client held seen =>
      intro _
      rw [client]
      exact fun hconnected => by cases hconnected

/-- What holds of `mConnState` up to the `OnClosed` of a client. -/
structure View.Linked (v : View) : Prop where
  chained : v.Chained
  disconnected : v.Disconnected

theorem View.Linked.closed (hclosed : v.client.mConnState = .closed) : v.Linked := by
  have hnot : v.client.mConnState ≠ .connected := by
    rw [hclosed]
    exact fun hconnected => by cases hconnected
  exact ⟨fun _ hconnected => absurd hconnected hnot, fun _ => hnot⟩

theorem View.Linked.step
    (hv : v.Sound) (hv' : v'.Sound) (h : v.Linked)
    (hG : throwsKept v ℓ = true) (hs : ClientStep http v ℓ v') :
    v'.Linked :=
  have hchained := h.chained.step hs
  ⟨hchained, h.disconnected.step hv hv' hchained hG hs⟩

end Chained

end Service
end IocpNetlib
