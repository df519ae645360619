import IocpNetlib.Service.Connection

/-!
# A connection that was announced is reported closed

`OnClosed` is called when the last operation of a client in `CONN_CLOSING` is
done.  A failed connect and a connect that timed out store `CONN_CLOSED`
whatever the state is; as long as they find it there, and a client is not
removed before its `OnConnected`, every client that was announced is reported
closed before it is removed.
-/

namespace IocpNetlib
namespace Service

open Ledger Reachability

/-- The code and the operations of a client that may still be announced, or is removed before. -/
def setupShare : Weight where
  instr
    | .increaseRef => 1
    | .postConnect _ => 1
    | .connectEx _ => 1
    | .connectFailed _ => 1
    | .closeHandle _ => 1
    | .removeClient _ => 1
    | .acceptEx => 1
    | .acceptConnection => 1
    | .storeConnected _ => 1
    | .postRecv .accept => 1
    | .postRecv .connect => 1
    | .wsaRecv .accept => 1
    | .wsaRecv .connect => 1
    | .recvFailed .accept => 1
    | .closeSocket => 1
    | .reset _ => 1
    | _ => 0
  op
    | .accept => 1
    | .connectEx => 1
    | _ => 0

/-- The first receive of a connection. -/
def firstShare : Weight where
  instr
    | .postRecv .accept => 1
    | .postRecv .connect => 1
    | .wsaRecv .accept => 1
    | .wsaRecv .connect => 1
    | _ => 0
  op _ := 0

/-- `TcpClient::Reset` of a failed accept. -/
def resetShare : Weight where
  instr
    | .reset _ => 1
    | _ => 0
  op _ := 0

/-- The code between `CONN_CLOSED` and the removal. -/
def finishShare : Weight where
  instr
    | .freeRecvPacket => 1
    | .onClosed => 1
    | .removeSelf => 1
    | _ => 0
  op _ := 0

/-- What `OnConnected` was called for, or will be. -/
def View.announced (v : View) : Nat :=
  v.seen Kind.isOnConnected + v.held onConnectedShare

/--
A connect that failed or timed out finds no connection, and a client is not
removed before its `OnConnected`.
-/
def reportKept (v : View) : Label → Bool
  | .run .storeClosed _ =>
      decide (v.client.mConnState = .closed ∨ v.announced + v.held firstShare = 0)
  | .run .removeSelf _ => decide (v.held onConnectedShare = 0)
  | _ => true

/-- The steps that keep the report. -/
def closeReported (v : View) (ℓ : Label) : Bool :=
  closeKept v ℓ && throwsKept v ℓ && reportKept v ℓ

/-- A client is announced once, and reported closed after. -/
structure View.Reported (v : View) : Prop where
  setup : v.announced + v.held setupShare ≤ 1
  live : 0 < v.held onConnectedShare → v.client.live = true ∧ v.client.mMarkedDestroy = false
  report : 0 < v.announced + v.held firstShare → v.client.mConnState = .closed →
    0 < v.held reportShare + v.seen Kind.isOnClosed
  finish : 0 < v.announced →
    0 < v.held finishShare ∨ (v.client.live = true ∧ v.client.mMarkedDestroy = true) →
      v.client.mConnState = .closed

/-- A released client that was announced is reported closed, or will be. -/
structure View.Reporting (v : View) : Prop where
  announced : v.announced ≤ 1
  report : 0 < v.announced →
    0 < v.held reportShare + v.seen Kind.isOnClosed ∨
      (v.client.mConnState = .closing ∧ 0 < v.held casClosedShare)
  ended : v.client.live = false ∨ v.client.mMarkedDestroy = true →
    v.held onConnectedShare = 0

section Exec

variable {http : Bool} {c : TcpClient} {i : Instr} {o : Outcome} {ch : Change}

theorem exec_setupShare
    (hstray : strayShare.instr i = 0) (h : exec http c i o = some ch) :
    occurs Kind.isOnConnected ch.event + onConnectedShare.code ch.push +
        setupShare.code ch.push + setupShare.ops ch.post ≤
      onConnectedShare.instr i + setupShare.instr i := by
  revert h
  fun_cases exec http c i o
  case case24 site | case25 site | case26 site _ | case28 site | case29 site =>
    rintro ⟨⟩
    cases site <;> exact Nat.le_of_ble_eq_true rfl
  case case41 =>
    rintro ⟨⟩
    cases http <;> exact Nat.zero_le _
  case case44 full =>
    rintro ⟨⟩
    simp only [Change.next, sendResult]
    split_ifs <;> exact Nat.zero_le _
  case case58 opType =>
    rintro ⟨⟩
    cases opType <;> first | exact Nat.zero_le _ | exact absurd hstray (by decide)
  case case62 =>
    rintro ⟨⟩
    simp only [Change.next]
    split_ifs <;> exact Nat.zero_le _
  all_goals
    rintro ⟨⟩ <;> exact Nat.le_of_ble_eq_true rfl

/-- The first receive is posted right after `CONN_CONNECTED` is stored. -/
theorem exec_firstShare (h : exec http c i o = some ch) :
    occurs Kind.isOnConnected ch.event + onConnectedShare.code ch.push +
        firstShare.code ch.push ≤ onConnectedShare.instr i + firstShare.instr i ∨
      ch.client.mConnState = .connected := by
  revert h
  fun_cases exec http c i o
  case case25 site | case26 site _ | case28 site | case29 site =>
    rintro ⟨⟩
    cases site <;> exact Or.inl (Nat.le_of_ble_eq_true rfl)
  case case41 =>
    rintro ⟨⟩
    cases http <;> exact Or.inl (Nat.zero_le _)
  case case44 full =>
    rintro ⟨⟩
    simp only [Change.next, sendResult]
    split_ifs <;> exact Or.inl (Nat.zero_le _)
  case case62 =>
    rintro ⟨⟩
    simp only [Change.next]
    split_ifs <;> exact Or.inl (Nat.zero_le _)
  all_goals
    rintro ⟨⟩ <;> first | exact Or.inr rfl | exact Or.inl (Nat.le_of_ble_eq_true rfl)

/-- `OnConnected` is called by the code that has posted the first receive. -/
theorem exec_announced (h : exec http c i o = some ch) :
    occurs Kind.isOnConnected ch.event + onConnectedShare.code ch.push ≤
        onConnectedShare.instr i ∨
      (0 < pendingShare.instr i ∧ finishShare.code ch.push = 0) := by
  revert h
  fun_cases exec http c i o
  case case26 site _ =>
    rintro ⟨⟩
    refine Or.inr ⟨Nat.one_pos, ?_⟩
    cases site <;> rfl
  case case29 site =>
    rintro ⟨⟩
    cases site <;> exact Or.inl (Nat.zero_le _)
  case case41 =>
    rintro ⟨⟩
    cases http <;> exact Or.inl (Nat.zero_le _)
  case case44 full =>
    rintro ⟨⟩
    simp only [Change.next, sendResult]
    split_ifs <;> exact Or.inl (Nat.zero_le _)
  case case62 =>
    rintro ⟨⟩
    simp only [Change.next]
    split_ifs <;> exact Or.inl (Nat.zero_le _)
  all_goals
    rintro ⟨⟩ <;> exact Or.inl (Nat.le_of_ble_eq_true rfl)

theorem exec_reportLeft (h : exec http c i o = some ch) :
    reportShare.instr i ≤ reportShare.code ch.push + occurs Kind.isOnClosed ch.event := by
  revert h
  fun_cases exec http c i o
  all_goals
    rintro ⟨⟩ <;> first | exact Nat.zero_le _ | exact Nat.le_refl _

/-- The state of a released client is changed by the compare-and-swap that reports it. -/
theorem exec_lateState
    (hrest : restShare.instr i = 0) (h : exec http c i o = some ch) :
    (i = .casClosed ∧ ch.push = [.freeRecvPacket]) ∨
      (ch.client.mConnState = c.mConnState ∧
        (c.mConnState = .closing → casClosedShare.instr i = 0)) := by
  revert h
  fun_cases exec http c i o
  case case63 =>
    rintro ⟨⟩
    exact Or.inl ⟨rfl, rfl⟩
  case case64 hnot =>
    rintro ⟨⟩
    exact Or.inr ⟨rfl, fun hclosing => absurd hclosing hnot⟩
  all_goals
    rintro ⟨⟩ <;> first | exact Or.inr ⟨rfl, fun _ => rfl⟩ | exact absurd hrest Nat.one_ne_zero

/-- A client is handed on to its removal by `CheckRelease`, or by a failed `AcceptEx`. -/
theorem exec_finishShare (h : exec http c i o = some ch) :
    finishShare.code ch.push ≤ finishShare.instr i ∨ i = .acceptEx ∨
      (i = .casClosed ∧ (c.mConnState ≠ .connected → ch.client.mConnState = .closed)) := by
  revert h
  fun_cases exec http c i o
  case case26 site _ | case29 site =>
    rintro ⟨⟩
    cases site <;> exact Or.inl (Nat.zero_le _)
  case case41 =>
    rintro ⟨⟩
    cases http <;> exact Or.inl (Nat.zero_le _)
  case case44 full =>
    rintro ⟨⟩
    simp only [Change.next, sendResult]
    split_ifs <;> exact Or.inl (Nat.zero_le _)
  case case62 =>
    rintro ⟨⟩
    simp only [Change.next]
    split_ifs <;> exact Or.inl (Nat.zero_le _)
  case case63 =>
    rintro ⟨⟩
    exact Or.inr (Or.inr ⟨rfl, fun _ => rfl⟩)
  case case64 hnot =>
    rintro ⟨⟩
    refine Or.inr (Or.inr ⟨rfl, fun hne => ?_⟩)
    cases hstate : c.mConnState
    · exact hstate
    · exact absurd hstate hne
    · exact absurd hstate hnot
  all_goals
    rintro ⟨⟩ <;>
      first | exact Or.inl (Nat.le_of_ble_eq_true rfl) | exact Or.inr (Or.inl rfl)

end Exec

theorem complete_setupShare
    {k : OpType} {r : Completion} {code : List Instr} (h : onCompleteOperation k r = some code) :
    setupShare.code code ≤ setupShare.op k ∧ firstShare.code code = 0 ∧
      finishShare.code code = 0 := by
  revert h
  fun_cases onCompleteOperation k r
  all_goals
    rintro ⟨⟩ <;> exact ⟨Nat.le_of_ble_eq_true rfl, rfl, rfl⟩

section Steps

variable {http : Bool} {v v' : View} {ℓ : Label}

theorem closeReported_cases {v : View} {ℓ : Label} (hG : closeReported v ℓ = true) :
    closeKept v ℓ = true ∧ throwsKept v ℓ = true ∧ reportKept v ℓ = true := by
  unfold closeReported at hG
  rw [Bool.and_eq_true, Bool.and_eq_true] at hG
  exact ⟨hG.1.1, hG.1.2, hG.2⟩

theorem firstShare_le (hv : v.Lawful) : v.held firstShare ≤ v.held setupShare :=
  hv.mono
    (fun i => by
      cases i
      case postRecv site | wsaRecv site => cases site <;> decide
      all_goals exact Nat.le_of_ble_eq_true rfl)
    (fun k => Nat.zero_le _)

/-- The code that resets a client is not about to announce it. -/
theorem View.Reported.reset
    (hv : v.Sound) (h : v.Reported) {T : Weight} (hT : 0 < v.held T)
    (hinstr : ∀ i, firstShare.instr i + T.instr i ≤ setupShare.instr i)
    (hop : ∀ k, T.op k ≤ setupShare.op k) :
    v.announced = 0 ∧ v.held firstShare = 0 := by
  have hle : v.held (firstShare.add T) ≤ v.held setupShare :=
    hv.mono hinstr (fun k => by
      have := hop k
      simpa [Weight.add, firstShare] using this)
  rw [hv.add] at hle
  have := h.setup
  constructor <;> omega

theorem finishShare_le (hv : v.Lawful) : v.held finishShare ≤ v.held ownerShare :=
  hv.mono (fun i => by cases i <;> exact Nat.le_of_ble_eq_true rfl) (fun k => Nat.zero_le _)

/-- A client on its way to the removal is not taken out of `CONN_CLOSED`. -/
theorem riseShare_exclusive (hv : v.Sound) (hrise : 0 < v.held riseShare) :
    v.held finishShare = 0 ∧ ¬ (v.client.live = true ∧ v.client.mMarkedDestroy = true) := by
  have hfin := finishShare_le hv.toLawful
  rcases Nat.eq_zero_or_pos (v.held pendingShare) with hidle | hbusy
  · have hsplit := hv.held_split riseShare
    have hzero := hv.held_busy riseShare hidle
    have hle : v.held (riseShare.idle.add finishShare) ≤ v.held ownerShare :=
      hv.mono
        (fun i => by
          cases i
          case storeConnected site => cases site <;> decide
          case postRecv site | wsaRecv site | recvFailed site | onConnected site =>
            cases site <;> decide
          all_goals exact Nat.le_of_ble_eq_true rfl)
        (fun k => by cases k <;> decide)
    rw [hv.add] at hle
    obtain ⟨-, hmark, -, hone⟩ := hv.owned (by omega)
    refine ⟨by omega, fun hmarked => ?_⟩
    rw [hmark] at hmarked
    exact absurd hmarked.2 (by decide)
  · obtain ⟨-, hmark, howner⟩ := hv.busy_live hbusy
    refine ⟨by omega, fun hmarked => ?_⟩
    rw [hmark] at hmarked
    exact absurd hmarked.2 (by decide)

theorem View.Reported.run
    {i : Instr} {o : Outcome} {ch : Change}
    (hv : v.Sound) (h : v.Reported) (hc : v.Disconnected)
    (hG : reportKept v (.run i o) = true)
    (hexec : exec http v.client i o = some ch)
    (own : ∀ W : Weight, W.instr i ≤ v.held W)
    (client : v'.client = ch.client)
    (held : ∀ W : Weight,
      v'.held W + W.instr i = v.held W + W.code ch.push + W.ops ch.post)
    (seen : ∀ p, v'.seen p = v.seen p + occurs p ch.event) :
    v'.Reported := by
  have hstray : strayShare.instr i = 0 := by
    have := own strayShare
    have := hv.stray
    omega
  have hseen := seen Kind.isOnConnected
  have hclosedSeen := seen Kind.isOnClosed
  have hconnected := held onConnectedShare
  have hsetup := held setupShare
  have hfirst := held firstShare
  have hreport := held reportShare
  have hfinish := held finishShare
  rw [ops_zero (W := onConnectedShare) fun _ => rfl] at hconnected
  rw [ops_zero (W := firstShare) fun _ => rfl] at hfirst
  rw [ops_zero (W := reportShare) fun _ => rfl] at hreport
  rw [ops_zero (W := finishShare) fun _ => rfl] at hfinish
  have hownC := own onConnectedShare
  have hownF := own firstShare
  have hlive := (exec_life hexec).1
  have hmark :=
    exec_marked (fun hpos => (hv.owned (Nat.lt_of_lt_of_le hpos (own ownerShare))).2.1) hexec
  have hbefore := h.setup
  rw [View.announced] at hbefore
  refine ⟨?_, ?_, ?_, ?_⟩
  · have hle := exec_setupShare hstray hexec
    rw [View.announced]
    have := own setupShare
    omega
  · intro hpos
    rw [client, hlive, hmark]
    rcases exec_announced hexec with hle | ⟨hpending, -⟩
    · exact h.live (by omega)
    · obtain ⟨hl, hm, -⟩ := hv.busy_live (Nat.lt_of_lt_of_le hpending (own pendingShare))
      exact ⟨hl, hm⟩
  · intro hpos hstate
    rw [client] at hstate
    rw [View.announced] at hpos
    have hleft := exec_reportLeft hexec
    have hq : 0 < v.announced + v.held firstShare := by
      rw [View.announced]
      rcases exec_firstShare hexec with hle | hconn
      · omega
      · rw [hstate] at hconn
        cases hconn
    have hstill : v.client.mConnState = .closed →
        0 < v'.held reportShare + v'.seen Kind.isOnClosed := by
      intro hclosed
      have := h.report hq hclosed
      omega
    rcases exec_entersClosed hexec hstate with hclosed | ⟨id, rfl⟩ | rfl | ⟨rfl, -, hpush⟩
    · exact hstill hclosed
    · obtain ⟨hzero, hzero'⟩ :=
        h.reset hv (T := resetShare) (own resetShare)
          (fun i => by
            cases i
            case postRecv site | wsaRecv site => cases site <;> decide
            all_goals exact Nat.le_of_ble_eq_true rfl)
          (fun k => Nat.zero_le _)
      omega
    · rcases of_decide_eq_true hG with hclosed | hnone
      · exact hstill hclosed
      · omega
    · have hone : reportShare.code ch.push = 1 := by
        rw [hpush]
        rfl
      have hzero : reportShare.instr .casClosed = 0 := rfl
      omega
  · intro hpos hend
    rw [client] at hend ⊢
    rw [hlive, hmark] at hend
    rw [View.announced] at hpos
    have hfinishLe := finishShare_le hv.toLawful
    have hownFin := own finishShare
    have hq : 0 < v.announced := by
      rw [View.announced]
      rcases exec_announced hexec with hle | ⟨hpending, hpush⟩
      · omega
      · obtain ⟨-, hm, howner⟩ := hv.busy_live (Nat.lt_of_lt_of_le hpending (own pendingShare))
        rcases hend with hfin | ⟨-, hm'⟩
        · omega
        · rw [hm] at hm'
          cases hm'
    rcases exec_finishShare hexec with hle | rfl | ⟨rfl, hclose⟩
    · have hclosed := h.finish hq (hend.imp (fun hfin => by omega) id)
      rcases exec_leavesClosed hexec hclosed with hdone | hrise
      · exact hdone
      · obtain ⟨hfin, hmarked⟩ :=
          riseShare_exclusive hv (Nat.lt_of_lt_of_le hrise (own riseShare))
        rcases hend with hfin' | hmarked'
        · omega
        · exact absurd hmarked' hmarked
    · have hone : 1 ≤ v.held setupShare := own setupShare
      rw [View.announced] at hq
      omega
    · exact hclose (hc (own casClosedShare))

theorem View.Reported.complete
    {k : OpType} {r : Completion} {code : List Instr}
    (h : v.Reported)
    (hexec : onCompleteOperation k r = some code)
    (client : v'.client = v.client)
    (held : ∀ W : Weight, v'.held W + W.op k = v.held W + W.code code)
    (seen : ∀ p, v'.seen p = v.seen p) :
    v'.Reported := by
  obtain ⟨hsetupCode, hfirstCode, hfinishCode⟩ := complete_setupShare hexec
  obtain ⟨-, hreportCode, -, hconnectedCode⟩ := complete_announced hexec
  have hplain := fun W => View.held_plain (W := W) held
  have hconnected := hplain onConnectedShare (fun _ => rfl) hconnectedCode
  have hsetup := held setupShare
  have hbefore := h.setup
  rw [View.announced] at hbefore
  refine ⟨?_, ?_, ?_, ?_⟩
  · rw [View.announced]
    rw [seen, hconnected]
    omega
  · rw [hconnected, client]
    exact h.live
  · rw [View.announced]
    rw [seen, hconnected, hplain firstShare (fun _ => rfl) hfirstCode, client,
      hplain reportShare (fun _ => rfl) hreportCode, seen]
    exact h.report
  · rw [View.announced]
    rw [seen, hconnected, hplain finishShare (fun _ => rfl) hfinishCode, client]
    exact h.finish

/-- A call that finds the client, or a sweep that keeps it, leaves the report as it is. -/
theorem View.Reported.same
    (h : v.Reported)
    (hstate : v'.client.mConnState = v.client.mConnState)
    (hlive : v'.client.live = v.client.live)
    (hmark : v'.client.mMarkedDestroy = v.client.mMarkedDestroy)
    (held : ∀ W : Weight, W.code sendCode = 0 → W.code closeCode = 0 → v'.held W = v.held W)
    (seen : ∀ p, v'.seen p = v.seen p) :
    v'.Reported := by
  refine ⟨?_, ?_, ?_, ?_⟩
  · rw [View.announced]
    rw [seen, held onConnectedShare rfl rfl, held setupShare rfl rfl]
    exact h.setup
  · rw [held onConnectedShare rfl rfl, hlive, hmark]
    exact h.live
  · rw [View.announced]
    rw [seen, held onConnectedShare rfl rfl, held firstShare rfl rfl, hstate,
      held reportShare rfl rfl, seen]
    exact h.report
  · rw [View.announced]
    rw [seen, held onConnectedShare rfl rfl, held finishShare rfl rfl, hlive, hmark, hstate]
    exact h.finish

/-- A client that is freed, or marked, has no call of `OnConnected` to come. -/
theorem View.Reported.ended
    (h : v.Reported)
    (hnone : v.held onConnectedShare = 0)
    (hstate : v'.client.mConnState = v.client.mConnState)
    (hfinish : 0 < v.announced → v.client.mConnState = .closed)
    (hsetup : v'.held setupShare ≤ v.held setupShare)
    (held : ∀ W : Weight, W.Idle → v'.held W = v.held W)
    (seen : ∀ p, v'.seen p = v.seen p) :
    v'.Reported := by
  have hbefore := h.setup
  rw [View.announced] at hbefore
  refine ⟨?_, ?_, ?_, ?_⟩
  · rw [View.announced]
    rw [seen, held onConnectedShare {}]
    omega
  · rw [held onConnectedShare {}, hnone]
    exact fun hpos => absurd hpos (Nat.lt_irrefl 0)
  · rw [View.announced]
    rw [seen, held onConnectedShare {}, held firstShare {}, hstate, held reportShare {}, seen]
    exact h.report
  · rw [View.announced]
    rw [seen, held onConnectedShare {}, hstate]
    exact fun hpos _ => hfinish hpos

theorem View.Reported.remove
    {i : Instr}
    (h : v.Reported)
    (hG : reportKept v (.run i .ok) = true)
    (removes : i.removes = true)
    (client : v'.client = v.client.removed)
    (held : ∀ W : Weight, v'.held W + W.instr i = v.held W)
    (seen : ∀ p, v'.seen p = v.seen p) :
    v'.Reported := by
  have hq : v.Quiet v' := .remove removes client held seen
  have hstate : v'.client.mConnState = v.client.mConnState := by
    obtain ⟨_, _, _, hclient⟩ := hq.client
    rw [hclient]
  have hbefore := h.setup
  rw [View.announced] at hbefore
  have hsetup := held setupShare
  have hfin := held finishShare
  refine h.ended ?_ hstate ?_ (by omega) hq.held seen
  · cases i
    case removeSelf => exact of_decide_eq_true hG
    case removeClient id =>
      have hone : setupShare.instr (.removeClient id) = 1 := rfl
      omega
    all_goals exact absurd removes (by simp [Instr.removes])
  · intro hpos
    rw [View.announced] at hpos
    cases i
    case removeSelf =>
      have hone : finishShare.instr .removeSelf = 1 := rfl
      exact h.finish hpos (Or.inl (by omega))
    case removeClient id =>
      have hone : setupShare.instr (.removeClient id) = 1 := rfl
      omega
    all_goals exact absurd removes (by simp [Instr.removes])

theorem View.Reported.sweep
    (h : v.Reported)
    (client : v'.client = v.client.swept)
    (held : ∀ W : Weight, v'.held W = v.held W)
    (seen : ∀ p, v'.seen p = v.seen p) :
    v'.Reported := by
  by_cases hfree : v.client.mMarkedDestroy ∧ ¬ 0 < v.client.mReferenceCount
  · have hc : v'.client = { v.client with live := false } := by
      rw [client, swept_free hfree]
    cases hlive : v.client.live with
    | false =>
        exact h.same (by rw [hc]) (by rw [hc, hlive]) (by rw [hc]) (fun W _ _ => held W) seen
    | true =>
        refine h.ended ?_ (by rw [hc]) ?_ (Nat.le_of_eq (held _)) (fun W _ => held W) seen
        · by_contra hne
          obtain ⟨-, hmark⟩ := h.live (Nat.pos_of_ne_zero hne)
          rw [hmark] at hfree
          exact absurd hfree.1 (by decide)
        · exact fun hpos => h.finish hpos (Or.inr ⟨hlive, hfree.1⟩)
  · have hc : v'.client = v.client := by
      rw [client, swept_kept hfree]
    exact h.same (by rw [hc]) (by rw [hc]) (by rw [hc]) (fun W _ _ => held W) seen

theorem View.Reported.find
    {code : List Instr}
    (h : v.Reported)
    (hcode : code = sendCode ∨ code = closeCode)
    (client : v'.client =
      { v.client with mReferenceCount := v.client.mReferenceCount + 1 })
    (held : ∀ W : Weight, v'.held W = v.held W + W.code code)
    (seen : ∀ p, v'.seen p = v.seen p) :
    v'.Reported := by
  refine h.same (by rw [client]) (by rw [client]) (by rw [client]) (fun W hsend hclose => ?_) seen
  rw [held]
  rcases hcode with rfl | rfl
  · rw [hsend, Nat.add_zero]
  · rw [hclose, Nat.add_zero]

theorem View.Reported.alloc
    {first : Instr}
    (hv : v.Sound) (h : v.Reported)
    (hfirst : first = .acceptEx ∨ first = .increaseRef)
    (hlive : v.client.live = false)
    (held : ∀ W : Weight, v'.held W = v.held W + W.instr first)
    (seen : ∀ p, v'.seen p = 0) :
    v'.Reported := by
  have hconnected : v.held onConnectedShare = 0 := by
    by_contra hne
    obtain ⟨hl, -⟩ := h.live (Nat.pos_of_ne_zero hne)
    rw [hl] at hlive
    cases hlive
  have hsetup : v.held setupShare = 0 :=
    hv.dead_held hlive setupShare
      (fun i => by
        cases i
        case storeConnected site | postRecv site | wsaRecv site | recvFailed site |
            onConnected site =>
          cases site <;> decide
        all_goals exact Nat.le_of_ble_eq_true rfl)
      (fun k => by cases k <;> decide)
  have hfirstHeld := firstShare_le hv.toLawful
  have hone : setupShare.instr first = 1 ∧ onConnectedShare.instr first = 0 ∧
      firstShare.instr first = 0 := by
    rcases hfirst with rfl | rfl <;> exact ⟨rfl, rfl, rfl⟩
  obtain ⟨hone, hzero, hzero'⟩ := hone
  have hheldC := held onConnectedShare
  have hheldS := held setupShare
  have hheldF := held firstShare
  have hnone : v'.announced = 0 := by
    rw [View.announced]
    rw [seen]
    omega
  refine ⟨?_, ?_, ?_, ?_⟩
  · omega
  · omega
  · omega
  · omega

theorem View.Reported.step
    (hv : v.Sound) (h : v.Reported) (hc : v.Disconnected) (hG : reportKept v ℓ = true)
    (hs : ClientStep http v ℓ v') :
    v'.Reported := by
  cases hs with
  | run hexec own release client held seen =>
      exact h.run hv hc hG hexec own client held seen
  | remove removes client held seen => exact h.remove hG removes client held seen
  | sweep client held seen => exact h.sweep client held seen
  | complete hexec own client held seen => exact h.complete hexec client held seen
  | find hexec live client held seen => exact h.find hexec client held seen
  | alloc hexec live client held seen => exact h.alloc hv hexec live held seen

/-- A client that was announced is released in `CONN_CLOSING`, or reported already. -/
theorem View.Reported.reporting
    (hv : v.Sound) (h : v.Reported) (hd : v.Disconnected) (hrel : v.isReleased = true) :
    v.Reporting where
  announced := Nat.le_trans (Nat.le_add_right _ _) h.setup
  report := by
    intro hpos
    obtain ⟨hlive, hway⟩ := View.released_cases hrel
    have hsplit : v.held releasedShare ≤ v.held (casClosedShare.add finishShare) :=
      hv.mono (fun i => by cases i <;> exact Nat.le_of_ble_eq_true rfl) (fun k => Nat.zero_le _)
    rw [hv.add] at hsplit
    have hclosed : v.client.mConnState = .closed →
        0 < v.held reportShare + v.seen Kind.isOnClosed :=
      h.report (Nat.lt_of_lt_of_le hpos (Nat.le_add_right _ _))
    rcases Nat.eq_zero_or_pos (v.held casClosedShare) with hnone | hcas
    · refine Or.inl (hclosed (h.finish hpos ?_))
      rcases hway with hmark | honway
      · exact Or.inr ⟨hlive, hmark⟩
      · exact Or.inl (by omega)
    · cases hstate : v.client.mConnState with
      | closed => exact Or.inl (hclosed hstate)
      | connected => exact absurd hstate (hd hcas)
      | closing => exact Or.inr ⟨rfl, hcas⟩
  ended := by
    intro hend
    by_contra hne
    obtain ⟨hlive, hnot⟩ := h.live (Nat.pos_of_ne_zero hne)
    rw [hlive, hnot] at hend
    exact hend.elim Bool.noConfusion Bool.noConfusion

theorem View.Reporting.run
    {i : Instr} {o : Outcome} {ch : Change}
    (hl : v.Late) (h : v.Reporting)
    (hexec : exec http v.client i o = some ch)
    (own : ∀ W : Weight, W.instr i ≤ v.held W)
    (client : v'.client = ch.client)
    (held : ∀ W : Weight,
      v'.held W + W.instr i = v.held W + W.code ch.push + W.ops ch.post)
    (seen : ∀ p, v'.seen p = v.seen p + occurs p ch.event) :
    v'.Reporting := by
  have hrest : restShare.instr i = 0 := by
    have := own restShare
    have := hl.rest
    omega
  have hstray : strayShare.instr i = 0 := by
    have := own strayShare
    have := hl.stray
    omega
  have hsetup : setupShare.instr i = 0 := by
    have hle : setupShare.instr i ≤ restShare.instr i := by
      cases i
      case postRecv site | wsaRecv site | recvFailed site => cases site <;> decide
      all_goals exact Nat.le_of_ble_eq_true rfl
    omega
  have hannounce := exec_setupShare hstray hexec
  have hconnected := held onConnectedShare
  have hreport := held reportShare
  have hcas := held casClosedShare
  rw [ops_zero (W := onConnectedShare) fun _ => rfl] at hconnected
  rw [ops_zero (W := reportShare) fun _ => rfl] at hreport
  rw [ops_zero (W := casClosedShare) fun _ => rfl] at hcas
  have hownC := own onConnectedShare
  have hownR := own reportShare
  have hseenC := seen Kind.isOnConnected
  have hseenR := seen Kind.isOnClosed
  have hleft := exec_reportLeft hexec
  have hle : v'.announced ≤ v.announced := by
    rw [View.announced, View.announced]
    omega
  constructor
  case announced => exact Nat.le_trans hle h.announced
  case report =>
    intro hpos
    rw [client]
    rcases exec_lateState hrest hexec with ⟨rfl, hpush⟩ | ⟨hsame, hother⟩
    · rw [hpush] at hreport
      have hone : reportShare.code [.freeRecvPacket] = 1 := rfl
      have hzero : reportShare.instr .casClosed = 0 := rfl
      exact Or.inl (by omega)
    · rw [hsame]
      rcases h.report (Nat.lt_of_lt_of_le hpos hle) with hleft' | ⟨hclosing, hpos'⟩
      · exact Or.inl (by omega)
      · have := hother hclosing
        exact Or.inr ⟨hclosing, by omega⟩
  case ended =>
    rw [client, (exec_unreset hrest hexec).1, (exec_life hexec).1]
    intro hend
    have := h.ended hend
    omega

theorem View.Reporting.quiet
    (h : v.Reporting) (hq : v.Quiet v')
    (hend : v'.client.live = false ∨ v'.client.mMarkedDestroy = true →
      v.held onConnectedShare = 0) :
    v'.Reporting := by
  obtain ⟨_, _, _, hclient⟩ := id hq.client
  have hsame : v'.announced = v.announced := by
    rw [View.announced, View.announced, hq.seen, hq.held onConnectedShare {}]
  constructor
  case announced =>
    rw [hsame]
    exact h.announced
  case report =>
    rw [hsame, hq.held reportShare {}, hq.seen, hq.held casClosedShare {}, hclient]
    exact h.report
  case ended =>
    rw [hq.held onConnectedShare {}]
    exact hend

theorem View.Reporting.step
    (hl : v.Late) (h : v.Reporting) (hrel : v.isReleased = true)
    (hG : reportKept v ℓ = true) (hs : ClientStep http v ℓ v') :
    v'.Reporting := by
  cases hs with
  | run hexec own release client held seen => exact h.run hl hexec own client held seen
  | @remove i _ removes client held seen =>
      have hself : v.held onConnectedShare = 0 := by
        cases i
        case removeSelf => exact of_decide_eq_true hG
        case removeClient id =>
          have hone : restShare.instr (.removeClient id) = 1 := rfl
          have := held restShare
          have := hl.rest
          omega
        all_goals exact absurd removes (by simp [Instr.removes])
      exact h.quiet (.remove removes client held seen) fun _ => hself
  | sweep client held seen =>
      refine h.quiet (.sweep client held seen) fun hend => h.ended ?_
      rw [client] at hend
      by_cases hfree : v.client.mMarkedDestroy ∧ ¬ 0 < v.client.mReferenceCount
      · exact Or.inr hfree.1
      · rwa [swept_kept hfree] at hend
  | @complete k r code _ hexec own client held seen =>
      have hone : restShare.op k = 1 := rfl
      have := own restShare
      have := hl.rest
      omega
  | find hexec live client held seen =>
      refine h.quiet (.find hexec client held seen) fun hend => h.ended ?_
      rwa [client] at hend
  | alloc hexec live client held seen =>
      have hlive := (View.released_cases hrel).1
      rw [live] at hlive
      cases hlive

/-- The report of a client, from its allocation to the time it is freed. -/
structure View.Followed (v : View) : Prop where
  before : v.isReleased = false → v.Reported
  linked : v.isReleased = false → v.client.live = true → v.Linked
  after : v.isReleased = true → v.Reporting

/-- A client that is freed after its report is at rest. -/
theorem View.Reporting.freed
    (hv : v.Sound) (h : v.Reporting) (hdead : v.client.live = false) : v.Reported := by
  have hsetup : v.held setupShare = 0 :=
    hv.dead_held hdead setupShare
      (fun i => by
        cases i
        case storeConnected site | postRecv site | wsaRecv site | recvFailed site |
            onConnected site =>
          cases site <;> decide
        all_goals exact Nat.le_of_ble_eq_true rfl)
      (fun k => by cases k <;> decide)
  have hfirst := firstShare_le hv.toLawful
  have hfin := finishShare_le hv.toLawful
  obtain ⟨-, howner, -, -⟩ := hv.toCounters.dead hv.toLawful hdead 0
  have hannounced := h.announced
  have hnone := h.ended (Or.inl hdead)
  constructor
  case setup => omega
  case live => omega
  case report =>
    intro hpos hclosed
    rcases h.report (by omega) with hleft | ⟨hclosing, -⟩
    · exact hleft
    · rw [hclosed] at hclosing
      cases hclosing
  case finish =>
    rintro - (hpos | ⟨hlive, -⟩)
    · omega
    · rw [hdead] at hlive
      cases hlive

theorem View.Followed.step
    (hv : v.Settled) (hv' : v'.Settled) (h : v.Followed) (hG : closeReported v ℓ = true)
    (hs : ClientStep http v ℓ v') :
    v'.Followed := by
  obtain ⟨hkept, hthrows, hreport⟩ := closeReported_cases hG
  rcases hv.step hkept hs with ⟨hnot, hcounters⟩ | ⟨hrel, hrel', -⟩ | ⟨hrel, hdead, hcounters⟩
  · have hsound := hv.sound hnot
    have hsound' : v'.Sound := { hv'.toLawful, hcounters with }
    have hdisc : v.Disconnected := by
      cases hlive : v.client.live with
      | true => exact (h.linked hnot hlive).disconnected
      | false =>
          intro hcas
          have hle : v.held casClosedShare ≤ v.held ownerShare :=
            hv.mono (fun i => by cases i <;> exact Nat.le_of_ble_eq_true rfl)
              (fun k => Nat.zero_le _)
          obtain ⟨hlive', -⟩ := hsound.owned (by omega)
          rw [hlive] at hlive'
          cases hlive'
    have hreported := (h.before hnot).step hsound hdisc hreport hs
    have hlinked : v'.client.live = true → v'.Linked := by
      intro hlive'
      cases hlive : v.client.live with
      | true => exact (h.linked hnot hlive).step hsound hsound' hthrows hs
      | false =>
          obtain ⟨_, _, _, -, hfresh, -⟩ := hs.revives hlive hlive'
          exact .closed (by rw [hfresh]; rfl)
    exact ⟨fun _ => hreported, fun _ => hlinked, fun hrel' =>
      hreported.reporting hsound' (hlinked (View.released_cases hrel').1).disconnected hrel'⟩
  · have hafter := (h.after hrel).step (hv.late hrel) hrel hreport hs
    refine ⟨fun hnot' => ?_, fun hnot' => ?_, fun _ => hafter⟩
    all_goals
      rw [hrel'] at hnot'
      cases hnot'
  · have hafter := (h.after hrel).step (hv.late hrel) hrel hreport hs
    have hsound' : v'.Sound := { hv'.toLawful, hcounters with }
    refine ⟨fun _ => hafter.freed hsound' hdead, fun _ hlive' => ?_, fun _ => hafter⟩
    rw [hdead] at hlive'
    cases hlive'

/-- An announced client that is freed has been reported closed, once. -/
theorem View.Followed.freed
    (hv : v.Settled) (hv' : v'.Settled) (h : v.Followed) (honce : v.ClosedOnce)
    (hs : ClientStep http v ℓ v')
    (hlive : v.client.live = true) (hfreed : v'.client.live = false)
    (hconnected : 0 < v.seen Kind.isOnConnected) :
    v.seen Kind.isOnClosed = 1 := by
  obtain ⟨hq, -, hend⟩ := hs.frees hlive hfreed
  have hpos : 0 < v.announced := Nat.lt_of_lt_of_le hconnected (Nat.le_add_right _ _)
  cases hrel : v.isReleased with
  | false =>
      -- a `RemoveClient` that no `CheckRelease` has come to
      have hle : v.held endShare ≤ v.held (setupShare.add releasedShare) :=
        hv.mono (fun i => by cases i <;> exact Nat.le_of_ble_eq_true rfl) (fun k => Nat.zero_le _)
      rw [hv.add] at hle
      have hway := (hv.sound hrel).not_onWay hrel
      have hsetup := (h.before hrel).setup
      rcases hend with hend | hmark
      · omega
      · rw [View.isReleased_of hlive (Or.inl hmark)] at hrel
        cases hrel
  | true =>
      have hcounters := hv'.counters (View.not_released hfreed)
      obtain ⟨-, howner, -, -⟩ := hcounters.dead hv'.toLawful hfreed 0
      have hle : v'.held (reportShare.add casClosedShare) ≤ v'.held ownerShare :=
        hv'.mono (fun i => by cases i <;> exact Nat.le_of_ble_eq_true rfl)
          (fun k => Nat.zero_le _)
      rw [hv'.add, hq.held reportShare {}, hq.held casClosedShare {}] at hle
      have hone := honce.once hrel
      rcases (h.after hrel).report hpos with hleft | ⟨-, hcas⟩
      · omega
      · omega

end Steps

/--
`ConnectServer` gives up waiting; the connect succeeds nevertheless and is
announced.  Then the time-out packet stores `CONN_CLOSED` over
`CONN_CONNECTED`, and the peer closes the connection.
-/
def connectTimeOut : List Action :=
  [.getNextLogicSocketID, .allocTcpClient 0 0 .ok, .run 1 .ok, .run 1 .ok, .run 1 .ok,
    .run 1 .fail, .complete 0 (.success true), .run 2 .ok, .run 2 .ok, .run 2 .ok, .run 2 .ok,
    .run 2 .ok, .run 1 .ok, .run 1 .ok, .run 1 .ok, .run 1 .ok, .run 2 .ok,
    .complete 1 (.success true), .run 3 .ok, .run 3 .ok, .run 3 .ok, .run 3 .ok, .run 3 .ok,
    .complete 0 (.success false), .run 4 .ok, .run 4 .ok, .run 4 .ok]

end Service
end IocpNetlib
