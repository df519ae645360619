import IocpNetlib.Service.Reported

/-!
# `OnClosed` reports the first cause

`SetDisconnect` stores its code after the compare-and-swap, so other threads
run between the two.  The causes are noted beside a run: the code of each
`SetDisconnect` that takes a client out of `CONN_CONNECTED`.  Where the counters
are right a client has one cause at most, which is stored before `CheckRelease`
reaches zero and is not replaced after.
-/

namespace IocpNetlib
namespace Service

open Ledger Reachability

/-- The code of a `SetDisconnect` that takes the client out of `CONN_CONNECTED`. -/
def TcpClient.causedBy (c : TcpClient) : Instr → List NetServiceErr
  | .setDisconnect errCode => if c.mConnState = .connected then [errCode] else []
  | _ => []

/-- Note the cause of a client, which is known by its number. -/
def noteCause (s : State) (act : Action) (causes : List (Nat × NetServiceErr)) :
    List (Nat × NetServiceErr) :=
  match label s act with
  | some (a, .run i _) => ((s.client a).causedBy i).map (Prod.mk (s.client a).serial) ++ causes
  | _ => causes

/-- The causes of the client with this number, the last one first. -/
def causesOf (causes : List (Nat × NetServiceErr)) (serial : Nat) : List NetServiceErr :=
  causes.filterMap fun x => if x.1 = serial then some x.2 else none

/-- The code and the operations of a client that will be connected, or is removed before. -/
def openingShare : Weight where
  instr
    | .increaseRef => 1
    | .postConnect _ => 1
    | .connectEx _ => 1
    | .acceptEx => 1
    | .acceptConnection => 1
    | .storeConnected _ => 1
    | _ => 0
  op
    | .accept => 1
    | .connectEx => 1
    | _ => 0

/-- A `SetDisconnect` that is about to store its code. -/
def storesShare (errCode : NetServiceErr) : Weight where
  instr
    | .disconnected e => if e = errCode then 1 else 0
    | _ => 0
  op _ := 0

/-- The code of `SetDisconnect`. -/
def disconnectShare : Weight where
  instr
    | .setDisconnect _ => 1
    | .disconnected _ => 1
    | _ => 0
  op _ := 0

/-- While a client is reported, nothing stores a code or resets it. -/
structure View.ReportsAlone (v : View) : Prop where
  stray : v.held strayShare = 0
  alone : 0 < v.held reportShare + v.held casClosedShare →
    v.held resetShare = 0 ∧ v.held disconnectShare = 0

/-- Whether a client is in `CONN_CONNECTED`, as a number. -/
def TcpClient.connected (c : TcpClient) : Nat := if c.mConnState = .connected then 1 else 0

/-- A client has one cause, which is stored when it is reported. -/
structure View.Caused (v : View) (causes : List NetServiceErr) : Prop where
  once : causes.length + v.client.connected + v.held openingShare ≤ 1
  stores : ∀ e, 0 < v.held (storesShare e) → causes = [e]
  closing : v.client.mConnState = .closing →
    0 < v.held resetShare ∨
      ∃ e, causes = [e] ∧ (v.client.mLastErrorCode = e ∨ 0 < v.held (storesShare e))
  report : 0 < v.held reportShare → causes = [v.client.mLastErrorCode]

section Exec

variable {http : Bool} {c : TcpClient} {i : Instr} {o : Outcome} {ch : Change}

theorem causedBy_cases (c : TcpClient) (i : Instr) :
    c.causedBy i = [] ∨
      ∃ e, i = .setDisconnect e ∧ c.mConnState = .connected ∧ c.causedBy i = [e] := by
  unfold TcpClient.causedBy
  split
  · next e =>
      by_cases hconnected : c.mConnState = .connected
      · exact Or.inr ⟨e, rfl, hconnected, if_pos hconnected⟩
      · exact Or.inl (if_neg hconnected)
  · exact Or.inl rfl

/-- `SetDisconnect` on a connected client goes on to store its code. -/
theorem exec_cause
    {e : NetServiceErr} (hconnected : c.mConnState = .connected)
    (h : exec http c (.setDisconnect e) o = some ch) :
    ch.client = { c with mConnState := .closing } ∧ ch.push = [.disconnected e] ∧
      ch.post = [] := by
  cases o
  case ok =>
    simp only [exec, if_pos hconnected, Option.some.injEq] at h
    rw [← h]
    exact ⟨rfl, rfl, rfl⟩
  all_goals exact absurd h (by simp [exec])

/-- `SetDisconnect` on another client does nothing. -/
theorem exec_later
    {e : NetServiceErr} (hnot : c.mConnState ≠ .connected)
    (h : exec http c (.setDisconnect e) o = some ch) : ch = .next c [] := by
  cases o
  case ok =>
    simp only [exec, if_neg hnot, Option.some.injEq] at h
    exact h.symm
  all_goals exact absurd h (by simp [exec])

/-- A client is connected once. -/
theorem exec_openingShare (hstray : strayShare.instr i = 0) (h : exec http c i o = some ch) :
    openingShare.code ch.push + openingShare.ops ch.post ≤ openingShare.instr i ∧
      ((∃ site, i = .storeConnected site) →
        openingShare.instr i = 1 ∧ openingShare.code ch.push + openingShare.ops ch.post = 0) := by
  revert h
  fun_cases exec http c i o
  case case24 site =>
    rintro ⟨⟩
    exact ⟨Nat.zero_le _, fun _ => ⟨rfl, rfl⟩⟩
  case case26 site _ | case29 site =>
    rintro ⟨⟩
    cases site <;> exact ⟨Nat.zero_le _, by simp⟩
  case case41 =>
    rintro ⟨⟩
    cases http <;> exact ⟨Nat.zero_le _, by simp⟩
  case case44 full =>
    rintro ⟨⟩
    simp only [Change.next, sendResult]
    split_ifs <;> exact ⟨Nat.zero_le _, by simp⟩
  case case58 opType =>
    rintro ⟨⟩
    cases opType <;> first | exact ⟨Nat.zero_le _, by simp⟩ | exact absurd hstray (by decide)
  case case62 =>
    rintro ⟨⟩
    simp only [Change.next]
    split_ifs <;> exact ⟨Nat.zero_le _, by simp⟩
  all_goals
    rintro ⟨⟩ <;> exact ⟨Nat.le_of_ble_eq_true rfl, by simp⟩

/-- Only the code that won stores its code. -/
theorem exec_storesShare (e : NetServiceErr) (h : exec http c i o = some ch) :
    (storesShare e).code ch.push = 0 ∨ (i = .setDisconnect e ∧ c.mConnState = .connected) := by
  revert h
  fun_cases exec http c i o
  case case26 site _ | case29 site =>
    rintro ⟨⟩
    cases site <;> exact Or.inl rfl
  case case33 e' hconnected =>
    rintro ⟨⟩
    by_cases he : e' = e
    · exact Or.inr ⟨by rw [he], hconnected⟩
    · exact Or.inl (by simp [storesShare, he])
  case case41 =>
    rintro ⟨⟩
    cases http <;> exact Or.inl rfl
  case case44 full =>
    rintro ⟨⟩
    simp only [Change.next, sendResult]
    split_ifs <;> exact Or.inl rfl
  case case62 =>
    rintro ⟨⟩
    simp only [Change.next]
    split_ifs <;> exact Or.inl rfl
  all_goals
    rintro ⟨⟩ <;> exact Or.inl rfl

/-- The code is stored by the winner, and set back by `Reset`. -/
theorem exec_lastErrorCode (h : exec http c i o = some ch) :
    (ch.client.mLastErrorCode = c.mLastErrorCode ∧ ∀ e, (storesShare e).instr i = 0) ∨
      (∃ e, i = .disconnected e ∧ ch.client.mLastErrorCode = e) ∨ 0 < resetShare.instr i := by
  revert h
  fun_cases exec http c i o
  all_goals
    rintro ⟨⟩ <;>
      first
        | exact Or.inl ⟨rfl, fun _ => rfl⟩
        | exact Or.inr (Or.inl ⟨_, rfl, rfl⟩)
        | exact Or.inr (Or.inr Nat.one_pos)

/-- `CONN_CLOSING` is stored by a `SetDisconnect` that wins, and by a failed accept. -/
theorem exec_entersClosing
    (h : exec http c i o = some ch) (hclosing : ch.client.mConnState = .closing) :
    c.mConnState = .closing ∨ 0 < resetShare.code ch.push ∨
      ∃ e, i = .setDisconnect e ∧ c.mConnState = .connected := by
  revert h
  fun_cases exec http c i o
  case case33 e hconnected =>
    rintro ⟨⟩
    exact Or.inr (Or.inr ⟨e, rfl, hconnected⟩)
  all_goals
    rintro ⟨⟩ <;>
      first
        | exact Or.inl hclosing
        | exact Or.inr (Or.inl Nat.one_pos)
        | cases hclosing

theorem exec_reset (hreset : 0 < resetShare.instr i) (h : exec http c i o = some ch) :
    ch.client.mConnState = .closed := by
  revert h
  fun_cases exec http c i o
  all_goals
    rintro ⟨⟩ <;> first | rfl | exact absurd hreset (Nat.lt_irrefl 0)

end Exec

theorem complete_caused
    {k : OpType} {r : Completion} {code : List Instr} (h : onCompleteOperation k r = some code) :
    openingShare.code code ≤ openingShare.op k ∧ resetShare.code code = 0 ∧
      reportShare.code code = 0 ∧ ∀ e, (storesShare e).code code = 0 := by
  revert h
  fun_cases onCompleteOperation k r
  all_goals
    rintro ⟨⟩ <;> exact ⟨Nat.le_of_ble_eq_true rfl, rfl, rfl, fun _ => rfl⟩

section Steps

variable {http : Bool} {v v' : View} {causes : List NetServiceErr}

theorem View.Sound.reportsAlone (hv : v.Sound) : v.ReportsAlone where
  stray := hv.stray
  alone := by
    intro hpos
    have hle : v.held (resetShare.add (reportShare.add casClosedShare)) ≤ v.held ownerShare :=
      hv.mono (fun i => by cases i <;> exact Nat.le_of_ble_eq_true rfl) (fun k => Nat.zero_le _)
    rw [hv.add, hv.add] at hle
    obtain ⟨-, -, hidle, hone⟩ := hv.owned (by omega)
    -- a `SetDisconnect` is run while a share of `mPendingIo` is outstanding
    have hnone : ¬ 0 < v.held disconnectShare := by
      intro hdisc
      have := hv.rooted (W := disconnectShare)
        (fun i hi => by
          cases i
          case setDisconnect | disconnected => exact Or.inl rfl
          all_goals exact absurd hi (Nat.lt_irrefl 0))
        (fun k hk => absurd hk (Nat.lt_irrefl 0)) hdisc
      omega
    constructor <;> omega

theorem View.Late.reportsAlone (hv : v.Lawful) (hl : v.Late) : v.ReportsAlone where
  stray := hl.stray
  alone := by
    intro _
    have hle : v.held (resetShare.add disconnectShare) ≤ v.held restShare :=
      hv.mono (fun i => by cases i <;> exact Nat.le_of_ble_eq_true rfl) (fun k => Nat.zero_le _)
    have hrest := hl.rest
    rw [hv.add] at hle
    constructor <;> omega

theorem View.Settled.reportsAlone (hv : v.Settled) : v.ReportsAlone := by
  cases hrel : v.isReleased with
  | false => exact (hv.sound hrel).reportsAlone
  | true => exact (hv.late hrel).reportsAlone hv.toLawful

/-- Whoever stores a code is in `SetDisconnect`. -/
theorem stores_le_disconnect (hv : v.Lawful) (e : NetServiceErr) :
    v.held (storesShare e) ≤ v.held disconnectShare :=
  hv.mono
    (fun i => by
      cases i
      case disconnected e' =>
        show (if e' = e then 1 else 0) ≤ 1
        split_ifs <;> decide
      all_goals exact Nat.zero_le _)
    (fun k => Nat.zero_le _)

theorem connected_eq_one {c : TcpClient} (h : c.mConnState = .connected) : c.connected = 1 :=
  if_pos h

theorem connected_eq_zero {c : TcpClient} (h : c.mConnState ≠ .connected) : c.connected = 0 :=
  if_neg h

/-- A connected client has no cause yet. -/
theorem View.Caused.none_of_connected
    (h : v.Caused causes) (hconnected : v.client.mConnState = .connected) : causes = [] := by
  have honce := h.once
  rw [connected_eq_one hconnected] at honce
  exact List.eq_nil_of_length_eq_zero (by omega)

/-- A client is not connected again after its cause. -/
theorem View.Caused.not_connected
    (h : v.Caused causes) (hcause : causes ≠ []) : v.client.mConnState ≠ .connected :=
  fun hconnected => hcause (h.none_of_connected hconnected)

theorem View.Caused.run
    {i : Instr} {o : Outcome} {ch : Change}
    (hv : v.Lawful) (hr : v.ReportsAlone) (h : v.Caused causes)
    (hexec : exec http v.client i o = some ch)
    (own : ∀ W : Weight, W.instr i ≤ v.held W)
    (client : v'.client = ch.client)
    (held : ∀ W : Weight,
      v'.held W + W.instr i = v.held W + W.code ch.push + W.ops ch.post) :
    v'.Caused (v.client.causedBy i ++ causes) := by
  have hstray : strayShare.instr i = 0 := by
    have := own strayShare
    have := hr.stray
    omega
  have hownD := own disconnectShare
  obtain ⟨hopening, hconnects⟩ := exec_openingShare hstray hexec
  have hheldO := held openingShare
  have hheldR := held resetShare
  have hheldT := held reportShare
  have hheldS := fun e => held (storesShare e)
  simp only [ops_zero (W := resetShare) fun _ => rfl] at hheldR
  simp only [ops_zero (W := reportShare) fun _ => rfl] at hheldT
  simp only [ops_zero (W := storesShare _) fun _ => rfl] at hheldS
  have hownO := own openingShare
  have hownR := own resetShare
  have honce := h.once
  -- a new cause is the first one
  have hcauses :
      v.client.causedBy i = [] ∨
        ∃ e, i = .setDisconnect e ∧ v.client.mConnState = .connected ∧
          v.client.causedBy i = [e] ∧ causes = [] := by
    rcases causedBy_cases v.client i with hnone | ⟨e, hi, hconnected, hcaused⟩
    · exact Or.inl hnone
    · exact Or.inr ⟨e, hi, hconnected, hcaused, h.none_of_connected hconnected⟩
  constructor
  case once =>
    rw [client, List.length_append]
    rcases hcauses with hnone | ⟨e, rfl, hconnected, hcaused, rfl⟩
    · rw [hnone, List.length_nil]
      by_cases hconnected : ch.client.mConnState = .connected
      · rw [connected_eq_one hconnected]
        rcases exec_entersConnected hexec hconnected with hbefore | hstores
        · rw [connected_eq_one hbefore] at honce
          omega
        · obtain ⟨hone, hnone'⟩ := hconnects hstores
          omega
      · rw [connected_eq_zero hconnected]
        omega
    · obtain ⟨hclient, hpush, hpost⟩ := exec_cause hconnected hexec
      have hnot : ch.client.mConnState ≠ .connected := by
        rw [hclient]
        simp
      rw [connected_eq_one hconnected] at honce
      rw [hcaused, connected_eq_zero hnot, List.length_singleton]
      omega
  case stores =>
    intro e hpos
    rcases exec_storesShare e hexec with hnone | ⟨rfl, hconnected⟩
    · have hcause := h.stores e (by have := hheldS e; omega)
      rcases hcauses with hempty | ⟨_, -, -, -, hempty⟩
      · rw [hempty, hcause]
        rfl
      · rw [hempty] at hcause
        exact absurd hcause (List.cons_ne_nil _ _).symm
    · rw [h.none_of_connected hconnected]
      exact congrArg (· ++ []) (if_pos hconnected)
  case closing =>
    rw [client]
    intro hclosing
    rcases exec_entersClosing hexec hclosing with hbefore | hreset | ⟨e, rfl, hconnected⟩
    · have hzero : resetShare.instr i = 0 := by
        by_contra hne
        rw [exec_reset (Nat.pos_of_ne_zero hne) hexec] at hclosing
        exact absurd hclosing (by simp)
      have hempty : v.client.causedBy i = [] := by
        rcases hcauses with hempty | ⟨_, -, hconnected, -⟩
        · exact hempty
        · rw [hbefore] at hconnected
          exact absurd hconnected (by simp)
      rw [hempty, List.nil_append]
      rcases exec_lastErrorCode hexec with ⟨hsame, hnone⟩ | ⟨e, rfl, hlast⟩ | hreset
      · rcases h.closing hbefore with hpos | ⟨e, hcause, hstored⟩
        · exact Or.inl (by omega)
        · refine Or.inr ⟨e, hcause, hstored.imp hsame.trans fun hpos => ?_⟩
          have := hheldS e
          have := hnone e
          omega
      · have hone : (storesShare e).instr (.disconnected e) = 1 := if_pos rfl
        have hown := own (storesShare e)
        exact Or.inr ⟨e, h.stores e (by omega), Or.inl hlast⟩
      · omega
    · exact Or.inl (by omega)
    · obtain ⟨-, hpush, -⟩ := exec_cause hconnected hexec
      refine Or.inr ⟨e, ?_, Or.inr ?_⟩
      · rw [h.none_of_connected hconnected]
        exact congrArg (· ++ []) (if_pos hconnected)
      · have hone : (storesShare e).code ch.push = 1 := by
          rw [hpush]
          simp [storesShare]
        have hzero : (storesShare e).instr (.setDisconnect e) = 0 := rfl
        have := hheldS e
        omega
  case report =>
    intro hpos
    rw [client]
    rcases exec_reportShare hexec with hle | ⟨rfl, hclosing⟩
    · have hbefore : 0 < v.held reportShare := by omega
      obtain ⟨hreset, hdisc⟩ := hr.alone (by omega)
      have hempty : v.client.causedBy i = [] := by
        rcases hcauses with hempty | ⟨e, rfl, -⟩
        · exact hempty
        · have hone : disconnectShare.instr (.setDisconnect e) = 1 := rfl
          omega
      rw [hempty, List.nil_append, h.report hbefore]
      rcases exec_lastErrorCode hexec with ⟨hsame, -⟩ | ⟨e, rfl, -⟩ | hpos'
      · rw [hsame]
      · have hone : disconnectShare.instr (.disconnected e) = 1 := rfl
        omega
      · omega
    · -- the compare-and-swap found the client closing, and its code stored
      have hown : 1 ≤ v.held casClosedShare := own casClosedShare
      obtain ⟨hreset, hdisc⟩ := hr.alone (by omega)
      have hsame : ch.client.mLastErrorCode = v.client.mLastErrorCode := by
        rcases exec_lastErrorCode hexec with ⟨hsame, -⟩ | ⟨e, hi, -⟩ | hpos'
        · exact hsame
        · exact absurd hi (by simp)
        · exact absurd hpos' (Nat.lt_irrefl 0)
      rw [hsame]
      rcases h.closing hclosing with hpos' | ⟨e, hcause, hstored | hpos'⟩
      · omega
      · rw [hcause, hstored]
        rfl
      · have := stores_le_disconnect hv e
        omega

/-- A step that leaves the state, the code and whoever changes them alone changes no cause. -/
theorem View.Caused.same
    (h : v.Caused causes)
    (hstate : v'.client.mConnState = v.client.mConnState)
    (hcode : v'.client.mLastErrorCode = v.client.mLastErrorCode)
    (hopening : v'.held openingShare ≤ v.held openingShare)
    (hreset : v'.held resetShare = v.held resetShare)
    (hreport : v'.held reportShare = v.held reportShare)
    (hstores : ∀ e, v'.held (storesShare e) = v.held (storesShare e)) :
    v'.Caused causes := by
  constructor
  case once =>
    have honce := h.once
    rw [TcpClient.connected] at honce ⊢
    rw [hstate]
    omega
  case stores =>
    intro e
    rw [hstores]
    exact h.stores e
  case closing =>
    rw [hstate, hcode, hreset]
    simp only [hstores]
    exact h.closing
  case report =>
    rw [hcode, hreport]
    exact h.report

theorem View.Caused.complete
    {k : OpType} {r : Completion} {code : List Instr}
    (h : v.Caused causes)
    (hexec : onCompleteOperation k r = some code)
    (client : v'.client = v.client)
    (held : ∀ W : Weight, v'.held W + W.op k = v.held W + W.code code) :
    v'.Caused causes := by
  obtain ⟨hopening, hreset, hreport, hstores⟩ := complete_caused hexec
  have hheldO := held openingShare
  have hplain := fun W => View.held_plain (W := W) held
  refine h.same (by rw [client]) (by rw [client]) (by omega) ?_ ?_ fun e => ?_
  · exact hplain resetShare (fun _ => rfl) hreset
  · exact hplain reportShare (fun _ => rfl) hreport
  · exact hplain (storesShare e) (fun _ => rfl) (hstores e)

/-- Calls and visits of the sweep change no cause. -/
theorem View.Caused.quiet
    (h : v.Caused causes) (hq : v.Quiet v')
    (hopening : v'.held openingShare ≤ v.held openingShare) : v'.Caused causes := by
  obtain ⟨refs, marked, live, hclient⟩ := hq.client
  refine h.same (by rw [hclient]) (by rw [hclient]) hopening ?_ ?_ fun e => ?_
  · exact hq.held resetShare {}
  · exact hq.held reportShare {}
  · exact hq.held (storesShare e) {}

theorem View.Caused.alloc
    {first : Instr} {id : SocketID} {n : Nat}
    (hv : v.Sound) (hfirst : first = .acceptEx ∨ first = .increaseRef)
    (hlive : v.client.live = false)
    (client : v'.client = .fresh id n)
    (held : ∀ W : Weight, v'.held W = v.held W + W.instr first) :
    v'.Caused [] := by
  have hnone : v.held (openingShare.add reportShare) = 0 :=
    hv.dead_held hlive _
      (fun i => by
        cases i
        case storeConnected site | postRecv site | wsaRecv site | recvFailed site |
            onConnected site =>
          cases site <;> decide
        all_goals exact Nat.le_of_ble_eq_true rfl)
      (fun k => by cases k <;> decide)
  rw [hv.add] at hnone
  obtain ⟨hopening, hreport⟩ := Nat.add_eq_zero_iff.mp hnone
  have hstores : ∀ e, v.held (storesShare e) = 0 := by
    intro e
    have hdisc := hv.dead_held hlive disconnectShare
      (fun i => by
        cases i
        case storeConnected site | postRecv site | wsaRecv site | recvFailed site |
            onConnected site =>
          cases site <;> decide
        all_goals exact Nat.le_of_ble_eq_true rfl)
      (fun k => by cases k <;> decide)
    have := stores_le_disconnect hv.toLawful e
    omega
  have hone : openingShare.instr first = 1 ∧ reportShare.instr first = 0 ∧
      ∀ e, (storesShare e).instr first = 0 := by
    rcases hfirst with rfl | rfl <;> exact ⟨rfl, rfl, fun _ => rfl⟩
  obtain ⟨hone, hzero, hzero'⟩ := hone
  constructor
  case once =>
    rw [client, held, hopening, hone]
    exact Nat.le_refl _
  case stores =>
    intro e hpos
    rw [held, hstores, hzero' e] at hpos
    exact absurd hpos (Nat.lt_irrefl 0)
  case closing =>
    rw [client]
    intro hclosing
    cases hclosing
  case report =>
    rw [held, hreport, hzero]
    exact fun hpos => absurd hpos (Nat.lt_irrefl 0)

/-- The causes of a client after a step that is about it. -/
def Label.causesAfter (v : View) (causes : List NetServiceErr) : Label → List NetServiceErr
  | .run i _ => v.client.causedBy i ++ causes
  | .alloc _ _ _ => []
  | _ => causes

theorem View.Caused.step
    {ℓ : Label} (hv : v.Settled) (h : v.Caused causes) (hs : ClientStep http v ℓ v') :
    v'.Caused (ℓ.causesAfter v causes) := by
  cases hs with
  | run hexec own release client held seen =>
      exact h.run hv.toLawful hv.reportsAlone hexec own client held
  | @remove i _ removes client held seen =>
      have hnone : v.client.causedBy i = [] := by
        cases i <;> first | rfl | exact absurd removes (by simp [Instr.removes])
      show v'.Caused (v.client.causedBy i ++ causes)
      rw [hnone]
      have hopening := held openingShare
      exact h.quiet (.remove removes client held seen) (by omega)
  | sweep client held seen =>
      exact h.quiet (.sweep client held seen) (Nat.le_of_eq (held openingShare))
  | complete hexec own client held seen => exact h.complete hexec client held
  | find hexec live client held seen =>
      have hq : v.Quiet v' := .find hexec client held seen
      exact h.quiet hq (Nat.le_of_eq (hq.held openingShare {}))
  | alloc hexec live client held seen =>
      exact .alloc (hv.sound (View.not_released live)) hexec live client held

end Steps

section Causes

variable {causes : List (Nat × NetServiceErr)} {serial : Nat}

theorem causesOf_cons_self (e : NetServiceErr) :
    causesOf ((serial, e) :: causes) serial = e :: causesOf causes serial :=
  List.filterMap_cons_some (if_pos rfl)

theorem causesOf_cons_other {n : Nat} (hne : n ≠ serial) (e : NetServiceErr) :
    causesOf ((n, e) :: causes) serial = causesOf causes serial :=
  List.filterMap_cons_none (if_neg hne)

theorem causesOf_noted (l : List NetServiceErr) :
    causesOf (l.map (Prod.mk serial) ++ causes) serial = l ++ causesOf causes serial := by
  induction l with
  | nil => rfl
  | cons e l ih =>
      rw [List.map_cons, List.cons_append, causesOf_cons_self, ih]
      rfl

theorem causesOf_unused (h : ∀ x ∈ causes, x.1 ≠ serial) : causesOf causes serial = [] := by
  rw [causesOf]
  rw [List.filterMap_eq_nil_iff]
  intro x hx
  exact if_neg (h x hx)

end Causes

section Note

variable {s s' : State} {act : Action} {causes : List (Nat × NetServiceErr)}

theorem label_run
    {b : Addr} {i : Instr} {o : Outcome} (h : label s act = some (b, .run i o)) :
    ∃ j rest, act = .run j o ∧ s.threads[j]? = some ((b, i) :: rest) := by
  unfold label at h
  split at h
  case h_5 j o' =>
    split at h
    · next a i' rest hj =>
        simp only [Option.some.injEq, Prod.mk.injEq, Label.run.injEq] at h
        obtain ⟨rfl, rfl, rfl⟩ := h
        exact ⟨j, rest, rfl, hj⟩
    · exact absurd h (by simp)
  all_goals simp at h

theorem label_alloc
    {a : Addr} {first : Instr} {id : SocketID} {fresh : Bool}
    (h : label s act = some (a, .alloc first id fresh)) : ∃ j, act = .allocTcpClient j a .ok := by
  unfold label at h
  split at h
  case h_1 j b =>
    obtain ⟨e, -, heq⟩ := Option.map_eq_some_iff.mp h
    rw [Prod.mk.injEq] at heq
    exact ⟨j, by rw [heq.1]⟩
  case h_5 j o =>
    split at h
    · exact absurd h (by simp)
    · exact absurd h (by simp)
  all_goals simp at h

/-- The step of a thread that has come to a `SetDisconnect`. -/
theorem run_setDisconnect
    {j : Nat} {o : Outcome} {a : Addr} {errCode : NetServiceErr} {rest : List (Addr × Instr)}
    (hj : s.threads[j]? = some ((a, .setDisconnect errCode) :: rest))
    (hs : s.run j o = some s') :
    ∃ ch, exec s.http (s.client a) (.setDisconnect errCode) o = some ch ∧
      s' = (s.setThread j (owned a ch.push ++ rest)).apply a ch := by
  obtain ⟨b, i, rest', hj', hcase⟩ := run_cases hs
  rw [hj, Option.some.injEq, List.cons.injEq, Prod.mk.injEq] at hj'
  obtain ⟨⟨rfl, rfl⟩, rfl⟩ := hj'
  rcases hcase with ⟨-, id, ⟨hi, -⟩ | hi, -⟩ | ⟨-, id, hi, -⟩ | hexec
  · exact absurd hi (by simp)
  · exact absurd hi (by simp)
  · exact absurd hi (by simp)
  · exact hexec

/-- A step notes a cause of the client it is about, or none. -/
theorem noteCause_cases (h : s.Ordered) (hs : step s act = some s') :
    noteCause s act causes = causes ∨
      ∃ b e o, label s act = some (b, .run (.setDisconnect e) o) ∧
        (s.client b).serial ≠ 0 ∧ (s.client b).mConnState = .connected ∧
        (s'.client b).mConnState = .closing ∧
        noteCause s act causes = ((s.client b).serial, e) :: causes := by
  rw [noteCause]
  split
  · next b i o hlabel =>
      rcases causedBy_cases (s.client b) i with hnone | ⟨e, rfl, hconnected, hcaused⟩
      · rw [hnone]
        exact Or.inl rfl
      · rw [hcaused]
        obtain ⟨j, rest, rfl, hj⟩ := label_run hlabel
        refine Or.inr ⟨b, e, o, hlabel, ?_, hconnected, ?_, rfl⟩
        · exact h.threads _ (List.mem_of_getElem? hj) _ List.mem_cons_self
        · obtain ⟨ch, hch, rfl⟩ := run_setDisconnect hj hs
          show ((s.setClient b ch.client).client b).mConnState = _
          rw [setClient_self, (exec_cause hconnected hch).1]
  · exact Or.inl rfl

/-- The causes of each client follow the steps that are about it. -/
theorem causes_view
    (h : s.Ordered) (hm : s.Mapped) (hs : step s act = some s')
    (hlt : ∀ x ∈ causes, x.1 < s.nextSerial) (a : Addr) :
    (∃ ℓ, label s act = some (a, ℓ) ∧ ClientStep s.http (s.view a) ℓ (s'.view a) ∧
        causesOf (noteCause s act causes) (s'.client a).serial =
          ℓ.causesAfter (s.view a) (causesOf causes (s.client a).serial)) ∨
      (s'.view a = s.view a ∧
        causesOf (noteCause s act causes) (s'.client a).serial =
          causesOf causes (s.client a).serial) := by
  rcases step_view h hm hs a with ⟨ℓ, hlabel, hclient⟩ | hsame
  · refine Or.inl ⟨ℓ, hlabel, hclient, ?_⟩
    have hkeep : (∀ first id fresh, ℓ ≠ .alloc first id fresh) →
        (s'.client a).serial = (s.client a).serial := by
      intro hne
      rcases hclient.serial with ⟨-, ⟨first, id, fresh, rfl⟩, -⟩ | ⟨hserial, -⟩
      · exact absurd rfl (hne first id fresh)
      · exact hserial
    rw [noteCause]
    rw [hlabel]
    cases ℓ with
    | run i o =>
        rw [hkeep (by simp)]
        exact causesOf_noted _
    | complete k r =>
        rw [hkeep (by simp)]
        rfl
    | find code =>
        rw [hkeep (by simp)]
        rfl
    | alloc first id fresh =>
        obtain ⟨j, rfl⟩ := label_alloc hlabel
        obtain ⟨id', accepting, -, ⟨hfail, -⟩ | ⟨-, -, rfl⟩⟩ := allocTcpClient_cases hs
        · exact absurd hfail (by simp)
        · refine causesOf_unused fun x hx => ?_
          show x.1 ≠ ((s.setClient a _).client a).serial
          rw [setClient_self]
          exact Nat.ne_of_lt (hlt x hx)
  · have hclient : s'.client a = s.client a := congrArg View.client hsame
    refine Or.inr ⟨hsame, ?_⟩
    rw [hclient]
    rcases noteCause_cases h hs with hnone | ⟨b, e, o, -, hne, hconnected, hclosing, hnoted⟩
    · rw [hnone]
    · rw [hnoted]
      refine causesOf_cons_other (fun heq => ?_) e
      rw [h.serialInj b a heq hne, hclient] at hclosing
      rw [h.serialInj b a heq hne, hclosing] at hconnected
      exact absurd hconnected (by simp)

theorem nextSerial_le (hs : step s act = some s') : s.nextSerial ≤ s'.nextSerial := by
  have hfind :
      ∀ {id : SocketID} {code : List Instr}, s.find id code = some s' →
        s.nextSerial ≤ s'.nextSerial := by
    intro id code hfind
    rcases find_cases hfind with ⟨-, rfl⟩ | ⟨b, -, rfl⟩
    · exact Nat.le_refl _
    · exact Nat.le_refl _
  cases act with
  | otherService =>
      rcases hs with ⟨⟩
      exact Nat.le_refl _
  | getNextLogicSocketID =>
      rcases hs with ⟨⟩
      exact Nat.le_refl _
  | allocTcpClient j b o =>
      obtain ⟨id, accepting, -, ⟨-, rfl⟩ | ⟨-, -, rfl⟩⟩ := allocTcpClient_cases hs
      · exact Nat.le_refl _
      · exact Nat.le_succ _
  | send socketID => exact hfind hs
  | closeSocket socketID => exact hfind hs
  | checkStatus =>
      obtain ⟨ts, -, rfl⟩ := checkStatus_cases hs
      exact Nat.le_refl _
  | complete j r =>
      obtain ⟨b, k, code, -, -, rfl⟩ := complete_cases hs
      exact Nat.le_refl _
  | run j o =>
      obtain ⟨b, i, rest, -, ⟨-, id, -, rfl⟩ | ⟨-, id, -, hsweep⟩ | ⟨ch, -, rfl⟩⟩ := run_cases hs
      · exact Nat.le_of_eq (removeClient_keeps (s.setThread j rest) id).2.1.symm
      · obtain ⟨-, rfl⟩ := sweep_eq hsweep
        exact Nat.le_refl _
      · exact Nat.le_refl _

end Note

section Runs

/-- The runs that meet `G`, with the causes noted. -/
abbrev CauseRuns (G : View → Label → Bool) (http listening : Bool)
    (x : State × List (Nat × NetServiceErr)) : Prop :=
  Reach (withGhost step noteCause) (fun x act => Meets G x.1 act) (State.init http listening, []) x

/-- Each client has one cause, and `OnClosed` has reported it. -/
structure FirstCauses (x : State × List (Nat × NetServiceErr)) : Prop where
  lt : ∀ c ∈ x.2, c.1 < x.1.nextSerial
  caused : ∀ a, (x.1.view a).Caused (causesOf x.2 (x.1.client a).serial)
  single : ∀ serial, (causesOf x.2 serial).length ≤ 1
  reported : ∀ e ∈ x.1.log, ∀ nErrorCode, e.kind = .onClosed nErrorCode →
    causesOf x.2 e.serial = [nErrorCode]

variable {http listening : Bool} {x : State × List (Nat × NetServiceErr)}

theorem FirstCauses.init (http listening : Bool) :
    FirstCauses (State.init http listening, []) where
  lt := fun _ hc => absurd hc List.not_mem_nil
  caused := fun a =>
    { once := Nat.zero_le _
      stores := fun _ hpos => absurd hpos (Nat.lt_irrefl 0)
      closing := fun hclosing => by cases hclosing
      report := fun hpos => absurd hpos (Nat.lt_irrefl 0) }
  single := fun _ => Nat.zero_le _
  reported := fun _ he => absurd he List.not_mem_nil

theorem exec_reportedCode
    {c : TcpClient} {i : Instr} {o : Outcome} {ch : Change} {nErrorCode : NetServiceErr}
    (h : exec http c i o = some ch) (hevent : ch.event = some (.onClosed nErrorCode)) :
    i = .onClosed ∧ nErrorCode = c.mLastErrorCode := by
  revert h
  fun_cases exec http c i o
  all_goals
    rintro ⟨⟩ <;> cases hevent
    try exact ⟨rfl, rfl⟩

/-- A client that has a cause keeps it. -/
theorem FirstCauses.kept
    (h : FirstCauses x) (hordered : x.1.Ordered) {act : Action} {s' : State}
    (hs : step x.1 act = some s') {serial : Nat} (hcause : causesOf x.2 serial ≠ []) :
    causesOf (noteCause x.1 act x.2) serial = causesOf x.2 serial := by
  rcases noteCause_cases hordered hs with hnone | ⟨b, e, o, -, -, hconnected, -, hnoted⟩
  · rw [hnone]
  · rw [hnoted]
    refine causesOf_cons_other (fun heq => hcause ?_) e
    rw [← heq]
    exact (h.caused b).none_of_connected hconnected

theorem FirstCauses.step
    (h : FirstCauses x) (hsettled : x.1.Settled) {act : Action} {s' : State}
    (hs : step x.1 act = some s') : FirstCauses (s', noteCause x.1 act x.2) where
  lt := by
    intro c hc
    have hle := nextSerial_le hs
    rcases noteCause_cases hsettled.ordered hs with hnone | ⟨b, e, o, -, -, -, -, hnoted⟩
    · change c ∈ noteCause x.1 act x.2 at hc
      rw [hnone] at hc
      exact Nat.lt_of_lt_of_le (h.lt c hc) hle
    · change c ∈ noteCause x.1 act x.2 at hc
      rw [hnoted] at hc
      rcases List.mem_cons.mp hc with rfl | hc
      · exact Nat.lt_of_lt_of_le (hsettled.ordered.serialLt b) hle
      · exact Nat.lt_of_lt_of_le (h.lt c hc) hle
  caused := by
    intro a
    show (s'.view a).Caused (causesOf (noteCause x.1 act x.2) (s'.client a).serial)
    rcases causes_view hsettled.ordered hsettled.mapped hs h.lt a with
      ⟨ℓ, -, hclient, hcauses⟩ | ⟨hsame, hcauses⟩
    · rw [hcauses]
      exact (h.caused a).step (hsettled.view a) hclient
    · rw [hcauses, hsame]
      exact h.caused a
  single := by
    intro serial
    show (causesOf (noteCause x.1 act x.2) serial).length ≤ 1
    rcases noteCause_cases hsettled.ordered hs with hnone | ⟨b, e, o, -, -, hconnected, -, hnoted⟩
    · rw [hnone]
      exact h.single serial
    · rw [hnoted]
      by_cases heq : (x.1.client b).serial = serial
      · subst heq
        rw [causesOf_cons_self, (h.caused b).none_of_connected hconnected]
        exact Nat.le_refl _
      · rw [causesOf_cons_other heq]
        exact h.single serial
  reported := by
    intro ev hev nErrorCode hkind
    have hcause : causesOf x.2 ev.serial = [nErrorCode] := by
      rcases step_log hs with hlog | ⟨b, i, o, ch, k, -, hexec, hevent, hown, hlog⟩
      · exact h.reported ev (hlog ▸ hev) nErrorCode hkind
      · change ev ∈ s'.log at hev
        rw [hlog] at hev
        rcases List.mem_cons.mp hev with rfl | hev
        · change k = .onClosed nErrorCode at hkind
          rw [hkind] at hevent
          obtain ⟨rfl, rfl⟩ := exec_reportedCode hexec hevent
          exact (h.caused b).report (hown reportShare)
        · exact h.reported ev hev nErrorCode hkind
    show causesOf (noteCause x.1 act x.2) ev.serial = _
    rw [h.kept hsettled.ordered hs (by rw [hcause]; exact List.cons_ne_nil _ _), hcause]

/-- The causes are only noted: these are the runs of the service. -/
theorem exists_causeRuns_iff {G : View → Label → Bool} {s : State} :
    (∃ causes, CauseRuns G http listening (s, causes)) ↔ Runs G http listening s := by
  constructor
  · rintro ⟨causes, h⟩
    exact h.forget (G := Meets G) fun hmeets => hmeets
  · exact fun h => h.remember []

theorem causeRuns_settled (h : CauseRuns closeKept http listening x) : x.1.Settled :=
  closeRuns_settled (fun _ _ hkept => hkept) (exists_causeRuns_iff.mp ⟨x.2, h⟩)

/-- An instruction that does nothing. -/
theorem apply_next_nil (s : State) (j : Nat) (a : Addr) (rest : List (Addr × Instr)) :
    (s.setThread j (owned a [] ++ rest)).apply a (.next (s.client a) []) =
      s.setThread j rest := by
  have hclient : (fun b => if b = a then s.client a else s.client b) = s.client := by
    funext b
    split_ifs with hb
    · rw [hb]
    · rfl
  unfold State.apply State.setClient State.setThread
  simp [owned, hclient]

theorem causeRuns_first (h : CauseRuns closeKept http listening x) : FirstCauses x := by
  induction h with
  | start => exact .init http listening
  | @next x x' act hrun hmeets hs ih =>
      obtain ⟨hstep, hnoted⟩ := withGhost_eq_some hs
      have hfirst := ih.step (causeRuns_settled hrun) hstep
      rw [← hnoted] at hfirst
      exact hfirst

/--
**`OnClosed` reports the first cause.**  In every run whose steps meet
`closeKept` at most one `SetDisconnect` takes a client out of `CONN_CONNECTED`,
`OnClosed` is called with the code of that one, and a later `SetDisconnect`
changes nothing.
-/
theorem onClosed_first_cause (h : CauseRuns closeKept http listening x) :
    (∀ serial, (causesOf x.2 serial).length ≤ 1) ∧
      (∀ e ∈ x.1.log, ∀ nErrorCode, e.kind = .onClosed nErrorCode →
        causesOf x.2 e.serial = [nErrorCode]) ∧
      ∀ j o a errCode rest s',
        x.1.threads[j]? = some ((a, .setDisconnect errCode) :: rest) →
          causesOf x.2 (x.1.client a).serial ≠ [] → step x.1 (.run j o) = some s' →
            s' = x.1.setThread j rest := by
  have hfirst := causeRuns_first h
  refine ⟨hfirst.single, hfirst.reported, ?_⟩
  intro j o a errCode rest s' hj hcause hs
  have hnot := (hfirst.caused a).not_connected hcause
  obtain ⟨ch, hch, rfl⟩ := run_setDisconnect hj hs
  rw [exec_later hnot hch]
  exact apply_next_nil x.1 j a rest

/-- A run with its causes that can be evaluated. -/
theorem exists_causeRun
    (G : View → Label → Bool) (http listening : Bool) (as : List Action)
    (p : State × List (Nat × NetServiceErr) → Bool)
    (h :
      (runAll (withGhost step noteCause) (fun x act => Meets G x.1 act)
        (State.init http listening, []) as).any p = true) :
    ∃ x, CauseRuns G http listening x ∧ p x = true :=
  exists_reach_of_runAll h

theorem onClosed_first_cause_example :
    ∃ x : State × List (Nat × NetServiceErr),
      ⟨1, 1, .onClosed .remoteDisconnect⟩ ∈ x.1.log ∧ causesOf x.2 1 = [.remoteDisconnect] := by
  obtain ⟨x, hx, hp⟩ :=
    exists_causeRun closeKept false true sendWhileClosing
      (fun x => decide (⟨1, 1, .onClosed .remoteDisconnect⟩ ∈ x.1.log)) (by decide +kernel)
  have hlog := of_decide_eq_true hp
  exact ⟨x, hlog, (onClosed_first_cause hx).2.1 _ hlog _ rfl⟩

/-- Packets are posted to the port; the context may be missing. -/
def postQueuedSucceeds : Label → Bool
  | .run (.postQueued _) o => decide (o = .ok)
  | _ => true

/--
The sweep posts a time-out on a client whose first `WSARecv` then fails;
`CloseSocket` of the failed accept stores `CONN_CLOSING`, and the time-out
finds it.
-/
def timeOutAccepted : List Action :=
  [.getNextLogicSocketID, .allocTcpClient 0 0 .ok, .run 1 .ok, .complete 0 (.success true),
    .run 2 .ok, .run 2 .ok, .run 2 .ok,
    .checkStatus, .run 0 .ok, .run 0 .ok, .run 0 .ok, .run 0 .ok, .run 0 .ok,
    .run 2 .fail, .run 2 .ok, .run 2 .ok,
    .complete 0 (.success true), .run 3 .ok, .run 3 .ok, .run 3 .ok, .run 3 .ok, .run 3 .ok,
    .run 3 .ok]

/--
The peer closes the connection.  Between the compare-and-swap of `SetDisconnect`
and its store the application calls `CloseSocket`, whose `PostSpecial` finds no
context and counts its share back twice.
-/
def closeWithoutContext : List Action :=
  [.getNextLogicSocketID, .allocTcpClient 0 0 .ok, .run 1 .ok, .complete 0 (.success true),
    .run 2 .ok, .run 2 .ok, .run 2 .ok, .run 2 .ok, .run 2 .ok,
    .complete 0 (.success false), .run 3 .ok,
    .closeSocket 1, .run 4 .ok, .run 4 .fail, .run 4 .ok, .run 4 .ok, .run 4 .ok, .run 4 .ok,
    .run 4 .ok]

/-- `OnClosed` is called with zero: for a client without a cause, and before a cause is stored. -/
theorem onClosed_other_cause :
    (∃ x,
      CauseRuns (fun v ℓ => reportedIDs v ℓ && postsSucceed ℓ) false true x ∧
        ⟨1, 1, .onClosed .success⟩ ∈ x.1.log ∧ causesOf x.2 1 = []) ∧
      ∃ x,
        CauseRuns (fun v ℓ => reportedIDs v ℓ && postQueuedSucceeds ℓ) false true x ∧
          ⟨1, 1, .onClosed .success⟩ ∈ x.1.log ∧ causesOf x.2 1 = [.remoteDisconnect] := by
  constructor
  · obtain ⟨x, hx, hp⟩ :=
      exists_causeRun (fun v ℓ => reportedIDs v ℓ && postsSucceed ℓ) false true timeOutAccepted
        (fun x => decide (⟨1, 1, .onClosed .success⟩ ∈ x.1.log ∧ causesOf x.2 1 = []))
        (by decide +kernel)
    exact ⟨x, hx, of_decide_eq_true hp⟩
  · obtain ⟨x, hx, hp⟩ :=
      exists_causeRun (fun v ℓ => reportedIDs v ℓ && postQueuedSucceeds ℓ) false true
        closeWithoutContext
        (fun x =>
          decide (⟨1, 1, .onClosed .success⟩ ∈ x.1.log ∧ causesOf x.2 1 = [.remoteDisconnect]))
        (by decide +kernel)
    exact ⟨x, hx, of_decide_eq_true hp⟩

end Runs

end Service
end IocpNetlib
