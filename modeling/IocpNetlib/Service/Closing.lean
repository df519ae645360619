import IocpNetlib.Service.Log
import IocpNetlib.Service.Removal
import IocpNetlib.Service.Settled

/-!
# `OnClosed` is the last callback of a client

The code that calls `OnClosed` is the one that hands the client on to
`RemoveClient`.  Where the counters are right there is only one such code, and
no receive is handled while it runs.
-/

namespace IocpNetlib
namespace Service

open Ledger Reachability

/-- The call of `OnClosed`. -/
def onClosedShare : Weight where
  instr
    | .onClosed => 1
    | _ => 0
  op _ := 0

/-- The call of `OnReceived`. -/
def onReceivedShare : Weight where
  instr
    | .splitPacket => 1
    | _ => 0
  op _ := 0

/-- The code that reports a client closed. -/
def reportShare : Weight where
  instr
    | .freeRecvPacket => 1
    | .onClosed => 1
    | _ => 0
  op _ := 0

section Exec

variable {http : Bool} {c : TcpClient} {i : Instr} {o : Outcome} {ch : Change}

theorem exec_onReceived
    {k : Kind} (h : exec http c i o = some ch) (hevent : ch.event = some k)
    (hk : k.isOnReceived = true) :
    i = .splitPacket := by
  revert h
  fun_cases exec http c i o
  all_goals
    rintro ⟨⟩ <;> first | rfl | cases hevent <;> exact absurd hk Bool.false_ne_true

theorem exec_onClosed
    {k : Kind} (h : exec http c i o = some ch) (hevent : ch.event = some k)
    (hk : k.isOnClosed = true) :
    i = .onClosed := by
  revert h
  fun_cases exec http c i o
  all_goals
    rintro ⟨⟩ <;> first | rfl | cases hevent <;> exact absurd hk Bool.false_ne_true

/-- A client is reported closed from `CONN_CLOSING`. -/
theorem exec_reportShare (h : exec http c i o = some ch) :
    reportShare.code ch.push ≤ reportShare.instr i ∨
      (i = .casClosed ∧ c.mConnState = .closing) := by
  revert h
  fun_cases exec http c i o
  case case26 site _ | case29 site =>
    rintro ⟨⟩
    cases site <;> exact Or.inl (Nat.zero_le _)
  case case41 =>
    rintro ⟨⟩
    cases http <;> exact Or.inl (Nat.zero_le _)
  case case44 full =>
    rintro ⟨⟩
    simp only [Change.next, sendResult]
    split_ifs <;> exact Or.inl (Nat.zero_le _)
  case case62 =>
    rintro ⟨⟩
    simp only [Change.next]
    split_ifs <;> exact Or.inl (Nat.zero_le _)
  case case63 hclosing =>
    rintro ⟨⟩
    exact Or.inr ⟨rfl, hclosing⟩
  all_goals
    rintro ⟨⟩ <;> first | exact Or.inl (Nat.zero_le _) | exact Or.inl (Nat.le_refl _)

end Exec

theorem complete_report
    {k : OpType} {r : Completion} {code : List Instr} (h : onCompleteOperation k r = some code) :
    reportShare.code code = 0 := by
  revert h
  fun_cases onCompleteOperation k r
  all_goals
    rintro ⟨⟩ <;> rfl

/-- A receive is handled while a share of `mPendingIo` is outstanding. -/
theorem pending_of_onReceived
    {v : View} (hv : v.Lawful) (h : 0 < v.held onReceivedShare) : 0 < v.held pendingShare := by
  refine hv.rooted (fun i hi => ?_) (fun k hk => absurd hk (Nat.lt_irrefl 0)) h
  cases i
  case splitPacket => exact Or.inl rfl
  all_goals exact absurd hi (Nat.lt_irrefl 0)

section Invariant

variable {http : Bool} {v v' : View} {ℓ : Label}

/-- Whether a client is in `CONN_CLOSING`, as a number. -/
def TcpClient.closing (c : TcpClient) : Nat := if c.mConnState = .closing then 1 else 0

theorem closing_le_one (c : TcpClient) : c.closing ≤ 1 := by
  rw [TcpClient.closing]
  split_ifs <;> decide

/-- A client is not reported closed before it is released, and once after that. -/
structure View.ClosedOnce (v : View) : Prop where
  unreported : v.client.live = true → v.isReleased = false → v.seen Kind.isOnClosed = 0
  once : v.isReleased = true →
    v.seen Kind.isOnClosed + v.held reportShare + v.client.closing ≤ 1

/-- One compare-and-swap finds the client closing, and calls `OnClosed` once. -/
theorem exec_reports
    {c : TcpClient} {i : Instr} {o : Outcome} {ch : Change}
    (hrest : restShare.instr i = 0) (h : exec http c i o = some ch) :
    occurs Kind.isOnClosed ch.event + reportShare.code ch.push + ch.client.closing =
      reportShare.instr i + c.closing := by
  revert h
  fun_cases exec http c i o
  case case62 =>
    rintro ⟨⟩
    rw [Change.next_push]
    split_ifs <;> rfl
  case case63 hclosing =>
    rintro ⟨⟩
    have hone : c.closing = 1 := if_pos hclosing
    rw [hone]
    rfl
  all_goals
    rintro ⟨⟩ <;> first | rfl | exact absurd hrest Nat.one_ne_zero

/-- `OnClosed` is called by code of a released client. -/
theorem View.Sound.not_onWay
    (hv : v.Sound) (hnot : v.isReleased = false) : v.held releasedShare = 0 := by
  by_contra hne
  have hle : v.held releasedShare ≤ v.held ownerShare :=
    hv.mono (fun i => by cases i <;> exact Nat.le_of_ble_eq_true rfl) (fun k => Nat.zero_le _)
  obtain ⟨hlive, -⟩ := hv.owned (by omega)
  rw [View.isReleased_of hlive (Or.inr (Nat.pos_of_ne_zero hne))] at hnot
  cases hnot

theorem report_le_released (hv : v.Lawful) : v.held reportShare ≤ v.held releasedShare :=
  hv.mono (fun i => by cases i <;> exact Nat.le_of_ble_eq_true rfl) (fun k => Nat.zero_le _)

/-- The step that releases a client does not report it. -/
theorem View.ClosedOnce.unreleased
    (hv : v.Sound) (h : v.ClosedOnce) (hnot : v.isReleased = false)
    (hs : ClientStep http v ℓ v') (hlive' : v'.client.live = true) :
    v'.seen Kind.isOnClosed = 0 ∧ v'.held reportShare = 0 := by
  have hway := hv.not_onWay hnot
  have hzero := report_le_released hv.toLawful
  cases hs with
  | @run i o ch _ hexec own release client held seen =>
      rw [client, (exec_life hexec).1] at hlive'
      have hseen := h.unreported hlive' hnot
      have hown := own releasedShare
      have hreport := held reportShare
      rw [ops_zero (W := reportShare) fun _ => rfl] at hreport
      constructor
      · rw [seen, hseen, Nat.zero_add]
        by_contra hne
        obtain ⟨k, hevent, hclosed⟩ := occurs_pos (Nat.pos_of_ne_zero hne)
        rw [exec_onClosed hexec hevent hclosed] at hown
        have hone : releasedShare.instr .onClosed = 1 := rfl
        omega
      · rcases exec_reportShare hexec with hle | ⟨rfl, -⟩
        · omega
        · have hone : releasedShare.instr .casClosed = 1 := rfl
          omega
  | @remove i _ removes client held seen =>
      have hheld := held reportShare
      have hlive : v.client.live = true := by
        rw [client] at hlive'
        by_cases hactive : 0 < v.client.mReferenceCount
        · rwa [removed_active hactive] at hlive'
        · rw [removed_idle hactive] at hlive'
          cases hlive'
      refine ⟨?_, by omega⟩
      rw [seen]
      exact h.unreported hlive hnot
  | sweep client held seen =>
      have hlive : v.client.live = true := by
        rw [client] at hlive'
        by_cases hfree : v.client.mMarkedDestroy ∧ ¬ 0 < v.client.mReferenceCount
        · rw [swept_free hfree] at hlive'
          cases hlive'
        · rwa [swept_kept hfree] at hlive'
      rw [seen, held]
      exact ⟨h.unreported hlive hnot, by omega⟩
  | @complete k r code _ hexec own client held seen =>
      rw [client] at hlive'
      have hheld := held reportShare
      have hcode := complete_report hexec
      rw [seen]
      exact ⟨h.unreported hlive' hnot, by omega⟩
  | @find code _ hexec live client held seen =>
      have hheld := held reportShare
      have hcode : reportShare.code code = 0 := by
        rcases hexec with rfl | rfl <;> rfl
      rw [seen]
      exact ⟨h.unreported live hnot, by omega⟩
  | @alloc first id fresh n _ hexec live client held seen =>
      have hheld := held reportShare
      have hcode : reportShare.instr first = 0 := by
        rcases hexec with rfl | rfl <;> rfl
      exact ⟨seen _, by omega⟩

/-- What a released client still reports does not change. -/
theorem View.ClosedOnce.released
    (hl : v.Late) (hrel : v.isReleased = true) (hs : ClientStep http v ℓ v') :
    v'.seen Kind.isOnClosed + v'.held reportShare + v'.client.closing =
      v.seen Kind.isOnClosed + v.held reportShare + v.client.closing := by
  cases hs with
  | @run i o ch _ hexec own release client held seen =>
      have hrest : restShare.instr i = 0 := by
        have := own restShare
        have := hl.rest
        omega
      have hsum := exec_reports hrest hexec
      have hreport := held reportShare
      rw [ops_zero (W := reportShare) fun _ => rfl] at hreport
      rw [seen, client]
      omega
  | @remove i _ removes client held seen =>
      have hq : v.Quiet v' := .remove removes client held seen
      obtain ⟨_, _, _, hclient⟩ := hq.client
      rw [seen, hclient, hq.held reportShare {}]
      rfl
  | sweep client held seen =>
      have hq : v.Quiet v' := .sweep client held seen
      obtain ⟨_, _, _, hclient⟩ := hq.client
      rw [seen, hclient, hq.held reportShare {}]
      rfl
  | @complete k r code _ hexec own client held seen =>
      have hone : restShare.op k = 1 := rfl
      have := own restShare
      have := hl.rest
      omega
  | find hexec live client held seen =>
      have hq : v.Quiet v' := .find hexec client held seen
      obtain ⟨_, _, _, hclient⟩ := hq.client
      rw [seen, hclient, hq.held reportShare {}]
      rfl
  | alloc hexec live client held seen =>
      have hlive := (View.released_cases hrel).1
      rw [live] at hlive
      cases hlive

theorem View.ClosedOnce.step
    (hv : v.Settled) (h : v.ClosedOnce) (hkept : closeKept v ℓ = true)
    (hs : ClientStep http v ℓ v') : v'.ClosedOnce := by
  cases hrel : v.isReleased with
  | false =>
      have hnew := h.unreleased (hv.sound hrel) hrel hs
      refine ⟨fun hlive' _ => (hnew hlive').1, fun hrel' => ?_⟩
      obtain ⟨hseen, hreport⟩ := hnew (View.released_cases hrel').1
      rw [hseen, hreport, Nat.zero_add]
      exact closing_le_one _
  | true =>
      have hsum := View.ClosedOnce.released (hv.late hrel) hrel hs
      have honce := h.once hrel
      refine ⟨fun hlive' hnot' => ?_, fun _ => by omega⟩
      rcases hv.step hkept hs with ⟨hnot, -⟩ | ⟨-, hrel', -⟩ | ⟨-, hdead, -⟩
      · rw [hrel] at hnot
        cases hnot
      · rw [hnot'] at hrel'
        cases hrel'
      · rw [hlive'] at hdead
        cases hdead

theorem runs_closedOnce
    {listening : Bool} {s : State} (h : Runs closeKept http listening s) (a : Addr) :
    (s.view a).ClosedOnce := by
  refine settled_invariant (fun _ _ hkept => hkept) ?_ ?_ h a
  · intro v hclient hheld hseen
    refine ⟨fun hlive _ => ?_, fun hrel => ?_⟩
    · exact hseen _
    · have hlive := (View.released_cases hrel).1
      rw [hclient] at hlive
      cases hlive
  · intro v v' ℓ hv _ hI hkept _ hs
    exact hI.step hv hkept hs

/-- While `OnClosed` or a receive is handled the client has not been reported closed. -/
theorem View.ClosedOnce.pending
    (hv : v.Settled) (h : v.ClosedOnce)
    (hpos : 0 < v.held onClosedShare ∨ 0 < v.held onReceivedShare) :
    v.seen Kind.isOnClosed = 0 := by
  have hclosed : v.held onClosedShare ≤ v.held reportShare :=
    hv.mono (fun i => by cases i <;> exact Nat.le_of_ble_eq_true rfl) (fun k => Nat.zero_le _)
  have hreceived : v.held onReceivedShare ≤ v.held restShare :=
    hv.mono (fun i => by cases i <;> exact Nat.le_of_ble_eq_true rfl) (fun k => Nat.zero_le _)
  cases hrel : v.isReleased with
  | true =>
      have hrest := (hv.late hrel).rest
      have honce := h.once hrel
      omega
  | false =>
      have hsound := hv.sound hrel
      have hway := hsound.not_onWay hrel
      have hreport := report_le_released hsound.toLawful
      rcases hpos with hpos | hpos
      · omega
      · obtain ⟨hlive, -, -⟩ := hsound.busy_live (pending_of_onReceived hsound.toLawful hpos)
        exact h.unreported hlive hrel

end Invariant

/-- Neither `OnClosed` nor `OnReceived` is called for a client that was reported closed. -/
def BeforeClosed (e : Event) (log : List Event) : Prop :=
  e.kind.isOnClosed = true ∨ e.kind.isOnReceived = true →
    recorded log e.serial Kind.isOnClosed = 0

/-- At most one event of a kind is recorded that is only recorded first. -/
theorem recorded_le_one
    {p : Kind → Bool} {n : Nat} {log : List Event}
    (h : Each (fun e log => p e.kind = true → recorded log e.serial p = 0) log) :
    recorded log n p ≤ 1 := by
  induction log with
  | nil => exact Nat.zero_le _
  | cons e log ih =>
      have hrest := ih h.2
      rw [recorded] at hrest ⊢
      rw [List.countP_cons]
      by_cases hp : (decide (e.serial = n) && p e.kind) = true
      · have hp' := hp
        rw [Bool.and_eq_true, decide_eq_true_eq] at hp'
        have hzero := h.1 hp'.2
        rw [hp'.1] at hzero
        rw [recorded] at hzero
        rw [if_pos hp]
        omega
      · rw [if_neg hp]
        omega

theorem Each.imp
    {P Q : Event → List Event → Prop} (hPQ : ∀ e log, P e log → Q e log)
    {log : List Event} (h : Each P log) : Each Q log := by
  induction log with
  | nil => trivial
  | cons e log ih => exact ⟨hPQ _ _ h.1, ih h.2⟩

/--
In every run whose steps meet `closeKept`, `OnClosed` is called at most once
for a client, and `OnReceived` not after it.
-/
theorem onClosed_final
    {http listening : Bool} {s : State} (h : Runs closeKept http listening s) :
    (∀ serial, recorded s.log serial Kind.isOnClosed ≤ 1) ∧ Each BeforeClosed s.log := by
  have heach : Each BeforeClosed s.log := by
    refine runs_log ?_ h
    intro s b i o ch k hrun hexec hevent hown hkind
    have hsettled := (closeRuns_settled (fun _ _ hkept => hkept) hrun).view b
    refine (runs_closedOnce hrun b).pending hsettled ?_
    rcases hkind with hclosed | hreceived
    · rw [exec_onClosed hexec hevent hclosed] at hown
      exact Or.inl (hown onClosedShare)
    · rw [exec_onReceived hexec hevent hreceived] at hown
      exact Or.inr (hown onReceivedShare)
  exact ⟨fun _ => recorded_le_one (heach.imp fun _ _ he hp => he (Or.inl hp)), heach⟩

/--
The peer closes the connection while a thread is in `Send`.  `CheckRelease` takes
`mPendingIO` to zero, the sender takes it to one and back, and it is the sender
that calls `OnClosed`.  Both threads run `RemoveClient`, and `checkStatus` frees
the client when the sender has given its `TcpClientRef` up.
-/
def sendWhileClosing : List Action :=
  [.getNextLogicSocketID, .allocTcpClient 0 0 .ok, .run 1 .ok, .complete 0 (.success true),
    .run 2 .ok, .run 2 .ok, .run 2 .ok, .run 2 .ok, .run 2 .ok,
    .send 1, .run 3 .ok, .run 3 .ok,
    .complete 0 (.success false), .run 4 .ok, .run 4 .ok, .run 4 .ok,
    .run 3 .ok, .run 3 .fail, .run 3 .ok, .run 3 .ok, .run 3 .ok, .run 3 .ok, .run 3 .ok,
    .run 4 .ok, .run 4 .ok, .run 3 .ok, .run 3 .ok, .run 3 .ok,
    .checkStatus, .run 0 .fail, .run 0 .ok]

theorem onClosed_final_example :
    ∃ s, Runs closeKept false true s ∧ 0 < recorded s.log 1 Kind.isOnClosed ∧
      (∀ serial, recorded s.log serial Kind.isOnClosed ≤ 1) ∧ Each BeforeClosed s.log := by
  obtain ⟨s, hs, hp⟩ :=
    exists_run closeKept false true sendWhileClosing
      (fun s => decide (0 < recorded s.log 1 Kind.isOnClosed)) (by decide +kernel)
  exact ⟨s, hs, of_decide_eq_true hp, onClosed_final hs⟩

/--
The first `WSARecv` of an accepted client fails after the sweep has posted a
time-out on it.  The time-out reports the client closed; `CloseSocket` of the
failed accept sets `CONN_CLOSING` again, and the time-out of the next sweep
reports it a second time.
-/
def timeOutTwice : List Action :=
  [.getNextLogicSocketID, .allocTcpClient 0 0 .ok, .run 1 .ok, .complete 0 (.success true),
    .run 2 .ok, .run 2 .ok, .run 2 .ok,
    .checkStatus, .run 0 .ok, .run 0 .ok, .run 0 .ok, .run 0 .ok, .run 0 .ok,
    .run 2 .fail, .complete 0 (.success true), .run 3 .ok, .run 3 .ok, .run 3 .ok, .run 2 .ok,
    .run 3 .ok, .run 3 .ok, .run 3 .ok, .run 3 .ok, .run 2 .ok,
    .checkStatus, .run 0 .ok, .run 0 .ok, .run 0 .ok, .run 0 .ok, .run 0 .ok,
    .complete 0 (.success true), .run 4 .ok, .run 4 .ok, .run 4 .ok, .run 4 .ok, .run 4 .ok,
    .run 4 .ok]

/-- `OnClosed` is called twice, though no call is made and no post fails. -/
theorem onClosed_twice :
    ¬ ∀ (http listening : Bool) (s : State),
      Runs (fun v ℓ => reportedIDs v ℓ && postsSucceed ℓ) http listening s →
        (∀ serial, recorded s.log serial Kind.isOnClosed ≤ 1) ∧ Each BeforeClosed s.log := by
  intro hclaim
  obtain ⟨s, hs, hp⟩ :=
    exists_run (fun v ℓ => reportedIDs v ℓ && postsSucceed ℓ) false true timeOutTwice
      (fun s => decide (1 < recorded s.log 1 Kind.isOnClosed)) (by decide +kernel)
  exact absurd (of_decide_eq_true hp) (Nat.not_lt.mpr ((hclaim _ _ _ hs).1 1))

end Service
end IocpNetlib
