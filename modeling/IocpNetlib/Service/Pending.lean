import IocpNetlib.Service.Runs

/-!
# What `mPendingIo` counts

The operations of a client are those that are outstanding, those that are being
posted, and those whose handler has not come to the decrement of `CheckRelease`
yet; an `AcceptEx` is not one of them.  `mPendingIo` is their number as long as
no `PostSpecial` fails and no counter is cleared while an operation is left.
-/

namespace IocpNetlib
namespace Service

open Ledger Reachability

/-- One for each operation; the first decrement of a failed `PostSpecial` is not another one. -/
def operationShare : Weight where
  instr
    | .decreaseIOCount => 0
    | i => pendingShare.instr i
  op := pendingShare.op

/-- The number of operations of the client at `a`. -/
def State.operations (s : State) (a : Addr) : Nat :=
  s.held a operationShare

/--
The steps that keep `mPendingIo` exact: `PostSpecial` does not fail, and a
client is reset, or its block handed out, only when it has no operation left.
-/
def pendingKept (v : View) : Label → Bool
  | .run (.allocExceptionIOContext _) o => decide (o = .ok)
  | .run (.postQueued _) o => decide (o = .ok)
  | .run (.reset _) _ => decide (v.held operationShare = 0)
  | .alloc _ _ _ => decide (v.held operationShare = 0)
  | _ => true

/-- The instruction counts an operation and goes on to post it. -/
def Instr.countsPost : Instr → Bool
  | .postConnect _ => true
  | .postRecv _ => true
  | .increaseSend => true
  | .postSpecial _ => true
  | _ => false

/-- `mPendingIo` is the number of operations, and no code is there that the source has not. -/
structure State.Exact (s : State) : Prop where
  pending : ∀ a, (s.client a).mPendingIo = s.operations a
  stray : ∀ a, s.held a strayShare = 0

theorem operationShare_eq {i : Instr} (h : strayShare.instr i = 0) :
    operationShare.instr i = pendingShare.instr i := by
  cases i
  case decreaseIOCount => exact absurd h Nat.one_ne_zero
  all_goals rfl

theorem operationShare_code {is : List Instr} (h : strayShare.code is = 0) :
    operationShare.code is = pendingShare.code is := by
  induction is with
  | nil => rfl
  | cons i is ih =>
      rw [Weight.code_cons] at h
      rw [Weight.code_cons, Weight.code_cons, operationShare_eq (by omega), ih (by omega)]

section Exact

variable {s s' : State}

theorem exec_operations
    {http : Bool} {v : View} {i : Instr} {o : Outcome} {ch : Change}
    (hkept : pendingKept v (.run i o) = true)
    (hstray : strayShare.instr i = 0) (hpending : v.client.mPendingIo = v.held operationShare)
    (h : exec http v.client i o = some ch) :
    ch.client.mPendingIo + operationShare.instr i =
        v.client.mPendingIo + (operationShare.code ch.push + operationShare.ops ch.post : Nat) ∧
      strayShare.code ch.push = 0 := by
  have hpost : i.postsSpecial = true → o = .ok := by
    intro hi
    cases i
    case allocExceptionIOContext opType => exact of_decide_eq_true hkept
    case postQueued opType => exact of_decide_eq_true hkept
    all_goals exact absurd hi Bool.false_ne_true
  have hreset : ∀ id, i = .reset id → v.client.mPendingIo = 0 := by
    rintro id rfl
    have hzero : v.held operationShare = 0 := of_decide_eq_true hkept
    rw [hpending, hzero]
    rfl
  have hpush := exec_stray hpost hstray h
  rw [operationShare_eq hstray, operationShare_code hpush]
  exact ⟨exec_pending hpost hstray hreset h, hpush⟩

/-- One client is written, with the count it had. -/
theorem setClient_pending
    {b : Addr} {c : TcpClient} (hc : c.mPendingIo = (s.client b).mPendingIo) (a : Addr) :
    ((s.setClient b c).client a).mPendingIo = (s.client a).mPendingIo := by
  by_cases ha : a = b
  · subst ha
    rw [setClient_self, hc]
  · rw [setClient_other s ha]

theorem removed_pending (c : TcpClient) : c.removed.mPendingIo = c.mPendingIo := by
  rw [TcpClient.removed]
  split_ifs <;> rfl

theorem swept_pending (c : TcpClient) : c.swept.mPendingIo = c.mPendingIo := by
  rw [TcpClient.swept]
  split_ifs <;> rfl

theorem removeClient_pending (s : State) (id : SocketID) (a : Addr) :
    ((s.removeClient id).client a).mPendingIo = (s.client a).mPendingIo := by
  rw [State.removeClient]
  split
  · rfl
  · exact setClient_pending (removed_pending _) a

theorem removeClient_held (s : State) (id : SocketID) (a : Addr) (W : Weight) :
    (s.removeClient id).held a W = s.held a W := by
  rw [State.removeClient]
  split <;> rfl

/-- Code that looks a client up has no share of the counter. -/
theorem State.Exact.lookup
    (h : s.Exact) {j : Nat} {b : Addr} {i : Instr} {rest : List (Addr × Instr)}
    (hj : s.threads[j]? = some ((b, i) :: rest))
    (hpending : ∀ a, (s'.client a).mPendingIo = (s.client a).mPendingIo)
    (hheld : ∀ a W, s'.held a W = (s.setThread j rest).held a W)
    (hzero : operationShare.instr i = 0) :
    s'.Exact where
  pending := fun a => by
    have hset := held_next hj a operationShare
    rw [hzero, ite_self, Nat.add_zero] at hset
    rw [hpending, State.operations, hheld, hset]
    exact h.pending a
  stray := fun a => by
    have hset := held_next hj a strayShare
    rw [hheld]
    have := h.stray a
    omega

theorem State.Exact.run
    (h : s.Exact) {j : Nat} {o : Outcome} (hkept : Meets pendingKept s (.run j o))
    (hs : s.run j o = some s') :
    s'.Exact := by
  obtain ⟨b, i, rest, hj, hcase⟩ := run_cases hs
  rcases hcase with ⟨-, id, hi, rfl⟩ | ⟨-, id, rfl, hsweep⟩ | ⟨ch, hch, rfl⟩
  · refine h.lookup hj (removeClient_pending _ id) (fun a W => removeClient_held _ id a W) ?_
    rcases hi with ⟨rfl, -⟩ | rfl <;> rfl
  · obtain ⟨-, rfl⟩ := sweep_eq hsweep
    exact h.lookup hj (setClient_pending (s := s.setThread j rest) (swept_pending _))
      (fun _ _ => rfl) rfl
  · have hown := share_le_held hj strayShare
    have hstray : strayShare.instr i = 0 := by
      have := h.stray b
      omega
    have hlabel : pendingKept (s.view b) (.run i o) = true := by
      simpa only [Meets, label, hj] using hkept
    obtain ⟨hpending, hpush⟩ :=
      exec_operations (v := s.view b) hlabel hstray (h.pending b) hch
    refine ⟨fun a => ?_, fun a => ?_⟩
    · have hheld := held_exec hj ch a operationShare
      have hold := h.pending a
      rw [State.operations] at hold ⊢
      by_cases ha : a = b
      · subst ha
        rw [if_pos rfl, if_pos rfl] at hheld
        show (((s.setThread j _).setClient a ch.client).client a).mPendingIo = _
        rw [setClient_self]
        have hold' : (s.view a).client.mPendingIo = s.held a operationShare := hold
        omega
      · rw [if_neg ha, if_neg ha] at hheld
        show (((s.setThread j _).setClient b ch.client).client a).mPendingIo = _
        rw [setClient_other _ ha]
        show (s.client a).mPendingIo = _
        omega
    · have hheld := held_exec hj ch a strayShare
      have hold := h.stray a
      have hops : strayShare.ops ch.post = 0 := ops_zero (fun _ => rfl) _
      split_ifs at hheld <;> omega

/-- A thread is started on code that has no share, on a client whose counter stays. -/
theorem State.Exact.spawn
    (h : s.Exact) {b : Addr} {code : List Instr}
    (hpending : ∀ a, (s'.client a).mPendingIo = (s.client a).mPendingIo)
    (hheld : ∀ a W, s'.held a W = s.held a W + if a = b then W.code code else 0)
    (hzero : operationShare.code code = 0) (hstray : strayShare.code code = 0) :
    s'.Exact where
  pending := fun a => by
    rw [hpending, State.operations, hheld, hzero, ite_self, Nat.add_zero]
    exact h.pending a
  stray := fun a => by
    rw [hheld, hstray, ite_self, Nat.add_zero]
    exact h.stray a

theorem State.Exact.find
    (h : s.Exact) {id : SocketID} {code : List Instr}
    (hzero : operationShare.code code = 0) (hstray : strayShare.code code = 0)
    (hs : s.find id code = some s') :
    s'.Exact := by
  rcases find_cases hs with ⟨-, rfl⟩ | ⟨b, -, rfl⟩
  · exact h
  · exact h.spawn (setClient_pending rfl) (fun a W => held_spawn _ b code a W) hzero hstray

theorem State.Exact.allocTcpClient
    (h : s.Exact) {j : Nat} {b : Addr} {o : Outcome}
    (hkept : Meets pendingKept s (.allocTcpClient j b o))
    (hs : s.allocTcpClient j b o = some s') :
    s'.Exact := by
  obtain ⟨id, accepting, hj, ⟨-, rfl⟩ | ⟨rfl, -, rfl⟩⟩ := allocTcpClient_cases hs
  · exact ⟨h.pending, h.stray⟩
  · have hidle : s.held b operationShare = 0 := by
      have hlabel :
          pendingKept (s.view b)
            (.alloc (if accepting then .acceptEx else .increaseRef) id
              (s.mTcpClientMap.lookup id).isNone) = true := by
        simpa only [Meets, label, hj, Option.map_some] using hkept
      exact of_decide_eq_true hlabel
    have hpending := h.pending b
    rw [State.operations, hidle] at hpending
    refine h.spawn (setClient_pending hpending.symm) (fun a W => held_spawn _ b _ a W) ?_ ?_
    · cases accepting <;> rfl
    · cases accepting <;> rfl

theorem State.Exact.complete
    (h : s.Exact) {j : Nat} {r : Completion} (hs : step s (.complete j r) = some s') :
    s'.Exact := by
  obtain ⟨b, k, code, hj, hcode, rfl⟩ := complete_cases hs
  obtain ⟨-, hstray, -, -⟩ := complete_plain hcode
  have hcode : operationShare.code code = operationShare.op k := by
    rw [operationShare_code hstray]
    exact complete_pending hcode
  have hheld : ∀ a (W : Weight), _ := fun a W =>
    held_spawn { s with outstanding := s.outstanding.eraseIdx j } b code a W
  refine ⟨fun a => ?_, fun a => ?_⟩
  · have herase := held_dequeue hj a operationShare
    have hold := h.pending a
    rw [State.operations, hheld, hcode]
    rw [State.operations] at hold
    show (s.client a).mPendingIo = _
    omega
  · have herase := held_dequeue hj a strayShare
    have hold := h.stray a
    have hop : strayShare.op k = 0 := rfl
    rw [hheld, hstray]
    split_ifs at herase ⊢ <;> omega

theorem State.Exact.step
    (h : s.Exact) {act : Action} (hkept : Meets pendingKept s act)
    (hs : step s act = some s') :
    s'.Exact := by
  cases act with
  | otherService =>
      rcases hs with ⟨⟩
      exact ⟨h.pending, h.stray⟩
  | getNextLogicSocketID =>
      rcases hs with ⟨⟩
      exact ⟨h.pending, h.stray⟩
  | allocTcpClient j b o => exact h.allocTcpClient hkept hs
  | send socketID => exact h.find rfl rfl hs
  | closeSocket socketID => exact h.find rfl rfl hs
  | checkStatus =>
      have hview := viewStep_checkStatus hs
      refine ⟨fun a => ?_, fun a => ?_⟩
      · have hclient : s'.client a = s.client a := congrArg View.client (hview a)
        have hheld : s'.held a = s.held a := congrArg View.held (hview a)
        rw [hclient, State.operations, hheld]
        exact h.pending a
      · have hheld : s'.held a = s.held a := congrArg View.held (hview a)
        rw [hheld]
        exact h.stray a
  | complete j r => exact h.complete hs
  | run j o => exact h.run hkept hs

/-- A thread runs an instruction that looks nothing up. -/
theorem run_exec
    {j : Nat} {a : Addr} {i : Instr} {rest : List (Addr × Instr)} {o : Outcome}
    (hj : s.threads[j]? = some ((a, i) :: rest)) (hplain : i.removes = false)
    (hsweep : ∀ id, i ≠ .sweep id) (hs : s.run j o = some s') :
    ∃ ch, exec s.http (s.client a) i o = some ch ∧ s'.client a = ch.client ∧
      s'.threads[j]? = some (owned a ch.push ++ rest) := by
  obtain ⟨b, i', rest', hj', hcase⟩ := run_cases hs
  rw [hj] at hj'
  cases hj'
  rcases hcase with ⟨-, id, hi, -⟩ | ⟨-, id, rfl, -⟩ | ⟨ch, hch, rfl⟩
  · rcases hi with ⟨rfl, -⟩ | rfl <;> exact absurd hplain (by simp [Instr.removes])
  · exact absurd rfl (hsweep id)
  · refine ⟨ch, hch, setClient_self _ _ _, ?_⟩
    obtain ⟨hlt, -⟩ := List.getElem?_eq_some_iff.mp hj
    exact List.getElem?_set_self hlt

/-- A post that fails, with nothing of the client run in between, gives back what it counted. -/
theorem failedPost_pending
    {s₁ s₂ s₃ : State} {j : Nat} {a : Addr} {i : Instr} {rest : List (Addr × Instr)}
    (hj : s.threads[j]? = some ((a, i) :: rest)) (hposts : i.countsPost = true)
    (hcount : s.run j .ok = some s₁) (hkept : Meets pendingKept s₁ (.run j .fail))
    (hfail : s₁.run j .fail = some s₂) (hback : s₂.run j .ok = some s₃) :
    (s₃.client a).mPendingIo = (s.client a).mPendingIo := by
  have hplain : i.removes = false := by
    cases i <;> first | rfl | exact absurd hposts Bool.false_ne_true
  have hsweep : ∀ id, i ≠ .sweep id := by
    rintro id rfl
    exact absurd hposts Bool.false_ne_true
  obtain ⟨ch₁, hch₁, hclient₁, hj₁⟩ := run_exec hj hplain hsweep hcount
  cases i
  case postConnect | postRecv | increaseSend =>
    cases hch₁
    obtain ⟨ch₂, hch₂, hclient₂, hj₂⟩ := run_exec hj₁ rfl (by simp) hfail
    cases hch₂
    obtain ⟨ch₃, hch₃, hclient₃, -⟩ := run_exec hj₂ rfl (by simp) hback
    cases hch₃
    simp [hclient₁, hclient₂, hclient₃]
  case postSpecial opType =>
    -- the two ways `PostSpecial` fails are left out
    cases hch₁
    rw [Meets] at hkept
    simp only [label, hj₁] at hkept
    exact absurd hkept (by simp [Change.next, owned, pendingKept])
  all_goals exact absurd hposts Bool.false_ne_true

end Exact

section Runs

variable {http listening : Bool} {s : State}

theorem runs_exact (h : Runs pendingKept http listening s) : s.Exact := by
  refine h.invariant ⟨fun a => rfl, fun a => rfl⟩ ?_
  intro s s' act hexact hmeets hs
  exact hexact.step hmeets hs

/--
In every run in which no `PostSpecial` fails, and no counter is cleared while an
operation is left, `mPendingIo` is the number of operations of the client: it is
not negative, and a post that fails leaves it as it was.
-/
theorem mPendingIo_exact (h : Runs pendingKept http listening s) (a : Addr) :
    (s.client a).mPendingIo = s.operations a ∧ 0 ≤ (s.client a).mPendingIo ∧
      ∀ (j : Nat) (i : Instr) (rest : List (Addr × Instr)) (s₁ s₂ s₃ : State),
        s.threads[j]? = some ((a, i) :: rest) → i.countsPost = true →
          s.run j .ok = some s₁ → Meets pendingKept s₁ (.run j .fail) →
            s₁.run j .fail = some s₂ → s₂.run j .ok = some s₃ →
              (s₃.client a).mPendingIo = (s.client a).mPendingIo := by
  have hpending := (runs_exact h).pending a
  refine ⟨hpending, ?_, ?_⟩
  · rw [hpending]
    exact Int.natCast_nonneg _
  · intro j i rest s₁ s₂ s₃ hj hposts hcount hkept hfail hback
    exact failedPost_pending hj hposts hcount hkept hfail hback

/-- A connection is accepted and its first receive posted. -/
def acceptAndRecv : List Action :=
  [.getNextLogicSocketID, .allocTcpClient 0 0 .ok, .run 1 .ok, .complete 0 (.success true),
    .run 2 .ok, .run 2 .ok, .run 2 .ok, .run 2 .ok]

theorem mPendingIo_exact_example :
    ∃ s, Runs pendingKept false true s ∧ s.operations 0 = 1 ∧ (s.client 0).mPendingIo = 1 := by
  obtain ⟨s, hs, hp⟩ :=
    exists_run pendingKept false true acceptAndRecv (fun s => decide (s.operations 0 = 1))
      (by decide +kernel)
  have hone : s.operations 0 = 1 := of_decide_eq_true hp
  refine ⟨s, hs, hone, ?_⟩
  rw [(mPendingIo_exact hs 0).1, hone]
  rfl

/-- The sweep times the client out and `AllocExceptionIOContext` fails. -/
def timeoutNotPosted : List Action :=
  acceptAndRecv ++
    [.run 2 .ok, .checkStatus, .run 0 .ok, .run 0 .ok, .run 0 .fail, .run 0 .ok, .run 0 .ok]

/-- A `PostSpecial` that fails takes two from `mPendingIo`, with the receive still outstanding. -/
theorem mPendingIo_lost :
    ¬ ∀ (http listening : Bool) (s : State), Runs (fun _ _ => true) http listening s →
      ∀ a, (s.client a).live = true → (s.client a).mOperationType ≠ .accept →
        (s.client a).mPendingIo = s.operations a := by
  intro hclaim
  obtain ⟨s, hs, hp⟩ :=
    exists_run (fun _ _ => true) false true timeoutNotPosted
      (fun s =>
        ((s.client 0).live && decide ((s.client 0).mOperationType = .recv)) &&
          decide ((s.client 0).mPendingIo ≠ s.operations 0))
      (by decide +kernel)
  rw [Bool.and_eq_true, Bool.and_eq_true, decide_eq_true_eq, decide_eq_true_eq] at hp
  obtain ⟨⟨hlive, hrecv⟩, hne⟩ := hp
  exact hne (hclaim _ _ _ hs 0 hlive (by rw [hrecv]; decide))

end Runs

end Service
end IocpNetlib
