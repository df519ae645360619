import IocpNetlib.Service.CheckStatus

/-!
# A pass of `checkStatus` in the running service

The model of a pass follows the source; the running service has the same code
cut into instructions of the assist thread.  `checkStatus_runs` connects the two:
a pass that comes to its end is a run of that thread, and one that loses an entry
leaves the thread with an instruction it cannot run.
-/

namespace IocpNetlib
namespace Service

open Ledger Reachability

section Assist

variable {s s' : State} {a : Addr} {rest : List (Addr × Instr)}

/-- The steps of the assist thread. -/
def byAssist (_ : State) (act : Action) : Prop :=
  ∃ o, act = .run 0 o

theorem setClient_same (s : State) (a : Addr) : s.setClient a (s.client a) = s := by
  have hclient : (fun b => if b = a then s.client a else s.client b) = s.client := by
    funext b
    by_cases hb : b = a
    · rw [if_pos hb, hb]
    · rw [if_neg hb]
  rw [State.setClient, hclient]

theorem apply_next (s : State) (a : Addr) (c : TcpClient) (push : List Instr) :
    s.apply a (.next c push) = s.setClient a c := by
  simp [State.apply, Change.next, owned, State.setClient]

theorem apply_event (s : State) (a : Addr) (c : TcpClient) (push : List Instr) (k : Kind) :
    s.apply a ⟨c, push, [], some k⟩ = (s.record a k).setClient a c := by
  simp [State.apply, owned, State.record, State.setClient]

theorem setThread_setThread (s : State) (j : Nat) (code code' : List (Addr × Instr)) :
    (s.setThread j code).setThread j code' = s.setThread j code' := by
  simp [State.setThread]

/-- The assist thread runs an instruction that does not use the map. -/
theorem assist_exec
    (rest : List (Addr × Instr)) (hs : 0 < s.threads.length) {i : Instr} {o : Outcome} {ch : Change}
    (hex : exec s.http (s.client a) i o = some ch) :
    Reach step byAssist (s.setThread 0 ((a, i) :: rest))
      ((s.apply a ch).setThread 0 (owned a ch.push ++ rest)) := by
  apply Reach.single ⟨o, rfl⟩
  have hj : (s.setThread 0 ((a, i) :: rest)).threads[0]? = some ((a, i) :: rest) :=
    List.getElem?_set_self hs
  have hex' :
      exec (s.setThread 0 ((a, i) :: rest)).http
        ((s.setThread 0 ((a, i) :: rest)).client a) i o = some ch := hex
  rw [step, State.run, hj]
  cases i
  case removeClient id => exact absurd hex exec_not_remove
  case removeSelf => cases o <;> exact absurd hex (by simp [exec])
  case sweep id => cases o <;> exact absurd hex (by simp [exec])
  all_goals
    simp only [hex', setThread_setThread]
    rfl

/-- It only changes fields of the client. -/
theorem assist_set
    (rest : List (Addr × Instr)) (hs : 0 < s.threads.length) {i : Instr} {o : Outcome}
    {c : TcpClient} {push : List Instr}
    (hex : exec s.http (s.client a) i o = some (.next c push)) :
    Reach step byAssist (s.setThread 0 ((a, i) :: rest))
      ((s.setClient a c).setThread 0 (owned a push ++ rest)) := by
  have hrun := assist_exec rest hs hex
  rw [apply_next] at hrun
  exact hrun

/-- It only decides how the thread goes on. -/
theorem assist_skip
    (rest : List (Addr × Instr)) (hs : 0 < s.threads.length) {i : Instr} {o : Outcome}
    {push : List Instr} (hex : exec s.http (s.client a) i o = some (.next (s.client a) push)) :
    Reach step byAssist (s.setThread 0 ((a, i) :: rest))
      (s.setThread 0 (owned a push ++ rest)) := by
  have hrun := assist_set rest hs hex
  rw [setClient_same] at hrun
  exact hrun

/-- It is a call that is recorded. -/
theorem assist_record
    (rest : List (Addr × Instr)) (hs : 0 < s.threads.length) {i : Instr} {o : Outcome}
    {push : List Instr} {k : Kind}
    (hex : exec s.http (s.client a) i o = some ⟨s.client a, push, [], some k⟩) :
    Reach step byAssist (s.setThread 0 ((a, i) :: rest))
      ((s.record a k).setThread 0 (owned a push ++ rest)) := by
  have hrun := assist_exec rest hs hex
  rw [apply_event] at hrun
  have hsame := setClient_same (s.record a k) a
  change (s.record a k).setClient a (s.client a) = s.record a k at hsame
  rw [hsame] at hrun
  exact hrun

theorem removeClient_setThread (s : State) (id : SocketID) (j : Nat)
    (code : List (Addr × Instr)) :
    (s.setThread j code).removeClient id = (s.removeClient id).setThread j code := by
  have hmap : (s.setThread j code).mTcpClientMap = s.mTcpClientMap := rfl
  rw [State.removeClient, State.removeClient, hmap]
  cases s.mTcpClientMap.lookup id <;> rfl

theorem casClosed_threads (s : State) (a : Addr) : (s.casClosed a).threads = s.threads := by
  rw [State.casClosed]
  split_ifs
  · show (State.releaseRecvPacket _ a).threads = s.threads
    rw [State.releaseRecvPacket]
    split_ifs <;> rfl
  · rfl

theorem checkRelease_threads (s : State) (a : Addr) : (s.checkRelease a).threads = s.threads := by
  rw [State.checkRelease]
  split_ifs
  · rw [State.removeClient]
    split <;> exact casClosed_threads _ a
  · rfl

theorem postSpecial_threads (s : State) (a : Addr) (opType : OpType) (o : PostOutcome) :
    (s.postSpecial a opType o).threads = s.threads := by
  cases o with
  | noContext => exact checkRelease_threads _ a
  | notQueued => exact checkRelease_threads _ a
  | queued => rfl

theorem releaseRecvPacket_runs (hs : 0 < s.threads.length) :
    Reach step byAssist (s.setThread 0 ((a, .freeRecvPacket) :: rest))
      ((s.releaseRecvPacket a).setThread 0 ((a, .onClosed) :: rest)) := by
  rw [State.releaseRecvPacket]
  by_cases hbuffer : (s.client a).mRecvPacketBuffer = true
  · have hex :
        exec s.http (s.client a) .freeRecvPacket .ok =
          some ⟨{ s.client a with mRecvPacketBuffer := false, holdsRecvPacket := false },
            [.onClosed], [], some (.release .recvPacket)⟩ := by
      simp [exec, hbuffer]
    have hrun := assist_exec rest hs hex
    rw [apply_event] at hrun
    rw [if_pos hbuffer]
    exact hrun
  · have hex :
        exec s.http (s.client a) .freeRecvPacket .ok =
          some (.next (s.client a) [.onClosed]) := by
      simp [exec, hbuffer]
    rw [if_neg hbuffer]
    exact assist_skip rest hs hex

/-- The end of the last user of a client, as the assist thread runs it. -/
theorem casClosed_runs (hs : 0 < s.threads.length) :
    Reach step byAssist (s.setThread 0 ((a, .casClosed) :: rest))
      ((s.casClosed a).setThread 0 ((a, .removeSelf) :: rest)) := by
  rw [State.casClosed]
  by_cases hclosing : (s.client a).mConnState = .closing
  · rw [if_pos hclosing]
    let s₁ := s.setClient a { s.client a with mConnState := .closed }
    have hcas :
        exec s.http (s.client a) .casClosed .ok =
          some (.next { s.client a with mConnState := .closed } [.freeRecvPacket]) := by
      simp [exec, hclosing]
    have hlength : 0 < (s₁.releaseRecvPacket a).threads.length := by
      rw [State.releaseRecvPacket]
      split_ifs <;> exact hs
    have hcall := assist_record (a := a) rest hlength (i := .onClosed) (o := .ok) rfl
    exact ((assist_set rest hs hcas).trans (releaseRecvPacket_runs (s := s₁) hs)).trans hcall
  · rw [if_neg hclosing]
    have hcas :
        exec s.http (s.client a) .casClosed .ok =
          some (.next (s.client a) [.removeSelf]) := by
      simp [exec, hclosing]
    exact assist_skip rest hs hcas

theorem removeSelf_runs (hs : 0 < s.threads.length) :
    Reach step byAssist (s.setThread 0 ((a, .removeSelf) :: rest))
      ((s.removeClient (s.client a).mLogicSocketID).setThread 0 rest) := by
  apply Reach.single ⟨.ok, rfl⟩
  have hj : (s.setThread 0 ((a, .removeSelf) :: rest)).threads[0]? =
      some ((a, .removeSelf) :: rest) :=
    List.getElem?_set_self hs
  rw [step, State.run, hj]
  simp only [true_or, and_self, if_true, setThread_setThread]
  exact congrArg some (removeClient_setThread s _ 0 rest)

theorem checkRelease_runs (hs : 0 < s.threads.length) :
    Reach step byAssist (s.setThread 0 ((a, .checkRelease) :: rest))
      ((s.checkRelease a).setThread 0 rest) := by
  have hdec := assist_set (a := a) rest hs (i := .checkRelease) (o := .ok) rfl
  rw [State.checkRelease]
  by_cases hzero : (s.client a).mPendingIo - 1 = 0
  · have hzero' : ((s.decreaseIOCount a).client a).mPendingIo = 0 := by
      rw [State.decreaseIOCount, setClient_self]
      exact hzero
    rw [if_pos hzero']
    rw [if_pos hzero] at hdec
    have hlength : 0 < ((s.decreaseIOCount a).casClosed a).threads.length := by
      rw [casClosed_threads]
      exact hs
    exact (hdec.trans (casClosed_runs hs)).trans (removeSelf_runs hlength)
  · have hzero' : ((s.decreaseIOCount a).client a).mPendingIo ≠ 0 := by
      rw [State.decreaseIOCount, setClient_self]
      exact hzero
    rw [if_neg hzero']
    rw [if_neg hzero] at hdec
    exact hdec

/-- `PostSpecial`, as the assist thread runs it. -/
theorem postSpecial_runs (hs : 0 < s.threads.length) (opType : OpType) (o : PostOutcome) :
    Reach step byAssist (s.setThread 0 ((a, .postSpecial opType) :: rest))
      ((s.postSpecial a opType o).setThread 0 rest) := by
  let s₁ := s.increaseIOCount a
  have hinc := assist_set (a := a) rest hs (i := .postSpecial opType) (o := .ok) rfl
  cases o with
  | noContext =>
      have halloc :=
        assist_skip (s := s₁) (a := a) rest hs (i := .allocExceptionIOContext opType)
          (o := .fail) rfl
      have hdec :=
        assist_set (s := s₁) (a := a) ((a, .checkRelease) :: rest) hs (i := .decreaseIOCount)
          (o := .ok) rfl
      exact ((hinc.trans halloc).trans hdec).trans
        (checkRelease_runs (s := s₁.decreaseIOCount a) hs)
  | notQueued =>
      let s₂ := s₁.record a (.acquire .exceptionContext)
      let s₃ := s₂.record a (.release .exceptionContext)
      have halloc :=
        assist_record (s := s₁) (a := a) rest hs (i := .allocExceptionIOContext opType)
          (o := .ok) rfl
      have hpost :=
        assist_skip (s := s₂) (a := a) rest hs (i := .postQueued opType) (o := .fail) rfl
      have hrelease :=
        assist_record (s := s₂) (a := a) ((a, .decreaseIOCount) :: (a, .checkRelease) :: rest) hs
          (i := .releaseExceptionIOContext) (o := .ok) rfl
      have hdec :=
        assist_set (s := s₃) (a := a) ((a, .checkRelease) :: rest) hs (i := .decreaseIOCount)
          (o := .ok) rfl
      exact ((((hinc.trans halloc).trans hpost).trans hrelease).trans hdec).trans
        (checkRelease_runs (s := s₃.decreaseIOCount a) hs)
  | queued =>
      let s₂ := s₁.record a (.acquire .exceptionContext)
      have halloc :=
        assist_record (s := s₁) (a := a) rest hs (i := .allocExceptionIOContext opType)
          (o := .ok) rfl
      have hpost :=
        assist_exec (s := s₂) (a := a) rest hs (i := .postQueued opType) (o := .ok) rfl
      have hqueued : s₂.apply a ⟨s₂.client a, [], [opType], none⟩ =
          { s₂ with outstanding := s₂.outstanding ++ [(a, opType)] } := by
        have hsame := setClient_same s₂ a
        simp only [State.apply, owned, List.map_cons, List.map_nil, hsame]
      rw [hqueued] at hpost
      exact (hinc.trans halloc).trans hpost

namespace StatusCheck

variable {k : StatusCheck} {p p' : Sweep} {e : SocketID × Addr} {m : List (SocketID × Addr)}

theorem timeOut_threads (k : StatusCheck) (p : Sweep) (e : SocketID × Addr) :
    (k.timeOut p e.1 e.2).service.threads = p.service.threads := by
  rw [timeOut]
  split_ifs
  · exact postSpecial_threads _ _ _ _
  · rfl

/-- A visit, up to the second read of the entry. -/
theorem timeOut_runs
    (hs : 0 < p.service.threads.length) (hacc : (p.service.client e.2).isAccepting = false) :
    Reach step byAssist (p.service.setThread 0 ((e.2, .visit e.1) :: rest))
      ((k.timeOut p e.1 e.2).service.setThread 0 ((e.2, .sweep e.1) :: rest)) := by
  have hop : (p.service.client e.2).mOperationType ≠ .accept := of_decide_eq_false hacc
  rw [timeOut]
  by_cases hidle : k.isIdle e.2 = true
  · rw [if_pos hidle]
    have hvisit :
        exec p.service.http (p.service.client e.2) (.visit e.1) .ok =
          some (.next (p.service.client e.2) [.postSpecial .timeout, .sweep e.1]) := by
      simp [exec, hop]
    exact (assist_skip rest hs hvisit).trans (postSpecial_runs hs .timeout (k.post e.1))
  · rw [if_neg hidle]
    have hvisit :
        exec p.service.http (p.service.client e.2) (.visit e.1) .fail =
          some (.next (p.service.client e.2) [.sweep e.1]) := by
      simp [exec, hop]
    exact assist_skip rest hs hvisit

theorem run_sweep
    (s : State) (rest : List (Addr × Instr)) (hs : 0 < s.threads.length)
    (e : SocketID × Addr) :
    (s.setThread 0 ((e.2, .sweep e.1) :: rest)).run 0 .ok =
      (s.sweep e.2 e.1).map fun s' => s'.setThread 0 rest := by
  have hj : (s.setThread 0 ((e.2, .sweep e.1) :: rest)).threads[0]? =
      some ((e.2, .sweep e.1) :: rest) :=
    List.getElem?_set_self hs
  rw [State.run, hj]
  simp only [if_true, setThread_setThread]
  rw [State.sweep, State.sweep]
  by_cases hlook : s.mTcpClientMap.lookup e.1 = some e.2
  · rw [if_pos hlook, if_pos (show (s.setThread 0 rest).mTcpClientMap.lookup e.1 = _ from hlook)]
    rfl
  · rw [if_neg hlook,
      if_neg (show ¬ (s.setThread 0 rest).mTcpClientMap.lookup e.1 = _ from hlook)]
    rfl

/-- A visit that is done is a run of the assist thread. -/
theorem visit_runs
    (rest : List (Addr × Instr)) (h : p.service.Indexed) (he : e ∈ p.service.mTcpClientMap)
    (hs : 0 < p.service.threads.length) {itor : Option SocketID}
    (hvisit : k.visit p e.1 = .ok (p', itor)) :
    Reach step byAssist (p.service.setThread 0 ((e.2, .visit e.1) :: rest))
        (p'.service.setThread 0 rest) ∧
      p'.service.threads = p.service.threads := by
  rw [visit, h.deref he] at hvisit
  cases hacc : (p.service.client e.2).isAccepting with
  | true =>
      simp only [hacc, if_true, Except.ok.injEq, Prod.mk.injEq] at hvisit
      obtain ⟨rfl, -⟩ := hvisit
      have hop : (p.service.client e.2).mOperationType = .accept := of_decide_eq_true hacc
      have hex :
          exec p.service.http (p.service.client e.2) (.visit e.1) .fail =
            some (.next (p.service.client e.2) []) := by
        simp [exec, hop]
      exact ⟨assist_skip rest hs hex, rfl⟩
  | false =>
      have hthreads := timeOut_threads k p e
      simp only [hacc, Bool.false_eq_true, if_false] at hvisit
      split at hvisit
      · cases hvisit
      · next s' hsweep =>
          obtain ⟨rfl, -⟩ := Prod.mk.inj (Except.ok.inj hvisit)
          have hrun := run_sweep _ rest (hthreads.symm ▸ hs) e
          rw [hsweep] at hrun
          refine ⟨(timeOut_runs hs hacc).trans (.single ⟨.ok, rfl⟩ hrun), ?_⟩
          obtain ⟨-, rfl⟩ := sweep_eq hsweep
          exact hthreads

/-- The visits that `checkStatus` gives to the assist thread. -/
def visitCode (m : List (SocketID × Addr)) : List (Addr × Instr) :=
  m.map fun e => (e.2, .visit e.1)

/-- A pass that comes to the end of the map is a run of the assist thread. -/
theorem loop_runs :
    ∀ {m pre : List (SocketID × Addr)} {p p' : Sweep},
      p.service.Indexed → p.service.mTcpClientMap = pre ++ m → 0 < p.service.threads.length →
      k.loop m.length (m.head?.map Prod.fst) p = .ok p' →
      Reach step byAssist (p.service.setThread 0 (visitCode m)) (p'.service.setThread 0 []) ∧
        p'.service.threads = p.service.threads := by
  intro m
  induction m with
  | nil =>
      intro _ p p' _ _ _ hloop
      cases hloop
      exact ⟨.start, rfl⟩
  | cons e m ih =>
      intro pre p p' h hmap hs hloop
      have he : e ∈ p.service.mTcpClientMap := by
        rw [hmap]
        exact List.mem_append_right _ List.mem_cons_self
      change k.loop (m.length + 1) (some e.1) p = .ok p' at hloop
      rw [loop] at hloop
      by_cases hlose : k.Loses p.service e
      · rw [visit_loses h he hlose] at hloop
        cases hloop
      · obtain ⟨p₁, hvisit, hdone, hmap'⟩ := visit_ok h hmap hlose
        rw [hvisit] at hloop
        obtain ⟨hrun, hthreads⟩ := visit_runs (visitCode m) h he hs hvisit
        obtain ⟨hrest, hthreads'⟩ := ih hdone.indexed hmap' (hthreads.symm ▸ hs) hloop
        exact ⟨hrun.trans hrest, hthreads'.trans hthreads⟩

/-- A pass that loses an entry leaves the assist thread with a read it cannot make. -/
theorem loop_stuck :
    ∀ {m pre : List (SocketID × Addr)} {p : Sweep} {f : SweepFault},
      p.service.Indexed → p.service.mTcpClientMap = pre ++ m → 0 < p.service.threads.length →
      k.loop m.length (m.head?.map Prod.fst) p = .error f →
      ∃ (s' : State) (x : SocketID × Addr) (rest : List (Addr × Instr)),
        Reach step byAssist (p.service.setThread 0 (visitCode m)) s' ∧
        s'.threads[0]? = some ((x.2, .sweep x.1) :: rest) ∧ f = .erased x.1 ∧
        s'.run 0 .ok = none := by
  intro m
  induction m with
  | nil =>
      intro _ p f _ _ _ hloop
      cases hloop
  | cons e m ih =>
      intro pre p f h hmap hs hloop
      have he : e ∈ p.service.mTcpClientMap := by
        rw [hmap]
        exact List.mem_append_right _ List.mem_cons_self
      change k.loop (m.length + 1) (some e.1) p = .error f at hloop
      rw [loop] at hloop
      by_cases hlose : k.Loses p.service e
      · have hvisit := visit_loses h he hlose
        rw [hvisit] at hloop
        have hacc := hlose.1
        rw [visit, h.deref he] at hvisit
        simp only [hacc, Bool.false_eq_true, if_false] at hvisit
        split at hvisit
        · next hsweep =>
            have hthreads : 0 < (k.timeOut p e.1 e.2).service.threads.length := by
              rw [timeOut_threads]
              exact hs
            have hrun := run_sweep _ (visitCode m) hthreads e
            rw [hsweep] at hrun
            refine ⟨_, e, visitCode m, timeOut_runs hs hacc, ?_, ?_, hrun⟩
            · exact List.getElem?_set_self hthreads
            · injection hloop with hf
              exact hf.symm
        · cases hvisit
      · obtain ⟨p₁, hvisit, hdone, hmap'⟩ := visit_ok h hmap hlose
        rw [hvisit] at hloop
        obtain ⟨hrun, hthreads⟩ := visit_runs (visitCode m) h he hs hvisit
        obtain ⟨s', x, rest, hrest, hstuck⟩ :=
          ih hdone.indexed hmap' (hthreads.symm ▸ hs) hloop
        exact ⟨s', x, rest, hrun.trans hrest, hstuck⟩

/-- `checkStatus` and the steps of the assist thread. -/
def inSweep (_ : State) (act : Action) : Prop :=
  act = .checkStatus ∨ ∃ o, act = .run 0 o

theorem checkStatus_starts {ts : List (List (Addr × Instr))} (hts : s.threads = [] :: ts) :
    Reach step inSweep s (s.setThread 0 (visitCode s.mTcpClientMap)) := by
  refine Reach.single (a := .checkStatus) (Or.inl rfl) ?_
  rw [step, hts]
  simp only [State.setThread, hts, List.set_cons_zero, visitCode]

/--
A pass is a run of the assist thread of the service, to its end or to the read
that it cannot make.
-/
theorem checkStatus_runs
    (k : StatusCheck) (h : s.Indexed) {ts : List (List (Addr × Instr))}
    (hts : s.threads = [] :: ts) :
    match k.checkStatus s with
    | .ok p => Reach step inSweep s p.service
    | .error f =>
        ∃ (s' : State) (x : SocketID × Addr) (rest : List (Addr × Instr)),
          Reach step inSweep s s' ∧ s'.threads[0]? = some ((x.2, .sweep x.1) :: rest) ∧
          f = .erased x.1 ∧ s'.run 0 .ok = none := by
  have hs : 0 < s.threads.length := by
    rw [hts]
    exact Nat.succ_pos _
  have hstart := checkStatus_starts hts
  have hassist : ∀ {s₁ s₂ : State}, Reach step byAssist s₁ s₂ → Reach step inSweep s₁ s₂ :=
    fun hrun => hrun.mono fun hact => Or.inr hact
  split
  · next p hp =>
      obtain ⟨hrun, hthreads⟩ := loop_runs (p := ⟨s, [], []⟩) h (List.nil_append _).symm hs hp
      have hend : p.service.setThread 0 [] = p.service := by
        rw [State.setThread, hthreads, hts, List.set_cons_zero, ← hts, ← hthreads]
      rw [hend] at hrun
      exact hstart.trans (hassist hrun)
  · next f hf =>
      obtain ⟨s', x, rest, hrun, hstuck⟩ :=
        loop_stuck (p := ⟨s, [], []⟩) h (List.nil_append _).symm hs hf
      exact ⟨s', x, rest, hstart.trans (hassist hrun), hstuck⟩

end StatusCheck

end Assist

end Service
end IocpNetlib
