import IocpNetlib.Lib.Ledger
import IocpNetlib.Lib.Reach

/-!
# The life of the `TcpAcceptor`

`StartNetService` makes the acceptor, and deletes it again when `Initialize`
fails.  From then on the worker whose `DecrementPending` returns zero deletes
it.  `StopNetService` closes its socket, so that the accepts that are
outstanding come back, and waits for the deletion for at most a second.

One thread starts and stops the service; the completions of `AcceptEx` are
handled on any number of worker threads.  Every use of the object, every
interlocked operation and every call of the system is one step.
-/

namespace IocpNetlib
namespace Service

open Ledger Reachability

/-- What the thread that starts and stops the service does next. -/
inductive MainStep
  -- `Initialize`, up to its loop
  | listen
  -- the loop of `Initialize`, and its `PostAccept` number `i`
  | loop (i : Nat)
  | isInvalid (i : Nat)
  | allocTcpClient (i : Nat)
  | incrementPending (i : Nat)
  | acceptEx (i : Nat)
  | decrementPending (i : Nat)
  -- `UnInitialize`, and the end of `StartNetService`
  | closeUnInit
  | storeUnInit
  | deleteAcceptor
  | started
  | failed
  -- `StopNetService`, and `PostCancel`
  | testAcceptor
  | cancel
  | shutdownCancel
  | closeCancel
  | storeCancel
  | waitReleased
  | stopped
deriving DecidableEq, Repr

/-- What a worker that handles a completion of the acceptor does next. -/
inductive WorkerStep
  -- `AcceptConnection`, or the end of the client
  | acceptConnection
  -- `PostAccept`
  | isInvalid
  | allocTcpClient
  | incrementPending
  | acceptEx
  | decrementFailed
  -- `DecrementPending() == 0`, and what follows
  | decrementPending
  | shutdown
  | close
  | store
  | onAcceptorReleased
  | deleteThis
  | returned
deriving DecidableEq, Repr

/--
The fields of the acceptor, and those of the service that matter to it.
`socketOpen` is the socket of the system behind `mSocket`, and `outstanding`
counts the accepts that were posted and not completed.  The last three fields
record what happened to the object.
-/
structure AcceptorState where
  backLog : Int
  main : MainStep
  workers : List WorkerStep
  mSocketValid : Bool
  socketOpen : Bool
  mPendingAcceptCount : Int
  outstanding : Nat
  mMarkedStop : Bool
  mTcpAcceptor : Bool
  deletions : Nat
  usedAfterDeletion : Bool
  deletedInUse : Bool
deriving DecidableEq, Repr

/-- `StartNetService` has made the acceptor; a backlog of zero is replaced by eight. -/
def AcceptorState.start (listenBacklog : Int) : AcceptorState :=
  { backLog := if listenBacklog = 0 then 8 else listenBacklog
    main := .listen
    workers := []
    mSocketValid := false
    socketOpen := false
    mPendingAcceptCount := 0
    outstanding := 0
    mMarkedStop := false
    mTcpAcceptor := true
    deletions := 0
    usedAfterDeletion := false
    deletedInUse := false }

/-- The steps that use the object. -/
def MainStep.uses : MainStep → Bool
  | .loop _ | .allocTcpClient _ | .started | .failed => false
  | .testAcceptor | .waitReleased | .stopped => false
  | _ => true

def WorkerStep.uses : WorkerStep → Bool
  | .allocTcpClient | .onAcceptorReleased | .returned => false
  | _ => true

/-- A use of the object is recorded when the object is gone. -/
def AcceptorState.use (s : AcceptorState) (uses : Bool) : AcceptorState :=
  { s with usedAfterDeletion := s.usedAfterDeletion || (uses && decide (0 < s.deletions)) }

/-- The object is deleted while `others` are what the other workers do. -/
def AcceptorState.delete (s : AcceptorState) (others : List WorkerStep) : AcceptorState :=
  { s with
    deletions := s.deletions + 1
    deletedInUse :=
      s.deletedInUse || decide (s.outstanding ≠ 0 ∨ ∃ w ∈ others, w ≠ .returned) }

/--
A step of the thread that starts and stops the service; `ok` is what the system
or the client pool answers.
-/
def AcceptorState.stepMain (s : AcceptorState) (ok : Bool) : Option AcceptorState :=
  match s.main with
  | .listen =>
      if ok then some { s with main := .loop 0, mSocketValid := true, socketOpen := true }
      else some { s with main := .closeUnInit }
  | .loop i =>
      if (i : Int) < s.backLog then some { s with main := .isInvalid i }
      else some { s with main := .started }
  | .isInvalid i =>
      if s.mSocketValid then some { s with main := .allocTcpClient i }
      else some { s with main := .closeUnInit }
  | .allocTcpClient i =>
      if ok = false then some { s with main := .closeUnInit }
      else if s.mMarkedStop then none
      else some { s with main := .incrementPending i }
  | .incrementPending i =>
      some
        { s with
          main := .acceptEx i
          mPendingAcceptCount := s.mPendingAcceptCount + 1 }
  | .acceptEx i =>
      if ok = false then some { s with main := .decrementPending i }
      else if s.socketOpen then
        some { s with main := .loop (i + 1), outstanding := s.outstanding + 1 }
      else none
  | .decrementPending _ =>
      some
        { s with
          main := .closeUnInit
          mPendingAcceptCount := s.mPendingAcceptCount - 1 }
  | .closeUnInit =>
      if s.mSocketValid then some { s with main := .storeUnInit, socketOpen := false }
      else some { s with main := .deleteAcceptor }
  | .storeUnInit => some { s with main := .deleteAcceptor, mSocketValid := false }
  | .deleteAcceptor => some { s.delete s.workers with main := .failed, mTcpAcceptor := false }
  | .started => some { s with main := .testAcceptor, mMarkedStop := true }
  | .failed => some { s with main := .testAcceptor, mMarkedStop := true }
  | .testAcceptor =>
      if s.mTcpAcceptor then some { s with main := .cancel }
      else some { s with main := .stopped }
  | .cancel =>
      if s.mSocketValid then some { s with main := .shutdownCancel }
      else some { s with main := .waitReleased }
  | .shutdownCancel => some { s with main := .closeCancel }
  | .closeCancel =>
      if s.mSocketValid then some { s with main := .storeCancel, socketOpen := false }
      else some { s with main := .waitReleased }
  | .storeCancel => some { s with main := .waitReleased, mSocketValid := false }
  | .waitReleased =>
      -- the event is set, or the second is over
      some { s with main := .stopped, mTcpAcceptor := false }
  | .stopped => none

/-- A step of worker `j`. -/
def AcceptorState.stepWorker (s : AcceptorState) (j : Nat) (ok : Bool) : Option AcceptorState :=
  match s.workers[j]? with
  | none => none
  | some .acceptConnection => some { s with workers := s.workers.set j .isInvalid }
  | some .isInvalid =>
      if s.mSocketValid then some { s with workers := s.workers.set j .allocTcpClient }
      else some { s with workers := s.workers.set j .decrementPending }
  | some .allocTcpClient =>
      if ok = false then some { s with workers := s.workers.set j .decrementPending }
      else if s.mMarkedStop then none
      else some { s with workers := s.workers.set j .incrementPending }
  | some .incrementPending =>
      some
        { s with
          workers := s.workers.set j .acceptEx
          mPendingAcceptCount := s.mPendingAcceptCount + 1 }
  | some .acceptEx =>
      if ok = false then some { s with workers := s.workers.set j .decrementFailed }
      else if s.socketOpen then
        some
          { s with
            workers := s.workers.set j .decrementPending
            outstanding := s.outstanding + 1 }
      else none
  | some .decrementFailed =>
      some
        { s with
          workers := s.workers.set j .decrementPending
          mPendingAcceptCount := s.mPendingAcceptCount - 1 }
  | some .decrementPending =>
      some
        { s with
          workers :=
            s.workers.set j (if s.mPendingAcceptCount - 1 = 0 then .shutdown else .returned)
          mPendingAcceptCount := s.mPendingAcceptCount - 1 }
  | some .shutdown => some { s with workers := s.workers.set j .close }
  | some .close =>
      if s.mSocketValid then
        some { s with workers := s.workers.set j .store, socketOpen := false }
      else some { s with workers := s.workers.set j .onAcceptorReleased }
  | some .store =>
      some { s with workers := s.workers.set j .onAcceptorReleased, mSocketValid := false }
  | some .onAcceptorReleased => some { s with workers := s.workers.set j .deleteThis }
  | some .deleteThis =>
      some { s.delete (s.workers.eraseIdx j) with workers := s.workers.set j .returned }
  | some .returned => none

/-- A step of one of the threads, or the completion of an accept, which a worker then handles. -/
inductive AcceptorAction
  | main (ok : Bool)
  | worker (j : Nat) (ok : Bool)
  | complete
deriving DecidableEq, Repr

/-- One step. -/
def AcceptorState.step (s : AcceptorState) : AcceptorAction → Option AcceptorState
  | .main ok => (s.use s.main.uses).stepMain ok
  | .worker j ok => (s.use (s.workers[j]?.any WorkerStep.uses)).stepWorker j ok
  | .complete =>
      match s.outstanding with
      | 0 => none
      | outstanding + 1 =>
          some
            { s with
              outstanding := outstanding
              workers := s.workers ++ [.acceptConnection] }

/-- The object is deleted once at most, when nothing needs it, and not used after that. -/
structure AcceptorState.Safe (s : AcceptorState) : Prop where
  once : s.deletions ≤ 1
  unused : s.usedAfterDeletion = false
  idle : s.deletedInUse = false

/--
No `PostAccept` of `Initialize` fails after one that succeeded, and the count
reaches zero in a handler only when `PostCancel` has returned.
-/
def AcceptorState.orderly (s : AcceptorState) : AcceptorAction → Prop
  | .main ok =>
      match s.main with
      | .allocTcpClient i => ok = true ∨ i = 0
      | .acceptEx i => ok = true ∨ i = 0
      | _ => True
  | .worker j _ =>
      s.workers[j]? = some .decrementPending → s.mPendingAcceptCount = 1 →
        s.main = .waitReleased ∨ s.main = .stopped
  | .complete => True

instance (s : AcceptorState) (act : AcceptorAction) : Decidable (s.orderly act) :=
  match act with
  | .main ok =>
      match h : s.main with
      | .allocTcpClient i =>
          decidable_of_iff (ok = true ∨ i = 0) (by simp [AcceptorState.orderly, h])
      | .acceptEx i => decidable_of_iff (ok = true ∨ i = 0) (by simp [AcceptorState.orderly, h])
      | .listen | .loop _ | .isInvalid _ | .incrementPending _ | .decrementPending _
      | .closeUnInit | .storeUnInit | .deleteAcceptor | .started | .failed | .testAcceptor
      | .cancel | .shutdownCancel | .closeCancel | .storeCancel | .waitReleased | .stopped =>
          isTrue (by simp [AcceptorState.orderly, h])
  | .worker j _ =>
      inferInstanceAs
        (Decidable
          (s.workers[j]? = some .decrementPending → s.mPendingAcceptCount = 1 →
            s.main = .waitReleased ∨ s.main = .stopped))
  | .complete => isTrue trivial

/-- What a worker holds of `mPendingAcceptCount`. -/
def WorkerStep.share : WorkerStep → Nat
  | .acceptConnection | .isInvalid | .allocTcpClient | .incrementPending => 1
  | .acceptEx | .decrementFailed => 2
  | .decrementPending => 1
  | _ => 0

/-- A worker that found the count at zero. -/
def WorkerStep.atZero : WorkerStep → Nat
  | .shutdown | .close | .store | .onAcceptorReleased | .deleteThis => 1
  | _ => 0

/-- What `Initialize` holds of `mPendingAcceptCount`. -/
def MainStep.share : MainStep → Nat
  | .acceptEx _ | .decrementPending _ => 1
  | _ => 0

/-- No accept was posted so far, or `Initialize` has failed. -/
def MainStep.fresh : MainStep → Bool
  | .listen | .decrementPending _ | .closeUnInit | .storeUnInit | .deleteAcceptor => true
  | .loop i | .isInvalid i | .allocTcpClient i | .incrementPending i | .acceptEx i => i == 0
  | _ => false

/-- The loop of `Initialize`. -/
def MainStep.posting : MainStep → Bool
  | .loop _ | .isInvalid _ | .allocTcpClient _ | .incrementPending _ | .acceptEx _ => true
  | _ => false

/-- The thread that starts and stops the service does not use the acceptor any more. -/
def AcceptorState.past (s : AcceptorState) : Prop :=
  s.main = .waitReleased ∨ s.main = .stopped ∨
    s.mTcpAcceptor = false ∧ (s.main = .failed ∨ s.main = .testAcceptor)

/-- The invariant of orderly runs. -/
structure AcceptorState.Inv (s : AcceptorState) : Prop where
  count :
    s.mPendingAcceptCount = s.outstanding + shares WorkerStep.share s.workers + s.main.share
  fresh : s.main.fresh = true → s.workers = [] ∧ s.outstanding = 0
  valid : s.main.posting = true → s.mSocketValid = true
  once : shares WorkerStep.atZero s.workers + s.deletions ≤ 1
  done :
    0 < shares WorkerStep.atZero s.workers + s.deletions →
      s.mPendingAcceptCount = 0 ∧ s.past
  unused : s.usedAfterDeletion = false
  idle : s.deletedInUse = false

theorem AcceptorState.past.not_uses {s : AcceptorState} (h : s.past) : s.main.uses = false := by
  rcases h with h | h | ⟨-, h | h⟩ <;> rw [h] <;> rfl

theorem AcceptorState.past.not_posting {s : AcceptorState} (h : s.past) :
    s.main.posting = false := by
  rcases h with h | h | ⟨-, h | h⟩ <;> rw [h] <;> rfl

theorem AcceptorState.past.not_fresh {s : AcceptorState} (h : s.past) : s.main.fresh = false := by
  rcases h with h | h | ⟨-, h | h⟩ <;> rw [h] <;> rfl

section Invariant

variable {s s' : AcceptorState}

/-- Until the thread that starts and stops the service is done, the object is there. -/
theorem AcceptorState.Inv.alive (h : s.Inv) (hpast : ¬ s.past) :
    shares WorkerStep.atZero s.workers = 0 ∧ s.deletions = 0 := by
  by_contra hno
  exact hpast (h.done (by omega)).2

/-- While a worker holds a part of the count, the object is there. -/
theorem AcceptorState.Inv.busy
    (h : s.Inv) {j : Nat} {w : WorkerStep} (hj : s.workers[j]? = some w) (hw : 0 < w.share) :
    shares WorkerStep.atZero s.workers = 0 ∧ s.deletions = 0 ∧ s.main.fresh = false := by
  have hle := le_shares (w := WorkerStep.share) (List.mem_of_getElem? hj)
  have hcount := h.count
  have hfresh : s.main.fresh = false := by
    by_contra hno
    obtain ⟨hnone, -⟩ := h.fresh (Bool.of_not_eq_false hno)
    rw [hnone] at hj
    exact absurd hj (by simp)
  have hsum : shares WorkerStep.atZero s.workers + s.deletions = 0 := by
    by_contra hno
    have hzero := (h.done (by omega)).1
    omega
  exact ⟨by omega, by omega, hfresh⟩

/-- Uses are recorded only. -/
theorem AcceptorState.Inv.use
    (h : s.Inv) {uses : Bool} (hdead : uses = true → s.deletions = 0) :
    (s.use uses).Inv := by
  have hrecord : (s.use uses).usedAfterDeletion = false := by
    rw [AcceptorState.use]
    rw [h.unused, Bool.false_or]
    cases uses with
    | false => rfl
    | true => simp [hdead rfl]
  exact ⟨h.count, h.fresh, h.valid, h.once, h.done, hrecord, h.idle⟩

/-- A step of the main thread that leaves the count alone. -/
theorem AcceptorState.Inv.move
    (h : s.Inv) {m₀ m : MainStep} (hm : s.main = m₀)
    {mSocketValid socketOpen mMarkedStop mTcpAcceptor : Bool}
    (hshare : m.share = m₀.share) (hfresh : m.fresh = true → m₀.fresh = true)
    (hvalid : m.posting = true → mSocketValid = true)
    (hpast :
      s.past →
        AcceptorState.past { s with main := m, mTcpAcceptor := mTcpAcceptor }) :
    AcceptorState.Inv
      { s with
        main := m
        mSocketValid := mSocketValid
        socketOpen := socketOpen
        mMarkedStop := mMarkedStop
        mTcpAcceptor := mTcpAcceptor } := by
  subst hm
  constructor
  · rw [hshare]
    exact h.count
  · exact fun hf => h.fresh (hfresh hf)
  · exact hvalid
  · exact h.once
  · intro hpos
    obtain ⟨hzero, hdone⟩ := h.done hpos
    exact ⟨hzero, hpast hdone⟩
  · exact h.unused
  · exact h.idle

/-- A step of the main thread that changes the count, long before the object is deleted. -/
theorem AcceptorState.Inv.moveCount
    (h : s.Inv) {m₀ m : MainStep} (hm : s.main = m₀) {mPendingAcceptCount : Int}
    {outstanding : Nat}
    (hcount :
      mPendingAcceptCount - s.mPendingAcceptCount =
        ((outstanding : Int) - s.outstanding) + ((m.share : Int) - m₀.share))
    (hfresh : m.fresh = true → m₀.fresh = true ∧ outstanding = s.outstanding)
    (hvalid : m.posting = true → m₀.posting = true) (hpast : ¬ s.past) :
    AcceptorState.Inv
      { s with
        main := m
        mPendingAcceptCount := mPendingAcceptCount
        outstanding := outstanding } := by
  subst hm
  obtain ⟨hzero, halive⟩ := h.alive hpast
  have hold := h.count
  constructor
  · simp only
    omega
  · intro hf
    obtain ⟨hsame, rfl⟩ := hfresh hf
    exact h.fresh hsame
  · exact fun hp => h.valid (hvalid hp)
  · exact h.once
  · intro hpos
    simp only [hzero, halive] at hpos
    exact absurd hpos (by omega)
  · exact h.unused
  · exact h.idle

/-- A step of a worker that holds a part of the count. -/
theorem AcceptorState.Inv.workerCount
    (h : s.Inv) {j : Nat} {w w' : WorkerStep} (hj : s.workers[j]? = some w) (hw : 0 < w.share)
    (hw' : w'.atZero = 0) {mPendingAcceptCount : Int} {outstanding : Nat}
    (hcount :
      mPendingAcceptCount - s.mPendingAcceptCount =
        ((outstanding : Int) - s.outstanding) + ((w'.share : Int) - w.share)) :
    AcceptorState.Inv
      { s with
        workers := s.workers.set j w'
        mPendingAcceptCount := mPendingAcceptCount
        outstanding := outstanding } := by
  obtain ⟨hzero, halive, hfresh⟩ := h.busy hj hw
  have hshares := shares_set (w := WorkerStep.share) w' hj
  have hzeros := shares_set (w := WorkerStep.atZero) w' hj
  have hold := h.count
  have hnone : shares WorkerStep.atZero (s.workers.set j w') = 0 := by
    rw [hw', hzero] at hzeros
    omega
  constructor
  · simp only
    omega
  · intro hm
    exact absurd (hfresh.symm.trans hm) (by simp)
  · exact h.valid
  · simp only [hnone, halive]
    omega
  · intro hpos
    simp only [hnone, halive] at hpos
    exact absurd hpos (by omega)
  · exact h.unused
  · exact h.idle

/-- A step of the worker that found the count at zero. -/
theorem AcceptorState.Inv.workerZero
    (h : s.Inv) {j : Nat} {w w' : WorkerStep} (hj : s.workers[j]? = some w)
    (hw : w.share = 0 ∧ w.atZero = 1) (hw' : w'.share = 0 ∧ w'.atZero = 1)
    {mSocketValid socketOpen : Bool} :
    AcceptorState.Inv
      { s with
        workers := s.workers.set j w'
        mSocketValid := mSocketValid
        socketOpen := socketOpen } := by
  have hle := le_shares (w := WorkerStep.atZero) (List.mem_of_getElem? hj)
  have hshares := shares_set (w := WorkerStep.share) w' hj
  have hzeros := shares_set (w := WorkerStep.atZero) w' hj
  obtain ⟨hzero, hpast⟩ := h.done (by omega)
  have hold := h.count
  have hsame :
      shares WorkerStep.atZero (s.workers.set j w') = shares WorkerStep.atZero s.workers := by
    omega
  constructor
  · simp only
    omega
  · intro hm
    exact absurd (hpast.not_fresh.symm.trans hm) (by simp)
  · intro hm
    exact absurd (hpast.not_posting.symm.trans hm) (by simp)
  · simp only [hsame]
    exact h.once
  · intro _
    exact ⟨hzero, hpast⟩
  · exact h.unused
  · exact h.idle

/-- A thread that uses the acceptor is not done with it. -/
theorem AcceptorState.not_past {m : MainStep} (hm : s.main = m) (huses : m.uses = true) :
    ¬ s.past := by
  intro hpast
  have hnot := hpast.not_uses
  rw [hm, huses] at hnot
  exact absurd hnot (by simp)

/-- A thread in the loop of `Initialize` is not done with the acceptor. -/
theorem AcceptorState.not_past_posting {m : MainStep} (hm : s.main = m)
    (hposting : m.posting = true) : ¬ s.past := by
  intro hpast
  have hnot := hpast.not_posting
  rw [hm, hposting] at hnot
  exact absurd hnot (by simp)

/-- Nothing needs an acceptor whose `Initialize` failed. -/
theorem AcceptorState.Inv.deleteAcceptor
    (h : s.Inv) (hm : s.main = .deleteAcceptor) :
    AcceptorState.Inv { s.delete s.workers with main := .failed, mTcpAcceptor := false } := by
  obtain ⟨hworkers, houtstanding⟩ := h.fresh (by rw [hm]; rfl)
  obtain ⟨hzero, halive⟩ := h.alive (AcceptorState.not_past hm rfl)
  have hcount := h.count
  rw [hm, hworkers, houtstanding] at hcount
  have hidle : (s.delete s.workers).deletedInUse = false := by
    simp [AcceptorState.delete, h.idle, hworkers, houtstanding]
  constructor
  · simpa [AcceptorState.delete, hworkers, houtstanding, shares, MainStep.share] using hcount
  · intro hf
    exact absurd hf Bool.false_ne_true
  · intro hp
    exact absurd hp Bool.false_ne_true
  · simp [AcceptorState.delete, hzero, halive]
  · intro _
    refine ⟨?_, Or.inr (Or.inr ⟨rfl, Or.inl rfl⟩)⟩
    change s.mPendingAcceptCount = 0
    simpa [shares, MainStep.share] using hcount
  · exact h.unused
  · exact hidle

/-- The next step of the thread that starts and stops the service. -/
theorem AcceptorState.Inv.stepMain
    (h : s.Inv) {ok : Bool} (horderly : s.orderly (.main ok)) (hs : s.stepMain ok = some s') :
    s'.Inv := by
  rw [AcceptorState.orderly] at horderly
  rw [AcceptorState.stepMain] at hs
  -- one case for each place in the code
  cases hm : s.main with
  | listen =>
      have hpast := AcceptorState.not_past hm rfl
      rw [hm] at hs
      cases ok with
      | true =>
          simp only [if_true, Option.some.injEq] at hs
          exact hs ▸ h.move hm rfl id (fun _ => rfl) (absurd · hpast)
      | false =>
          simp only [Bool.false_eq_true, if_false, Option.some.injEq] at hs
          exact hs ▸ h.move hm rfl id (absurd · (by decide)) (absurd · hpast)
  | loop i =>
      have hpast := AcceptorState.not_past_posting hm rfl
      have hvalid := h.valid (by rw [hm]; rfl)
      rw [hm] at hs
      simp only at hs
      split at hs
      · simp only [Option.some.injEq] at hs
        exact hs ▸ h.move hm rfl id (fun _ => hvalid) (absurd · hpast)
      · simp only [Option.some.injEq] at hs
        exact hs ▸ h.move hm rfl (absurd · (by decide)) (absurd · (by decide)) (absurd · hpast)
  | isInvalid i =>
      have hpast := AcceptorState.not_past hm rfl
      have hvalid := h.valid (by rw [hm]; rfl)
      rw [hm] at hs
      simp only [hvalid, if_true, Option.some.injEq] at hs
      exact hs ▸ h.move hm rfl id (fun _ => rfl) (absurd · hpast)
  | allocTcpClient i =>
      have hpast := AcceptorState.not_past_posting hm rfl
      have hvalid := h.valid (by rw [hm]; rfl)
      rw [hm] at hs horderly
      simp only at hs horderly
      cases ok with
      | true =>
          simp only [Bool.true_eq_false, if_false] at hs
          split at hs
          · exact absurd hs (by simp)
          · simp only [Option.some.injEq] at hs
            exact hs ▸ h.move hm rfl id (fun _ => hvalid) (absurd · hpast)
      | false =>
          have hfirst : i = 0 := by simpa using horderly
          subst hfirst
          simp only [if_true, Option.some.injEq] at hs
          exact hs ▸ h.move hm rfl (fun _ => rfl) (absurd · (by decide)) (absurd · hpast)
  | incrementPending i =>
      have hpast := AcceptorState.not_past hm rfl
      rw [hm] at hs
      simp only [Option.some.injEq] at hs
      refine hs ▸ h.moveCount hm ?_ (fun hf => ⟨hf, rfl⟩) id hpast
      simp only [MainStep.share]
      omega
  | acceptEx i =>
      have hpast := AcceptorState.not_past hm rfl
      rw [hm] at hs horderly
      simp only at hs horderly
      cases ok with
      | true =>
          simp only [Bool.true_eq_false, if_false] at hs
          split at hs
          · simp only [Option.some.injEq] at hs
            refine hs ▸ h.moveCount hm ?_ (absurd · (by simp [MainStep.fresh])) (fun _ => rfl) hpast
            simp only [MainStep.share]
            omega
          · exact absurd hs (by simp)
      | false =>
          have hfirst : i = 0 := by simpa using horderly
          subst hfirst
          simp only [if_true, Option.some.injEq] at hs
          exact hs ▸ h.move hm rfl (fun _ => rfl) (absurd · (by decide)) (absurd · hpast)
  | decrementPending i =>
      have hpast := AcceptorState.not_past hm rfl
      rw [hm] at hs
      simp only [Option.some.injEq] at hs
      refine hs ▸ h.moveCount hm ?_ (fun _ => ⟨rfl, rfl⟩) (absurd · (by decide)) hpast
      simp only [MainStep.share]
      omega
  | closeUnInit =>
      have hpast := AcceptorState.not_past hm rfl
      rw [hm] at hs
      simp only at hs
      split at hs
      · simp only [Option.some.injEq] at hs
        exact hs ▸ h.move hm rfl id (absurd · (by decide)) (absurd · hpast)
      · simp only [Option.some.injEq] at hs
        exact hs ▸ h.move hm rfl id (absurd · (by decide)) (absurd · hpast)
  | storeUnInit =>
      have hpast := AcceptorState.not_past hm rfl
      rw [hm] at hs
      simp only [Option.some.injEq] at hs
      exact hs ▸ h.move hm rfl id (absurd · (by decide)) (absurd · hpast)
  | deleteAcceptor =>
      rw [hm] at hs
      simp only [Option.some.injEq] at hs
      exact hs ▸ h.deleteAcceptor hm
  | started =>
      rw [hm] at hs
      simp only [Option.some.injEq] at hs
      refine hs ▸ h.move hm rfl id (absurd · (by decide)) fun hp => ?_
      rcases hp with hp | hp | ⟨-, hp | hp⟩ <;> exact absurd (hm.symm.trans hp) (by simp)
  | failed =>
      rw [hm] at hs
      simp only [Option.some.injEq] at hs
      refine hs ▸ h.move hm rfl id (absurd · (by decide)) fun hp => ?_
      rcases hp with hp | hp | ⟨hnull, -⟩
      · exact absurd (hm.symm.trans hp) (by simp)
      · exact absurd (hm.symm.trans hp) (by simp)
      · exact Or.inr (Or.inr ⟨hnull, Or.inr rfl⟩)
  | testAcceptor =>
      rw [hm] at hs
      simp only at hs
      split at hs
      · next hthere =>
          simp only [Option.some.injEq] at hs
          refine hs ▸ h.move hm rfl id (absurd · (by decide)) fun hp => ?_
          rcases hp with hp | hp | ⟨hnull, -⟩
          · exact absurd (hm.symm.trans hp) (by simp)
          · exact absurd (hm.symm.trans hp) (by simp)
          · exact absurd (hnull.symm.trans hthere) (by simp)
      · simp only [Option.some.injEq] at hs
        exact hs ▸ h.move hm rfl id (absurd · (by decide)) fun _ => Or.inr (Or.inl rfl)
  | cancel =>
      have hpast := AcceptorState.not_past hm rfl
      rw [hm] at hs
      simp only at hs
      split at hs
      · simp only [Option.some.injEq] at hs
        exact hs ▸ h.move hm rfl id (absurd · (by decide)) (absurd · hpast)
      · simp only [Option.some.injEq] at hs
        exact hs ▸ h.move hm rfl id (absurd · (by decide)) fun _ => Or.inl rfl
  | shutdownCancel =>
      have hpast := AcceptorState.not_past hm rfl
      rw [hm] at hs
      simp only [Option.some.injEq] at hs
      exact hs ▸ h.move hm rfl id (absurd · (by decide)) (absurd · hpast)
  | closeCancel =>
      have hpast := AcceptorState.not_past hm rfl
      rw [hm] at hs
      simp only at hs
      split at hs
      · simp only [Option.some.injEq] at hs
        exact hs ▸ h.move hm rfl id (absurd · (by decide)) (absurd · hpast)
      · simp only [Option.some.injEq] at hs
        exact hs ▸ h.move hm rfl id (absurd · (by decide)) fun _ => Or.inl rfl
  | storeCancel =>
      rw [hm] at hs
      simp only [Option.some.injEq] at hs
      exact hs ▸ h.move hm rfl id (absurd · (by decide)) fun _ => Or.inl rfl
  | waitReleased =>
      rw [hm] at hs
      simp only [Option.some.injEq] at hs
      exact hs ▸ h.move hm rfl id (absurd · (by decide)) fun _ => Or.inr (Or.inl rfl)
  | stopped =>
      rw [hm] at hs
      exact absurd hs (by simp)

/-- The count reaches zero, or it does not. -/
theorem AcceptorState.Inv.decrementPending
    (h : s.Inv) {j : Nat} (hj : s.workers[j]? = some .decrementPending)
    (horderly :
      s.mPendingAcceptCount = 1 → s.main = .waitReleased ∨ s.main = .stopped) :
    AcceptorState.Inv
      { s with
        workers :=
          s.workers.set j (if s.mPendingAcceptCount - 1 = 0 then .shutdown else .returned)
        mPendingAcceptCount := s.mPendingAcceptCount - 1 } := by
  by_cases hlast : s.mPendingAcceptCount - 1 = 0
  · rw [if_pos hlast]
    obtain ⟨hzero, halive, hfresh⟩ := h.busy hj (by decide)
    have hshares := shares_set (w := WorkerStep.share) .shutdown hj
    have hzeros := shares_set (w := WorkerStep.atZero) .shutdown hj
    have hold := h.count
    have hpast : s.past := by
      rcases horderly (by omega) with hm | hm
      · exact Or.inl hm
      · exact Or.inr (Or.inl hm)
    simp only [WorkerStep.share] at hshares
    simp only [WorkerStep.atZero] at hzeros
    constructor
    · simp only
      omega
    · intro hf
      exact absurd (hfresh.symm.trans hf) (by simp)
    · exact h.valid
    · simp only
      omega
    · exact fun _ => ⟨hlast, hpast⟩
    · exact h.unused
    · exact h.idle
  · rw [if_neg hlast]
    refine h.workerCount hj (by decide) rfl ?_
    simp only [WorkerStep.share]
    omega

/-- A worker that found the count at zero is the only one that runs. -/
theorem AcceptorState.Inv.alone
    (h : s.Inv) {j : Nat} {w : WorkerStep} (hj : s.workers[j]? = some w) (hw : w.atZero = 1) :
    s.outstanding = 0 ∧ s.deletions = 0 ∧ ∀ w' ∈ s.workers.eraseIdx j, w' = .returned := by
  have hzeros := shares_eraseIdx (w := WorkerStep.atZero) hj
  have hshares := shares_eraseIdx (w := WorkerStep.share) hj
  have honce := h.once
  have hcount := h.count
  have hzero := (h.done (by omega)).1
  refine ⟨by omega, by omega, fun w' hw' => ?_⟩
  have hleZero := le_shares (w := WorkerStep.atZero) hw'
  have hleShare := le_shares (w := WorkerStep.share) hw'
  have hnothing : w'.atZero = 0 ∧ w'.share = 0 := by omega
  cases w' with
  | returned => rfl
  | _ => exact absurd hnothing (by decide)

/-- The worker that found the count at zero deletes the object. -/
theorem AcceptorState.Inv.deleteThis
    (h : s.Inv) {j : Nat} (hj : s.workers[j]? = some .deleteThis) :
    AcceptorState.Inv
      { s.delete (s.workers.eraseIdx j) with workers := s.workers.set j .returned } := by
  obtain ⟨houtstanding, halive, hothers⟩ := h.alone hj rfl
  have hshares := shares_set (w := WorkerStep.share) .returned hj
  have hzeros := shares_set (w := WorkerStep.atZero) .returned hj
  have hle := le_shares (w := WorkerStep.atZero) (List.mem_of_getElem? hj)
  simp only [WorkerStep.share] at hshares
  simp only [WorkerStep.atZero] at hzeros hle
  have hcount := h.count
  have honce := h.once
  obtain ⟨hzero, hpast⟩ := h.done (by omega)
  have hidle : (s.delete (s.workers.eraseIdx j)).deletedInUse = false := by
    simp only [AcceptorState.delete, h.idle, Bool.false_or, decide_eq_false_iff_not, not_or,
      not_exists, not_and, not_not]
    exact ⟨houtstanding, hothers⟩
  constructor
  · change s.mPendingAcceptCount = (s.outstanding : Int) + _ + s.main.share
    simp only
    omega
  · intro hf
    exact absurd (hpast.not_fresh.symm.trans hf) (by simp)
  · intro hp
    exact absurd (hpast.not_posting.symm.trans hp) (by simp)
  · simp only [AcceptorState.delete]
    omega
  · exact fun _ => ⟨hzero, hpast⟩
  · exact h.unused
  · exact hidle

/-- The next step of a worker. -/
theorem AcceptorState.Inv.stepWorker
    (h : s.Inv) {j : Nat} {ok : Bool} (horderly : s.orderly (.worker j ok))
    (hs : s.stepWorker j ok = some s') :
    s'.Inv := by
  rw [AcceptorState.stepWorker] at hs
  cases hj : s.workers[j]? with
  | none =>
      rw [hj] at hs
      exact absurd hs (by simp)
  | some w =>
      rw [hj] at hs
      cases w with
      | acceptConnection =>
          simp only [Option.some.injEq] at hs
          exact hs ▸ h.workerCount hj (by decide) rfl (by simp [WorkerStep.share])
      | isInvalid =>
          simp only at hs
          split at hs
          · simp only [Option.some.injEq] at hs
            exact hs ▸ h.workerCount hj (by decide) rfl (by simp [WorkerStep.share])
          · simp only [Option.some.injEq] at hs
            exact hs ▸ h.workerCount hj (by decide) rfl (by simp [WorkerStep.share])
      | allocTcpClient =>
          simp only at hs
          split_ifs at hs
          · simp only [Option.some.injEq] at hs
            exact hs ▸ h.workerCount hj (by decide) rfl (by simp [WorkerStep.share])
          · simp only [Option.some.injEq] at hs
            exact hs ▸ h.workerCount hj (by decide) rfl (by simp [WorkerStep.share])
      | incrementPending =>
          simp only [Option.some.injEq] at hs
          refine hs ▸ h.workerCount hj (by decide) rfl ?_
          simp only [WorkerStep.share]
          omega
      | acceptEx =>
          simp only at hs
          split_ifs at hs
          · simp only [Option.some.injEq] at hs
            exact hs ▸ h.workerCount hj (by decide) rfl (by simp [WorkerStep.share])
          · simp only [Option.some.injEq] at hs
            refine hs ▸ h.workerCount hj (by decide) rfl ?_
            simp only [WorkerStep.share]
            omega
      | decrementFailed =>
          simp only [Option.some.injEq] at hs
          refine hs ▸ h.workerCount hj (by decide) rfl ?_
          simp only [WorkerStep.share]
          omega
      | decrementPending =>
          simp only [Option.some.injEq] at hs
          exact hs ▸ h.decrementPending hj (horderly hj)
      | shutdown =>
          simp only [Option.some.injEq] at hs
          exact hs ▸ h.workerZero hj ⟨rfl, rfl⟩ ⟨rfl, rfl⟩
      | close =>
          simp only at hs
          split at hs
          · simp only [Option.some.injEq] at hs
            exact hs ▸ h.workerZero hj ⟨rfl, rfl⟩ ⟨rfl, rfl⟩
          · simp only [Option.some.injEq] at hs
            exact hs ▸ h.workerZero hj ⟨rfl, rfl⟩ ⟨rfl, rfl⟩
      | store =>
          simp only [Option.some.injEq] at hs
          exact hs ▸ h.workerZero hj ⟨rfl, rfl⟩ ⟨rfl, rfl⟩
      | onAcceptorReleased =>
          simp only [Option.some.injEq] at hs
          exact hs ▸ h.workerZero hj ⟨rfl, rfl⟩ ⟨rfl, rfl⟩
      | deleteThis =>
          simp only [Option.some.injEq] at hs
          exact hs ▸ h.deleteThis hj
      | returned => exact absurd hs (by simp)

/-- A worker that uses the object finds it. -/
theorem AcceptorState.Inv.worker_alive
    (h : s.Inv) {j : Nat} (huses : s.workers[j]?.any WorkerStep.uses = true) :
    s.deletions = 0 := by
  cases hj : s.workers[j]? with
  | none =>
      rw [hj] at huses
      exact absurd huses (by simp)
  | some w =>
      rw [hj, Option.any_some] at huses
      by_cases hw : 0 < w.share
      · exact (h.busy hj hw).2.1
      · have hzero : w.atZero = 1 := by
          cases w with
          | returned => exact absurd huses (by decide)
          | shutdown | close | store | onAcceptorReleased | deleteThis => rfl
          | _ => exact absurd (by decide) hw
        exact (h.alone hj hzero).2.1

theorem AcceptorState.Inv.step
    (h : s.Inv) {act : AcceptorAction} (horderly : s.orderly act) (hs : s.step act = some s') :
    s'.Inv := by
  cases act with
  | main ok =>
      have hdead : s.main.uses = true → s.deletions = 0 := fun huses =>
        (h.alive (AcceptorState.not_past rfl huses)).2
      exact (h.use hdead).stepMain horderly hs
  | worker j ok => exact (h.use h.worker_alive).stepWorker horderly hs
  | complete =>
      simp only [AcceptorState.step] at hs
      split at hs
      · exact absurd hs (by simp)
      · next outstanding hsome =>
          simp only [Option.some.injEq] at hs
          subst hs
          have hcount := h.count
          have halive : shares WorkerStep.atZero s.workers + s.deletions = 0 := by
            by_contra hno
            have hzero := (h.done (by omega)).1
            omega
          constructor
          · simp only [shares_append, shares, WorkerStep.share]
            omega
          · intro hf
            obtain ⟨-, hnone⟩ := h.fresh hf
            omega
          · exact h.valid
          · simp only [shares_append, shares, WorkerStep.atZero]
            omega
          · intro hpos
            simp only [shares_append, shares, WorkerStep.atZero] at hpos
            omega
          · exact h.unused
          · exact h.idle

end Invariant

theorem AcceptorState.Inv.start (listenBacklog : Int) :
    (AcceptorState.start listenBacklog).Inv := by
  constructor
  · rfl
  · exact fun _ => ⟨rfl, rfl⟩
  · exact fun hp => absurd hp Bool.false_ne_true
  · exact Nat.zero_le 1
  · intro hpos
    exact absurd hpos (Nat.lt_irrefl 0)
  · rfl
  · rfl

/-- In every orderly run the acceptor is deleted once at most, and at the right time. -/
theorem acceptor_deleted_once
    {listenBacklog : Int} {s : AcceptorState}
    (hreach :
      Reach (fun s act => AcceptorState.step s act) AcceptorState.orderly
        (AcceptorState.start listenBacklog) s) :
    s.Safe := by
  have hinv : s.Inv :=
    hreach.invariant (AcceptorState.Inv.start listenBacklog) fun h horderly hs => h.step horderly hs
  have honce := hinv.once
  exact ⟨by omega, hinv.unused, hinv.idle⟩

theorem acceptor_deleted_once_example :
    ∃ s : AcceptorState, s.deletions = 1 ∧ s.main = .stopped ∧ s.Safe := by
  have hrun :
      (runAll (fun s act => AcceptorState.step s act) AcceptorState.orderly
        (AcceptorState.start 2)
        [.main true, .main true, .main true, .main true, .main true, .main true, .main true,
          .complete, .main true, .main true, .main true, .main true, .worker 0 true,
          .worker 0 true, .worker 0 true, .worker 0 true, .worker 0 true, .worker 0 true,
          .main true, .main true, .main true, .main true, .main true, .main true, .main true,
          .complete, .complete, .worker 1 true, .worker 2 true, .worker 2 true, .worker 2 true,
          .worker 1 true, .worker 1 true, .worker 1 true, .worker 1 true, .worker 1 true,
          .worker 1 true, .main true]).any
        (fun s => decide (s.deletions = 1 ∧ s.main = .stopped)) = true := by
    decide
  obtain ⟨s, hreach, hend⟩ := exists_reach_of_runAll hrun
  obtain ⟨hdeletions, hmain⟩ := of_decide_eq_true hend
  exact ⟨s, hdeletions, hmain, acceptor_deleted_once hreach⟩

/--
A worker that cannot post again deletes the acceptor of a running service, and
`PostCancel` uses it later; in `Initialize` it is then deleted twice.
-/
theorem acceptor_deleted_early :
    (∃ s,
      Reach (fun s act => AcceptorState.step s act) (fun _ _ => True) (AcceptorState.start 1) s ∧
        s.usedAfterDeletion = true ∧ ¬ s.Safe) ∧
      ∃ s,
        Reach (fun s act => AcceptorState.step s act) (fun _ _ => True)
          (AcceptorState.start 2) s ∧
          s.deletions = 2 ∧ ¬ s.Safe := by
  constructor
  · have hrun :
        (runAll (fun s act => AcceptorState.step s act) (fun _ _ => True)
          (AcceptorState.start 1)
          [.main true, .main true, .main true, .main true, .main true, .main true, .main true,
            .complete, .worker 0 true, .worker 0 true, .worker 0 false, .worker 0 true,
            .worker 0 true, .worker 0 true, .worker 0 true, .worker 0 true, .worker 0 true,
            .main true, .main true, .main true]).any (·.usedAfterDeletion) = true := by
      decide
    obtain ⟨s, hreach, hused⟩ := exists_reach_of_runAll hrun
    exact ⟨s, hreach, hused, fun h => absurd (h.unused.symm.trans hused) (by simp)⟩
  · have hrun :
        (runAll (fun s act => AcceptorState.step s act) (fun _ _ => True)
          (AcceptorState.start 2)
          [.main true, .main true, .main true, .main true, .main true, .main true, .complete,
            .worker 0 true, .worker 0 true, .worker 0 false, .worker 0 true, .worker 0 true,
            .worker 0 true, .worker 0 true, .worker 0 true, .worker 0 true, .main true,
            .main true, .main true, .main true]).any
          (fun s => decide (s.deletions = 2)) = true := by
      decide
    obtain ⟨s, hreach, htwice⟩ := exists_reach_of_runAll hrun
    have hdeletions := of_decide_eq_true htwice
    refine ⟨s, hreach, hdeletions, fun h => ?_⟩
    have honce := h.once
    omega

end Service
end IocpNetlib
