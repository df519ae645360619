import IocpNetlib.Http.Dispatch
import IocpNetlib.Http.ProcessMsg

/-!
# Which completion closes the connection

`mCloseAfterSend` is one flag for all requests of a connection.  It is stored
after `OnReceived` has queued the request, each later request stores its own
value over it, and the completion of any response of the connection reads it.
So the completion of a response acts on the request whose flag was stored last.
-/

namespace IocpNetlib
namespace Http

open Reachability

section CloseAfterSend

variable {p : FramingParam} {s s' : ServerState} {c : UInt32}

/-- The receive handler is between `OnReceived` and the store of the flag. -/
def RecvPoint.storing : RecvPoint → Bool
  | .received .. => true
  | _ => false

/-- The delivered requests of a connection whose flag has been stored. -/
def ServerState.stored (s : ServerState) (c : UInt32) : List QueuedRequest :=
  if (s.conn c).point.storing then (onConn c s.delivered).dropLast else onConn c s.delivered

/-- The last request carries `Connection: close`. -/
def lastClose (rs : List QueuedRequest) : Bool :=
  match rs.getLast? with
  | none => false
  | some r => r.close

/-- No request delivered before `r` on its connection carries `Connection: close`. -/
def ServerState.NoEarlierClose (s : ServerState) (r : QueuedRequest) : Prop :=
  ∀ q ∈ s.delivered, q.socketID = r.socketID → q.index < r.index → q.close = false

/--
Up to the response to the first request with `Connection: close`, exactly the
completion of that response has returned `NSE_BE_CLOSED`.
-/
def ServerState.CloseHonoured (s : ServerState) : Prop :=
  ∀ x ∈ s.completed, s.NoEarlierClose x.1 → (x.2 = .beClosed ↔ x.1.close = true)

/--
A completion of such a response finds the flag of a request that agrees with its
own on `Connection: close`.
-/
def ServerState.closeStored (s : ServerState) : ServerAction → Prop
  | .onSendCompletion i =>
      ∀ r ∈ s.outstanding[i]?, s.NoEarlierClose r → lastClose (s.stored r.socketID) = r.close
  | _ => True

instance (s : ServerState) (r : QueuedRequest) : Decidable (s.NoEarlierClose r) :=
  inferInstanceAs
    (Decidable
      (∀ q ∈ s.delivered, q.socketID = r.socketID → q.index < r.index → q.close = false))

instance (s : ServerState) (a : ServerAction) : Decidable (s.closeStored a) :=
  match a with
  | .onSendCompletion i =>
      inferInstanceAs
        (Decidable
          (∀ r ∈ s.outstanding[i]?, s.NoEarlierClose r →
            lastClose (s.stored r.socketID) = r.close))
  | .receive .. | .split _ | .onReceived .. | .disconnect _ | .pop _ | .answer .. | .drop _ =>
      isTrue trivial

/-- The flag of a connection is that of the last request that stored one. -/
structure ServerState.Flagged (s : ServerState) (c : UInt32) : Prop where
  flag : (s.conn c).buffer.mCloseAfterSend = lastClose (s.stored c)
  received : ∀ (pData : List UInt8) (hs : HttpHeaders) (packetSize : Nat),
    (s.conn c).point = .received pData hs packetSize →
      ∃ rs r, onConn c s.delivered = rs ++ [r] ∧
        r.close = decide (isConnectionClose (s.conn c).buffer.mRecvPacketBuffer hs.headers =
          some true)

@[simp] theorem lastClose_append (rs : List QueuedRequest) (r : QueuedRequest) :
    lastClose (rs ++ [r]) = r.close := by
  simp [lastClose]

theorem stored_idle (h : (s.conn c).point.storing = false) :
    s.stored c = onConn c s.delivered := by
  rw [ServerState.stored, h]
  rfl

theorem ServerState.Flagged.start (p : FramingParam) (threadCount : Nat) (c : UInt32) :
    (ServerState.start p threadCount).Flagged c where
  flag := rfl
  received := by
    intro pData hs packetSize h
    exact absurd h (by simp [ServerState.start, Connection.start])

/-- A step that leaves the connection as it is. -/
theorem ServerState.Flagged.keep
    (h : s.Flagged c)
    (hbuffer : (s'.conn c).buffer = (s.conn c).buffer)
    (hpoint : (s'.conn c).point = (s.conn c).point)
    (hdelivered : onConn c s'.delivered = onConn c s.delivered) :
    s'.Flagged c where
  flag := by
    have hstored : s'.stored c = s.stored c := by
      unfold ServerState.stored
      rw [hpoint, hdelivered]
    rw [hbuffer, hstored]
    exact h.flag
  received := by
    intro pData hs packetSize hreceived
    rw [hbuffer, hdelivered]
    exact h.received pData hs packetSize (hpoint ▸ hreceived)

/-- The handler moves on without a store, and not to one. -/
theorem ServerState.Flagged.move
    {x : Connection} (h : s.Flagged c)
    (hidle : (s.conn c).point.storing = false) (hidle' : x.point.storing = false)
    (hflag : x.buffer.mCloseAfterSend = (s.conn c).buffer.mCloseAfterSend) :
    (s.setConn c x).Flagged c where
  flag := by
    have hstored : (s.setConn c x).stored c = s.stored c := by
      rw [stored_idle hidle]
      refine stored_idle ?_
      rw [setConn_self]
      exact hidle'
    rw [hstored, setConn_self, hflag]
    exact h.flag
  received := by
    intro pData hs packetSize hreceived
    rw [setConn_self] at hreceived
    rw [hreceived, RecvPoint.storing] at hidle'
    exact absurd hidle' (Bool.noConfusion)

/-- The flag is stored. -/
theorem ServerState.Flagged.store
    (h : s.Flagged c) {pData : List UInt8} {hs : HttpHeaders} {packetSize : Nat} {close : Bool}
    (hpoint : (s.conn c).point = .received pData hs packetSize)
    (hclose : isConnectionClose (s.conn c).buffer.mRecvPacketBuffer hs.headers = some close) :
    (s.setConn c
      { s.conn c with
        buffer := (s.conn c).buffer.shift packetSize close
        point := .inner pData }).Flagged c where
  flag := by
    obtain ⟨rs, r, hlast, hr⟩ := h.received pData hs packetSize hpoint
    have hstored :
        (s.setConn c
          { s.conn c with
            buffer := (s.conn c).buffer.shift packetSize close
            point := .inner pData }).stored c = rs ++ [r] := by
      rw [← hlast]
      refine stored_idle ?_
      rw [setConn_self]
      rfl
    rw [hstored, lastClose_append, setConn_self, hr, hclose]
    cases close with
    | true => rfl
    | false => rfl
  received := by
    intro pData' hs' packetSize' hreceived
    rw [setConn_self] at hreceived
    exact absurd hreceived (by simp)

theorem ServerState.Flagged.split
    {x : Connection} (h : s.Flagged c) (hsplit : (s.conn c).split p = some x) :
    (s.setConn c x).Flagged c := by
  rw [Connection.split] at hsplit
  split at hsplit
  · next pData hpoint =>
      have hidle : (s.conn c).point.storing = false := by
        rw [hpoint]
        rfl
      split_ifs at hsplit
      all_goals
        obtain rfl := Option.some.inj hsplit
        exact h.move hidle rfl rfl
  · next pData hpoint =>
      have hidle : (s.conn c).point.storing = false := by
        rw [hpoint]
        rfl
      split at hsplit
      · obtain rfl := Option.some.inj hsplit
        exact h.move hidle rfl rfl
      · obtain rfl := Option.some.inj hsplit
        exact h.move hidle rfl rfl
      · exact absurd hsplit (by simp)
      · exact absurd hsplit (by simp)
  · next pData hs packetSize hpoint =>
      split at hsplit
      · exact absurd hsplit (by simp)
      · next close hclose =>
          obtain rfl := Option.some.inj hsplit
          exact h.store hpoint hclose
  · exact absurd hsplit (by simp)

/-- A handler that calls `OnReceived` has stored all flags. -/
theorem call_idle
    {pData : List UInt8} {hs : HttpHeaders} {call : HttpCall}
    (h : (s.conn c).call p = some (pData, hs, call)) :
    (s.conn c).point.storing = false := by
  rw [Connection.call] at h
  split at h
  · next hpoint =>
      rw [hpoint]
      rfl
  · exact absurd h (by simp)

/-- A request is delivered; its flag is still to be stored. -/
theorem ServerState.Flagged.queued
    (h : s.Flagged c) {pData : List UInt8} {hs : HttpHeaders} {call : HttpCall}
    (hcall : (s.conn c).call p = some (pData, hs, call)) :
    (s.queued c pData hs call).Flagged c := by
  have hidle := call_idle hcall
  obtain ⟨hbuffer, hpoint⟩ := queued_at (s := s) (c := c) rfl pData hs call
  have hdelivered :
      onConn c (s.queued c pData hs call).delivered =
        onConn c s.delivered ++ [(s.conn c).request c hs call] := by
    show onConn c (s.delivered ++ [_]) = _
    rw [onConn_append]
    exact congrArg (onConn c s.delivered ++ ·) (onConn_cons_self _ [])
  constructor
  · have hstored : (s.queued c pData hs call).stored c = s.stored c := by
      rw [stored_idle hidle, ServerState.stored, hpoint, hdelivered, RecvPoint.storing,
        if_pos rfl, List.dropLast_concat]
    rw [hbuffer, hstored]
    exact h.flag
  · intro pData' hs' packetSize' hreceived
    rw [hpoint] at hreceived
    injection hreceived with e₁ e₂ e₃
    subst e₂
    refine ⟨_, _, hdelivered, ?_⟩
    rw [hbuffer]
    rfl

/-- A step on another connection. -/
theorem ServerState.Flagged.other
    (h : s.Flagged c) (hconn : s'.conn c = s.conn c)
    (hdelivered : onConn c s'.delivered = onConn c s.delivered) :
    s'.Flagged c :=
  h.keep (congrArg Connection.buffer hconn) (congrArg Connection.point hconn) hdelivered

theorem ServerState.Flagged.step
    {a : ServerAction} (h : ∀ c, s.Flagged c) (hstep : s.step p a = some s') (c : UInt32) :
    s'.Flagged c := by
  cases step_stepped hstep with
  | @receive d pData hpoint =>
      by_cases hd : c = d
      · subst hd
        exact (h c).move (by rw [hpoint]; rfl) rfl rfl
      · exact (h c).other (setConn_other s hd _) rfl
  | @split d x hsplit =>
      by_cases hd : c = d
      · subst hd
        exact (h c).split hsplit
      · exact (h c).other (setConn_other s hd _) rfl
  | @accepted d pData hs call hcall =>
      by_cases hd : c = d
      · subst hd
        exact (h c).queued hcall
      · refine (h c).other (setConn_other s hd _) ?_
        have hnone := onConn_cons_other (r := (s.conn d).request d hs call) (Ne.symm hd) []
        show onConn c (s.delivered ++ [_]) = _
        rw [onConn_append, hnone]
        exact List.append_nil _
  | @refused d pData hs call hcall =>
      by_cases hd : c = d
      · subst hd
        exact (h c).move (call_idle hcall) rfl rfl
      · exact (h c).other (setConn_other s hd _) rfl
  | @disconnect d =>
      by_cases hd : c = d
      · subst hd
        exact (h c).keep (by rw [setConn_self]) (by rw [setConn_self]) rfl
      · exact (h c).other (setConn_other s hd _) rfl
  | pop hi hqueue => exact (h c).other rfl rfl
  | answer hi => exact (h c).other rfl rfl
  | drop hi => exact (h c).other rfl rfl
  | @completed i r hi =>
      by_cases hd : c = r.socketID
      · subst hd
        have hself :
            (s.sent i r).conn r.socketID =
              { s.conn r.socketID with
                connected :=
                  (s.conn r.socketID).connected &&
                    decide
                      (onSendCompletion (s.conn r.socketID).buffer.mCloseAfterSend true =
                        .success) } :=
          setConn_self _ _ _
        exact (h _).keep (by rw [hself]) (by rw [hself]) rfl
      · exact (h c).other (setConn_other s hd _) rfl

theorem runs_flagged {threadCount : Nat} (h : Runs p threadCount s) (c : UInt32) :
    s.Flagged c := by
  have hall : ∀ c, s.Flagged c := by
    refine h.invariant (I := fun s : ServerState => ∀ c, s.Flagged c)
      (fun c => .start p threadCount c) ?_
    intro s s' a hflagged _ hs
    exact ServerState.Flagged.step hflagged hs
  exact hall c

/-- The completion of a fully sent response returns `NSE_BE_CLOSED` exactly if the flag is set. -/
theorem onSendCompletion_full (mCloseAfterSend : Bool) :
    onSendCompletion mCloseAfterSend true = .beClosed ↔ mCloseAfterSend = true := by
  cases mCloseAfterSend with
  | true => exact ⟨fun _ => rfl, fun _ => rfl⟩
  | false => exact ⟨fun h => absurd h (by decide), fun h => absurd h (by decide)⟩

theorem ServerState.NoEarlierClose.mono
    {r : QueuedRequest} (hsub : s.delivered ⊆ s'.delivered) (h : s'.NoEarlierClose r) :
    s.NoEarlierClose r :=
  fun q hq hsame hlt => h q (hsub hq) hsame hlt

/-- A step that handles no completion. -/
theorem ServerState.CloseHonoured.keep
    (h : s.CloseHonoured) (hcompleted : s'.completed = s.completed)
    (hsub : s.delivered ⊆ s'.delivered) :
    s'.CloseHonoured := by
  intro x hx hfirst
  rw [hcompleted] at hx
  exact h x hx (hfirst.mono hsub)

/-- The completion of a response, by the request whose flag was stored last. -/
theorem closeHonoured_sent
    {i : Nat} {r : QueuedRequest} (h : s.CloseHonoured) (hflagged : s.Flagged r.socketID)
    (hi : s.outstanding[i]? = some r) :
    (s.sent i r).CloseHonoured ↔ s.closeStored (.onSendCompletion i) := by
  have hcompleted :
      (s.sent i r).completed =
        s.completed ++ [(r, onSendCompletion (s.conn r.socketID).buffer.mCloseAfterSend true)] :=
    rfl
  constructor
  · intro hsent q hq hfirst
    obtain rfl : r = q := by simpa [hi] using hq
    have hmem :
        (r, onSendCompletion (s.conn r.socketID).buffer.mCloseAfterSend true) ∈
          (s.sent i r).completed :=
      List.mem_append_right _ List.mem_cons_self
    have hagree := hsent _ hmem hfirst
    rw [onSendCompletion_full, hflagged.flag] at hagree
    exact Bool.eq_iff_iff.mpr hagree
  · intro hstored x hx hfirst
    rw [hcompleted] at hx
    rcases List.mem_append.mp hx with hx | hx
    · exact h x hx hfirst
    · rw [List.mem_singleton] at hx
      subst hx
      rw [onSendCompletion_full, hflagged.flag, hstored r hi hfirst]

/-- A step keeps the promise exactly if it meets the condition. -/
theorem ServerState.CloseHonoured.step_iff
    {a : ServerAction} (h : s.CloseHonoured) (hflagged : ∀ c, s.Flagged c)
    (hs : s.step p a = some s') :
    s'.CloseHonoured ↔ s.closeStored a := by
  have hquiet : s'.completed = s.completed → s.delivered ⊆ s'.delivered →
      s.closeStored a → (s'.CloseHonoured ↔ s.closeStored a) :=
    fun hcompleted hsub hstored => ⟨fun _ => hstored, fun _ => h.keep hcompleted hsub⟩
  cases step_stepped hs with
  | receive hpoint => exact hquiet rfl (List.Subset.refl _) trivial
  | split hsplit => exact hquiet rfl (List.Subset.refl _) trivial
  | accepted hcall => exact hquiet rfl (List.subset_append_left _ _) trivial
  | refused hcall => exact hquiet rfl (List.Subset.refl _) trivial
  | disconnect => exact hquiet rfl (List.Subset.refl _) trivial
  | pop hi hqueue => exact hquiet rfl (List.Subset.refl _) trivial
  | answer hi => exact hquiet rfl (List.Subset.refl _) trivial
  | drop hi => exact hquiet rfl (List.Subset.refl _) trivial
  | completed hi => exact closeHonoured_sent h (hflagged _) hi

/--
In the runs whose completions find the flag of a request that agrees with their
own, `NSE_BE_CLOSED` is returned for the response to the first request with
`Connection: close` and for none before it; in every run, the first completion
that finds another flag breaks this.
-/
theorem close_honoured (p : FramingParam) (threadCount : Nat) :
    (∀ s, Reach (ServerState.step p) ServerState.closeStored (.start p threadCount) s →
      s.CloseHonoured) ∧
    ∀ s a s', Runs p threadCount s → s.CloseHonoured → s.step p a = some s' →
      (s'.CloseHonoured ↔ s.closeStored a) := by
  have hstep : ∀ s a s', Runs p threadCount s → s.CloseHonoured → s.step p a = some s' →
      (s'.CloseHonoured ↔ s.closeStored a) :=
    fun s a s' hruns h hs => h.step_iff (fun c => runs_flagged hruns c) hs
  refine ⟨?_, hstep⟩
  intro s hs
  have hboth : Runs p threadCount s ∧ s.CloseHonoured := by
    refine hs.invariant (I := fun s : ServerState => Runs p threadCount s ∧ s.CloseHonoured)
      ⟨.start, fun x hx => absurd hx List.not_mem_nil⟩ ?_
    intro s s' a h hstored hs
    exact ⟨.next h.1 trivial hs, (hstep s a s' h.1 h.2 hs).mpr hstored⟩
  exact hboth.2

section Examples

/-- `"POST /a HTTP/1.1\r\nConnection:close\r\nContent-Length:5\r\n\r\nhello"`. -/
def closingRequest : List UInt8 :=
  postLine ++ (connectionName ++ [58, 99, 108, 111, 115, 101, 13, 10]) ++ helloBody

/-- The request is queued, answered, and its flag is stored before the completion. -/
def closedInTime : List ServerAction :=
  [.receive 1 closingRequest, .split 1, .onReceived 1 true, .pop 0, .answer 0 true, .split 1,
    .onSendCompletion 0]

theorem close_honoured_example :
    ∃ s, Reach (ServerState.step packetBuffer) ServerState.closeStored (.start packetBuffer 4) s ∧
      s.completed.map Prod.snd = [.beClosed] ∧ s.CloseHonoured := by
  obtain ⟨s, hs, hp⟩ :=
    exists_run packetBuffer ServerState.closeStored 4 closedInTime
      (fun s => decide (s.completed.map Prod.snd = [.beClosed])) (by decide +kernel)
  exact ⟨s, hs, of_decide_eq_true hp, (close_honoured packetBuffer 4).1 s hs⟩

/-- A request behind it stores its own flag before the completion. -/
def closedTooLate : List ServerAction :=
  [.receive 1 (closingRequest ++ (postLine ++ helloBody)), .split 1, .onReceived 1 true, .split 1,
    .onReceived 1 true, .split 1, .pop 0, .answer 0 true, .onSendCompletion 0]

/-- The completion of the response to a request with `Connection: close` returns zero. -/
theorem close_overwritten :
    ¬ ∀ (p : FramingParam) (s : ServerState), Runs p 4 s → s.CloseHonoured := by
  intro hclaim
  obtain ⟨s, hs, hp⟩ :=
    exists_run packetBuffer (fun _ _ => True) 4 closedTooLate
      (fun s =>
        s.completed.any fun x =>
          decide (s.NoEarlierClose x.1) && (x.1.close && decide (x.2 = .success)))
      (by decide +kernel)
  obtain ⟨x, hx, hbad⟩ := List.any_eq_true.mp hp
  rw [Bool.and_eq_true, Bool.and_eq_true, decide_eq_true_eq, decide_eq_true_eq] at hbad
  obtain ⟨hfirst, hclose, hret⟩ := hbad
  have hclosed := (hclaim packetBuffer s hs x hx hfirst).mpr hclose
  rw [hret] at hclosed
  exact absurd hclosed (by decide)

end Examples

end CloseAfterSend

end Http
end IocpNetlib
