import IocpNetlib.Http.Dispatch
import IocpNetlib.Http.ProcessMsg
import Mathlib.Data.List.ReduceOption

/-!
# In which order the responses of a connection are sent

Requests leave the queue in the order of their delivery, but several threads
may work on requests of one connection at once, and nothing makes one of them
wait for another.  The `WSASend`s of a connection stay in the order of its
requests as long as no request is taken off the queue while an earlier one of
its connection is still worked on; a request that is taken off earlier may
overtake.
-/

namespace IocpNetlib
namespace Http

open Reachability

section ResponseOrder

variable {p : FramingParam} {s s' : ServerState}

/-- No thread takes a request off the queue while one of its connection is worked on. -/
def ServerState.popsInTurn (s : ServerState) : ServerAction → Prop
  | .pop _ =>
      ∀ r ∈ s.mPackageQueue.head?, ∀ q ∈ s.mThreads.reduceOption, q.socketID ≠ r.socketID
  | _ => True

instance (s : ServerState) (a : ServerAction) : Decidable (s.popsInTurn a) :=
  match a with
  | .pop _ =>
      inferInstanceAs
        (Decidable
          (∀ r ∈ s.mPackageQueue.head?, ∀ q ∈ s.mThreads.reduceOption,
            q.socketID ≠ r.socketID))
  | .receive .. | .split _ | .onReceived .. | .disconnect _ | .answer .. | .drop _
  | .onSendCompletion _ => isTrue trivial

/--
The requests of a connection are, in this order, those that are through, at most
one that is worked on, and those in the queue.
-/
structure ServerState.InTurn (s : ServerState) (c : UInt32) (through : List QueuedRequest) :
    Prop where
  delivered :
    onConn c s.delivered =
      through ++ onConn c s.mThreads.reduceOption ++ onConn c s.mPackageQueue
  posted : (onConn c s.posted).Sublist through
  single : (onConn c s.mThreads.reduceOption).length ≤ 1

/-- A thread takes a request: it joins the requests that are worked on. -/
theorem reduceOption_take
    {ts : List (Option QueuedRequest)} {i : Nat} (h : ts[i]? = some none) (r : QueuedRequest) :
    ∃ l₁ l₂, ts.reduceOption = l₁ ++ l₂ ∧ (ts.set i (some r)).reduceOption = l₁ ++ r :: l₂ := by
  obtain ⟨hlt, hnone⟩ := List.getElem?_eq_some_iff.mp h
  refine ⟨(ts.take i).reduceOption, (ts.drop (i + 1)).reduceOption, ?_, ?_⟩
  · conv_lhs => rw [← List.take_append_drop i ts, List.drop_eq_getElem_cons hlt, hnone]
    rw [List.reduceOption_append, List.reduceOption_cons_of_none]
  · rw [List.set_eq_take_append_cons_drop, if_pos hlt, List.reduceOption_append,
      List.reduceOption_cons_of_some]

/-- A thread is through with a request. -/
theorem reduceOption_leave
    {ts : List (Option QueuedRequest)} {i : Nat} {r : QueuedRequest}
    (h : ts[i]? = some (some r)) :
    ∃ l₁ l₂, ts.reduceOption = l₁ ++ r :: l₂ ∧ (ts.set i none).reduceOption = l₁ ++ l₂ := by
  obtain ⟨hlt, hsome⟩ := List.getElem?_eq_some_iff.mp h
  refine ⟨(ts.take i).reduceOption, (ts.drop (i + 1)).reduceOption, ?_, ?_⟩
  · conv_lhs => rw [← List.take_append_drop i ts, List.drop_eq_getElem_cons hlt, hsome]
    rw [List.reduceOption_append, List.reduceOption_cons_of_some]
  · rw [List.set_eq_take_append_cons_drop, if_pos hlt, List.reduceOption_append,
      List.reduceOption_cons_of_none]

/-- A step that only changes connections, or sends in flight. -/
theorem ServerState.InTurn.keep
    {c : UInt32} {through : List QueuedRequest} (h : s.InTurn c through)
    (hdelivered : s'.delivered = s.delivered)
    (hqueue : s'.mPackageQueue = s.mPackageQueue)
    (hthreads : s'.mThreads = s.mThreads)
    (hposted : s'.posted = s.posted) :
    s'.InTurn c through where
  delivered := by
    rw [hdelivered, hqueue, hthreads]
    exact h.delivered
  posted := by
    rw [hposted]
    exact h.posted
  single := by
    rw [hthreads]
    exact h.single

theorem ServerState.InTurn.queued
    {c : UInt32} {through : List QueuedRequest} (h : s.InTurn c through)
    (d : UInt32) (pData : List UInt8) (hs : HttpHeaders) (call : HttpCall) :
    (s.queued d pData hs call).InTurn c through where
  delivered := by
    show onConn c (s.delivered ++ [_]) = _ ++ onConn c (s.mPackageQueue ++ [_])
    rw [onConn_append, onConn_append, h.delivered]
    simp only [List.append_assoc]
    rfl
  posted := h.posted
  single := h.single

theorem ServerState.InTurn.pop
    {c : UInt32} {through : List QueuedRequest} (h : s.InTurn c through)
    {i : Nat} {r : QueuedRequest} {rs : List QueuedRequest}
    (hi : s.mThreads[i]? = some none) (hqueue : s.mPackageQueue = r :: rs)
    (hturn : s.popsInTurn (.pop i)) :
    { s with mPackageQueue := rs, mThreads := s.mThreads.set i (some r) }.InTurn c through := by
  obtain ⟨l₁, l₂, hbefore, hafter⟩ := reduceOption_take hi r
  have hdelivered := h.delivered
  have hsingle := h.single
  rw [hqueue, hbefore, onConn_append] at hdelivered
  rw [hbefore, onConn_append, List.length_append] at hsingle
  by_cases hc : r.socketID = c
  · subst hc
    have hnone : onConn r.socketID (l₁ ++ l₂) = [] := by
      rw [List.eq_nil_iff_forall_not_mem]
      intro q hq
      obtain ⟨hmem, hsame⟩ := mem_onConn.mp hq
      rw [← hbefore] at hmem
      exact hturn r (by rw [hqueue]; rfl) q hmem hsame
    rw [onConn_append, List.append_eq_nil_iff] at hnone
    obtain ⟨h₁, h₂⟩ := hnone
    rw [h₁, h₂, onConn_cons_self] at hdelivered
    refine ⟨?_, h.posted, ?_⟩
    · show onConn _ s.delivered = _ ++ onConn _ (s.mThreads.set i (some r)).reduceOption ++ _
      rw [hdelivered, hafter, onConn_append, onConn_cons_self, h₁, h₂]
      simp
    · show (onConn _ (s.mThreads.set i (some r)).reduceOption).length ≤ 1
      rw [hafter, onConn_append, onConn_cons_self, h₁, h₂]
      simp
  · rw [onConn_cons_other hc] at hdelivered
    refine ⟨?_, h.posted, ?_⟩
    · show onConn _ s.delivered = _ ++ onConn _ (s.mThreads.set i (some r)).reduceOption ++ _
      rw [hdelivered, hafter, onConn_append, onConn_cons_other hc]
    · show (onConn _ (s.mThreads.set i (some r)).reduceOption).length ≤ 1
      rw [hafter, onConn_append, onConn_cons_other hc, List.length_append]
      exact hsingle

/-- A thread is through with its request, which it has sent or not. -/
theorem ServerState.InTurn.leave
    {c : UInt32} {through : List QueuedRequest} (h : s.InTurn c through)
    {i : Nat} {r : QueuedRequest} {sent : List QueuedRequest}
    (hi : s.mThreads[i]? = some (some r)) (hsent : sent.Sublist [r])
    (hdelivered : s'.delivered = s.delivered)
    (hqueue : s'.mPackageQueue = s.mPackageQueue)
    (hthreads : s'.mThreads = s.mThreads.set i none)
    (hposted : s'.posted = s.posted ++ sent) :
    s'.InTurn c (through ++ onConn c [r]) := by
  obtain ⟨l₁, l₂, hbefore, hafter⟩ := reduceOption_leave hi
  have hall := h.delivered
  have hsingle := h.single
  rw [hbefore, onConn_append] at hall
  rw [hbefore, onConn_append, List.length_append] at hsingle
  have hsub : (onConn c (s.posted ++ sent)).Sublist (through ++ onConn c [r]) := by
    rw [onConn_append]
    exact h.posted.append (hsent.filter _)
  by_cases hc : r.socketID = c
  · subst hc
    rw [onConn_cons_self, List.length_cons] at hsingle
    have h₁ : onConn r.socketID l₁ = [] := List.length_eq_zero_iff.mp (by omega)
    have h₂ : onConn r.socketID l₂ = [] := List.length_eq_zero_iff.mp (by omega)
    rw [onConn_cons_self, h₁, h₂] at hall
    refine ⟨?_, hposted ▸ hsub, ?_⟩
    · rw [hdelivered, hqueue, hthreads, hall, hafter, onConn_append, h₁, h₂, onConn_cons_self]
      simp [onConn]
    · rw [hthreads, hafter, onConn_append, h₁, h₂]
      simp
  · have hnil : onConn c [r] = [] := onConn_cons_other hc []
    rw [onConn_cons_other hc] at hall hsingle
    refine ⟨?_, hposted ▸ hsub, ?_⟩
    · rw [hdelivered, hqueue, hthreads, hall, hafter, onConn_append, hnil, List.append_nil]
    · rw [hthreads, hafter, onConn_append, List.length_append]
      exact hsingle

theorem ServerState.InTurn.start (p : FramingParam) (threadCount : Nat) (c : UInt32) :
    (ServerState.start p threadCount).InTurn c [] := by
  have hnone : (ServerState.start p threadCount).mThreads.reduceOption = [] := by
    rw [List.reduceOption_eq_nil_iff]
    exact ⟨threadCount, rfl⟩
  refine ⟨?_, List.Sublist.refl _, ?_⟩
  · rw [hnone]
    rfl
  · rw [hnone]
    exact Nat.zero_le 1

/-- A step of a run that takes the requests of a connection in turn. -/
theorem ServerState.InTurn.step
    {c : UInt32} {through : List QueuedRequest} (h : s.InTurn c through)
    {a : ServerAction} (hturn : s.popsInTurn a) (hs : s.step p a = some s') :
    ∃ through', s'.InTurn c through' := by
  cases step_stepped hs with
  | receive hpoint => exact ⟨through, h.keep rfl rfl rfl rfl⟩
  | split hsplit => exact ⟨through, h.keep rfl rfl rfl rfl⟩
  | accepted hcall => exact ⟨through, h.queued _ _ _ _⟩
  | refused hcall => exact ⟨through, h.keep rfl rfl rfl rfl⟩
  | disconnect => exact ⟨through, h.keep rfl rfl rfl rfl⟩
  | pop hi hqueue => exact ⟨through, h.pop hi hqueue hturn⟩
  | answer hi => exact ⟨_, h.leave hi (List.Sublist.refl _) rfl rfl rfl rfl⟩
  | drop hi => exact ⟨_, h.leave hi (List.nil_sublist _) rfl rfl rfl (List.append_nil _).symm⟩
  | completed hi => exact ⟨through, h.keep rfl rfl rfl rfl⟩

section Examples

end Examples

end ResponseOrder

end Http
end IocpNetlib
