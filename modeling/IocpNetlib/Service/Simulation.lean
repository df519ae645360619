import IocpNetlib.Service.View

/-!
# Every step of the service is a step of one client

`Ordered` collects what holds in every run, whatever is called and however the
operations end: clients are numbered, and code that needs a release is followed
by one.  Where moreover the map finds a client under its own id, `step_view`
reduces a step of the service to a `ClientStep`.
-/

namespace IocpNetlib
namespace Service

open Ledger

/-- Clients are numbered, and threads only work on numbered ones. -/
structure State.Ordered (s : State) : Prop where
  released : ∀ t ∈ s.threads, Released t
  serialLt : ∀ a, (s.client a).serial < s.nextSerial
  serialInj :
    ∀ a b, (s.client a).serial = (s.client b).serial → (s.client a).serial ≠ 0 → a = b
  threads : ∀ t ∈ s.threads, ∀ x ∈ t, (s.client x.1).serial ≠ 0
  ops : ∀ x ∈ s.outstanding, (s.client x.1).serial ≠ 0
  map : ∀ e ∈ s.mTcpClientMap, (s.client e.2).serial ≠ 0
  logLt : ∀ e ∈ s.log, e.serial < s.nextSerial

/-- The ways a thread can take its next step. -/
theorem run_cases
    {s s' : State} {j : Nat} {o : Outcome} (h : s.run j o = some s') :
    ∃ b i rest, s.threads[j]? = some ((b, i) :: rest) ∧
      ((o = .ok ∧ ∃ id,
          ((i = .removeSelf ∧ id = (s.client b).mLogicSocketID) ∨ i = .removeClient id) ∧
          s' = (s.setThread j rest).removeClient id) ∨
        (o = .ok ∧ ∃ id, i = .sweep id ∧ (s.setThread j rest).sweep b id = some s') ∨
        ∃ ch, exec s.http (s.client b) i o = some ch ∧
          s' = (s.setThread j (owned b ch.push ++ rest)).apply b ch) := by
  rw [State.run] at h
  split at h
  · next b rest hj =>
      split_ifs at h with ho
      refine ⟨b, _, rest, hj, Or.inl ⟨ho.1, _, Or.inl ⟨rfl, rfl⟩, ?_⟩⟩
      exact (Option.some.inj h).symm
  · next b id rest hj =>
      split_ifs at h with ho
      exact ⟨b, _, rest, hj, Or.inl ⟨ho.1, id, Or.inr rfl, (Option.some.inj h).symm⟩⟩
  · next b id rest hj =>
      split_ifs at h with ho
      exact ⟨b, _, rest, hj, Or.inr (Or.inl ⟨ho, id, rfl, h⟩)⟩
  · next b i rest _ _ _ hj =>
      split at h
      · exact absurd h (by simp)
      · next ch hch =>
          exact ⟨b, i, rest, hj, Or.inr (Or.inr ⟨ch, hch, (Option.some.inj h).symm⟩)⟩
  · exact absurd h (by simp)

theorem sweep_eq
    {s s' : State} {a : Addr} {id : SocketID} (h : s.sweep a id = some s') :
    s.mTcpClientMap.lookup id = some a ∧
      s' =
        { s.setClient a (s.client a).swept with
          mTcpClientMap :=
            if (s.client a).mMarkedDestroy ∧ ¬ 0 < (s.client a).mReferenceCount then
              s.mTcpClientMap.filter fun e => e.1 ≠ id
            else s.mTcpClientMap } := by
  rw [State.sweep] at h
  by_cases hlook : s.mTcpClientMap.lookup id = some a
  · rw [if_pos hlook] at h
    exact ⟨hlook, (Option.some.inj h).symm⟩
  · rw [if_neg hlook] at h
    exact absurd h (by simp)

/-- The call on a client the map finds. -/
theorem find_cases
    {s s' : State} {id : SocketID} {code : List Instr} (h : s.find id code = some s') :
    (s.mTcpClientMap.lookup id = none ∧ s' = s) ∨
      ∃ a, s.mTcpClientMap.lookup id = some a ∧
        s' =
          { s.setClient a
              { s.client a with mReferenceCount := (s.client a).mReferenceCount + 1 } with
            threads := s.threads ++ [owned a code] } := by
  rw [State.find] at h
  split_ifs at h with hlock
  split at h
  · next hlook => exact Or.inl ⟨hlook, (Option.some.inj h).symm⟩
  · next a hlook => exact Or.inr ⟨a, hlook, (Option.some.inj h).symm⟩

/-- The locked part of `AllocTcpClient`. -/
theorem allocTcpClient_cases
    {s s' : State} {j : Nat} {a : Addr} {o : Outcome}
    (h : s.allocTcpClient j a o = some s') :
    ∃ id accepting, s.allocating[j]? = some (id, accepting) ∧
      ((o = .fail ∧ s' = { s with allocating := s.allocating.eraseIdx j }) ∨
        (o = .ok ∧ (s.client a).live = false ∧
          s' =
            { s.setClient a (.fresh id s.nextSerial) with
              mTcpClientMap :=
                if (s.mTcpClientMap.lookup id).isSome then s.mTcpClientMap
                else (id, a) :: s.mTcpClientMap
              allocating := s.allocating.eraseIdx j
              threads :=
                s.threads ++ [owned a [if accepting then .acceptEx else .increaseRef]]
              nextSerial := s.nextSerial + 1 })) := by
  rw [State.allocTcpClient] at h
  split at h
  · exact absurd h (by simp)
  · next id accepting hj =>
      refine ⟨id, accepting, hj, ?_⟩
      cases hlock : s.locked with
      | true =>
          rw [hlock, if_pos rfl] at h
          exact absurd h (by simp)
      | false =>
          rw [hlock, if_neg (by simp)] at h
          by_cases hfail : o = .fail
          · rw [if_pos hfail] at h
            exact Or.inl ⟨hfail, (Option.some.inj h).symm⟩
          · rw [if_neg hfail] at h
            by_cases hok : o = .ok ∧ (s.client a).live = false
            · rw [if_pos hok] at h
              exact Or.inr ⟨hok.1, hok.2, (Option.some.inj h).symm⟩
            · rw [if_neg hok] at h
              exact absurd h (by simp)

theorem lookup_mem {m : List (SocketID × Addr)} {id : SocketID} {a : Addr}
    (h : m.lookup id = some a) : (id, a) ∈ m := by
  obtain ⟨l, l', rfl, -⟩ := List.lookup_eq_some_iff.mp h
  exact List.mem_append_right _ List.mem_cons_self

section Ordered

variable {s s' : State}

/-- A step that renumbers no client, and works on numbered clients only. -/
theorem State.Ordered.keep
    (h : s.Ordered)
    (hserial : ∀ a, (s'.client a).serial = (s.client a).serial)
    (hnext : s'.nextSerial = s.nextSerial)
    (hreleased : ∀ t ∈ s'.threads, Released t)
    (hthreads : ∀ t ∈ s'.threads, ∀ x ∈ t, (s.client x.1).serial ≠ 0)
    (hops : ∀ x ∈ s'.outstanding, (s.client x.1).serial ≠ 0)
    (hmap : ∀ e ∈ s'.mTcpClientMap, e ∈ s.mTcpClientMap)
    (hlog : ∀ e ∈ s'.log, e.serial < s.nextSerial) :
    s'.Ordered where
  released := hreleased
  serialLt := fun a => by
    rw [hserial, hnext]
    exact h.serialLt a
  serialInj := fun a b => by
    rw [hserial, hserial]
    exact h.serialInj a b
  threads := fun t ht x hx => by
    rw [hserial]
    exact hthreads t ht x hx
  ops := fun x hx => by
    rw [hserial]
    exact hops x hx
  map := fun e he => by
    rw [hserial]
    exact h.map e (hmap e he)
  logLt := fun e he => by
    rw [hnext]
    exact hlog e he

/-- The code of a thread that has run its next instruction. -/
theorem State.Ordered.setThread
    (h : s.Ordered) {j : Nat} {b : Addr} {i : Instr} {rest : List (Addr × Instr)}
    (hj : s.threads[j]? = some ((b, i) :: rest)) {push : List Instr}
    (hpush : releases i.owes push = true) :
    (∀ t ∈ s.threads.set j (owned b push ++ rest), Released t) ∧
      ∀ t ∈ s.threads.set j (owned b push ++ rest), ∀ x ∈ t, (s.client x.1).serial ≠ 0 := by
  have hmem := List.mem_of_getElem? hj
  have hreleased := h.released _ hmem
  have hserial := h.threads _ hmem
  constructor
  · intro t ht
    rcases List.mem_or_eq_of_mem_set ht with ht | rfl
    · exact h.released t ht
    · exact hreleased.2.append hreleased.1 hpush
  · intro t ht x hx
    rcases List.mem_or_eq_of_mem_set ht with ht | rfl
    · exact h.threads t ht x hx
    · rcases List.mem_append.mp hx with hx | hx
      · obtain ⟨_, _, rfl⟩ := List.mem_map.mp hx
        exact hserial (b, i) List.mem_cons_self
      · exact hserial x (List.mem_cons_of_mem _ hx)

/-- A new thread on a numbered client. -/
theorem State.Ordered.spawn
    (h : s.Ordered) {b : Addr} (hb : (s.client b).serial ≠ 0) {code : List Instr}
    (hcode : releases none code = true) :
    (∀ t ∈ s.threads ++ [owned b code], Released t) ∧
      ∀ t ∈ s.threads ++ [owned b code], ∀ x ∈ t, (s.client x.1).serial ≠ 0 := by
  constructor
  · intro t ht
    rcases List.mem_append.mp ht with ht | ht
    · exact h.released t ht
    · rw [List.mem_singleton.mp ht]
      have hnil : Released (owned b code ++ []) :=
        Released.append (show Released [] from trivial) (by simp) hcode
      rwa [List.append_nil] at hnil
  · intro t ht x hx
    rcases List.mem_append.mp ht with ht | ht
    · exact h.threads t ht x hx
    · rw [List.mem_singleton.mp ht] at hx
      obtain ⟨_, _, rfl⟩ := List.mem_map.mp hx
      exact hb

theorem removed_serial (c : TcpClient) : c.removed.serial = c.serial := by
  rw [TcpClient.removed]
  split_ifs <;> rfl

theorem swept_serial (c : TcpClient) : c.swept.serial = c.serial := by
  rw [TcpClient.swept]
  split_ifs <;> rfl

theorem setClient_serial
    {a : Addr} {c : TcpClient} (hc : c.serial = (s.client a).serial) (b : Addr) :
    ((s.setClient a c).client b).serial = (s.client b).serial := by
  rw [State.setClient]
  simp only
  split_ifs with hb
  · rw [hb, hc]
  · rfl

theorem removeClient_keeps (s : State) (id : SocketID) :
    (∀ a, ((s.removeClient id).client a).serial = (s.client a).serial) ∧
      (s.removeClient id).nextSerial = s.nextSerial ∧
      (s.removeClient id).threads = s.threads ∧
      (s.removeClient id).outstanding = s.outstanding ∧
      (∀ e ∈ (s.removeClient id).mTcpClientMap, e ∈ s.mTcpClientMap) ∧
      (s.removeClient id).log = s.log := by
  rw [State.removeClient]
  split
  · exact ⟨fun _ => rfl, rfl, rfl, rfl, fun _ h => h, rfl⟩
  · refine ⟨setClient_serial (removed_serial _), rfl, rfl, rfl, ?_, rfl⟩
    intro e he
    simp only at he
    split_ifs at he
    · exact he
    · exact List.mem_of_mem_filter he

theorem State.Ordered.run
    (h : s.Ordered) {j : Nat} {o : Outcome} (hrun : s.run j o = some s') :
    s'.Ordered := by
  obtain ⟨b, i, rest, hj, hcase⟩ := run_cases hrun
  have hb : (s.client b).serial ≠ 0 :=
    h.threads _ (List.mem_of_getElem? hj) _ List.mem_cons_self
  rcases hcase with ⟨-, id, -, rfl⟩ | ⟨-, id, -, hsweep⟩ | ⟨ch, hch, rfl⟩
  · obtain ⟨hserial, hnext, hthreads, hops, hmap, hlog⟩ :=
      removeClient_keeps (s.setThread j rest) id
    obtain ⟨hreleased, hnumbered⟩ := h.setThread hj (show releases i.owes [] = true from rfl)
    refine h.keep hserial hnext ?_ ?_ ?_ hmap ?_
    · rw [hthreads]
      exact hreleased
    · rw [hthreads]
      exact hnumbered
    · rw [hops]
      exact h.ops
    · rw [hlog]
      exact h.logLt
  · obtain ⟨-, rfl⟩ := sweep_eq hsweep
    obtain ⟨hreleased, hnumbered⟩ := h.setThread hj (show releases i.owes [] = true from rfl)
    refine h.keep (setClient_serial (s := s.setThread j rest) (swept_serial _)) rfl hreleased
      hnumbered h.ops ?_ h.logLt
    intro e he
    simp only at he
    split_ifs at he
    · exact List.mem_of_mem_filter he
    · exact he
  · obtain ⟨hreleased, hnumbered⟩ := h.setThread hj (exec_releases hch)
    have hserial : ch.client.serial = (s.client b).serial := exec_serial hch
    refine h.keep (setClient_serial (s := s.setThread j (owned b ch.push ++ rest)) hserial) rfl
      hreleased hnumbered ?_ (fun _ he => he) ?_
    · intro x hx
      rcases List.mem_append.mp hx with hx | hx
      · exact h.ops x hx
      · obtain ⟨_, _, rfl⟩ := List.mem_map.mp hx
        exact hb
    · intro e he
      rw [State.apply] at he
      simp only at he
      split at he
      · exact h.logLt e he
      · rcases List.mem_cons.mp he with rfl | he
        · exact h.serialLt b
        · exact h.logLt e he

/-- `checkStatus` starts its visits of the clients in the map. -/
theorem checkStatus_cases
    {s s' : State} (h : step s .checkStatus = some s') :
    ∃ ts, s.threads = [] :: ts ∧
      s' =
        { s with
          threads := (s.mTcpClientMap.map fun e => (e.2, .visit e.1)) :: ts } := by
  simp only [step] at h
  split at h
  · next ts hts => exact ⟨ts, hts, (Option.some.inj h).symm⟩
  · exact absurd h (by simp)

/-- A completion is dequeued by a thread of its own. -/
theorem complete_cases
    {s s' : State} {j : Nat} {r : Completion} (h : step s (.complete j r) = some s') :
    ∃ b k code, s.outstanding[j]? = some (b, k) ∧ onCompleteOperation k r = some code ∧
      s' =
        { s with
          outstanding := s.outstanding.eraseIdx j
          threads := s.threads ++ [owned b code] } := by
  simp only [step] at h
  split at h
  · exact absurd h (by simp)
  · next b k hj =>
      split at h
      · exact absurd h (by simp)
      · next code hcode => exact ⟨b, k, code, hj, hcode, (Option.some.inj h).symm⟩

theorem visits_released (m : List (SocketID × Addr)) :
    Released (m.map fun e => (e.2, Instr.visit e.1)) := by
  induction m with
  | nil => trivial
  | cons e m ih => exact ⟨fun j h => absurd h (by simp [Instr.owes, Instr.needsRelease]), ih⟩

theorem State.Ordered.find
    (h : s.Ordered) {id : SocketID} {code : List Instr} (hcode : releases none code = true)
    (hs : s.find id code = some s') :
    s'.Ordered := by
  rcases find_cases hs with ⟨-, rfl⟩ | ⟨a, hlook, rfl⟩
  · exact h
  · have ha : (s.client a).serial ≠ 0 := h.map _ (lookup_mem hlook)
    obtain ⟨hreleased, hnumbered⟩ := h.spawn ha hcode
    exact h.keep (setClient_serial rfl) rfl hreleased hnumbered h.ops (fun _ he => he) h.logLt

/-- The new client has the next number, whatever its block was before. -/
theorem State.Ordered.allocTcpClient
    (h : s.Ordered) {j : Nat} {a : Addr} {o : Outcome}
    (hs : s.allocTcpClient j a o = some s') :
    s'.Ordered := by
  obtain ⟨id, accepting, -, hcase⟩ := allocTcpClient_cases hs
  rcases hcase with ⟨-, rfl⟩ | ⟨-, -, rfl⟩
  · exact h.keep (fun _ => rfl) rfl h.released h.threads h.ops (fun _ he => he) h.logLt
  · have hself :
        ((s.setClient a (.fresh id s.nextSerial)).client a).serial = s.nextSerial := by
      simp only [State.setClient, if_true]
      rfl
    have hother :
        ∀ b, b ≠ a →
          ((s.setClient a (.fresh id s.nextSerial)).client b).serial =
            (s.client b).serial := by
      intro b hb
      simp only [State.setClient, if_neg hb]
    have hpos : s.nextSerial ≠ 0 := Nat.ne_of_gt (Nat.zero_lt_of_lt (h.serialLt a))
    have hnumbered :
        ∀ b, (s.client b).serial ≠ 0 →
          ((s.setClient a (.fresh id s.nextSerial)).client b).serial ≠ 0 := by
      intro b hb
      by_cases ha : b = a
      · rw [ha, hself]
        exact hpos
      · rw [hother b ha]
        exact hb
    refine ⟨?_, ?_, ?_, ?_, ?_, ?_, ?_⟩
    · intro t ht
      rcases List.mem_append.mp ht with ht | ht
      · exact h.released t ht
      · rw [List.mem_singleton.mp ht]
        refine ⟨?_, trivial⟩
        intro i howes
        cases accepting <;> exact absurd howes (by simp [Instr.owes, Instr.needsRelease])
    · intro b
      show ((s.setClient a (.fresh id s.nextSerial)).client b).serial < s.nextSerial + 1
      by_cases hb : b = a
      · rw [hb, hself]
        exact Nat.lt_succ_self _
      · rw [hother b hb]
        exact Nat.lt_succ_of_lt (h.serialLt b)
    · intro b c hbc hb0
      change
        ((s.setClient a (.fresh id s.nextSerial)).client b).serial =
          ((s.setClient a (.fresh id s.nextSerial)).client c).serial at hbc
      change ((s.setClient a (.fresh id s.nextSerial)).client b).serial ≠ 0 at hb0
      by_cases hb : b = a <;> by_cases hc : c = a
      · rw [hb, hc]
      · rw [hb, hself, hother c hc] at hbc
        exact absurd hbc (Nat.ne_of_gt (h.serialLt c))
      · rw [hc, hself, hother b hb] at hbc
        exact absurd hbc (Nat.ne_of_lt (h.serialLt b))
      · rw [hother b hb, hother c hc] at hbc
        rw [hother b hb] at hb0
        exact h.serialInj b c hbc hb0
    · intro t ht x hx
      rcases List.mem_append.mp ht with ht | ht
      · exact hnumbered _ (h.threads t ht x hx)
      · rw [List.mem_singleton.mp ht] at hx
        rw [List.mem_singleton.mp hx]
        show ((s.setClient a (.fresh id s.nextSerial)).client a).serial ≠ 0
        rw [hself]
        exact hpos
    · intro x hx
      exact hnumbered _ (h.ops x hx)
    · intro e he
      simp only at he
      split_ifs at he
      · exact hnumbered _ (h.map e he)
      · rcases List.mem_cons.mp he with rfl | he
        · show ((s.setClient a (.fresh id s.nextSerial)).client a).serial ≠ 0
          rw [hself]
          exact hpos
        · exact hnumbered _ (h.map e he)
    · intro e he
      exact Nat.lt_succ_of_lt (h.logLt e he)

theorem State.Ordered.checkStatus
    (h : s.Ordered) (hs : step s .checkStatus = some s') :
    s'.Ordered := by
  obtain ⟨ts, hts, rfl⟩ := checkStatus_cases hs
  have hmem : ∀ t ∈ ts, t ∈ s.threads := by
    intro t ht
    rw [hts]
    exact List.mem_cons_of_mem _ ht
  refine h.keep (fun _ => rfl) rfl ?_ ?_ h.ops (fun _ he => he) h.logLt
  · intro t ht
    rcases List.mem_cons.mp ht with rfl | ht
    · exact visits_released _
    · exact h.released t (hmem t ht)
  · intro t ht x hx
    rcases List.mem_cons.mp ht with rfl | ht
    · obtain ⟨e, he, rfl⟩ := List.mem_map.mp hx
      exact h.map e he
    · exact h.threads t (hmem t ht) x hx

theorem State.Ordered.complete
    (h : s.Ordered) {j : Nat} {r : Completion} (hs : step s (.complete j r) = some s') :
    s'.Ordered := by
  obtain ⟨b, k, code, hj, hcode, rfl⟩ := complete_cases hs
  have hb : (s.client b).serial ≠ 0 := h.ops _ (List.mem_of_getElem? hj)
  obtain ⟨hreleased, hnumbered⟩ := h.spawn hb (onCompleteOperation_releases hcode)
  refine h.keep (fun _ => rfl) rfl hreleased hnumbered ?_ (fun _ he => he) h.logLt
  intro x hx
  exact h.ops x (List.mem_of_mem_eraseIdx hx)

theorem State.Ordered.init (http listening : Bool) : (State.init http listening).Ordered where
  released := by
    intro t ht
    rw [List.mem_singleton.mp ht]
    trivial
  serialLt := fun _ => Nat.one_pos
  serialInj := fun _ _ _ h => absurd rfl h
  threads := by
    intro t ht x hx
    rw [List.mem_singleton.mp ht] at hx
    exact absurd hx List.not_mem_nil
  ops := fun _ h => absurd h List.not_mem_nil
  map := fun _ h => absurd h List.not_mem_nil
  logLt := fun _ h => absurd h List.not_mem_nil

/-- Every step, whatever it is, keeps the numbering. -/
theorem State.Ordered.step {act : Action} (h : s.Ordered) (hs : step s act = some s') :
    s'.Ordered := by
  cases act with
  | otherService =>
      rcases hs with ⟨⟩
      exact h.keep (fun _ => rfl) rfl h.released h.threads h.ops (fun _ he => he) h.logLt
  | getNextLogicSocketID =>
      rcases hs with ⟨⟩
      exact h.keep (fun _ => rfl) rfl h.released h.threads h.ops (fun _ he => he) h.logLt
  | allocTcpClient j a o => exact h.allocTcpClient hs
  | send socketID => exact h.find rfl hs
  | closeSocket socketID => exact h.find rfl hs
  | checkStatus => exact h.checkStatus hs
  | complete j r => exact h.complete hs
  | run j o => exact h.run hs

end Ordered

section ViewSteps

variable {s s' : State}

/-- The map finds the clients that code is about to look up, and only finds live ones. -/
structure State.Mapped (s : State) : Prop where
  live : ∀ {id a}, s.mTcpClientMap.lookup id = some a → (s.client a).live = true
  self : ∀ {j : Nat} {b : Addr} {rest : List (Addr × Instr)},
    s.threads[j]? = some ((b, .removeSelf) :: rest) →
    s.mTcpClientMap.lookup (s.client b).mLogicSocketID = some b
  saved : ∀ {j : Nat} {b : Addr} {id : SocketID} {rest : List (Addr × Instr)},
    s.threads[j]? = some ((b, .removeClient id) :: rest) →
    s.mTcpClientMap.lookup id = some b

/-- What a step is to the client at `a`: a step of its own, or nothing. -/
def ViewStep (s : State) (act : Action) (s' : State) (a : Addr) : Prop :=
  (∃ ℓ, label s act = some (a, ℓ) ∧ ClientStep s.http (s.view a) ℓ (s'.view a)) ∨
    s'.view a = s.view a

theorem view_congr
    {a : Addr} (hclient : s'.client a = s.client a)
    (hheld : ∀ W, s'.held a W = s.held a W)
    (hseen : ∀ p, s'.seen a p = s.seen a p) :
    s'.view a = s.view a := by
  unfold State.view
  rw [hclient, funext hheld, funext hseen]

theorem seen_congr
    {a : Addr} (hserial : (s'.client a).serial = (s.client a).serial)
    (hlog : s'.log = s.log) (p : Kind → Bool) :
    s'.seen a p = s.seen a p := by
  unfold State.seen
  rw [hserial, hlog]

theorem setClient_self (s : State) (a : Addr) (c : TcpClient) :
    (s.setClient a c).client a = c :=
  if_pos rfl

theorem setClient_other (s : State) {a b : Addr} (h : b ≠ a) (c : TcpClient) :
    (s.setClient a c).client b = s.client b :=
  if_neg h

/-- A thread has run its next instruction, and nothing takes its place. -/
theorem held_next
    {j : Nat} {b : Addr} {i : Instr} {rest : List (Addr × Instr)}
    (hj : s.threads[j]? = some ((b, i) :: rest)) (a : Addr) (W : Weight) :
    (s.setThread j rest).held a W + (if a = b then W.instr i else 0) = s.held a W := by
  have hset := held_setThread hj [] a W
  rw [Weight.code_nil, ite_self, Nat.add_zero] at hset
  exact hset

/-- Code that looks the client up changes nothing but the client it finds. -/
theorem held_lookup
    {j : Nat} {b : Addr} {i : Instr} {rest : List (Addr × Instr)}
    (hj : s.threads[j]? = some ((b, i) :: rest))
    (hthreads : s'.threads = s.threads.set j rest)
    (hops : s'.outstanding = s.outstanding) (a : Addr) (W : Weight) :
    s'.held a W + (if a = b then W.instr i else 0) = s.held a W := by
  have heq : s'.held a W = (s.setThread j rest).held a W := by
    rw [State.held]
    rw [hthreads, hops]
    rfl
  rw [heq]
  exact held_next hj a W

/-- The client `b` alone changes, to `c`. -/
theorem viewStep_lookup
    {j : Nat} {b : Addr} {i : Instr} {rest : List (Addr × Instr)}
    (hj : s.threads[j]? = some ((b, i) :: rest)) {c : TcpClient}
    (hserial : c.serial = (s.client b).serial)
    (hclient : s'.client = (s.setClient b c).client)
    (hthreads : s'.threads = s.threads.set j rest)
    (hops : s'.outstanding = s.outstanding) (hlog : s'.log = s.log)
    (hstep : (s'.view b).client = c →
      (∀ W : Weight, (s'.view b).held W + W.instr i = (s.view b).held W) →
      (∀ p, (s'.view b).seen p = (s.view b).seen p) →
      ClientStep s.http (s.view b) (.run i .ok) (s'.view b))
    (a : Addr) :
    ViewStep s (.run j .ok) s' a := by
  have hheld := held_lookup hj hthreads hops a
  by_cases ha : a = b
  · subst ha
    refine Or.inl ⟨.run i .ok, ?_, ?_⟩
    · simp only [label, hj]
    · have hc : s'.client a = c := by
        rw [hclient, setClient_self]
      refine hstep hc (fun W => ?_) (seen_congr (by rw [hc, hserial]) hlog)
      have hW := hheld W
      rw [if_pos rfl] at hW
      exact hW
  · have hsame : s'.client a = s.client a := by
      rw [hclient, setClient_other s ha]
    refine Or.inr (view_congr hsame (fun W => ?_) (seen_congr (by rw [hsame]) hlog))
    have hW := hheld W
    rw [if_neg ha] at hW
    exact hW

/-- What an instruction that looks nothing up does to the shares. -/
theorem held_exec
    {j : Nat} {b : Addr} {i : Instr} {rest : List (Addr × Instr)}
    (hj : s.threads[j]? = some ((b, i) :: rest)) (ch : Change) (a : Addr) (W : Weight) :
    ((s.setThread j (owned b ch.push ++ rest)).apply b ch).held a W +
        (if a = b then W.instr i else 0) =
      s.held a W + if a = b then W.code ch.push + W.ops ch.post else 0 := by
  have hset := held_setThread hj ch.push a W
  have hpost := held_post (s.setThread j (owned b ch.push ++ rest)) b ch.post a W
  have heq :
      ((s.setThread j (owned b ch.push ++ rest)).apply b ch).held a W =
        State.held
          { s.setThread j (owned b ch.push ++ rest) with
            outstanding :=
              (s.setThread j (owned b ch.push ++ rest)).outstanding ++ owned b ch.post }
          a W := rfl
  rw [heq, hpost]
  split_ifs at hset ⊢ <;> omega

/-- An instruction that looks nothing up changes the client it is about. -/
theorem viewStep_exec
    (h : s.Ordered) {j : Nat} {b : Addr} {i : Instr} {rest : List (Addr × Instr)}
    (hj : s.threads[j]? = some ((b, i) :: rest)) {o : Outcome} {ch : Change}
    (hexec : exec s.http (s.client b) i o = some ch) (a : Addr) :
    ViewStep s (.run j o) ((s.setThread j (owned b ch.push ++ rest)).apply b ch) a := by
  have hmem := List.mem_of_getElem? hj
  have hb : (s.client b).serial ≠ 0 := h.threads _ hmem _ List.mem_cons_self
  have hheld := held_exec hj ch a
  by_cases ha : a = b
  · subst ha
    refine Or.inl ⟨.run i o, ?_, ?_⟩
    · simp only [label, hj]
    · have hclient :
          ((s.setThread j (owned a ch.push ++ rest)).apply a ch).client a = ch.client :=
        setClient_self _ _ _
      refine .run hexec (fun W => ?_) (fun hi => ?_) hclient
        (fun W => ?_) (fun p => ?_)
      · have hle := share_le_held hj W
        exact Nat.le_trans (Nat.le_add_right _ _) hle
      · have hle := share_le_held hj pendingShare
        have hshare :=
          share_le_shares pendingShare ((h.released _ hmem).1 _ (needsRelease_owes hi))
        show pendingShare.instr i + 1 ≤ s.held a pendingShare
        have hpos : 1 ≤ shares (ofOwner a pendingShare.instr) rest := hshare
        omega
      · have hW := hheld W
        rw [if_pos rfl, if_pos rfl] at hW
        simp only [State.view]
        omega
      · show State.seen _ a p = s.seen a p + occurs p ch.event
        unfold State.seen
        rw [hclient, exec_serial hexec]
        unfold State.apply
        simp only
        cases ch.event with
        | none => rfl
        | some k =>
            rw [List.countP_cons]
            simp [occurs, State.setThread]
  · have hsame :
        ((s.setThread j (owned b ch.push ++ rest)).apply b ch).client a = s.client a :=
      setClient_other _ ha _
    refine Or.inr (view_congr hsame (fun W => ?_) (fun p => ?_))
    · have hW := hheld W
      rw [if_neg ha, if_neg ha] at hW
      exact hW
    · unfold State.seen
      rw [hsame]
      unfold State.apply
      simp only
      cases ch.event with
      | none => rfl
      | some k =>
          have hne : (s.client b).serial ≠ (s.client a).serial :=
            fun heq => ha (h.serialInj b a heq hb).symm
          rw [List.countP_cons]
          simp [State.setThread, hne]

/-- A step of a thread. -/
theorem viewStep_run
    (h : s.Ordered) (hm : s.Mapped) {j : Nat} {o : Outcome} (hs : s.run j o = some s')
    (a : Addr) :
    ViewStep s (.run j o) s' a := by
  obtain ⟨b, i, rest, hj, hcase⟩ := run_cases hs
  rcases hcase with ⟨rfl, id, hi, rfl⟩ | ⟨rfl, id, rfl, hsweep⟩ | ⟨ch, hch, rfl⟩
  · have hlook : (s.setThread j rest).mTcpClientMap.lookup id = some b := by
      rcases hi with ⟨rfl, rfl⟩ | rfl
      · exact hm.self hj
      · exact hm.saved hj
    have hremoves : i.removes = true := by
      rcases hi with ⟨rfl, rfl⟩ | rfl <;> rfl
    refine viewStep_lookup hj (removed_serial _) ?_ ?_ ?_ ?_
      (fun hc hheld hseen => .remove hremoves hc hheld hseen) a
    all_goals
      rw [State.removeClient]
      rw [hlook]
      rfl
  · obtain ⟨-, rfl⟩ := sweep_eq hsweep
    refine viewStep_lookup hj (swept_serial _) ?_ ?_ ?_ ?_
      (fun hc hheld hseen => .sweep hc (fun W => ?_) hseen) a
    case refine_5 =>
      have hW := hheld W
      rw [W.sweep] at hW
      exact hW
    all_goals rfl
  · exact viewStep_exec h hj hch a

/-- A call on a client that the map finds. -/
theorem viewStep_find
    (hm : s.Mapped) {act : Action} {id : SocketID} {code : List Instr}
    (hcode : code = sendCode ∨ code = closeCode)
    (hlabel : label s act = (s.mTcpClientMap.lookup id).map fun a => (a, .find code))
    (hs : s.find id code = some s') (a : Addr) :
    ViewStep s act s' a := by
  rcases find_cases hs with ⟨-, rfl⟩ | ⟨b, hlook, rfl⟩
  · exact Or.inr rfl
  · have hheld :=
      held_spawn
        (s.setClient b
          { s.client b with mReferenceCount := (s.client b).mReferenceCount + 1 }) b code a
    by_cases ha : a = b
    · subst ha
      refine Or.inl ⟨.find code, ?_, ?_⟩
      · rw [hlabel, hlook]
        rfl
      · refine .find hcode (hm.live hlook) (setClient_self _ _ _) (fun W => ?_) (fun p => ?_)
        · have hW := hheld W
          rw [if_pos rfl] at hW
          exact hW
        · simp only [State.view, State.seen, setClient_self]
          rfl
    · have hsame := setClient_other s ha
        { s.client b with mReferenceCount := (s.client b).mReferenceCount + 1 }
      refine Or.inr (view_congr hsame (fun W => ?_) (seen_congr (congrArg _ hsame) rfl))
      have hW := hheld W
      rw [if_neg ha] at hW
      exact hW

theorem seen_fresh (h : s.Ordered) (p : Kind → Bool) :
    (s.log.countP fun e => decide (e.serial = s.nextSerial) && p e.kind) = 0 := by
  rw [List.countP_eq_zero]
  intro e he
  have hlt := h.logLt e he
  simp [Nat.ne_of_lt hlt]

theorem viewStep_alloc
    (h : s.Ordered) {j : Nat} {b : Addr} {o : Outcome}
    (hs : s.allocTcpClient j b o = some s') (a : Addr) :
    ViewStep s (.allocTcpClient j b o) s' a := by
  obtain ⟨id, accepting, hj, hcase⟩ := allocTcpClient_cases hs
  rcases hcase with ⟨-, rfl⟩ | ⟨rfl, hlive, rfl⟩
  · exact Or.inr rfl
  · have hheld :=
      held_spawn (s.setClient b (.fresh id s.nextSerial)) b
        [if accepting then .acceptEx else .increaseRef] a
    by_cases ha : a = b
    · subst ha
      refine
        Or.inl
          ⟨.alloc (if accepting then .acceptEx else .increaseRef) id
            (s.mTcpClientMap.lookup id).isNone, ?_, ?_⟩
      · simp only [label, hj, Option.map_some]
      · refine .alloc ?_ hlive (setClient_self _ _ _)
          (fun W => ?_) (fun p => ?_)
        · cases accepting
          · exact Or.inr rfl
          · exact Or.inl rfl
        · have hW := hheld W
          rw [if_pos rfl] at hW
          exact hW
        · have hserial :
              ((s.setClient a (.fresh id s.nextSerial)).client a).serial = s.nextSerial := by
            rw [setClient_self]
            rfl
          show State.seen _ a p = 0
          rw [State.seen]
          simp only [hserial]
          exact seen_fresh h p
    · have hsame := setClient_other s ha (.fresh id s.nextSerial)
      refine Or.inr (view_congr hsame (fun W => ?_) (seen_congr (congrArg _ hsame) rfl))
      have hW := hheld W
      rw [if_neg ha] at hW
      exact hW

theorem viewStep_complete
    {j : Nat} {r : Completion} (hs : step s (.complete j r) = some s') (a : Addr) :
    ViewStep s (.complete j r) s' a := by
  obtain ⟨b, k, code, hj, hcode, rfl⟩ := complete_cases hs
  have hspawn := held_spawn { s with outstanding := s.outstanding.eraseIdx j } b code a
  have herase := held_dequeue hj a
  by_cases ha : a = b
  · subst ha
    refine Or.inl ⟨.complete k r, ?_, ?_⟩
    · simp only [label, hj, Option.map_some]
    · refine .complete hcode (op_le_held hj) rfl (fun W => ?_) (fun _ => rfl)
      have hW := hspawn W
      have hW' := herase W
      rw [if_pos rfl] at hW hW'
      simp only [State.view]
      simp only at hW
      omega
  · refine Or.inr (view_congr rfl (fun W => ?_) (fun _ => rfl))
    have hW := hspawn W
    have hW' := herase W
    rw [if_neg ha] at hW hW'
    simp only at hW
    omega

/-- The visits of the sweep have no shares. -/
theorem shares_visits (a : Addr) (W : Weight) (m : List (SocketID × Addr)) :
    shares (ofOwner a W.instr) (m.map fun e => (e.2, Instr.visit e.1)) = 0 := by
  induction m with
  | nil => rfl
  | cons e m ih =>
      simp only [List.map_cons, shares, ih, ofOwner, W.visit]
      simp

theorem viewStep_checkStatus
    (hs : step s .checkStatus = some s') (a : Addr) :
    s'.view a = s.view a := by
  obtain ⟨ts, hts, rfl⟩ := checkStatus_cases hs
  refine view_congr rfl (fun W => ?_) (fun _ => rfl)
  unfold State.held
  simp only [hts, total, shares, shares_visits]

/-- Every step of the service is a step of one client; the others do not see it. -/
theorem step_view
    {act : Action} (h : s.Ordered) (hm : s.Mapped) (hs : step s act = some s') (a : Addr) :
    ViewStep s act s' a := by
  cases act with
  | otherService =>
      rcases hs with ⟨⟩
      exact Or.inr rfl
  | getNextLogicSocketID =>
      rcases hs with ⟨⟩
      exact Or.inr rfl
  | allocTcpClient j b o => exact viewStep_alloc h hs a
  | send socketID => exact viewStep_find hm (Or.inl rfl) rfl hs a
  | closeSocket socketID => exact viewStep_find hm (Or.inr rfl) rfl hs a
  | checkStatus => exact Or.inr (viewStep_checkStatus hs a)
  | complete j r => exact viewStep_complete hs a
  | run j o => exact viewStep_run h hm hs a

/-- No step changes the protocol or whether the service listens. -/
theorem step_config {act : Action} (hs : step s act = some s') :
    s'.http = s.http ∧ s'.listening = s.listening := by
  cases act with
  | otherService =>
      rcases hs with ⟨⟩
      exact ⟨rfl, rfl⟩
  | getNextLogicSocketID =>
      rcases hs with ⟨⟩
      exact ⟨rfl, rfl⟩
  | allocTcpClient j b o =>
      obtain ⟨id, accepting, -, ⟨-, rfl⟩ | ⟨-, -, rfl⟩⟩ := allocTcpClient_cases hs
      · exact ⟨rfl, rfl⟩
      · exact ⟨rfl, rfl⟩
  | send socketID =>
      rcases find_cases hs with ⟨-, rfl⟩ | ⟨b, -, rfl⟩
      · exact ⟨rfl, rfl⟩
      · exact ⟨rfl, rfl⟩
  | closeSocket socketID =>
      rcases find_cases hs with ⟨-, rfl⟩ | ⟨b, -, rfl⟩
      · exact ⟨rfl, rfl⟩
      · exact ⟨rfl, rfl⟩
  | checkStatus =>
      obtain ⟨ts, -, rfl⟩ := checkStatus_cases hs
      exact ⟨rfl, rfl⟩
  | complete j r =>
      obtain ⟨b, k, code, -, -, rfl⟩ := complete_cases hs
      exact ⟨rfl, rfl⟩
  | run j o =>
      obtain ⟨b, i, rest, -, ⟨-, id, -, rfl⟩ | ⟨-, id, -, hsweep⟩ | ⟨ch, -, rfl⟩⟩ := run_cases hs
      · rw [State.removeClient]
        split
        · exact ⟨rfl, rfl⟩
        · exact ⟨rfl, rfl⟩
      · obtain ⟨-, rfl⟩ := sweep_eq hsweep
        exact ⟨rfl, rfl⟩
      · exact ⟨rfl, rfl⟩

end ViewSteps

section Closed

/-- Code and operations with no share only lead to code and operations with none. -/
structure Weight.Closed (W : Weight) : Prop where
  exec : ∀ {http : Bool} {c : TcpClient} {i : Instr} {o : Outcome} {ch : Change},
    exec http c i o = some ch → W.instr i = 0 → W.code ch.push = 0 ∧ W.ops ch.post = 0
  complete : ∀ {k : OpType} {r : Completion} {code : List Instr},
    onCompleteOperation k r = some code → W.op k = 0 → W.code code = 0
  send : W.code sendCode = 0
  close : W.code closeCode = 0

variable {s s' : State} {W : Weight}

theorem Weight.Closed.find
    (h : ∀ a, s.held a W = 0) {id : SocketID} {code : List Instr} (hcode : W.code code = 0)
    (hs : s.find id code = some s') (a : Addr) :
    s'.held a W = 0 := by
  rcases find_cases hs with ⟨-, rfl⟩ | ⟨b, -, rfl⟩
  · exact h a
  · have hspawn :=
      held_spawn
        (s.setClient b
          { s.client b with mReferenceCount := (s.client b).mReferenceCount + 1 }) b code a W
    rw [hcode, ite_self] at hspawn
    exact hspawn.trans (h a)

theorem Weight.Closed.run
    (hW : W.Closed) (h : ∀ a, s.held a W = 0) {j : Nat} {o : Outcome}
    (hs : s.run j o = some s') (a : Addr) :
    s'.held a W = 0 := by
  obtain ⟨b, i, rest, hj, ⟨-, id, -, rfl⟩ | ⟨-, id, -, hsweep⟩ | ⟨ch, hch, rfl⟩⟩ := run_cases hs
  · have hnext := held_next hj a W
    have heq : ((s.setThread j rest).removeClient id).held a W =
        (s.setThread j rest).held a W := by
      rw [State.removeClient]
      split <;> rfl
    have := h a
    omega
  · obtain ⟨-, rfl⟩ := sweep_eq hsweep
    have hnext := held_next hj a W
    show (s.setThread j rest).held a W = 0
    have := h a
    omega
  · have hown := share_le_held hj W
    have hzero := h b
    obtain ⟨hpush, hpost⟩ := hW.exec hch (by omega)
    have hexec := held_exec hj ch a W
    have := h a
    split_ifs at hexec <;> omega

/-- What no thread and no operation has a share of, none gets one of. -/
theorem Weight.Closed.step
    (hW : W.Closed) {act : Action}
    (halloc : ∀ {j : Nat} {id : SocketID} {accepting : Bool},
      s.allocating[j]? = some (id, accepting) →
        W.instr (if accepting then .acceptEx else .increaseRef) = 0)
    (h : ∀ a, s.held a W = 0) (hs : step s act = some s') (a : Addr) :
    s'.held a W = 0 := by
  cases act with
  | otherService =>
      rcases hs with ⟨⟩
      exact h a
  | getNextLogicSocketID =>
      rcases hs with ⟨⟩
      exact h a
  | allocTcpClient j b o =>
      obtain ⟨id, accepting, hj, ⟨-, rfl⟩ | ⟨-, -, rfl⟩⟩ := allocTcpClient_cases hs
      · exact h a
      · have hspawn :=
          held_spawn (s.setClient b (.fresh id s.nextSerial)) b
            [if accepting then .acceptEx else .increaseRef] a W
        rw [Weight.code_cons, halloc hj, Weight.code_nil, ite_self] at hspawn
        exact hspawn.trans (h a)
  | send socketID => exact Weight.Closed.find h hW.send hs a
  | closeSocket socketID => exact Weight.Closed.find h hW.close hs a
  | checkStatus => exact (congrFun (congrArg View.held (viewStep_checkStatus hs a)) W).trans (h a)
  | complete j r =>
      obtain ⟨b, k, code, hj, hcode, rfl⟩ := complete_cases hs
      have hspawn := held_spawn { s with outstanding := s.outstanding.eraseIdx j } b code a W
      have herase := held_dequeue hj a W
      have hop := op_le_held hj W
      have := h b
      have := h a
      have hzero : W.code code = 0 := hW.complete hcode (by omega)
      rw [hspawn, hzero]
      split_ifs at herase ⊢ <;> omega
  | run j o => exact hW.run h hs a

/-- The code of the acceptor, and the operation it posts. -/
def acceptorShare : Weight where
  instr
    | .acceptEx => 1
    | .acceptConnection => 1
    | .closeSocket => 1
    | .reset _ => 1
    | .storeConnected .accept => 1
    | .postRecv .accept => 1
    | .wsaRecv .accept => 1
    | .recvFailed .accept => 1
    | .onConnected .accept => 1
    | .postSpecial .accept => 1
    | .allocExceptionIOContext .accept => 1
    | .postQueued .accept => 1
    | _ => 0
  op
    | .accept => 1
    | _ => 0

/-- Code of the acceptor only comes from such code. -/
theorem acceptorShare_exec
    {http : Bool} {c : TcpClient} {i : Instr} {o : Outcome} {ch : Change}
    (h : exec http c i o = some ch) (hi : acceptorShare.instr i = 0) :
    acceptorShare.code ch.push = 0 ∧ acceptorShare.ops ch.post = 0 := by
  revert h
  fun_cases exec http c i o
  case case24 site | case25 site | case26 site _ | case28 site | case29 site =>
    rintro ⟨⟩
    cases site <;> first | exact absurd hi Nat.one_ne_zero | exact ⟨rfl, rfl⟩
  case case41 =>
    rintro ⟨⟩
    cases http <;> exact ⟨rfl, rfl⟩
  case case55 opType | case56 opType | case58 opType =>
    rintro ⟨⟩
    cases opType <;> first | exact absurd hi Nat.one_ne_zero | exact ⟨rfl, rfl⟩
  case case44 full =>
    rintro ⟨⟩
    refine ⟨?_, rfl⟩
    simp only [Change.next, sendResult]
    split_ifs <;> rfl
  case case62 =>
    rintro ⟨⟩
    refine ⟨?_, rfl⟩
    simp only [Change.next]
    split_ifs <;> rfl
  all_goals
    rintro ⟨⟩ <;> first | exact ⟨rfl, rfl⟩ | exact absurd hi Nat.one_ne_zero

theorem acceptorShare_closed : acceptorShare.Closed where
  exec := acceptorShare_exec
  complete := by
    intro k r code h hk
    revert h
    fun_cases onCompleteOperation k r
    all_goals
      rintro ⟨⟩ <;> first | rfl | exact absurd hk Nat.one_ne_zero
  send := rfl
  close := rfl

end Closed

end Service
end IocpNetlib
