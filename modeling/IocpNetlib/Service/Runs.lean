import IocpNetlib.Service.Counters

/-!
# Runs of the service

What a step leaves of the map and of the ids that are drawn, and what the
counters say of a client while they are right.  `Runs` are the runs whose steps
all meet a condition.
-/

namespace IocpNetlib
namespace Service

open Ledger Reachability

/-- The map holds exactly the live clients, each under the id it was entered with. -/
structure State.Registered (s : State) : Prop where
  nodup : (s.mTcpClientMap.map Prod.fst).Nodup
  mem : ∀ id a, (id, a) ∈ s.mTcpClientMap ↔
    (s.client a).live = true ∧ (s.client a).allocID = id

section Registered

variable {s s' : State}

theorem lookup_of_mem {m : List (SocketID × Addr)} {id : SocketID} {a : Addr}
    (hnodup : (m.map Prod.fst).Nodup) (h : (id, a) ∈ m) : m.lookup id = some a := by
  induction m with
  | nil => exact absurd h List.not_mem_nil
  | cons e m ih =>
      obtain ⟨k, b⟩ := e
      rw [List.map_cons, List.nodup_cons] at hnodup
      rw [List.lookup_cons]
      rcases List.mem_cons.mp h with heq | hmem
      · cases heq
        simp
      · have hne : (id == k) = false := by
          rw [beq_eq_false_iff_ne]
          rintro rfl
          exact hnodup.1 (List.mem_map.mpr ⟨_, hmem, rfl⟩)
        rw [hne]
        exact ih hnodup.2 hmem

theorem lookup_isNone {m : List (SocketID × Addr)} {id : SocketID}
    (h : (m.lookup id).isNone = true) : id ∉ m.map Prod.fst := by
  rw [Option.isNone_iff_eq_none, List.lookup_eq_none_iff] at h
  intro hmem
  obtain ⟨e, he, rfl⟩ := List.mem_map.mp hmem
  simpa using h e he

theorem State.Registered.init (http listening : Bool) : (State.init http listening).Registered where
  nodup := List.nodup_nil
  mem := fun _ _ =>
    ⟨fun h => absurd h List.not_mem_nil, fun h => absurd h.1 Bool.false_ne_true⟩

/-- One client changes, and is not allocated or given back. -/
theorem State.Registered.keep
    (h : s.Registered) {b : Addr} {c : TcpClient}
    (hmap : s'.mTcpClientMap = s.mTcpClientMap)
    (hclient : s'.client = (s.setClient b c).client)
    (hlive : c.live = (s.client b).live) (hid : c.allocID = (s.client b).allocID) :
    s'.Registered where
  nodup := by
    rw [hmap]
    exact h.nodup
  mem := fun id a => by
    rw [hmap, hclient, h.mem]
    by_cases ha : a = b
    · rw [ha, setClient_self, hlive, hid]
    · rw [setClient_other s ha]

/-- One client is given back, and its entry erased. -/
theorem State.Registered.free
    (h : s.Registered) {id : SocketID} {b : Addr} (hlook : s.mTcpClientMap.lookup id = some b)
    (hmap : s'.mTcpClientMap = s.mTcpClientMap.filter fun e => e.1 ≠ id)
    (hclient : s'.client = (s.setClient b { s.client b with live := false }).client) :
    s'.Registered where
  nodup := by
    rw [hmap]
    exact h.nodup.sublist (List.filter_sublist.map _)
  mem := fun id' a => by
    have hb := (h.mem id b).mp (lookup_mem hlook)
    rw [hmap, hclient, List.mem_filter, h.mem]
    by_cases ha : a = b
    · rw [ha, setClient_self]
      constructor
      · rintro ⟨⟨-, rfl⟩, hne⟩
        exact absurd hb.2 (by simpa using hne)
      · rintro ⟨hfalse, -⟩
        exact absurd hfalse (by simp)
    · rw [setClient_other s ha]
      constructor
      · exact fun hmem => hmem.1
      · intro hmem
        refine ⟨hmem, ?_⟩
        simp only [ne_eq, decide_not, Bool.not_eq_true', decide_eq_false_iff_not]
        rintro rfl
        have heq := lookup_of_mem h.nodup ((h.mem id' a).mpr hmem)
        rw [hlook] at heq
        exact ha (Option.some.inj heq).symm

/-- A client that is removed or swept is given back with its entry, or stays with it. -/
theorem State.Registered.run
    (h : s.Registered) {j : Nat} {o : Outcome} (hs : s.run j o = some s') :
    s'.Registered := by
  obtain ⟨b, i, rest, hj, hcase⟩ := run_cases hs
  rcases hcase with ⟨-, id, -, rfl⟩ | ⟨-, id, -, hsweep⟩ | ⟨ch, hch, rfl⟩
  · rw [State.removeClient]
    split
    · exact ⟨h.nodup, h.mem⟩
    · next a hlook =>
        by_cases hactive : 0 < (s.client a).mReferenceCount
        · exact h.keep (c := (s.client a).removed) (if_pos hactive) rfl
            (by rw [removed_active hactive]) (by rw [removed_active hactive])
        · refine h.free hlook (if_neg hactive) ?_
          rw [← removed_idle hactive]
          rfl
  · obtain ⟨hlook, rfl⟩ := sweep_eq hsweep
    by_cases hfree : (s.client b).mMarkedDestroy ∧ ¬ 0 < (s.client b).mReferenceCount
    · refine h.free hlook (if_pos hfree) ?_
      rw [← swept_free hfree]
      rfl
    · exact h.keep (c := (s.client b).swept) (if_neg hfree) rfl
        (by rw [swept_kept hfree]) (by rw [swept_kept hfree])
  · obtain ⟨hlive, hid⟩ := exec_life (v := s.view b) hch
    exact h.keep (c := ch.client) rfl rfl hlive hid

/-- A new client is entered under an id that is not in use. -/
theorem State.Registered.alloc
    (h : s.Registered) {j : Nat} {b : Addr} {o : Outcome}
    (hfresh : ∀ id accepting, o = .ok → s.allocating[j]? = some (id, accepting) →
      (s.mTcpClientMap.lookup id).isNone = true)
    (hs : s.allocTcpClient j b o = some s') :
    s'.Registered := by
  obtain ⟨id, accepting, hj, hcase⟩ := allocTcpClient_cases hs
  rcases hcase with ⟨-, rfl⟩ | ⟨rfl, hdead, rfl⟩
  · exact ⟨h.nodup, h.mem⟩
  · have hnone := hfresh id accepting rfl hj
    have hunused := lookup_isNone hnone
    have hsome : ¬ (s.mTcpClientMap.lookup id).isSome = true := by
      rw [Option.isNone_iff_eq_none.mp hnone]
      simp
    constructor
    · simp only [if_neg hsome, List.map_cons, List.nodup_cons]
      exact ⟨hunused, h.nodup⟩
    · intro id' a
      show (id', a) ∈ (if _ then _ else _) ↔
        ((s.setClient b (.fresh id s.nextSerial)).client a).live = true ∧
          ((s.setClient b (.fresh id s.nextSerial)).client a).allocID = id'
      rw [if_neg hsome, List.mem_cons, h.mem]
      by_cases ha : a = b
      · rw [ha, setClient_self, hdead]
        simp [TcpClient.fresh, eq_comm]
      · rw [setClient_other s ha]
        simp [ha]

/-- The map stays right as long as new ids are not in use. -/
theorem State.Registered.step
    (h : s.Registered) {act : Action}
    (hfresh : ∀ j b id accepting, act = .allocTcpClient j b .ok →
      s.allocating[j]? = some (id, accepting) → (s.mTcpClientMap.lookup id).isNone = true)
    (hs : step s act = some s') :
    s'.Registered := by
  have hfind :
      ∀ {id : SocketID} {code : List Instr}, s.find id code = some s' → s'.Registered := by
    intro id code hfind
    rcases find_cases hfind with ⟨-, rfl⟩ | ⟨b, -, rfl⟩
    · exact h
    · exact h.keep (b := b) rfl rfl rfl rfl
  cases act with
  | otherService =>
      rcases hs with ⟨⟩
      exact ⟨h.nodup, h.mem⟩
  | getNextLogicSocketID =>
      rcases hs with ⟨⟩
      exact ⟨h.nodup, h.mem⟩
  | allocTcpClient j b o =>
      refine h.alloc (fun id accepting ho hj => ?_) hs
      exact hfresh j b id accepting (by rw [ho]) hj
  | send socketID => exact hfind hs
  | closeSocket socketID => exact hfind hs
  | checkStatus =>
      obtain ⟨ts, -, rfl⟩ := checkStatus_cases hs
      exact ⟨h.nodup, h.mem⟩
  | complete j r =>
      obtain ⟨b, k, code, -, -, rfl⟩ := complete_cases hs
      exact ⟨h.nodup, h.mem⟩
  | run j o => exact h.run hs

end Registered

section Allocating

variable {s s' : State}

theorem nextID_ne_zero (n : SocketID) : nextID n ≠ 0 := by
  rw [nextID]
  split
  · decide
  · next hne => exact hne

/-- The acceptor allocates where the service listens, `ConnectServer` where it does not. -/
theorem allocating_step
    (h : ∀ e ∈ s.allocating, e.2 = s.listening ∧ e.1 ≠ 0) {act : Action}
    (hs : step s act = some s') :
    ∀ e ∈ s'.allocating, e.2 = s'.listening ∧ e.1 ≠ 0 := by
  have hfind :
      ∀ {id : SocketID} {code : List Instr}, s.find id code = some s' →
        ∀ e ∈ s'.allocating, e.2 = s'.listening ∧ e.1 ≠ 0 := by
    intro id code hfind
    rcases find_cases hfind with ⟨-, rfl⟩ | ⟨b, -, rfl⟩
    · exact h
    · exact h
  cases act with
  | otherService =>
      rcases hs with ⟨⟩
      exact h
  | getNextLogicSocketID =>
      rcases hs with ⟨⟩
      intro e he
      rcases List.mem_append.mp he with he | he
      · exact h e he
      · rw [List.mem_singleton.mp he]
        exact ⟨rfl, nextID_ne_zero _⟩
  | allocTcpClient j b o =>
      obtain ⟨id, accepting, -, ⟨-, rfl⟩ | ⟨-, -, rfl⟩⟩ := allocTcpClient_cases hs
      · exact fun e he => h e (List.mem_of_mem_eraseIdx he)
      · exact fun e he => h e (List.mem_of_mem_eraseIdx he)
  | send socketID => exact hfind hs
  | closeSocket socketID => exact hfind hs
  | checkStatus =>
      obtain ⟨ts, -, rfl⟩ := checkStatus_cases hs
      exact h
  | complete j r =>
      obtain ⟨b, k, code, -, -, rfl⟩ := complete_cases hs
      exact h
  | run j o =>
      obtain ⟨b, i, rest, -, ⟨-, id, -, rfl⟩ | ⟨-, id, -, hsweep⟩ | ⟨ch, -, rfl⟩⟩ := run_cases hs
      · rw [State.removeClient]
        split
        · exact h
        · exact h
      · obtain ⟨-, rfl⟩ := sweep_eq hsweep
        exact h
      · exact h

end Allocating

section Quiet

/-- A weight that calls on the map have no share of. -/
structure Weight.Idle (W : Weight) : Prop where
  removeSelf : W.instr .removeSelf = 0 := by rfl
  removeClient : ∀ id, W.instr (.removeClient id) = 0 := by intro; rfl
  send : W.code sendCode = 0 := by rfl
  close : W.code closeCode = 0 := by rfl

/-- A step that finds, marks, frees or sweeps the client, and nothing else. -/
structure View.Quiet (v v' : View) : Prop where
  client : ∃ refs marked live,
    v'.client =
      { v.client with mReferenceCount := refs, mMarkedDestroy := marked, live := live }
  held : ∀ W : Weight, W.Idle → v'.held W = v.held W
  seen : ∀ p, v'.seen p = v.seen p

variable {v v' : View}

theorem View.Quiet.remove
    {i : Instr} (removes : i.removes = true) (client : v'.client = v.client.removed)
    (held : ∀ W : Weight, v'.held W + W.instr i = v.held W)
    (seen : ∀ p, v'.seen p = v.seen p) :
    v.Quiet v' where
  client := by
    rw [client]
    by_cases hactive : 0 < v.client.mReferenceCount
    · exact ⟨_, _, _, removed_active hactive⟩
    · exact ⟨_, _, _, removed_idle hactive⟩
  held := fun W hidle => by
    have hW := held W
    have hzero : W.instr i = 0 := by
      cases i
      case removeSelf => exact hidle.removeSelf
      case removeClient id => exact hidle.removeClient id
      all_goals exact absurd removes (by simp [Instr.removes])
    rw [hzero] at hW
    exact hW
  seen := seen

theorem View.Quiet.sweep
    (client : v'.client = v.client.swept) (held : ∀ W : Weight, v'.held W = v.held W)
    (seen : ∀ p, v'.seen p = v.seen p) :
    v.Quiet v' where
  client := by
    rw [client]
    by_cases hfree : v.client.mMarkedDestroy ∧ ¬ 0 < v.client.mReferenceCount
    · exact ⟨_, _, _, swept_free hfree⟩
    · exact ⟨_, _, _, swept_kept hfree⟩
  held := fun W _ => held W
  seen := seen

theorem View.Quiet.find
    {code : List Instr} (exec : code = sendCode ∨ code = closeCode)
    (client : v'.client =
      { v.client with mReferenceCount := v.client.mReferenceCount + 1 })
    (held : ∀ W : Weight, v'.held W = v.held W + W.code code)
    (seen : ∀ p, v'.seen p = v.seen p) :
    v.Quiet v' where
  client := ⟨_, _, _, client⟩
  held := fun W hidle => by
    rw [held]
    rcases exec with rfl | rfl
    · rw [hidle.send, Nat.add_zero]
    · rw [hidle.close, Nat.add_zero]
  seen := seen

end Quiet

section Runs

/-- A client whose counters are right. -/
structure View.Sound (v : View) : Prop extends View.Lawful v, View.Counters v

/-- The part of a weight that stands for shares of `mPendingIo`. -/
def Weight.busy (W : Weight) : Weight where
  instr i := if i.needsRelease = true ∨ 0 < pendingShare.instr i then W.instr i else 0
  op k := if 0 < pendingShare.op k then W.op k else 0
  visit := fun id => by rw [W.visit]; exact ite_self 0
  sweep := fun id => by rw [W.sweep]; exact ite_self 0

/-- The other part of it. -/
def Weight.idle (W : Weight) : Weight where
  instr i := if i.needsRelease = true ∨ 0 < pendingShare.instr i then 0 else W.instr i
  op k := if 0 < pendingShare.op k then 0 else W.op k
  visit := fun id => by rw [W.visit]; exact ite_self 0
  sweep := fun id => by rw [W.sweep]; exact ite_self 0

theorem View.Sound.held_split {v : View} (hv : v.Sound) (W : Weight) :
    v.held W ≤ v.held W.busy + v.held W.idle := by
  rw [← hv.add]
  refine hv.mono (fun i => ?_) (fun k => ?_)
  · simp only [Weight.add, Weight.busy, Weight.idle]
    split_ifs <;> omega
  · simp only [Weight.add, Weight.busy, Weight.idle]
    split_ifs <;> omega

/-- With no operation pending, nothing is left that stands for one. -/
theorem View.Sound.held_busy {v : View} (hv : v.Sound) (W : Weight)
    (hidle : v.held pendingShare = 0) : v.held W.busy = 0 := by
  by_contra hne
  have hpos :=
    hv.rooted (W := W.busy)
      (fun i hi => by
        by_contra hno
        simp only [Weight.busy, if_neg hno] at hi
        exact Nat.lt_irrefl 0 hi)
      (fun k hk => by
        by_contra hno
        simp only [Weight.busy, if_neg hno] at hk
        exact Nat.lt_irrefl 0 hk)
      (Nat.pos_of_ne_zero hne)
  omega

/-- While `T` hands the client on, nothing else does and no operation is pending. -/
theorem View.Sound.exclusive
    {v : View} (hv : v.Sound) {T : Weight} (hT : 0 < v.held T) (W : Weight)
    (hinstr : ∀ i, W.idle.instr i + T.instr i ≤ ownerShare.instr i)
    (hop : ∀ k, W.idle.op k + T.op k ≤ ownerShare.op k) :
    v.held W = 0 := by
  have hTle : v.held T ≤ v.held ownerShare :=
    hv.mono (fun i => Nat.le_trans (Nat.le_add_left _ _) (hinstr i))
      fun k => Nat.le_trans (Nat.le_add_left _ _) (hop k)
  obtain ⟨-, -, hidle, hone⟩ := hv.owned (by omega)
  have hle : v.held (W.idle.add T) ≤ v.held ownerShare := hv.mono hinstr hop
  rw [hv.add] at hle
  have hsplit := hv.held_split W
  have hbusy := hv.held_busy W hidle
  omega

/-- While an operation is pending the client is live, not marked, and not handed on. -/
theorem View.Sound.busy_live
    {v : View} (hv : v.Sound) (hbusy : 0 < v.held pendingShare) :
    v.client.live = true ∧ v.client.mMarkedDestroy = false ∧ v.held ownerShare = 0 := by
  have howner := hv.owner
  cases hlive : v.client.live <;> cases hmark : v.client.mMarkedDestroy <;>
    simp [hlive, hmark] at howner ⊢ <;> omega

/-- Nothing hands a client on that is not live, and no operation of it is pending. -/
theorem View.Sound.dead_held
    {v : View} (hv : v.Sound) (hlive : v.client.live = false) (W : Weight)
    (hinstr : ∀ i, W.idle.instr i ≤ ownerShare.instr i)
    (hop : ∀ k, W.idle.op k ≤ ownerShare.op k) :
    v.held W = 0 := by
  obtain ⟨hpending, howner, -, -⟩ := hv.toCounters.dead hv.toLawful hlive 0
  have hle : v.held W.idle ≤ v.held ownerShare := hv.mono hinstr hop
  have hsplit := hv.held_split W
  have hbusy := hv.held_busy W hpending
  omega

/-- What allocates a client: the acceptor, or `ConnectServer`, with an id that is not zero. -/
def Label.Of (listening : Bool) : Label → Prop
  | .alloc first id _ => (first = if listening then .acceptEx else .increaseRef) ∧ id ≠ 0
  | _ => True

theorem label_of
    {s : State} (h : ∀ e ∈ s.allocating, e.2 = s.listening ∧ e.1 ≠ 0) {act : Action} {a : Addr}
    {ℓ : Label} (hlabel : label s act = some (a, ℓ)) :
    ℓ.Of s.listening := by
  cases act with
  | otherService => exact absurd hlabel (by simp [label])
  | getNextLogicSocketID => exact absurd hlabel (by simp [label])
  | checkStatus => exact absurd hlabel (by simp [label])
  | allocTcpClient j b o =>
      cases o
      case ok =>
        obtain ⟨e, he, heq⟩ := Option.map_eq_some_iff.mp hlabel
        cases heq
        obtain ⟨hcaller, hid⟩ := h e (List.mem_of_getElem? he)
        show (if e.2 then Instr.acceptEx else Instr.increaseRef) = _ ∧ e.1 ≠ 0
        rw [hcaller]
        exact ⟨rfl, hid⟩
      all_goals exact absurd hlabel (by simp [label])
  | send socketID =>
      obtain ⟨b, -, heq⟩ := Option.map_eq_some_iff.mp hlabel
      cases heq
      trivial
  | closeSocket socketID =>
      obtain ⟨b, -, heq⟩ := Option.map_eq_some_iff.mp hlabel
      cases heq
      trivial
  | complete j r =>
      obtain ⟨b, -, heq⟩ := Option.map_eq_some_iff.mp hlabel
      cases heq
      trivial
  | run j o =>
      unfold label at hlabel
      simp only at hlabel
      split at hlabel
      · cases hlabel
        trivial
      · exact absurd hlabel (by simp)

/-- The states of the runs that meet `G`. -/
abbrev Runs (G : View → Label → Bool) (http listening : Bool) (s : State) : Prop :=
  Reach step (Meets G) (State.init http listening) s

variable {G : View → Label → Bool} {http listening : Bool} {s s' : State}

theorem Meets.mono
    {G' : View → Label → Bool} (hG : ∀ v ℓ, G v ℓ = true → G' v ℓ = true)
    {act : Action} (h : Meets G s act) : Meets G' s act := by
  rw [Meets] at h ⊢
  cases hlabel : label s act with
  | none => trivial
  | some x =>
      rw [hlabel] at h
      exact hG _ _ h

/-- A run that can be evaluated. -/
theorem exists_run
    (G : View → Label → Bool) (http listening : Bool) (as : List Action) (p : State → Bool)
    (h : (runAll step (Meets G) (State.init http listening) as).any p = true) :
    ∃ s, Runs G http listening s ∧ p s = true :=
  exists_reach_of_runAll h

/-- No run changes the protocol or whether the service listens. -/
theorem runs_config (h : Runs G http listening s) : s.http = http ∧ s.listening = listening :=
  h.invariant (I := fun s => s.http = http ∧ s.listening = listening) ⟨rfl, rfl⟩
    fun hconfig _ hs => ⟨(step_config hs).1.trans hconfig.1, (step_config hs).2.trans hconfig.2⟩

end Runs

end Service
end IocpNetlib
