import Mathlib.Data.List.InsertIdx
import Mathlib.Data.List.Nodup
import Mathlib.Data.Nat.ModEq
import IocpNetlib.Service.Runs

/-!
# The ids of the clients

`GetNextLogicSocketID` gives out the ids from 1 to 2^32 - 1 in turn and begins
again at 1.  `Draws` notes beside a run which draw each client has its id from;
`keepsIDs` says of a step that no client has the id that is about to be entered
in the map, in terms of these draws.
-/

namespace IocpNetlib
namespace Service

open Ledger Reachability

section Draw

/-- How many ids there are. -/
def idCycle : Nat := 2 ^ 32 - 1

/-- The `n`-th id that `GetNextLogicSocketID` gives out. -/
def drawID : Nat → SocketID
  | 0 => 0
  | n + 1 => nextID (drawID n)

def SocketID.toNat (x : SocketID) : Nat := UInt32.toNat x

theorem SocketID.toNat_inj {x y : SocketID} (h : x.toNat = y.toNat) : x = y :=
  UInt32.toNat.inj h

theorem SocketID.toNat_succ (x : SocketID) : (x + 1).toNat = (x.toNat + 1) % 2 ^ 32 :=
  UInt32.toNat_add x 1

theorem nextID_max {x : SocketID} (h : x.toNat = idCycle) : (nextID x).toNat = 1 := by
  have hzero : x + 1 = 0 := by
    apply SocketID.toNat_inj
    rw [x.toNat_succ, h]
    rfl
  rw [nextID]
  rw [if_pos hzero]
  rfl

theorem nextID_lt {x : SocketID} (h : x.toNat < idCycle) :
    (nextID x).toNat = x.toNat + 1 := by
  have hadd : (x + 1).toNat = x.toNat + 1 := by
    rw [x.toNat_succ]
    exact Nat.mod_eq_of_lt (Nat.add_lt_of_lt_sub h)
  have hne : x + 1 ≠ 0 := by
    intro hzero
    rw [hzero] at hadd
    exact absurd hadd (Nat.succ_ne_zero _).symm
  rw [nextID]
  rw [if_neg hne]
  exact hadd

theorem drawID_toNat (n : Nat) : (drawID (n + 1)).toNat = n % idCycle + 1 := by
  induction n with
  | zero => rfl
  | succ n ih =>
      have hlt : n % idCycle < idCycle := Nat.mod_lt _ (by decide)
      have hone : 1 % idCycle = 1 := rfl
      show (nextID (drawID (n + 1))).toNat = _
      by_cases hmax : n % idCycle + 1 = idCycle
      · rw [nextID_max (ih.trans hmax), Nat.add_mod, hone, hmax, Nat.mod_self]
      · have hnext : n % idCycle + 1 < idCycle := by omega
        rw [nextID_lt (by rw [ih]; exact hnext), ih, Nat.add_mod, hone, Nat.mod_eq_of_lt hnext]

/-- Two draws give the same id if and only if whole rounds lie between them. -/
theorem drawID_eq_iff {m n : Nat} (hm : 0 < m) (hn : 0 < n) :
    drawID m = drawID n ↔ m ≡ n [MOD idCycle] := by
  obtain ⟨m, rfl⟩ := Nat.exists_eq_add_one_of_ne_zero (Nat.ne_of_gt hm)
  obtain ⟨n, rfl⟩ := Nat.exists_eq_add_one_of_ne_zero (Nat.ne_of_gt hn)
  constructor
  · intro h
    have hnat := congrArg SocketID.toNat h
    rw [drawID_toNat, drawID_toNat] at hnat
    exact Nat.ModEq.add_right 1 (Nat.add_right_cancel hnat)
  · intro h
    apply SocketID.toNat_inj
    rw [drawID_toNat, drawID_toNat]
    exact congrArg (· + 1) (Nat.ModEq.add_right_cancel' 1 h)

theorem drawID_ne_zero {n : Nat} (hn : 0 < n) : drawID n ≠ 0 := by
  obtain ⟨n, rfl⟩ := Nat.exists_eq_add_one_of_ne_zero (Nat.ne_of_gt hn)
  exact nextID_ne_zero _

end Draw

/-- How many ids were drawn, and by which draw the ids in use were. -/
structure Draws where
  count : Nat
  allocating : List Nat
  client : Addr → Nat

/-- Before the first draw. -/
def Draws.none : Draws :=
  { count := 0
    allocating := []
    client := fun _ => 0 }

/-- What a step draws, and to whom a draw goes. -/
def Draws.note (d : Draws) : Action → Draws
  | .otherService => { d with count := d.count + 1 }
  | .getNextLogicSocketID =>
      { d with count := d.count + 1, allocating := d.allocating ++ [d.count + 1] }
  | .allocTcpClient j a o =>
      { d with
        allocating := d.allocating.eraseIdx j
        client := fun b => if b = a ∧ o = .ok then d.allocating.getD j 0 else d.client b }
  | _ => d

/-- A step of the service, with the draws noted. -/
def drawStep : State × Draws → Action → Option (State × Draws) :=
  withGhost step fun _ act d => d.note act

/--
What keeps the ids apart: no client in the map was drawn whole rounds before or
after the new one; a client is `Reset` under its own id, and not found by a call
of the API before `RemoveClient` finds it.
-/
def keepsIDs (x : State × Draws) : Action → Bool
  | .allocTcpClient j _ .ok =>
      x.1.mTcpClientMap.all fun e =>
        decide (¬ x.2.client e.2 ≡ x.2.allocating.getD j 0 [MOD idCycle])
  | .run j _ =>
      match x.1.threads[j]? with
      | some ((a, .reset id) :: _) =>
          !(x.1.client a).live || decide ((x.1.client a).allocID = id)
      | some ((_, .removeClient id) :: _) =>
          match x.1.mTcpClientMap.lookup id with
          | none => true
          | some b =>
              decide ((x.1.client b).mLogicSocketID = id ∨
                ¬ 0 < (x.1.client b).mReferenceCount)
      | _ => true
  | _ => true

/--
After a failed accept a thread has `Reset` the client and calls `RemoveClient`
next.  In a service that listens, this is the one place that saves an id for it.
-/
def State.Resetting (s : State) (id : SocketID) (a : Addr) : Prop :=
  s.listening = true ∧ ∃ rest, (a, .removeClient id) :: rest ∈ s.threads

/-- Each client in the map and each live client has the id it is under. -/
structure State.Identified (s : State) : Prop where
  keys : (s.mTcpClientMap.map Prod.fst).Nodup
  entry : ∀ id a, (id, a) ∈ s.mTcpClientMap →
    id ≠ 0 ∧ (s.client a).live = true ∧ (s.client a).mLogicSocketID = id
  mapped : ∀ a, (s.client a).live = true →
    ((s.client a).mLogicSocketID, a) ∈ s.mTcpClientMap

/--
Every live client is in the map, and each client in it has the id it is
under; only one that a thread is about to remove has lost it.
-/
structure State.Listed (s : State) : Prop where
  keys : (s.mTcpClientMap.map Prod.fst).Nodup
  entry : ∀ id a, (id, a) ∈ s.mTcpClientMap →
    id ≠ 0 ∧ (s.client a).live = true ∧
      (¬ s.Resetting id a → (s.client a).mLogicSocketID = id)
  mapped : ∀ a, (s.client a).live = true → ∃ id, (id, a) ∈ s.mTcpClientMap

theorem State.Listed.identified
    {s : State} (h : s.Listed) (hreset : ∀ id a, ¬ s.Resetting id a) : s.Identified where
  keys := h.keys
  entry := fun id a he => by
    obtain ⟨hne, hlive, hsame⟩ := h.entry id a he
    exact ⟨hne, hlive, hsame (hreset id a)⟩
  mapped := fun a hlive => by
    obtain ⟨id, he⟩ := h.mapped a hlive
    obtain ⟨-, -, hsame⟩ := h.entry id a he
    rw [hsame (hreset id a)]
    exact he

/-- The client has this id, or had it and is on its way out. -/
def State.Has (s : State) (a : Addr) (id : SocketID) : Prop :=
  (s.client a).mLogicSocketID = id ∨
    (s.client a).mLogicSocketID = 0 ∧ s.Resetting id a

/-- Only a service that listens accepts. -/
structure State.OnlyListens (s : State) : Prop where
  held : s.listening = false → ∀ a, s.held a acceptorShare = 0
  allocating : ∀ e ∈ s.allocating, e.2 = s.listening ∧ e.1 ≠ 0

/-- The invariant of the runs that keep the ids apart. -/
structure KeptApart (x : State × Draws) : Prop where
  listens : x.1.OnlyListens
  registered : x.1.Registered
  has : ∀ a, (x.1.client a).live = true → x.1.Has a (x.1.client a).allocID
  next : x.1.mNextLogicSocketID = drawID x.2.count
  drawn : x.1.allocating.map Prod.fst = x.2.allocating.map drawID
  drawn_pos : ∀ n ∈ x.2.allocating, 0 < n
  client : ∀ a, (x.1.client a).live = true →
    (x.1.client a).allocID = drawID (x.2.client a) ∧ 0 < x.2.client a

section Threads

variable {s s' : State} {id : SocketID} {a : Addr}

/-- A client that is live after a step was live before, and has its ids still. -/
def State.Keeps (s s' : State) (a : Addr) : Prop :=
  (s'.client a).live = true →
    (s.client a).live = true ∧ (s'.client a).allocID = (s.client a).allocID ∧
      (s'.client a).mLogicSocketID = (s.client a).mLogicSocketID

theorem keeps_setClient
    {b : Addr} {c : TcpClient}
    (hc : c.live = true →
      (s.client b).live = true ∧ c.allocID = (s.client b).allocID ∧
        c.mLogicSocketID = (s.client b).mLogicSocketID) (a : Addr) :
    s.Keeps (s.setClient b c) a := by
  rw [State.Keeps]
  by_cases ha : a = b
  · rw [ha, setClient_self]
    exact hc
  · rw [setClient_other s ha]
    exact fun h => ⟨h, rfl, rfl⟩

theorem keeps_removed (s : State) (b a : Addr) :
    s.Keeps (s.setClient b (s.client b).removed) a := by
  apply keeps_setClient
  intro hlive
  by_cases hactive : 0 < (s.client b).mReferenceCount
  · rw [removed_active hactive] at hlive ⊢
    exact ⟨hlive, rfl, rfl⟩
  · rw [removed_idle hactive] at hlive
    exact absurd hlive Bool.false_ne_true

theorem keeps_swept (s : State) (b a : Addr) :
    s.Keeps (s.setClient b (s.client b).swept) a := by
  apply keeps_setClient
  intro hlive
  by_cases hfree : (s.client b).mMarkedDestroy ∧ ¬ 0 < (s.client b).mReferenceCount
  · rw [swept_free hfree] at hlive
    exact absurd hlive Bool.false_ne_true
  · rw [swept_kept hfree] at hlive ⊢
    exact ⟨hlive, rfl, rfl⟩

theorem keeps_found (s : State) (b a : Addr) :
    s.Keeps
      (s.setClient b
        { s.client b with mReferenceCount := (s.client b).mReferenceCount + 1 }) a := by
  apply keeps_setClient
  exact fun hlive => ⟨hlive, rfl, rfl⟩

/-- New threads do not touch a client that leaves. -/
theorem State.Has.mono
    (h : s.Has a id) (hlistening : s'.listening = s.listening)
    (hthreads : ∀ x rest, x :: rest ∈ s.threads → x :: rest ∈ s'.threads)
    (hlogic : (s'.client a).mLogicSocketID = (s.client a).mLogicSocketID) : s'.Has a id := by
  rcases h with hid | ⟨hzero, hlistens, rest, hmem⟩
  · exact Or.inl (hlogic.trans hid)
  · exact Or.inr ⟨hlogic.trans hzero, hlistening.trans hlistens, rest, hthreads _ _ hmem⟩

/-- A thread whose next instruction is another one does not touch a client that leaves. -/
theorem State.Has.set
    (h : s.Has a id) {j : Nat} {b : Addr} {i : Instr} {rest : List (Addr × Instr)}
    (hj : s.threads[j]? = some ((b, i) :: rest)) (hi : i ≠ .removeClient id)
    {t : List (Addr × Instr)} (hlistening : s'.listening = s.listening)
    (hthreads : s'.threads = s.threads.set j t)
    (hlogic : (s'.client a).mLogicSocketID = (s.client a).mLogicSocketID) : s'.Has a id := by
  rcases h with hid | ⟨hzero, hlistens, rest', hmem⟩
  · exact Or.inl (hlogic.trans hid)
  · refine Or.inr ⟨hlogic.trans hzero, hlistening.trans hlistens, rest', ?_⟩
    obtain ⟨k, hk, hget⟩ := List.mem_iff_getElem.mp hmem
    have hne : j ≠ k := by
      rintro rfl
      rw [List.getElem?_eq_getElem hk, hget, Option.some.injEq, List.cons.injEq,
        Prod.mk.injEq] at hj
      exact hi hj.1.2.symm
    rw [hthreads]
    refine List.mem_iff_getElem.mpr ⟨k, by rw [List.length_set]; exact hk, ?_⟩
    rw [List.getElem_set_ne hne, hget]

end Threads

section Listens

variable {s s' : State}

theorem State.OnlyListens.step
    (h : s.OnlyListens) {act : Action} (hs : step s act = some s') : s'.OnlyListens where
  held := by
    intro hquiet a
    rw [(step_config hs).2] at hquiet
    refine acceptorShare_closed.step ?_ (h.held hquiet) hs a
    intro j id accepting hj
    have haccepting : accepting = s.listening := (h.allocating _ (List.mem_of_getElem? hj)).1
    rw [haccepting, hquiet]
    rfl
  allocating := allocating_step h.allocating hs

/-- `Reset` is run by the acceptor of a service that listens. -/
theorem State.OnlyListens.reset
    (h : s.OnlyListens) {j : Nat} {b : Addr} {id : SocketID} {rest : List (Addr × Instr)}
    (hj : s.threads[j]? = some ((b, .reset id) :: rest)) : s.listening = true := by
  have hown := share_le_held hj acceptorShare
  have hone : acceptorShare.instr (.reset id) = 1 := rfl
  by_contra hquiet
  have hzero := h.held (Bool.not_eq_true _ ▸ hquiet) b
  omega

end Listens

section Steps

variable {x : State × Draws} {s' : State} {j : Nat} {o : Outcome} {a b : Addr} {i : Instr}
variable {rest : List (Addr × Instr)}

/-- Only `Reset` changes the id of a client, and goes on with `RemoveClient`. -/
theorem exec_keepsID
    {http : Bool} {c : TcpClient} {ch : Change} (h : exec http c i o = some ch) :
    (∃ id, i = .reset id ∧ ch.client.mLogicSocketID = 0 ∧ ch.push = [.removeClient id]) ∨
      ch.client.mLogicSocketID = c.mLogicSocketID := by
  revert h
  fun_cases exec http c i o
  case case23 id =>
    rintro ⟨⟩
    exact Or.inl ⟨id, rfl, rfl, rfl⟩
  all_goals
    rintro ⟨⟩ <;> exact Or.inr rfl

theorem exec_not_remove {http : Bool} {c : TcpClient} {id : SocketID} {ch : Change} :
    exec http c (.removeClient id) o ≠ some ch := by
  cases o <;> simp [exec]

/-- A client that `RemoveClient` finds and does not free is in use. -/
theorem removeClient_active
    {s : State} {id : SocketID} (hlook : s.mTcpClientMap.lookup id = some a)
    (hlive : ((s.removeClient id).client a).live = true) :
    0 < (s.client a).mReferenceCount := by
  by_contra hactive
  rw [State.removeClient] at hlive
  rw [hlook] at hlive
  simp only [setClient_self, removed_idle hactive] at hlive
  exact Bool.false_ne_true hlive

theorem keeps_removeClient (s : State) (id : SocketID) (a : Addr) :
    s.Keeps (s.removeClient id) a := by
  rw [State.removeClient]
  split
  · exact fun hlive => ⟨hlive, rfl, rfl⟩
  · next b _ => exact keeps_removed s b a

/-- `RemoveClient` frees the client that leaves under its id. -/
theorem KeptApart.has_remove
    (h : KeptApart x) (hkeeps : keepsIDs x (.run j o) = true)
    (hj : x.1.threads[j]? = some ((b, i) :: rest)) {id : SocketID}
    (hi : (i = .removeSelf ∧ id = (x.1.client b).mLogicSocketID) ∨ i = .removeClient id)
    (hlive : (((x.1.setThread j rest).removeClient id).client a).live = true) :
    ((x.1.setThread j rest).removeClient id).Has a
      (((x.1.setThread j rest).removeClient id).client a).allocID := by
  obtain ⟨hlive', halloc, hlogic⟩ := keeps_removeClient (x.1.setThread j rest) id a hlive
  rw [halloc]
  by_cases hown : i = .removeClient (x.1.client a).allocID
  · have hid : id = (x.1.client a).allocID := by
      rcases hi with ⟨hself, -⟩ | hclient
      · exact absurd (hself.symm.trans hown) (by simp)
      · exact Instr.removeClient.inj (hclient.symm.trans hown)
    have hlook : x.1.mTcpClientMap.lookup id = some a :=
      lookup_of_mem h.registered.nodup ((h.registered.mem _ _).mpr ⟨hlive', hid.symm⟩)
    have hactive : 0 < (x.1.client a).mReferenceCount :=
      removeClient_active (s := x.1.setThread j rest) hlook hlive
    subst hown
    simp only [keepsIDs, hj, ← hid, hlook, decide_eq_true_eq] at hkeeps
    rcases hkeeps with hsame | hidle
    · exact Or.inl (hlogic.trans (hsame.trans hid))
    · exact absurd hactive hidle
  · have hlistening : ((x.1.setThread j rest).removeClient id).listening = x.1.listening := by
      rw [State.removeClient]
      split <;> rfl
    exact (h.has a hlive').set hj hown hlistening (removeClient_keeps _ id).2.2.1 hlogic

/-- An instruction on a client leaves it its id, or it leaves. -/
theorem KeptApart.has_exec
    (h : KeptApart x) (hkeeps : keepsIDs x (.run j o) = true)
    (hj : x.1.threads[j]? = some ((b, i) :: rest)) {ch : Change}
    (hch : exec x.1.http (x.1.client b) i o = some ch)
    (hlistening : s'.listening = x.1.listening)
    (hthreads : s'.threads = x.1.threads.set j (owned b ch.push ++ rest))
    (hclient : s'.client = (x.1.setClient b ch.client).client)
    (hlive : (s'.client a).live = true) : s'.Has a (s'.client a).allocID := by
  obtain ⟨hlive', halloc⟩ := exec_life (v := x.1.view b) hch
  have hi : ∀ id, i ≠ .removeClient id := by
    rintro id rfl
    exact exec_not_remove hch
  rw [hclient] at hlive
  by_cases hreset : a = b ∧ ∃ id, i = .reset id ∧ ch.client.mLogicSocketID = 0 ∧
      ch.push = [.removeClient id]
  · obtain ⟨rfl, id, rfl, hzero, hpush⟩ := hreset
    rw [setClient_self, hlive'] at hlive
    change (x.1.client a).live = true at hlive
    have hid : (x.1.client a).allocID = id := by
      simpa [keepsIDs, hj, hlive] using hkeeps
    have hmem :=
      List.mem_set (List.getElem?_eq_some_iff.mp hj).1 ((a, Instr.removeClient id) :: rest)
    rw [hclient, setClient_self, halloc]
    change s'.Has a (x.1.client a).allocID
    rw [hid]
    refine Or.inr ⟨?_, hlistening.trans (h.listens.reset hj), rest, ?_⟩
    · rw [hclient, setClient_self, hzero]
    · rw [hthreads, hpush]
      exact hmem
  · have hkeep : x.1.Keeps (x.1.setClient b ch.client) a := by
      by_cases ha : a = b
      · have hlogic := (exec_keepsID hch).resolve_left fun hex => hreset ⟨ha, hex⟩
        apply keeps_setClient
        exact fun hl => ⟨hlive' ▸ hl, halloc, hlogic⟩
      · rw [State.Keeps]
        rw [setClient_other _ ha]
        exact fun hl => ⟨hl, rfl, rfl⟩
    obtain ⟨hlive'', halloc', hlogic'⟩ := hkeep hlive
    rw [hclient, halloc']
    exact (h.has a hlive'').set hj (hi _) hlistening hthreads (by rw [hclient]; exact hlogic')

/-- Every client that is live after a step has its id, or leaves. -/
theorem KeptApart.has_step
    (h : KeptApart x) {act : Action} (hkeeps : keepsIDs x act = true)
    (hs : step x.1 act = some s') (hlive : (s'.client a).live = true) :
    s'.Has a (s'.client a).allocID := by
  have hfind :
      ∀ {id : SocketID} {code : List Instr}, x.1.find id code = some s' →
        s'.Has a (s'.client a).allocID := by
    intro id code hfind
    rcases find_cases hfind with ⟨-, rfl⟩ | ⟨b, -, rfl⟩
    · exact h.has a hlive
    · obtain ⟨hlive', halloc, hlogic⟩ := keeps_found x.1 b a hlive
      exact halloc ▸ (h.has a hlive').mono rfl (fun _ _ => List.mem_append_left _) hlogic
  cases act with
  | otherService =>
      rcases hs with ⟨⟩
      exact h.has a hlive
  | getNextLogicSocketID =>
      rcases hs with ⟨⟩
      exact h.has a hlive
  | allocTcpClient j b o =>
      obtain ⟨id, accepting, -, ⟨-, rfl⟩ | ⟨-, -, rfl⟩⟩ := allocTcpClient_cases hs
      · exact h.has a hlive
      · by_cases ha : a = b
        · subst ha
          refine Or.inl ?_
          show ((x.1.setClient a _).client a).mLogicSocketID =
            ((x.1.setClient a _).client a).allocID
          rw [setClient_self]
          rfl
        · have hclient :
              (x.1.setClient b (.fresh id x.1.nextSerial)).client a = x.1.client a :=
            setClient_other _ ha _
          change ((x.1.setClient b _).client a).live = true at hlive
          show State.Has _ a ((x.1.setClient b _).client a).allocID
          rw [hclient] at hlive ⊢
          exact (h.has a hlive).mono rfl (fun _ _ => List.mem_append_left _)
            (congrArg TcpClient.mLogicSocketID hclient)
  | send socketID => exact hfind hs
  | closeSocket socketID => exact hfind hs
  | checkStatus =>
      obtain ⟨ts, hts, rfl⟩ := checkStatus_cases hs
      refine (h.has a hlive).mono rfl (fun y rest hmem => ?_) rfl
      rw [hts, List.mem_cons] at hmem
      exact List.mem_cons_of_mem _ (hmem.resolve_left (List.cons_ne_nil _ _))
  | complete j r =>
      obtain ⟨b, k, code, -, -, rfl⟩ := complete_cases hs
      exact (h.has a hlive).mono rfl (fun _ _ => List.mem_append_left _) rfl
  | run j o =>
      obtain ⟨b, i, rest, hj, ⟨-, id, hi, rfl⟩ | ⟨-, id, rfl, hsweep⟩ | ⟨ch, hch, rfl⟩⟩ :=
        run_cases hs
      · exact h.has_remove hkeeps hj hi hlive
      · obtain ⟨-, rfl⟩ := sweep_eq hsweep
        obtain ⟨hlive', halloc, hlogic⟩ := keeps_swept (x.1.setThread j rest) b a hlive
        exact halloc ▸ (h.has a hlive').set hj (by simp) rfl rfl hlogic
      · exact h.has_exec hkeeps hj hch rfl rfl rfl hlive

/-- A step that neither draws nor allocates. -/
structure State.Undrawn (s s' : State) : Prop where
  next : s'.mNextLogicSocketID = s.mNextLogicSocketID
  allocating : s'.allocating = s.allocating
  client : ∀ a, (s'.client a).live = true →
    (s.client a).live = true ∧ (s'.client a).allocID = (s.client a).allocID

theorem State.Undrawn.of_keeps
    {s : State} (hnext : s'.mNextLogicSocketID = s.mNextLogicSocketID)
    (hallocating : s'.allocating = s.allocating) (hkeeps : ∀ a, s.Keeps s' a) :
    s.Undrawn s' :=
  ⟨hnext, hallocating, fun a hlive => ⟨(hkeeps a hlive).1, (hkeeps a hlive).2.1⟩⟩

theorem undrawn_find
    {s : State} {id : SocketID} {code : List Instr} (hs : s.find id code = some s') :
    s.Undrawn s' := by
  rcases find_cases hs with ⟨-, rfl⟩ | ⟨b, -, rfl⟩
  · exact .of_keeps rfl rfl fun _ hlive => ⟨hlive, rfl, rfl⟩
  · exact .of_keeps rfl rfl (keeps_found s b)

theorem undrawn_run {s : State} (hs : s.run j o = some s') : s.Undrawn s' := by
  obtain ⟨b, i, rest, -, ⟨-, id, -, rfl⟩ | ⟨-, id, -, hsweep⟩ | ⟨ch, hch, rfl⟩⟩ := run_cases hs
  · refine .of_keeps ?_ ?_ (keeps_removeClient (s.setThread j rest) id)
    · rw [State.removeClient]
      split <;> rfl
    · rw [State.removeClient]
      split <;> rfl
  · obtain ⟨-, rfl⟩ := sweep_eq hsweep
    exact .of_keeps rfl rfl (keeps_swept (s.setThread j rest) b)
  · obtain ⟨hlive, halloc⟩ := exec_life (v := s.view b) hch
    refine ⟨rfl, rfl, fun a hlive' => ?_⟩
    change ((s.setClient b ch.client).client a).live = true at hlive'
    show _ ∧ ((s.setClient b ch.client).client a).allocID = _
    by_cases ha : a = b
    · rw [ha, setClient_self] at hlive' ⊢
      exact ⟨hlive ▸ hlive', halloc⟩
    · rw [setClient_other s ha] at hlive' ⊢
      exact ⟨hlive', rfl⟩

/-- A step draws an id, enters a client, or does neither. -/
theorem step_drawn
    {s : State} {act : Action} (hs : step s act = some s') :
    (act = .otherService ∧ s' = { s with mNextLogicSocketID := nextID s.mNextLogicSocketID }) ∨
      (act = .getNextLogicSocketID ∧
        s' =
          { s with
            mNextLogicSocketID := nextID s.mNextLogicSocketID
            allocating :=
              s.allocating ++ [(nextID s.mNextLogicSocketID, s.listening)] }) ∨
      (∃ j b o, act = .allocTcpClient j b o ∧ s.allocTcpClient j b o = some s') ∨
      (s.Undrawn s' ∧ ∀ d : Draws, d.note act = d) := by
  cases act with
  | otherService => exact Or.inl ⟨rfl, (Option.some.inj hs).symm⟩
  | getNextLogicSocketID => exact Or.inr (Or.inl ⟨rfl, (Option.some.inj hs).symm⟩)
  | allocTcpClient j b o => exact Or.inr (Or.inr (Or.inl ⟨j, b, o, rfl, hs⟩))
  | send socketID => exact Or.inr (Or.inr (Or.inr ⟨undrawn_find hs, fun _ => rfl⟩))
  | closeSocket socketID => exact Or.inr (Or.inr (Or.inr ⟨undrawn_find hs, fun _ => rfl⟩))
  | checkStatus =>
      obtain ⟨ts, -, rfl⟩ := checkStatus_cases hs
      exact Or.inr (Or.inr (Or.inr ⟨⟨rfl, rfl, fun _ hlive => ⟨hlive, rfl⟩⟩, fun _ => rfl⟩))
  | complete j r =>
      obtain ⟨b, k, code, -, -, rfl⟩ := complete_cases hs
      exact Or.inr (Or.inr (Or.inr ⟨⟨rfl, rfl, fun _ hlive => ⟨hlive, rfl⟩⟩, fun _ => rfl⟩))
  | run j o => exact Or.inr (Or.inr (Or.inr ⟨undrawn_run hs, fun _ => rfl⟩))

theorem KeptApart.undrawn
    (h : KeptApart x) (hundrawn : x.1.Undrawn s') (hlistens : s'.OnlyListens)
    (hregistered : s'.Registered)
    (hhas : ∀ a, (s'.client a).live = true → s'.Has a (s'.client a).allocID) :
    KeptApart (s', x.2) where
  listens := hlistens
  registered := hregistered
  has := hhas
  next := hundrawn.next.trans h.next
  drawn := by
    show s'.allocating.map Prod.fst = _
    rw [hundrawn.allocating]
    exact h.drawn
  drawn_pos := h.drawn_pos
  client := fun a hlive => by
    obtain ⟨hlive', halloc⟩ := hundrawn.client a hlive
    show (s'.client a).allocID = _ ∧ _
    rw [halloc]
    exact h.client a hlive'

/-- The draw of an id that is about to be entered. -/
theorem KeptApart.draw_at
    (h : KeptApart x) {id : SocketID} {accepting : Bool}
    (hj : x.1.allocating[j]? = some (id, accepting)) :
    x.2.allocating[j]? = some (x.2.allocating.getD j 0) ∧ 0 < x.2.allocating.getD j 0 ∧
      id = drawID (x.2.allocating.getD j 0) := by
  have hget := congrArg (·[j]?) h.drawn
  simp only [List.getElem?_map, hj, Option.map_some] at hget
  obtain ⟨n, hn, hid⟩ := Option.map_eq_some_iff.mp hget.symm
  rw [List.getD_eq_getElem?_getD, hn, Option.getD_some]
  exact ⟨rfl, h.drawn_pos n (List.mem_of_getElem? hn), hid.symm⟩

/-- An id that is not whole rounds away from those in the map is not in the map. -/
theorem KeptApart.fresh
    (h : KeptApart x) {id : SocketID} {accepting : Bool}
    (hkeeps : keepsIDs x (.allocTcpClient j b .ok) = true)
    (hj : x.1.allocating[j]? = some (id, accepting)) :
    x.1.mTcpClientMap.lookup id = none := by
  obtain ⟨-, hpos, hid⟩ := h.draw_at hj
  cases hlook : x.1.mTcpClientMap.lookup id with
  | none => rfl
  | some a =>
      have he := lookup_mem hlook
      obtain ⟨hlive, halloc⟩ := (h.registered.mem _ _).mp he
      obtain ⟨hdraw, hpos'⟩ := h.client a hlive
      have hapart := of_decide_eq_true (List.all_eq_true.mp hkeeps _ he)
      refine absurd ((drawID_eq_iff hpos' hpos).mp ?_) hapart
      rw [← hdraw, halloc]
      exact hid

/-- A new client has the draw that was noted for it. -/
theorem KeptApart.alloc
    (h : KeptApart x) (hs : x.1.allocTcpClient j b o = some s') (hlistens : s'.OnlyListens)
    (hregistered : s'.Registered)
    (hhas : ∀ a, (s'.client a).live = true → s'.Has a (s'.client a).allocID) :
    KeptApart (s', x.2.note (.allocTcpClient j b o)) := by
  have hdrawn :
      (x.1.allocating.eraseIdx j).map Prod.fst = (x.2.allocating.eraseIdx j).map drawID := by
    rw [← List.eraseIdx_map, ← List.eraseIdx_map, h.drawn]
  have hpos : ∀ n ∈ x.2.allocating.eraseIdx j, 0 < n :=
    fun n hn => h.drawn_pos n (List.mem_of_mem_eraseIdx hn)
  obtain ⟨id, accepting, hj, ⟨rfl, rfl⟩ | ⟨rfl, -, rfl⟩⟩ := allocTcpClient_cases hs
  · refine ⟨hlistens, hregistered, hhas, h.next, hdrawn, hpos, fun a hlive => ?_⟩
    simpa [Draws.note] using h.client a hlive
  · refine ⟨hlistens, hregistered, hhas, h.next, hdrawn, hpos, fun a hlive => ?_⟩
    change ((x.1.setClient b _).client a).live = true at hlive
    show ((x.1.setClient b _).client a).allocID = _ ∧ _
    by_cases ha : a = b
    · obtain ⟨-, hpos', hid⟩ := h.draw_at hj
      rw [ha, setClient_self]
      simpa [Draws.note] using ⟨hid, hpos'⟩
    · rw [setClient_other _ ha] at hlive ⊢
      simpa [Draws.note, ha] using h.client a hlive

theorem KeptApart.init (http listening : Bool) :
    KeptApart (State.init http listening, Draws.none) where
  listens := ⟨fun _ _ => rfl, fun _ h => absurd h List.not_mem_nil⟩
  registered := .init http listening
  has := fun _ hlive => absurd hlive Bool.false_ne_true
  next := rfl
  drawn := rfl
  drawn_pos := fun _ hn => absurd hn List.not_mem_nil
  client := fun _ hlive => absurd hlive Bool.false_ne_true

theorem KeptApart.step
    {x' : State × Draws} (h : KeptApart x) {act : Action} (hkeeps : keepsIDs x act = true)
    (hs : drawStep x act = some x') : KeptApart x' := by
  obtain ⟨s', d'⟩ := x'
  obtain ⟨hs, rfl⟩ := withGhost_eq_some hs
  have hlistens := h.listens.step hs
  have hregistered : s'.Registered := by
    refine h.registered.step ?_ hs
    rintro j b id accepting rfl hj
    rw [h.fresh hkeeps hj]
    rfl
  have hhas : ∀ a, (s'.client a).live = true → s'.Has a (s'.client a).allocID :=
    fun a hlive => h.has_step hkeeps hs hlive
  rcases step_drawn hs with ⟨rfl, rfl⟩ | ⟨rfl, rfl⟩ | ⟨j, b, o, rfl, halloc⟩ | ⟨hundrawn, hnote⟩
  · exact
      ⟨hlistens, hregistered, hhas, congrArg nextID h.next, h.drawn, h.drawn_pos, h.client⟩
  · refine ⟨hlistens, hregistered, hhas, congrArg nextID h.next, ?_, ?_, h.client⟩
    · show (x.1.allocating ++ [_]).map Prod.fst = (x.2.allocating ++ [_]).map drawID
      rw [List.map_append, List.map_append, h.drawn, h.next]
      rfl
    · intro n hn
      rcases List.mem_append.mp hn with hn | hn
      · exact h.drawn_pos n hn
      · rw [List.mem_singleton.mp hn]
        exact Nat.succ_pos _
  · exact h.alloc halloc hlistens hregistered hhas
  · rw [hnote]
    exact h.undrawn hundrawn hlistens hregistered hhas

/-- The entries of the map; a client that is on its way out has lost its id. -/
theorem KeptApart.entry
    (h : KeptApart x) {id : SocketID} (he : (id, a) ∈ x.1.mTcpClientMap) :
    id ≠ 0 ∧ (x.1.client a).live = true ∧ x.1.Has a id := by
  obtain ⟨hlive, rfl⟩ := (h.registered.mem _ _).mp he
  obtain ⟨hdraw, hpos⟩ := h.client a hlive
  exact ⟨hdraw ▸ drawID_ne_zero hpos, hlive, h.has a hlive⟩

theorem KeptApart.listed (h : KeptApart x) : x.1.Listed where
  keys := h.registered.nodup
  entry := fun id a he => by
    obtain ⟨hne, hlive, hhas⟩ := h.entry he
    exact ⟨hne, hlive, fun hreset => hhas.resolve_right fun hleft => hreset hleft.2⟩
  mapped := fun a hlive => ⟨_, (h.registered.mem _ _).mpr ⟨hlive, rfl⟩⟩

/-- No draw goes to two clients. -/
structure DrawnOnce (x : State × Draws) : Prop where
  nodup : x.2.allocating.Nodup
  allocating_le : ∀ n ∈ x.2.allocating, n ≤ x.2.count
  client_le : ∀ a, (x.1.client a).live = true → x.2.client a ≤ x.2.count
  apart : ∀ a, (x.1.client a).live = true → x.2.client a ∉ x.2.allocating

theorem DrawnOnce.init (http listening : Bool) :
    DrawnOnce (State.init http listening, Draws.none) where
  nodup := List.nodup_nil
  allocating_le := fun _ hn => absurd hn List.not_mem_nil
  client_le := fun _ hlive => absurd hlive Bool.false_ne_true
  apart := fun _ hlive => absurd hlive Bool.false_ne_true

/-- The draw of a new client is taken out of those that are not entered yet. -/
theorem DrawnOnce.alloc
    (h : DrawnOnce x) (hkept : KeptApart x) (hs : x.1.allocTcpClient j b o = some s') :
    DrawnOnce (s', x.2.note (.allocTcpClient j b o)) := by
  have hle : ∀ n ∈ x.2.allocating.eraseIdx j, n ≤ x.2.count :=
    fun n hn => h.allocating_le n (List.mem_of_mem_eraseIdx hn)
  have hold : ∀ a, (x.1.client a).live = true → x.2.client a ∉ x.2.allocating.eraseIdx j :=
    fun a hlive hmem => h.apart a hlive (List.mem_of_mem_eraseIdx hmem)
  obtain ⟨id, accepting, hj, ⟨rfl, rfl⟩ | ⟨rfl, -, rfl⟩⟩ := allocTcpClient_cases hs
  · refine ⟨h.nodup.eraseIdx j, hle, fun a hlive => ?_, fun a hlive => ?_⟩
    · simpa [Draws.note] using h.client_le a hlive
    · simpa [Draws.note] using hold a hlive
  · obtain ⟨hget, -, -⟩ := hkept.draw_at hj
    obtain ⟨hlt, hn⟩ := List.getElem?_eq_some_iff.mp hget
    have hmem : x.2.allocating.getD j 0 ∈ x.2.allocating := List.mem_of_getElem? hget
    have hnew : x.2.allocating.getD j 0 ∉ x.2.allocating.eraseIdx j := by
      rw [← List.Nodup.erase_getElem h.nodup j hlt, hn]
      exact List.Nodup.not_mem_erase h.nodup
    refine ⟨h.nodup.eraseIdx j, hle, fun a hlive => ?_, fun a hlive => ?_⟩
    · change ((x.1.setClient b _).client a).live = true at hlive
      by_cases ha : a = b
      · simpa [Draws.note, ha] using h.allocating_le _ hmem
      · rw [setClient_other _ ha] at hlive
        simpa [Draws.note, ha] using h.client_le a hlive
    · change ((x.1.setClient b _).client a).live = true at hlive
      by_cases ha : a = b
      · simpa [Draws.note, ha] using hnew
      · rw [setClient_other _ ha] at hlive
        simpa [Draws.note, ha] using hold a hlive

theorem DrawnOnce.step
    {x' : State × Draws} (h : DrawnOnce x) (hkept : KeptApart x) {act : Action}
    (hs : drawStep x act = some x') : DrawnOnce x' := by
  obtain ⟨s', d'⟩ := x'
  obtain ⟨hs, rfl⟩ := withGhost_eq_some hs
  rcases step_drawn hs with ⟨rfl, rfl⟩ | ⟨rfl, rfl⟩ | ⟨j, b, o, rfl, halloc⟩ | ⟨hundrawn, hnote⟩
  · exact
      ⟨h.nodup, fun n hn => Nat.le_succ_of_le (h.allocating_le n hn),
        fun a hlive => Nat.le_succ_of_le (h.client_le a hlive), h.apart⟩
  · have hnew : x.2.count + 1 ∉ x.2.allocating :=
      fun hmem => Nat.not_succ_le_self _ (h.allocating_le _ hmem)
    refine ⟨?_, ?_, fun a hlive => Nat.le_succ_of_le (h.client_le a hlive), ?_⟩
    · exact List.Nodup.append h.nodup (List.nodup_singleton _)
        (List.disjoint_singleton.mpr hnew)
    · intro n hn
      rcases List.mem_append.mp hn with hn | hn
      · exact Nat.le_succ_of_le (h.allocating_le n hn)
      · exact Nat.le_of_eq (List.mem_singleton.mp hn)
    · intro a hlive hmem
      rcases List.mem_append.mp hmem with hmem | hmem
      · exact h.apart a hlive hmem
      · have hcount : x.2.client a = x.2.count + 1 := List.mem_singleton.mp hmem
        have hle : x.2.client a ≤ x.2.count := h.client_le a hlive
        rw [hcount] at hle
        exact Nat.not_succ_le_self _ hle
  · exact h.alloc hkept halloc
  · rw [hnote]
    refine ⟨h.nodup, h.allocating_le, fun a hlive => ?_, fun a hlive => ?_⟩
    · exact h.client_le a (hundrawn.client a hlive).1
    · exact h.apart a (hundrawn.client a hlive).1

/-- Ids whose draws are all less than a round old tell the clients apart. -/
theorem KeptApart.keepsIDs_recent
    (h : KeptApart x) (honce : DrawnOnce x) {id : SocketID} {accepting : Bool}
    (hj : x.1.allocating[j]? = some (id, accepting))
    (hclients : ∀ e ∈ x.1.mTcpClientMap, x.2.count < x.2.client e.2 + idCycle)
    (hnew : x.2.count < x.2.allocating.getD j 0 + idCycle) :
    keepsIDs x (.allocTcpClient j b .ok) = true := by
  have hmem := List.mem_of_getElem? (h.draw_at hj).1
  have hle := honce.allocating_le _ hmem
  refine List.all_eq_true.mpr fun e he => decide_eq_true fun hmod => ?_
  obtain ⟨hlive, -⟩ := (h.registered.mem _ _).mp he
  have hclient := hclients e he
  have hclient_le := honce.client_le e.2 hlive
  have heq : x.2.client e.2 = x.2.allocating.getD j 0 :=
    hmod.eq_of_abs_lt (by rw [abs_lt]; omega)
  exact honce.apart e.2 hlive (heq ▸ hmem)

/-- A new id is that of a client in the map where its draw is whole rounds away. -/
theorem KeptApart.taken
    (h : KeptApart x) {id : SocketID} {accepting : Bool}
    (hkeeps : ¬ keepsIDs x (.allocTcpClient j b .ok) = true)
    (hj : x.1.allocating[j]? = some (id, accepting)) :
    ∃ e ∈ x.1.mTcpClientMap, e.1 = id := by
  obtain ⟨-, hpos, hid⟩ := h.draw_at hj
  have hex : ∃ e ∈ x.1.mTcpClientMap, x.2.client e.2 ≡ x.2.allocating.getD j 0 [MOD idCycle] := by
    simpa [keepsIDs] using hkeeps
  obtain ⟨⟨id', a⟩, he, hmod⟩ := hex
  obtain ⟨hlive, halloc⟩ := (h.registered.mem _ _).mp he
  obtain ⟨hdraw, hpos'⟩ := h.client a hlive
  refine ⟨(id', a), he, ?_⟩
  rw [hid, ← (drawID_eq_iff hpos' hpos).mpr hmod, ← hdraw, halloc]

end Steps

section Runs

/-- The runs that keep the ids apart, with their draws. -/
abbrev DrawRuns (http listening : Bool) (x : State × Draws) : Prop :=
  Reach drawStep (fun x act => keepsIDs x act = true) (State.init http listening, .none) x

variable {http listening : Bool} {x : State × Draws}

theorem drawRuns_keptApart (h : DrawRuns http listening x) : KeptApart x := by
  refine h.invariant (.init http listening) ?_
  intro x x' act hkept hkeeps hs
  exact hkept.step hkeeps hs

theorem drawRuns_drawnOnce (h : DrawRuns http listening x) : DrawnOnce x := by
  have hboth : KeptApart x ∧ DrawnOnce x := by
    refine h.invariant (I := fun x => KeptApart x ∧ DrawnOnce x)
      ⟨.init http listening, .init http listening⟩ ?_
    rintro x x' act ⟨hkept, honce⟩ hkeeps hs
    exact ⟨hkept.step hkeeps hs, honce.step hkept hs⟩
  exact hboth.2

/--
As long as no client in the map is a whole round of draws old, and the draw of
the new one is not, a client can be entered.
-/
theorem drawRuns_keepsIDs_recent
    (h : DrawRuns http listening x) {j : Nat} {b : Addr} {id : SocketID} {accepting : Bool}
    (hj : x.1.allocating[j]? = some (id, accepting))
    (hclients : ∀ e ∈ x.1.mTcpClientMap, x.2.count < x.2.client e.2 + idCycle)
    (hnew : x.2.count < x.2.allocating.getD j 0 + idCycle) :
    keepsIDs x (.allocTcpClient j b .ok) = true :=
  (drawRuns_keptApart h).keepsIDs_recent (drawRuns_drawnOnce h) hj hclients hnew

/--
**When the ids tell the clients apart.**  In every run that keeps the ids apart,
every live client is in the map, and each client in the map has the id it is
under, which is not zero, unless a thread is between the `Reset` and the
`RemoveClient` of its failed accept; without such a thread this is so for all.
A new client never has the id zero, and it has no other client's id if and only
if no client in the map was drawn whole rounds away from it.
-/
theorem socketIDs_unique (h : DrawRuns http listening x) :
    x.1.Listed ∧ ((∀ id a, ¬ x.1.Resetting id a) → x.1.Identified) ∧
      ∀ j b x', drawStep x (.allocTcpClient j b .ok) = some x' →
        (x'.1.client b).live = true ∧ (x'.1.client b).mLogicSocketID ≠ 0 ∧
          (keepsIDs x (.allocTcpClient j b .ok) = true ↔
            ∀ e ∈ x.1.mTcpClientMap,
              (x'.1.client b).mLogicSocketID ≠ e.1 ∧
                (x'.1.client b).mLogicSocketID ≠ (x.1.client e.2).mLogicSocketID) := by
  have hkept := drawRuns_keptApart h
  refine ⟨hkept.listed, hkept.listed.identified, fun j b x' hs => ?_⟩
  obtain ⟨id, accepting, hj, ⟨hfail, -⟩ | ⟨-, -, hx'⟩⟩ :=
    allocTcpClient_cases (withGhost_eq_some hs).1
  · exact absurd hfail (by simp)
  · obtain ⟨-, hpos, hid⟩ := hkept.draw_at hj
    have hclient : x'.1.client b = .fresh id x.1.nextSerial := by
      rw [hx']
      exact setClient_self _ _ _
    have hzero : id ≠ 0 := by
      rw [hid]
      exact drawID_ne_zero hpos
    rw [hclient]
    refine ⟨rfl, hzero, fun hkeeps e he => ?_, fun hother => ?_⟩
    · have hlook := hkept.fresh hkeeps hj
      have hne : id ≠ e.1 := by
        rintro rfl
        rw [lookup_of_mem hkept.registered.nodup he] at hlook
        exact absurd hlook (by simp)
      refine ⟨hne, ?_⟩
      obtain ⟨-, -, hhas⟩ := hkept.entry he
      rcases hhas with hsame | ⟨hleft, -⟩
      · rw [hsame]
        exact hne
      · rw [hleft]
        exact hzero
    · by_contra hkeeps
      obtain ⟨e, he, heq⟩ := hkept.taken hkeeps hj
      exact (hother e he).1 heq.symm

/-- Two clients that wait for a connection, and the failed accept of a third one. -/
theorem socketIDs_unique_example :
    ∃ x : State × Draws, x.1.mTcpClientMap = [(4, 2), (3, 1)] ∧ x.1.Identified := by
  have hrun :
      (runAll drawStep (fun x act => keepsIDs x act = true) (State.init false true, .none)
        [.otherService, .getNextLogicSocketID, .getNextLogicSocketID, .allocTcpClient 0 0 .ok,
          .allocTcpClient 0 1 .ok, .run 1 .ok, .run 2 .ok, .complete 0 .failure, .run 3 .ok,
          .run 3 .ok, .run 3 .ok, .getNextLogicSocketID, .allocTcpClient 0 2 .ok]).any
        (fun x => decide (x.1.mTcpClientMap = [(4, 2), (3, 1)] ∧
          x.1.threads = [[], [], [], [], [(2, .acceptEx)]])) = true := by
    decide +kernel
  obtain ⟨x, hreach, hx⟩ := exists_reach_of_runAll hrun
  obtain ⟨hmap, hthreads⟩ := of_decide_eq_true hx
  refine ⟨x, hmap, (socketIDs_unique hreach).2.1 fun id a => ?_⟩
  rintro ⟨-, rest, hmem⟩
  rw [hthreads] at hmem
  simp at hmem

/-- Other services draw any number of ids. -/
theorem otherServices_draw
    (s : State) {m : Nat} (hm : s.mNextLogicSocketID = drawID m) (n : Nat) :
    Reach step (fun _ _ => True) s { s with mNextLogicSocketID := drawID (m + n) } := by
  induction n with
  | zero =>
      rw [Nat.add_zero, ← hm]
      exact .start
  | succ n ih => exact .next ih trivial (a := .otherService) rfl

/-- The service after the first client was allocated. -/
def firstClient : State :=
  { State.init false true with
    client := fun b => if b = 0 then .fresh 1 1 else .unused
    mTcpClientMap := [(1, 0)]
    mNextLogicSocketID := 1
    threads := [[], [(0, .acceptEx)]]
    nextSerial := 2 }

theorem firstClient_reach : Reach step (fun _ _ => True) (State.init false true) firstClient :=
  reach_of_runAll .start
    (show
      runAll step (fun _ _ => True) (State.init false true)
          [.getNextLogicSocketID, .allocTcpClient 0 0 .ok] =
        some firstClient from rfl)

/-- `Reset` of a failed accept takes the id from a client that is still in the map. -/
theorem reset_in_map :
    ∃ s, Reach step (fun _ _ => True) (State.init false true) s ∧
      s.mTcpClientMap = [(1, 0)] ∧ (s.client 0).mLogicSocketID = 0 := by
  have hrun :
      (runAll step (fun _ _ => True) (State.init false true)
        [.getNextLogicSocketID, .allocTcpClient 0 0 .ok, .run 1 .ok, .complete 0 .failure,
          .run 2 .ok, .run 2 .ok]).any
        (fun s => decide (s.mTcpClientMap = [(1, 0)] ∧ (s.client 0).mLogicSocketID = 0)) =
          true := by
    decide
  obtain ⟨s, hreach, hs⟩ := exists_reach_of_runAll hrun
  exact ⟨s, hreach, of_decide_eq_true hs⟩

/-- After 2^32 - 1 more draws a client is allocated with the id of a live one. -/
theorem id_taken :
    ∃ s, Reach step (fun _ _ => True) (State.init false true) s ∧
      (s.client 0).live = true ∧ (s.client 1).live = true ∧
        (s.client 1).mLogicSocketID = (s.client 0).mLogicSocketID ∧
          s.mTcpClientMap = [(1, 0)] ∧ ¬ s.Identified := by
  obtain ⟨n, hn⟩ : ∃ n, n + 1 = idCycle := ⟨idCycle - 1, by decide⟩
  have hlast : nextID (drawID (1 + n)) = 1 := by
    show drawID (1 + (n + 1)) = drawID 1
    rw [hn]
    exact (drawID_eq_iff (by decide) Nat.one_pos).mpr Nat.add_modEq_right
  have hdrawn := firstClient_reach.trans (otherServices_draw firstClient (m := 1) rfl n)
  generalize drawID (1 + n) = last at hlast hdrawn
  have hnext :
      step { firstClient with mNextLogicSocketID := last } .getNextLogicSocketID =
        some { firstClient with mNextLogicSocketID := 1, allocating := [(1, true)] } := by
    simp only [step, hlast]
    rfl
  have halloc :
      step { firstClient with mNextLogicSocketID := 1, allocating := [(1, true)] }
          (.allocTcpClient 0 1 .ok) =
        some
          { firstClient.setClient 1 (.fresh 1 2) with
            mNextLogicSocketID := 1
            threads := firstClient.threads ++ [[(1, .acceptEx)]]
            nextSerial := 3 } :=
    rfl
  refine ⟨_, .next (.next hdrawn trivial hnext) trivial halloc, rfl, rfl, rfl, rfl, ?_⟩
  intro hidentified
  -- the second client is not in the map
  have hmem := hidentified.mapped 1 rfl
  rcases List.mem_singleton.mp hmem with ⟨⟩

/-- A new client gets the id of a live one; and a failed accept takes the id of its client. -/
theorem socketIDs_taken :
    (∃ s, Reach step (fun _ _ => True) (State.init false true) s ∧
      (s.client 0).live = true ∧ (s.client 1).live = true ∧
        (s.client 1).mLogicSocketID = (s.client 0).mLogicSocketID ∧
          s.mTcpClientMap = [(1, 0)] ∧ ¬ s.Identified) ∧
      ∃ s, Reach step (fun _ _ => True) (State.init false true) s ∧
        s.mTcpClientMap = [(1, 0)] ∧ (s.client 0).mLogicSocketID = 0 ∧ ¬ s.Identified := by
  refine ⟨id_taken, ?_⟩
  obtain ⟨s, hreach, hmap, hzero⟩ := reset_in_map
  refine ⟨s, hreach, hmap, hzero, fun hidentified => ?_⟩
  obtain ⟨-, -, hsame⟩ := hidentified.entry 1 0 (hmap ▸ List.mem_singleton_self _)
  rw [hzero] at hsame
  exact absurd hsame (by decide)

end Runs

end Service
end IocpNetlib
