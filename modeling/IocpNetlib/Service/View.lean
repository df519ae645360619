import IocpNetlib.Service.Step

/-!
# The service as seen from one client

What happens to one client depends on its fields, on the code that threads
still have to run on it, on its outstanding operations and on the events
recorded of it.  A `Weight` gives each instruction and each operation a share;
`View` keeps the sum of the shares for every weight.  `ClientStep` says how one
step changes the view of the client it is about; `step_view` shows that every
step of the service is a client step for one client and leaves the views of all
others as they are.
-/

namespace IocpNetlib
namespace Service

open Ledger

/-- Shares of instructions and operations; the visits of the sweep have none. -/
structure Weight where
  instr : Instr → Nat
  op : OpType → Nat
  visit : ∀ id, instr (.visit id) = 0 := by intro; rfl
  sweep : ∀ id, instr (.sweep id) = 0 := by intro; rfl

/-- The sum of two weights. -/
def Weight.add (W W' : Weight) : Weight where
  instr := fun i => W.instr i + W'.instr i
  op := fun k => W.op k + W'.op k
  visit := fun id => by rw [W.visit, W'.visit]
  sweep := fun id => by rw [W.sweep, W'.sweep]

/-- The shares in a list of instructions. -/
def Weight.code (W : Weight) (is : List Instr) : Nat := shares W.instr is

/-- The shares in a list of operations. -/
def Weight.ops (W : Weight) (ks : List OpType) : Nat := shares W.op ks

@[simp] theorem Weight.code_nil (W : Weight) : W.code [] = 0 := rfl

@[simp] theorem Weight.code_cons (W : Weight) (i : Instr) (is : List Instr) :
    W.code (i :: is) = W.instr i + W.code is := rfl

@[simp] theorem Weight.ops_nil (W : Weight) : W.ops [] = 0 := rfl

@[simp] theorem Weight.ops_cons (W : Weight) (k : OpType) (ks : List OpType) :
    W.ops (k :: ks) = W.op k + W.ops ks := rfl

theorem code_zero {W : Weight} (h : ∀ i, W.instr i = 0) (is : List Instr) : W.code is = 0 := by
  induction is with
  | nil => rfl
  | cons i is ih => rw [Weight.code_cons, h, ih]

theorem ops_zero {W : Weight} (h : ∀ k, W.op k = 0) (ks : List OpType) : W.ops ks = 0 := by
  induction ks with
  | nil => rfl
  | cons k ks ih => rw [Weight.ops_cons, h, ih]

/-- One client, seen alone. -/
structure View where
  client : TcpClient
  held : Weight → Nat
  seen : (Kind → Bool) → Nat

/-- The shares of client `a` in the threads and in the outstanding operations. -/
def State.held (s : State) (a : Addr) (W : Weight) : Nat :=
  total (ofOwner a W.instr) s.threads + shares (ofOwner a W.op) s.outstanding

/-- How often an event of a kind was recorded of the client that is at `a`. -/
def State.seen (s : State) (a : Addr) (p : Kind → Bool) : Nat :=
  s.log.countP fun e => decide (e.serial = (s.client a).serial) && p e.kind

/-- The view of the client at `a`. -/
def State.view (s : State) (a : Addr) : View :=
  { client := s.client a
    held := s.held a
    seen := s.seen a }

/-- What a step is to the client it is about. -/
inductive Label
  | run (i : Instr) (o : Outcome)
  | complete (k : OpType) (r : Completion)
  | find (code : List Instr)
  | alloc (first : Instr) (id : SocketID) (fresh : Bool)
deriving DecidableEq, Repr

/-- The client a step is about, and what it is to it. -/
def label (s : State) : Action → Option (Addr × Label)
  | .allocTcpClient j a .ok =>
      (s.allocating[j]?).map fun e =>
        (a, .alloc (if e.2 then .acceptEx else .increaseRef) e.1
          (s.mTcpClientMap.lookup e.1).isNone)
  | .send socketID => (s.mTcpClientMap.lookup socketID).map fun a => (a, .find sendCode)
  | .closeSocket socketID =>
      (s.mTcpClientMap.lookup socketID).map fun a => (a, .find closeCode)
  | .complete j r => (s.outstanding[j]?).map fun x => (x.1, .complete x.2 r)
  | .run j o =>
      match s.threads[j]? with
      | some ((a, i) :: _) => some (a, .run i o)
      | _ => none
  | _ => none

/-- A condition on a step, read off the view of the client it is about. -/
def Meets (G : View → Label → Bool) (s : State) (act : Action) : Prop :=
  match label s act with
  | none => True
  | some (a, ℓ) => G (s.view a) ℓ = true

instance (G : View → Label → Bool) (s : State) (act : Action) : Decidable (Meets G s act) :=
  match h : label s act with
  | none => isTrue (by unfold Meets; rw [h]; trivial)
  | some (a, ℓ) =>
      if hG : G (s.view a) ℓ = true then isTrue (by unfold Meets; rw [h]; exact hG)
      else isFalse (by unfold Meets; rw [h]; exact hG)

/-- The `RemoveClient`s, with an id saved or read before the lock is taken. -/
def Instr.removes : Instr → Bool
  | .removeSelf => true
  | .removeClient _ => true
  | _ => false

/-- The instruction stands in code that still gives its share of `mPendingIo` back. -/
def Instr.needsRelease : Instr → Bool
  | .storeConnected site => site ≠ .accept
  | .postRecv site => site ≠ .accept
  | .wsaRecv site => site ≠ .accept
  | .recvFailed site => site ≠ .accept
  | .semPost => true
  | .onConnected site => site ≠ .accept
  | .storeClosed => true
  | .setDisconnect _ => true
  | .disconnected _ => true
  | .allocRecvPacket => true
  | .splitPacket => true
  | .onSendCompletion _ => true
  | _ => false

/--
What is still to come in the thread: the release, or the end of the
`TcpClientRef` that a sender or the time-out of `ConnectServer` posts with.
-/
def Instr.owes : Instr → Option Instr
  | .postSpecial .connectExTimeout => some .decreaseRef
  | .allocSendIOContext => some .decreaseRef
  | .allocSendPacket => some .decreaseRef
  | .increaseSend => some .decreaseRef
  | i => if i.needsRelease then some .checkRelease else none

theorem needsRelease_owes {i : Instr} (h : i.needsRelease = true) :
    i.owes = some .checkRelease := by
  unfold Instr.owes
  split
  case h_5 => rw [if_pos h]
  all_goals cases h

/-- The share of `mPendingIo` an instruction or an operation stands for. -/
def pendingShare : Weight where
  instr
    | .connectEx _ => 1
    | .connectFailed _ => 1
    | .wsaRecv _ => 1
    | .recvFailed _ => 1
    | .wsaSend => 1
    | .allocExceptionIOContext _ => 1
    | .postQueued _ => 1
    | .decreaseIOCount => 1
    | .checkRelease => 1
    | _ => 0
  op
    | .accept => 0
    | _ => 1

/-- Whether an event is of a kind, as a number. -/
def occurs (p : Kind → Bool) : Option Kind → Nat
  | some k => if p k then 1 else 0
  | none => 0

theorem occurs_pos {p : Kind → Bool} {e : Option Kind} (h : 0 < occurs p e) :
    ∃ k, e = some k ∧ p k = true := by
  cases e with
  | none => exact absurd h (Nat.lt_irrefl 0)
  | some k =>
      refine ⟨k, rfl, ?_⟩
      by_contra hno
      simp [occurs, hno] at h

/--
How a step changes the view of the client it is about, where the map finds the
client that code looks up.
-/
inductive ClientStep (http : Bool) (v : View) : Label → View → Prop
  | run {i : Instr} {o : Outcome} {ch : Change} {v' : View}
      (exec : exec http v.client i o = some ch)
      (own : ∀ W : Weight, W.instr i ≤ v.held W)
      (release : i.needsRelease = true → pendingShare.instr i + 1 ≤ v.held pendingShare)
      (client : v'.client = ch.client)
      (held : ∀ W : Weight,
        v'.held W + W.instr i = v.held W + W.code ch.push + W.ops ch.post)
      (seen : ∀ p, v'.seen p = v.seen p + occurs p ch.event) :
      ClientStep http v (.run i o) v'
  | remove {i : Instr} {v' : View}
      (removes : i.removes = true)
      (client : v'.client = v.client.removed)
      (held : ∀ W : Weight, v'.held W + W.instr i = v.held W)
      (seen : ∀ p, v'.seen p = v.seen p) :
      ClientStep http v (.run i .ok) v'
  | sweep {socketID : SocketID} {v' : View}
      (client : v'.client = v.client.swept)
      (held : ∀ W : Weight, v'.held W = v.held W)
      (seen : ∀ p, v'.seen p = v.seen p) :
      ClientStep http v (.run (.sweep socketID) .ok) v'
  | complete {k : OpType} {r : Completion} {code : List Instr} {v' : View}
      (exec : onCompleteOperation k r = some code)
      (own : ∀ W : Weight, W.op k ≤ v.held W)
      (client : v'.client = v.client)
      (held : ∀ W : Weight, v'.held W + W.op k = v.held W + W.code code)
      (seen : ∀ p, v'.seen p = v.seen p) :
      ClientStep http v (.complete k r) v'
  | find {code : List Instr} {v' : View}
      (exec : code = sendCode ∨ code = closeCode)
      (live : v.client.live = true)
      (client : v'.client =
        { v.client with mReferenceCount := v.client.mReferenceCount + 1 })
      (held : ∀ W : Weight, v'.held W = v.held W + W.code code)
      (seen : ∀ p, v'.seen p = v.seen p) :
      ClientStep http v (.find code) v'
  | alloc {first : Instr} {id : SocketID} {fresh : Bool} {n : Nat} {v' : View}
      (exec : first = .acceptEx ∨ first = .increaseRef)
      (live : v.client.live = false)
      (client : v'.client = .fresh id n)
      (held : ∀ W : Weight, v'.held W = v.held W + W.instr first)
      (seen : ∀ p, v'.seen p = 0) :
      ClientStep http v (.alloc first id fresh) v'

section Code

/-- In a thread, what an instruction owes comes after it. -/
def Released : List (Addr × Instr) → Prop
  | [] => True
  | x :: rest => (∀ j, x.2.owes = some j → (x.1, j) ∈ rest) ∧ Released rest

/-- The same of code that stands in front of what it may owe. -/
def releases (paid : Option Instr) : List Instr → Bool
  | [] => true
  | i :: is => (i.owes.all fun j => decide (j ∈ is ∨ paid = some j)) && releases paid is

theorem Released.append
    {a : Addr} {rest : List (Addr × Instr)} {paid : Option Instr}
    (hrest : Released rest) (hpaid : ∀ j, paid = some j → (a, j) ∈ rest)
    {is : List Instr} (h : releases paid is = true) : Released (owned a is ++ rest) := by
  induction is with
  | nil => exact hrest
  | cons i is ih =>
      simp only [releases, Bool.and_eq_true, Option.all_eq_true, decide_eq_true_eq] at h
      refine ⟨?_, ih h.2⟩
      intro j hj
      rcases h.1 j hj with hmem | hj'
      · exact List.mem_append_left _ (List.mem_map.mpr ⟨_, hmem, rfl⟩)
      · exact List.mem_append_right _ (hpaid j hj')

theorem exec_releases
    {http : Bool} {c : TcpClient} {i : Instr} {o : Outcome} {ch : Change}
    (h : exec http c i o = some ch) :
    releases i.owes ch.push = true := by
  revert h
  fun_cases exec http c i o
  case case24 site | case25 site | case26 site _ | case28 site | case29 site =>
    rintro ⟨⟩
    cases site <;> rfl
  case case41 =>
    rintro ⟨⟩
    cases http <;> rfl
  case case44 full =>
    rintro ⟨⟩
    simp only [Change.next, sendResult]
    split_ifs <;> rfl
  case case62 =>
    rintro ⟨⟩
    simp only [Change.next]
    split_ifs <;> rfl
  all_goals
    rintro ⟨⟩
    try rfl

theorem onCompleteOperation_releases
    {k : OpType} {r : Completion} {code : List Instr}
    (h : onCompleteOperation k r = some code) :
    releases none code = true := by
  revert h
  fun_cases onCompleteOperation k r
  all_goals
    rintro ⟨⟩
    try rfl

/-- No instruction renumbers a client. -/
theorem exec_serial
    {http : Bool} {c : TcpClient} {i : Instr} {o : Outcome} {ch : Change}
    (h : exec http c i o = some ch) :
    ch.client.serial = c.serial := by
  revert h
  fun_cases exec http c i o
  all_goals
    rintro ⟨⟩
    try rfl

/-- Code that is left in a thread holds its share. -/
theorem share_le_shares
    {a : Addr} {j : Instr} {t : List (Addr × Instr)} (W : Weight) (h : (a, j) ∈ t) :
    W.instr j ≤ shares (ofOwner a W.instr) t := by
  have hle := le_shares (w := ofOwner a W.instr) h
  rw [ofOwner_self] at hle
  exact hle

end Code

section Held

variable {s : State}

theorem held_add (s : State) (a : Addr) (W W' : Weight) :
    s.held a (W.add W') = s.held a W + s.held a W' := by
  have hinstr := ofOwner_add a W.instr W'.instr
  have hop := ofOwner_add a W.op W'.op
  unfold State.held Weight.add
  simp only
  rw [hinstr, hop, total_add, shares_add]
  omega

theorem held_mono
    (s : State) (a : Addr) {W W' : Weight}
    (hinstr : ∀ i, W.instr i ≤ W'.instr i) (hop : ∀ k, W.op k ≤ W'.op k) :
    s.held a W ≤ s.held a W' :=
  Nat.add_le_add (total_mono (ofOwner_mono hinstr a) _) (shares_mono (ofOwner_mono hop a) _)

/-- Where code of a kind is left in a thread, what it owes is left in it. -/
theorem shares_rooted
    {a : Addr} {W T : Weight}
    (hinstr : ∀ i, 0 < W.instr i → 0 < T.instr i ∨ ∃ j, i.owes = some j ∧ 0 < T.instr j)
    {t : List (Addr × Instr)} (hreleased : Released t)
    (hpos : 0 < shares (ofOwner a W.instr) t) : 0 < shares (ofOwner a T.instr) t := by
  induction t with
  | nil => exact absurd hpos (Nat.lt_irrefl 0)
  | cons x rest ih =>
      obtain ⟨b, i⟩ := x
      by_cases hx : 0 < ofOwner a W.instr (b, i)
      · obtain ⟨rfl, hi⟩ := ofOwner_pos hx
        simp only [shares, ofOwner_self]
        rcases hinstr i hi with hshare | ⟨j, howes, hshare⟩
        · omega
        · have hmem : (b, j) ∈ rest := hreleased.1 j howes
          have := share_le_shares T hmem
          omega
      · simp only [shares] at hpos ⊢
        have hrest := ih hreleased.2 (by omega)
        omega

/-- Where code or operations of a kind are left, what they owe is left. -/
theorem held_rooted
    (hreleased : ∀ t ∈ s.threads, Released t) (a : Addr) {W T : Weight}
    (hinstr : ∀ i, 0 < W.instr i → 0 < T.instr i ∨ ∃ j, i.owes = some j ∧ 0 < T.instr j)
    (hop : ∀ k, 0 < W.op k → 0 < T.op k)
    (hpos : 0 < s.held a W) :
    0 < s.held a T := by
  rw [State.held] at hpos ⊢
  rcases Nat.eq_zero_or_pos (total (ofOwner a W.instr) s.threads) with hzero | htotal
  · obtain ⟨⟨b, k⟩, hx, hxpos⟩ :=
      shares_pos (show 0 < shares (ofOwner a W.op) s.outstanding by omega)
    obtain ⟨rfl, hk⟩ := ofOwner_pos hxpos
    have hle := le_shares (w := ofOwner b T.op) hx
    have hshare := hop k hk
    rw [ofOwner_self] at hle
    omega
  · obtain ⟨t, ht, htpos⟩ := total_pos htotal
    have hshare : 0 < shares (ofOwner a T.instr) t :=
      shares_rooted hinstr (hreleased t ht) htpos
    have := shares_le_total (w := ofOwner a T.instr) ht
    omega

/-- A thread replaces its next instruction. -/
theorem held_setThread
    {j : Nat} {b : Addr} {i : Instr} {rest : List (Addr × Instr)}
    (hj : s.threads[j]? = some ((b, i) :: rest)) (push : List Instr) (a : Addr) (W : Weight) :
    (s.setThread j (owned b push ++ rest)).held a W + (if a = b then W.instr i else 0) =
      s.held a W + if a = b then W.code push else 0 := by
  have hrun := total_run (w := ofOwner a W.instr) hj (owned b push)
  unfold State.held State.setThread Weight.code
  by_cases ha : a = b
  · subst ha
    rw [ofOwner_self, shares_owned_self] at hrun
    simp only [if_true]
    omega
  · rw [ofOwner_other (Ne.symm ha), shares_owned_other (Ne.symm ha)] at hrun
    simp only [if_neg ha]
    omega

/-- A thread is started on the client `b`. -/
theorem held_spawn (s : State) (b : Addr) (code : List Instr) (a : Addr) (W : Weight) :
    State.held { s with threads := s.threads ++ [owned b code] } a W =
      s.held a W + if a = b then W.code code else 0 := by
  unfold State.held
  simp only
  rw [total_spawn]
  by_cases ha : a = b
  · subst ha
    rw [shares_owned_self, if_pos rfl]
    unfold Weight.code
    omega
  · rw [shares_owned_other (Ne.symm ha), if_neg ha]
    omega

/-- Operations are posted on the client `b`. -/
theorem held_post (s : State) (b : Addr) (ks : List OpType) (a : Addr) (W : Weight) :
    State.held { s with outstanding := s.outstanding ++ owned b ks } a W =
      s.held a W + if a = b then W.ops ks else 0 := by
  unfold State.held
  simp only [shares_append]
  by_cases ha : a = b
  · subst ha
    rw [shares_owned_self, if_pos rfl]
    unfold Weight.ops
    omega
  · rw [shares_owned_other (Ne.symm ha), if_neg ha]
    omega

/-- An operation of the client `b` is dequeued. -/
theorem held_dequeue
    {j : Nat} {b : Addr} {k : OpType} (hj : s.outstanding[j]? = some (b, k)) (a : Addr)
    (W : Weight) :
    State.held { s with outstanding := s.outstanding.eraseIdx j } a W +
        (if a = b then W.op k else 0) =
      s.held a W := by
  have herase := shares_eraseIdx (w := ofOwner a W.op) hj
  unfold State.held
  by_cases ha : a = b
  · subst ha
    rw [ofOwner_self] at herase
    simp only [if_true]
    omega
  · rw [ofOwner_other (Ne.symm ha)] at herase
    simp only [if_neg ha]
    omega

/-- The share of an instruction a thread is about to run. -/
theorem share_le_held
    {j : Nat} {b : Addr} {i : Instr} {rest : List (Addr × Instr)}
    (hj : s.threads[j]? = some ((b, i) :: rest)) (W : Weight) :
    W.instr i + shares (ofOwner b W.instr) rest ≤ s.held b W := by
  have hle := shares_le_total (w := ofOwner b W.instr) (List.mem_of_getElem? hj)
  simp only [shares, ofOwner_self] at hle
  rw [State.held]
  omega

theorem op_le_held
    {j : Nat} {b : Addr} {k : OpType} (hj : s.outstanding[j]? = some (b, k)) (W : Weight) :
    W.op k ≤ s.held b W := by
  have hle := le_shares (w := ofOwner b W.op) (List.mem_of_getElem? hj)
  rw [ofOwner_self] at hle
  rw [State.held]
  omega

end Held

end Service
end IocpNetlib
