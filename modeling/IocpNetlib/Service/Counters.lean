import IocpNetlib.Service.Simulation

/-!
# What the counters of a client count

`mPendingIo` is the number of the operations and handlers of a client that are
outstanding, `mReferenceCount` that of its `TcpClientRef`s, and a client that is
in the map and not marked has exactly one thread or outstanding accept that will
hand it on, unless its `mPendingIo` is positive.  The code keeps this in the
runs whose steps meet `countersKept`.
-/

namespace IocpNetlib
namespace Service

open Ledger

/-- The view of a client in some state: `held` adds shares up. -/
structure View.Lawful (v : View) : Prop where
  mono : ∀ {W W' : Weight}, (∀ i, W.instr i ≤ W'.instr i) → (∀ k, W.op k ≤ W'.op k) →
    v.held W ≤ v.held W'
  add : ∀ W W' : Weight, v.held (W.add W') = v.held W + v.held W'
  owed : ∀ {W T : Weight},
    (∀ i, 0 < W.instr i → 0 < T.instr i ∨ ∃ j, i.owes = some j ∧ 0 < T.instr j) →
    (∀ k, 0 < W.op k → 0 < T.op k) →
    0 < v.held W → 0 < v.held T

/-- Where code is left that needs a release, a share of `mPendingIo` is left. -/
theorem View.Lawful.rooted
    {v : View} (h : v.Lawful) {W : Weight}
    (hinstr : ∀ i, 0 < W.instr i → i.needsRelease = true ∨ 0 < pendingShare.instr i)
    (hop : ∀ k, 0 < W.op k → 0 < pendingShare.op k) (hpos : 0 < v.held W) :
    0 < v.held pendingShare :=
  h.owed
    (fun i hi =>
      (hinstr i hi).elim
        (fun hneeds => Or.inr ⟨.checkRelease, needsRelease_owes hneeds, Nat.one_pos⟩) Or.inl)
    hop hpos

theorem State.Ordered.lawful {s : State} (h : s.Ordered) (a : Addr) : (s.view a).Lawful where
  mono := fun hinstr hop => held_mono s a hinstr hop
  add := fun W W' => held_add s a W W'
  owed := fun hinstr hop hpos => held_rooted h.released a hinstr hop hpos

/-- The code holds a `TcpClientRef` until it has run this instruction. -/
def Instr.holdsRef : Instr → Bool
  | .postConnect _ => true
  | .connectEx _ => true
  | .connectFailed _ => true
  | .closeHandle _ => true
  | .wait _ => true
  | .readConnState _ => true
  | .decreaseRef => true
  | _ => false

def referenceShare : Weight where
  instr i := i.holdsRef.toNat
  op _ := 0

/-- The code and the operations that hand on a client with no pending operation. -/
def ownerShare : Weight where
  instr
    | .increaseRef => 1
    | .postConnect _ => 1
    | .closeHandle _ => 1
    | .acceptEx => 1
    | .acceptConnection => 1
    | .storeConnected .accept => 1
    | .postRecv .accept => 1
    | .closeSocket => 1
    | .reset _ => 1
    | .casClosed => 1
    | .freeRecvPacket => 1
    | .onClosed => 1
    | .removeClient _ => 1
    | .removeSelf => 1
    | _ => 0
  op
    | .accept => 1
    | _ => 0

/-- A `RemoveClient`. -/
def endShare : Weight where
  instr i := i.removes.toNat
  op _ := 0

/-- A `RemoveClient` with a saved id. -/
def removeShare : Weight where
  instr
    | .removeClient _ => 1
    | _ => 0
  op _ := 0

/-- Code that reads the id of the client to save it or to remove the client. -/
def readShare : Weight where
  instr
    | .increaseRef => 1
    | .closeSocket => 1
    | .removeSelf => 1
    | _ => 0
  op _ := 0

/-- The operations that `PostSpecial` is called with. -/
def OpType.special : OpType → Bool
  | .closed => true
  | .timeout => true
  | .connectExTimeout => true
  | _ => false

/-- The end of a `PostSpecial` that failed, and code that is not in the source. -/
def strayShare : Weight where
  instr
    | .decreaseIOCount => 1
    | .storeConnected .again => 1
    | .onConnected .again => 1
    | .postSpecial opType => (!opType.special).toNat
    | .allocExceptionIOContext opType => (!opType.special).toNat
    | .postQueued opType => (!opType.special).toNat
    | _ => 0
  op _ := 0

/-- The id that code has saved. -/
def Instr.savedID : Instr → Option SocketID
  | .postConnect id => some id
  | .connectEx id => some id
  | .connectFailed id => some id
  | .closeHandle id => some id
  | .wait id => some id
  | .readConnState id => some id
  | .reset id => some id
  | .removeClient id => some id
  | _ => none

/-- Code that has saved another id than `n`. -/
def otherID (n : SocketID) : Weight where
  instr i :=
    match i.savedID with
    | none => 0
    | some id => if id = n then 0 else 1
  op _ := 0

/--
The steps that keep the counters right.  Nothing is posted on a client whose
`mPendingIo` is zero; a special is not given up; an accept or a connect that
fails at its first operation finds no other one posted, and the client it resets
has no reference; a new id is not in use.
-/
def countersKept (v : View) : Label → Bool
  | .run .increaseSend _ => decide (0 < v.client.mPendingIo)
  | .run (.postSpecial _) _ => decide (0 < v.client.mPendingIo)
  | .run (.allocExceptionIOContext _) o => decide (o = .ok)
  | .run (.postQueued _) o => decide (o = .ok)
  | .run (.recvFailed .accept) _ => decide (v.client.mPendingIo = 1)
  | .run (.connectFailed _) _ => decide (v.client.mPendingIo = 1)
  | .run (.reset _) _ => decide (v.client.mReferenceCount = 0)
  | .alloc _ _ fresh => fresh
  | _ => true

/-- The two instructions of `PostSpecial` that can fail. -/
def Instr.postsSpecial : Instr → Bool
  | .allocExceptionIOContext _ => true
  | .postQueued _ => true
  | _ => false

theorem countersKept_posts
    {v : View} {i : Instr} {o : Outcome} (hkept : countersKept v (.run i o) = true)
    (hi : i.postsSpecial = true) :
    o = .ok := by
  cases i
  case allocExceptionIOContext opType => exact of_decide_eq_true hkept
  case postQueued opType => exact of_decide_eq_true hkept
  all_goals exact absurd hi Bool.false_ne_true

/-- The counters of a client say what is outstanding. -/
structure View.Counters (v : View) : Prop where
  pending : v.client.mPendingIo = v.held pendingShare
  reference : v.client.mReferenceCount = v.held referenceShare
  owner :
    v.held ownerShare + min 1 (v.held pendingShare) +
        (v.client.live && v.client.mMarkedDestroy).toNat =
      v.client.live.toNat
  unreferenced : v.client.live = false → v.held referenceShare = 0
  stray : v.held strayShare = 0
  ident :
    v.client.live = true →
      v.client.mLogicSocketID = v.client.allocID ∨
        (v.client.mLogicSocketID = 0 ∧
          (v.client.mMarkedDestroy = true ∨ 0 < v.held removeShare))
  saved : v.held (otherID v.client.allocID) = 0

section Exec

variable {http : Bool} {v : View} {i : Instr} {o : Outcome} {ch : Change}

theorem exec_stray
    (hpost : i.postsSpecial = true → o = .ok)
    (hstray : strayShare.instr i = 0)
    (h : exec http v.client i o = some ch) :
    strayShare.code ch.push = 0 := by
  revert h
  fun_cases exec http v.client i o
  case case26 site _ | case29 site =>
    rintro ⟨⟩
    cases site <;> rfl
  case case41 =>
    rintro ⟨⟩
    cases http <;> rfl
  case case44 full =>
    rintro ⟨⟩
    simp only [Change.next, sendResult]
    split_ifs <;> rfl
  case case55 | case56 =>
    rintro ⟨⟩
    exact hstray
  case case57 | case59 =>
    exact absurd (hpost rfl) (by decide)
  case case62 =>
    rintro ⟨⟩
    simp only [Change.next]
    split_ifs <;> rfl
  all_goals
    rintro ⟨⟩ <;> rfl

theorem exec_pending
    (hpost : i.postsSpecial = true → o = .ok)
    (hstray : strayShare.instr i = 0)
    (hreset : ∀ id, i = .reset id → v.client.mPendingIo = 0)
    (h : exec http v.client i o = some ch) :
    ch.client.mPendingIo + pendingShare.instr i =
      v.client.mPendingIo +
        (pendingShare.code ch.push + pendingShare.ops ch.post : Nat) := by
  revert h
  fun_cases exec http v.client i o
  case case23 id =>
    rintro ⟨⟩
    simp [pendingShare, TcpClient.reset, hreset id rfl]
  case case25 site | case26 site _ | case29 site =>
    rintro ⟨⟩
    cases site <;> simp [pendingShare, RecvSite.onOk, RecvSite.onFail]
  case case41 =>
    rintro ⟨⟩
    cases http <;> rfl
  case case44 full =>
    rintro ⟨⟩
    simp only [Change.next, sendResult]
    split_ifs <;> rfl
  case case57 | case59 =>
    exact absurd (hpost rfl) (by decide)
  case case58 opType =>
    rintro ⟨⟩
    cases opType <;> first | rfl | exact absurd hstray (by decide)
  case case62 =>
    rintro ⟨⟩
    simp only [Change.next]
    split_ifs <;> simp [pendingShare]
  all_goals
    rintro ⟨⟩ <;> first | rfl | simp [pendingShare]

theorem exec_reference
    (hreset : ∀ id, i = .reset id → v.client.mReferenceCount = 0)
    (h : exec http v.client i o = some ch) :
    ch.client.mReferenceCount + referenceShare.instr i =
      v.client.mReferenceCount + referenceShare.code ch.push := by
  revert h
  fun_cases exec http v.client i o
  case case23 id =>
    rintro ⟨⟩
    simp [referenceShare, Instr.holdsRef, TcpClient.reset, hreset id rfl]
  case case26 site _ | case29 site =>
    rintro ⟨⟩
    cases site <;> rfl
  case case41 =>
    rintro ⟨⟩
    cases http <;> rfl
  case case44 full =>
    rintro ⟨⟩
    simp only [Change.next, sendResult]
    split_ifs <;> rfl
  case case62 =>
    rintro ⟨⟩
    simp only [Change.next]
    split_ifs <;> rfl
  all_goals
    rintro ⟨⟩ <;> first | rfl | simp [referenceShare, Instr.holdsRef]

/-- Who hands the client on changes where `mPendingIo` leaves zero or reaches it. -/
theorem exec_owner
    (hkept : countersKept v (.run i o) = true)
    (hstray : strayShare.instr i = 0)
    {P : Nat} (hP : v.client.mPendingIo = P)
    (hshare : pendingShare.instr i ≤ P)
    (hrelease : i.needsRelease = true → pendingShare.instr i + 1 ≤ P)
    (hidle : ownerShare.instr i + min 1 P ≤ 1)
    (h : exec http v.client i o = some ch) :
    ownerShare.code ch.push + ownerShare.ops ch.post +
        min 1 (P + pendingShare.code ch.push + pendingShare.ops ch.post - pendingShare.instr i) =
      ownerShare.instr i + min 1 P := by
  revert h
  fun_cases exec http v.client i o
  case case2 | case8 | case51 | case55 =>
    rintro ⟨⟩
    simp [pendingShare, ownerShare, countersKept] at hkept hidle hshare ⊢
    omega
  case case24 site =>
    rintro ⟨⟩
    cases site <;> rfl
  case case25 site | case26 site _ | case28 site | case29 site =>
    rintro ⟨⟩
    cases site <;>
      simp [pendingShare, ownerShare, countersKept, RecvSite.onOk, RecvSite.onFail,
        Instr.needsRelease] at hkept hidle hshare hrelease ⊢ <;>
      omega
  case case41 =>
    rintro ⟨⟩
    cases http <;> rfl
  case case44 full =>
    rintro ⟨⟩
    simp only [Change.next, sendResult]
    split_ifs <;> rfl
  case case57 | case59 =>
    exact absurd hkept (by simp [countersKept])
  case case58 opType =>
    rintro ⟨⟩
    cases opType <;> first | rfl | exact absurd hstray (by decide)
  case case60 => exact absurd hstray (by decide)
  case case62 =>
    rintro ⟨⟩
    simp only [Change.next]
    split_ifs <;> simp [pendingShare, ownerShare] at hshare ⊢ <;> omega
  all_goals
    rintro ⟨⟩ <;> rfl

/-- Only the map hands a client out or takes it back. -/
theorem exec_life (h : exec http v.client i o = some ch) :
    ch.client.live = v.client.live ∧ ch.client.allocID = v.client.allocID := by
  revert h
  fun_cases exec http v.client i o
  all_goals
    rintro ⟨⟩ <;> exact ⟨rfl, rfl⟩

theorem exec_marked
    (hmark : 0 < ownerShare.instr i → v.client.mMarkedDestroy = false)
    (h : exec http v.client i o = some ch) :
    ch.client.mMarkedDestroy = v.client.mMarkedDestroy := by
  revert h
  fun_cases exec http v.client i o
  case case23 id =>
    rintro ⟨⟩
    exact (hmark Nat.one_pos).symm
  all_goals
    rintro ⟨⟩ <;> rfl

/-- Only `Reset` changes the id of a client, and removes it at once. -/
theorem exec_ident (h : exec http v.client i o = some ch) :
    ch.client.mLogicSocketID = v.client.mLogicSocketID ∨
      (ch.client.mLogicSocketID = 0 ∧ 0 < removeShare.code ch.push) := by
  revert h
  fun_cases exec http v.client i o
  case case23 id =>
    rintro ⟨⟩
    exact Or.inr ⟨rfl, Nat.one_pos⟩
  all_goals
    rintro ⟨⟩ <;> exact Or.inl rfl

/-- References are taken by the code that allocates a client. -/
theorem exec_reference_le (h : exec http v.client i o = some ch) :
    referenceShare.code ch.push ≤ referenceShare.instr i + ownerShare.instr i := by
  revert h
  fun_cases exec http v.client i o
  case case26 site _ | case29 site =>
    rintro ⟨⟩
    cases site <;> exact Nat.zero_le _
  case case41 =>
    rintro ⟨⟩
    cases http <;> exact Nat.zero_le _
  case case44 full =>
    rintro ⟨⟩
    simp only [Change.next, sendResult]
    split_ifs <;> exact Nat.zero_le _
  case case62 =>
    rintro ⟨⟩
    simp only [Change.next]
    split_ifs <;> exact Nat.zero_le _
  all_goals
    rintro ⟨⟩ <;> first | exact Nat.zero_le _ | exact Nat.le_refl _ | exact Nat.le_succ _

theorem exec_removeShare (h : exec http v.client i o = some ch) : removeShare.instr i = 0 := by
  cases i
  case removeClient => exact absurd h (by cases o <;> simp [exec])
  all_goals rfl

theorem otherID_zero {n : SocketID} (h : (otherID n).instr i = 0) :
    ∀ id, i.savedID = some id → id = n := by
  intro id hid
  by_contra hne
  simp [otherID, hid, hne] at h

/-- Code only saves the client's own id. -/
theorem exec_saved
    {n : SocketID} (hid : 0 < readShare.instr i → v.client.mLogicSocketID = n)
    (hother : (otherID n).instr i = 0)
    (h : exec http v.client i o = some ch) :
    (otherID n).code ch.push = 0 := by
  revert h
  fun_cases exec http v.client i o
  case case1 =>
    rintro ⟨⟩
    simp [otherID, Instr.savedID, hid Nat.one_pos]
  case case22 =>
    rintro ⟨⟩
    simp [otherID, Instr.savedID, hid Nat.one_pos]
  case case3 | case9 =>
    rintro ⟨⟩
    simpa [otherID, Instr.savedID] using hother
  case case26 site _ | case29 site =>
    rintro ⟨⟩
    cases site <;> rfl
  case case41 =>
    rintro ⟨⟩
    cases http <;> rfl
  case case44 full =>
    rintro ⟨⟩
    simp only [Change.next, sendResult]
    split_ifs <;> rfl
  case case62 =>
    rintro ⟨⟩
    simp only [Change.next]
    split_ifs <;> rfl
  all_goals
    rintro ⟨⟩ <;> first | rfl | exact hother

end Exec

section Complete

variable {k : OpType} {r : Completion} {code : List Instr}

theorem complete_pending (h : onCompleteOperation k r = some code) :
    pendingShare.code code = pendingShare.op k := by
  revert h
  fun_cases onCompleteOperation k r
  all_goals
    rintro ⟨⟩ <;> rfl

theorem complete_owner (h : onCompleteOperation k r = some code) :
    ownerShare.code code = ownerShare.op k := by
  revert h
  fun_cases onCompleteOperation k r
  all_goals
    rintro ⟨⟩ <;> rfl

/-- The code of a completion holds no reference and has saved no id. -/
theorem complete_plain (h : onCompleteOperation k r = some code) :
    referenceShare.code code = 0 ∧ strayShare.code code = 0 ∧ removeShare.code code = 0 ∧
      ∀ n, (otherID n).code code = 0 := by
  revert h
  fun_cases onCompleteOperation k r
  all_goals
    rintro ⟨⟩ <;> exact ⟨rfl, rfl, rfl, fun _ => rfl⟩

end Complete

section Steps

variable {http : Bool} {v v' : View}

/-- Code that has saved an id is counted. -/
theorem savedID_counted {i : Instr} (h : i.savedID ≠ none) :
    0 < ((pendingShare.add ownerShare).add referenceShare).instr i := by
  cases i <;> first | exact absurd rfl h | exact Nat.succ_pos _

/-- A saved id is in code that is counted. -/
theorem otherID_le (n : SocketID) (i : Instr) :
    (otherID n).instr i ≤ ((pendingShare.add ownerShare).add referenceShare).instr i := by
  show (match i.savedID with | none => 0 | some id => if id = n then 0 else 1) ≤ _
  cases hsaved : i.savedID with
  | none => exact Nat.zero_le _
  | some id =>
      have hcounted : 0 < _ := savedID_counted (hsaved ▸ Option.some_ne_none id)
      simp only
      split_ifs
      · exact Nat.zero_le _
      · exact hcounted

/-- Nothing is left of a client that is not live. -/
theorem View.Counters.dead
    (h : v.Counters) (hv : v.Lawful) (hlive : v.client.live = false) (n : SocketID) :
    v.held pendingShare = 0 ∧ v.held ownerShare = 0 ∧ v.held referenceShare = 0 ∧
      v.held (otherID n) = 0 := by
  have howner := h.owner
  rw [hlive] at howner
  simp only [Bool.false_and, Bool.toNat_false] at howner
  have href := h.unreferenced hlive
  have hle := hv.mono (otherID_le n) (fun k => Nat.zero_le _)
  rw [hv.add, hv.add] at hle
  refine ⟨?_, ?_, href, ?_⟩ <;> omega

/-- Code that removes the client runs while it is live, idle, not marked and in the map. -/
theorem View.Counters.owned
    (h : v.Counters) (hpos : 0 < v.held ownerShare) :
    v.client.live = true ∧ v.client.mMarkedDestroy = false ∧ v.held pendingShare = 0 ∧
      v.held ownerShare = 1 := by
  have howner := h.owner
  cases hlive : v.client.live <;> cases hmark : v.client.mMarkedDestroy <;>
    simp [hlive, hmark] at howner ⊢ <;> omega

/-- Code that is about to read the id of a client finds the one it is in the map under. -/
theorem View.Counters.readID
    (h : v.Counters) (hv : v.Lawful) (hpos : 0 < v.held readShare) :
    v.client.live = true ∧ v.client.mLogicSocketID = v.client.allocID := by
  have hle : v.held (readShare.add removeShare) ≤ v.held ownerShare :=
    hv.mono (fun i => by cases i <;> simp [Weight.add, readShare, removeShare, ownerShare])
      (fun k => Nat.zero_le _)
  rw [hv.add] at hle
  obtain ⟨hlive, hmark, -, hone⟩ := h.owned (by omega)
  refine ⟨hlive, ?_⟩
  rcases h.ident hlive with hid | ⟨-, hmarked | hremove⟩
  · exact hid
  · rw [hmark] at hmarked
    cases hmarked
  · omega

theorem View.Counters.exec
    {i : Instr} {o : Outcome} {ch : Change}
    (h : v.Counters) (hv : v.Lawful)
    (hkept : countersKept v (.run i o) = true)
    (hexec : exec http v.client i o = some ch)
    (own : ∀ W : Weight, W.instr i ≤ v.held W)
    (release : i.needsRelease = true → pendingShare.instr i + 1 ≤ v.held pendingShare)
    (client : v'.client = ch.client)
    (held : ∀ W : Weight,
      v'.held W + W.instr i = v.held W + W.code ch.push + W.ops ch.post) :
    v'.Counters := by
  have hstray : strayShare.instr i = 0 := by
    have := own strayShare
    have := h.stray
    omega
  have hreset : ∀ id, i = .reset id → v.client.mPendingIo = 0 := by
    rintro id rfl
    obtain ⟨-, -, hzero, -⟩ := h.owned (own ownerShare)
    rw [h.pending, hzero]
    rfl
  have hpending := exec_pending (countersKept_posts hkept) hstray hreset hexec
  have hunused : ∀ id, i = .reset id → v.client.mReferenceCount = 0 := by
    rintro id rfl
    exact of_decide_eq_true hkept
  have hreference := exec_reference hunused hexec
  obtain ⟨hlive, halloc⟩ := exec_life hexec
  have hmark : ch.client.mMarkedDestroy = v.client.mMarkedDestroy :=
    exec_marked (fun hpos => (h.owned (Nat.lt_of_lt_of_le hpos (own ownerShare))).2.1) hexec
  have hheldP := held pendingShare
  have hheldR := held referenceShare
  rw [ops_zero (W := referenceShare) fun _ => rfl] at hheldR
  refine ⟨?_, ?_, ?_, ?_, ?_, ?_, ?_⟩
  · rw [client]
    have := h.pending
    omega
  · rw [client]
    have := h.reference
    omega
  · have hheldO := held ownerShare
    have howner := h.owner
    have hidle : ownerShare.instr i + min 1 (v.held pendingShare) ≤ 1 := by
      have := own ownerShare
      have := Bool.toNat_le v.client.live
      omega
    have hstep := exec_owner hkept hstray h.pending (own pendingShare) release hidle hexec
    have hp : v'.held pendingShare =
        v.held pendingShare + pendingShare.code ch.push + pendingShare.ops ch.post -
          pendingShare.instr i := by omega
    rw [client, hlive, hmark, hp]
    omega
  · intro hdead
    rw [client, hlive] at hdead
    obtain ⟨-, howner, href, -⟩ := h.dead hv hdead 0
    have := own ownerShare
    have := exec_reference_le hexec
    omega
  · have hheldS := held strayShare
    rw [ops_zero (W := strayShare) fun _ => rfl] at hheldS
    have := exec_stray (countersKept_posts hkept) hstray hexec
    have := h.stray
    omega
  · have hheldI := held removeShare
    rw [client, hlive, hmark, halloc]
    intro hlive'
    have := exec_removeShare hexec
    rcases exec_ident hexec with hid | ⟨hid, hpush⟩
    · rw [hid]
      rcases h.ident hlive' with hid' | ⟨hid', hmarked | hremove⟩
      · exact Or.inl hid'
      · exact Or.inr ⟨hid', Or.inl hmarked⟩
      · exact Or.inr ⟨hid', Or.inr (by omega)⟩
    · exact Or.inr ⟨hid, Or.inr (by omega)⟩
  · have hheldI := held (otherID v.client.allocID)
    rw [ops_zero (W := otherID v.client.allocID) fun _ => rfl] at hheldI
    have hother : (otherID v.client.allocID).instr i = 0 := by
      have := own (otherID v.client.allocID)
      have := h.saved
      omega
    have hpush :=
      exec_saved
        (fun hpos => (h.readID hv (Nat.lt_of_lt_of_le hpos (own readShare))).2) hother hexec
    rw [client, halloc]
    have := h.saved
    omega

theorem removes_shares {i : Instr} (hi : i.removes = true) :
    endShare.instr i = 1 ∧ ownerShare.instr i = 1 ∧ pendingShare.instr i = 0 ∧
      referenceShare.instr i = 0 := by
  cases i
  case removeSelf => exact ⟨rfl, rfl, rfl, rfl⟩
  case removeClient id => exact ⟨rfl, rfl, rfl, rfl⟩
  all_goals exact absurd hi (by simp [Instr.removes])

theorem View.Counters.removed
    {i : Instr}
    (h : v.Counters)
    (hi : i.removes = true)
    (client : v'.client = v.client.removed)
    (held : ∀ W : Weight, v'.held W + W.instr i = v.held W) :
    v'.Counters := by
  obtain ⟨-, hown, hpend, href⟩ := removes_shares hi
  obtain ⟨hlive, hmark, hidle, hone⟩ := h.owned (by have := held ownerShare; omega)
  have hheldP := held pendingShare
  have hheldR := held referenceShare
  have hheldO := held ownerShare
  have hheldS := held strayShare
  have hheldI := held (otherID v.client.allocID)
  have hreference := h.reference
  have hpending := h.pending
  have hstray := h.stray
  have hsaved := h.saved
  by_cases hactive : 0 < v.client.mReferenceCount
  · have hc : v'.client = { v.client with mMarkedDestroy := true } := by
      rw [client, removed_active hactive]
    refine ⟨?_, ?_, ?_, ?_, ?_, ?_, ?_⟩ <;> try simp only [hc]
    · omega
    · omega
    · rw [hlive]
      simp
      omega
    · rw [hlive]
      exact fun hfalse => absurd hfalse (by simp)
    · omega
    · exact fun hlive => (h.ident hlive).imp id fun hcleared => ⟨hcleared.1, Or.inl trivial⟩
    · omega
  · have hc : v'.client = { v.client with live := false } := by
      rw [client, removed_idle hactive]
    refine ⟨?_, ?_, ?_, ?_, ?_, ?_, ?_⟩ <;> try simp only [hc]
    · omega
    · omega
    · simp
      omega
    · intro _
      omega
    · omega
    · exact fun hfalse => absurd hfalse (by simp)
    · omega

theorem View.Counters.swept
    (h : v.Counters)
    (client : v'.client = v.client.swept)
    (held : ∀ W : Weight, v'.held W = v.held W) :
    v'.Counters := by
  by_cases hfree : v.client.mMarkedDestroy ∧ ¬ 0 < v.client.mReferenceCount
  · have hc : v'.client = { v.client with live := false } := by
      rw [client, swept_free hfree]
    have hreference := h.reference
    have howner := h.owner
    rw [hfree.1] at howner
    refine ⟨?_, ?_, ?_, ?_, ?_, ?_, ?_⟩ <;> try simp only [hc]
    · rw [held]
      exact h.pending
    · rw [held]
      exact h.reference
    · rw [held, held]
      simp at howner ⊢
      omega
    · intro _
      rw [held]
      have := hfree.2
      omega
    · rw [held]
      exact h.stray
    · exact fun hfalse => absurd hfalse (by simp)
    · rw [held]
      exact h.saved
  · have hc : v'.client = v.client := by
      rw [client, swept_kept hfree]
    refine ⟨?_, ?_, ?_, ?_, ?_, ?_, ?_⟩ <;> try rw [hc]
    · rw [held]
      exact h.pending
    · rw [held]
      exact h.reference
    · rw [held, held]
      exact h.owner
    · rw [held]
      exact h.unreferenced
    · rw [held]
      exact h.stray
    · rw [held]
      exact h.ident
    · rw [held]
      exact h.saved

/-- A completion does not change a share that no operation and no code of its handler has. -/
theorem View.held_plain
    {W : Weight} {k : OpType} {code : List Instr}
    (held : ∀ W : Weight, v'.held W + W.op k = v.held W + W.code code)
    (hop : ∀ k, W.op k = 0) (hcode : W.code code = 0) :
    v'.held W = v.held W := by
  have hheld := held W
  rw [hop, hcode] at hheld
  exact hheld

theorem View.Counters.complete
    {k : OpType} {r : Completion} {code : List Instr}
    (h : v.Counters)
    (hexec : onCompleteOperation k r = some code)
    (client : v'.client = v.client)
    (held : ∀ W : Weight, v'.held W + W.op k = v.held W + W.code code) :
    v'.Counters := by
  obtain ⟨href, hstray, hremove, hsaved⟩ := complete_plain hexec
  have hheldP : v'.held pendingShare = v.held pendingShare := by
    have := held pendingShare
    have := complete_pending hexec
    omega
  have hheldO : v'.held ownerShare = v.held ownerShare := by
    have := held ownerShare
    have := complete_owner hexec
    omega
  have hplain := fun W => View.held_plain (W := W) held
  have hheldR := hplain referenceShare (fun _ => rfl) href
  have hheldS := hplain strayShare (fun _ => rfl) hstray
  have hheldM := hplain removeShare (fun _ => rfl) hremove
  have hheldI := hplain (otherID v.client.allocID) (fun _ => rfl) (hsaved _)
  refine ⟨?_, ?_, ?_, ?_, ?_, ?_, ?_⟩
  · rw [client, hheldP]
    exact h.pending
  · rw [client, hheldR]
    exact h.reference
  · rw [client, hheldO, hheldP]
    exact h.owner
  · rw [client, hheldR]
    exact h.unreferenced
  · rw [hheldS]
    exact h.stray
  · rw [client, hheldM]
    exact h.ident
  · rw [client, hheldI]
    exact h.saved

theorem View.Counters.find
    {code : List Instr}
    (h : v.Counters)
    (hcode : code = sendCode ∨ code = closeCode)
    (hlive : v.client.live = true)
    (client : v'.client =
      { v.client with mReferenceCount := v.client.mReferenceCount + 1 })
    (held : ∀ W : Weight, v'.held W = v.held W + W.code code) :
    v'.Counters := by
  have hplain :
      pendingShare.code code = 0 ∧ ownerShare.code code = 0 ∧ referenceShare.code code = 1 ∧
        strayShare.code code = 0 ∧ removeShare.code code = 0 ∧
        ∀ n, (otherID n).code code = 0 := by
    rcases hcode with rfl | rfl <;> exact ⟨rfl, rfl, rfl, rfl, rfl, fun _ => rfl⟩
  obtain ⟨hp, ho, hr, hs, hm, hi⟩ := hplain
  have hheldP := held pendingShare
  have hheldO := held ownerShare
  have hheldR := held referenceShare
  have hheldS := held strayShare
  have hheldM := held removeShare
  have hheldI := held (otherID v.client.allocID)
  rw [hp, Nat.add_zero] at hheldP
  rw [ho, Nat.add_zero] at hheldO
  rw [hr] at hheldR
  rw [hs, Nat.add_zero] at hheldS
  rw [hm, Nat.add_zero] at hheldM
  rw [hi, Nat.add_zero] at hheldI
  refine ⟨?_, ?_, ?_, ?_, ?_, ?_, ?_⟩ <;> try simp only [client]
  · rw [hheldP]
    exact h.pending
  · have := h.reference
    omega
  · rw [hheldO, hheldP]
    exact h.owner
  · exact fun hfalse => absurd hlive (by simp [hfalse])
  · rw [hheldS]
    exact h.stray
  · rw [hheldM]
    exact h.ident
  · rw [hheldI]
    exact h.saved

theorem View.Counters.alloc
    {first : Instr} {id : SocketID} {n : Nat}
    (h : v.Counters) (hv : v.Lawful)
    (hfirst : first = .acceptEx ∨ first = .increaseRef)
    (hlive : v.client.live = false)
    (client : v'.client = .fresh id n)
    (held : ∀ W : Weight, v'.held W = v.held W + W.instr first) :
    v'.Counters := by
  obtain ⟨hp, ho, hr, hi⟩ := h.dead hv hlive id
  have hplain :
      pendingShare.instr first = 0 ∧ ownerShare.instr first = 1 ∧
        referenceShare.instr first = 0 ∧ strayShare.instr first = 0 ∧
        (otherID id).instr first = 0 := by
    rcases hfirst with rfl | rfl <;> exact ⟨rfl, rfl, rfl, rfl, rfl⟩
  obtain ⟨hp', ho', hr', hs', hi'⟩ := hplain
  have hheldP := held pendingShare
  have hheldO := held ownerShare
  have hheldR := held referenceShare
  have hheldS := held strayShare
  have hheldI := held (otherID id)
  have hstray := h.stray
  have hlive' : (TcpClient.fresh id n).live = true := rfl
  have hmark' : (TcpClient.fresh id n).mMarkedDestroy = false := rfl
  have hpend' : (TcpClient.fresh id n).mPendingIo = 0 := rfl
  have href' : (TcpClient.fresh id n).mReferenceCount = 0 := rfl
  refine ⟨?_, ?_, ?_, ?_, ?_, ?_, ?_⟩ <;> try rw [client]
  · omega
  · omega
  · rw [hlive', hmark']
    simp
    omega
  · exact fun hfalse => absurd hlive' (by simp [hfalse])
  · omega
  · exact fun _ => Or.inl rfl
  · show v'.held (otherID id) = 0
    omega

/-- A step that meets `countersKept` keeps the counters right. -/
theorem View.Counters.step
    {ℓ : Label}
    (h : v.Counters) (hv : v.Lawful) (hkept : countersKept v ℓ = true)
    (hs : ClientStep http v ℓ v') :
    v'.Counters := by
  cases hs with
  | run hexec own release client held seen =>
      exact h.exec hv hkept hexec own release client held
  | remove hi client held seen => exact h.removed hi client held
  | sweep client held seen => exact h.swept client held
  | complete hexec own client held seen => exact h.complete hexec client held
  | find hexec live client held seen => exact h.find hexec live client held
  | alloc hexec live client held seen => exact h.alloc hv hexec live client held

end Steps

end Service
end IocpNetlib
