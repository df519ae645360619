import IocpNetlib.Service.Runs

/-!
# A client whose `mPendingIO` has reached zero

`CheckRelease` goes on to `OnClosed` and `RemoveClient` when it has taken the
last share of `mPendingIO`.  A sender that still holds a `TcpClientRef` may raise
the counter after that: its `WSASend` fails on the closed socket, `CheckRelease`
reaches zero again, and two threads may come to the compare-and-swap and to
`RemoveClient`.  `View.Late` says what is left of such a client; the counters
are right again when it is freed.
-/

namespace IocpNetlib
namespace Service

open Ledger

/-- The code from the compare-and-swap of `CheckRelease` to `RemoveClient`. -/
def releasedShare : Weight where
  instr
    | .casClosed => 1
    | .freeRecvPacket => 1
    | .onClosed => 1
    | .removeSelf => 1
    | _ => 0
  op _ := 0

/-- The share of `mPendingIO` of a sender whose `WSASend` fails. -/
def sendingShare : Weight where
  instr
    | .wsaSend => 1
    | .checkRelease => 1
    | _ => 0
  op _ := 0

/-- What a released client has no more of. -/
def restShare : Weight where
  instr
    | .wait _ => 0
    | .readConnState _ => 0
    | .decreaseRef => 0
    | .onConnected .accept => 0
    | .releaseSendPacket => 0
    | .releaseSendIOContext => 0
    | .allocSendIOContext => 0
    | .allocSendPacket => 0
    | .increaseSend => 0
    | .wsaSend => 0
    | .postSpecial _ => 0
    | .releaseExceptionIOContext => 0
    | .checkRelease => 0
    | .casClosed => 0
    | .freeRecvPacket => 0
    | .onClosed => 0
    | .removeSelf => 0
    | .visit _ => 0
    | .sweep _ => 0
    | _ => 1
  op _ := 1

/-- A client in the map that is handed on to `RemoveClient`, or was. -/
def View.isReleased (v : View) : Bool :=
  v.client.live && (v.client.mMarkedDestroy || decide (0 < v.held releasedShare))

/--
The steps of a released client: a sender finds the socket closed, nothing
special is posted, and `checkStatus` does not free the client under a
`CheckRelease` that is still on its way to `RemoveClient`.
-/
def lateKept (v : View) : Label → Bool
  | .run .increaseSend _ =>
      decide (v.client.socketOpen = false ∧ v.client.mLogicSocketID ≠ 0)
  | .run (.postSpecial _) _ => false
  | .run (.sweep _) _ =>
      decide (v.client.mMarkedDestroy = true ∧ ¬ 0 < v.client.mReferenceCount →
        v.held releasedShare = 0)
  | _ => true

/--
The steps that keep the counters right up to the `CheckRelease` that reaches
zero, and those a released client can take.
-/
def closeKept (v : View) (ℓ : Label) : Bool :=
  if v.isReleased then lateKept v ℓ else countersKept v ℓ

theorem closeKept_live {v : View} {ℓ : Label} (hnot : v.isReleased = false)
    (h : closeKept v ℓ = true) : countersKept v ℓ = true := by
  rw [closeKept] at h
  rwa [hnot] at h

theorem closeKept_late {v : View} {ℓ : Label} (hrel : v.isReleased = true)
    (h : closeKept v ℓ = true) : lateKept v ℓ = true := by
  rw [closeKept] at h
  rwa [hrel] at h

/-- What is left of a released client. -/
structure View.Late (v : View) : Prop where
  pending : v.client.mPendingIo = v.held pendingShare
  reference : v.client.mReferenceCount = v.held referenceShare
  rest : v.held restShare = 0
  stray : v.held strayShare = 0
  socket : 0 < v.held sendingShare → v.client.socketOpen = false
  ident : v.client.mLogicSocketID = v.client.allocID ∨
    (v.client.mLogicSocketID = 0 ∧ v.held releasedShare = 0 ∧ v.held sendingShare = 0)
  saved : v.held (otherID v.client.allocID) = 0

section Exec

variable {http : Bool} {c : TcpClient} {i : Instr} {o : Outcome} {ch : Change}

/-- No instruction opens a socket. -/
theorem exec_socket (h : exec http c i o = some ch) (hopen : ch.client.socketOpen = true) :
    c.socketOpen = true := by
  revert h
  fun_cases exec http c i o
  all_goals
    rintro ⟨⟩ <;> first | exact hopen | cases hopen

/-- A sender that finds the socket closed posts nothing. -/
theorem exec_rest
    (hrest : restShare.instr i = 0) (hpost : ∀ opType, i ≠ .postSpecial opType)
    (hsend : i = .wsaSend → c.socketOpen = false)
    (h : exec http c i o = some ch) :
    restShare.code ch.push = 0 ∧ ch.post = [] := by
  revert h
  fun_cases exec http c i o
  case case52 hopen =>
    rw [hsend rfl] at hopen
    cases hopen
  case case55 opType => exact absurd rfl (hpost opType)
  case case62 =>
    rintro ⟨⟩
    rw [Change.next_push]
    split_ifs <;> exact ⟨rfl, rfl⟩
  all_goals
    rintro ⟨⟩ <;> first | exact ⟨rfl, rfl⟩ | exact absurd hrest Nat.one_ne_zero

/-- Code on its way to `RemoveClient` goes on to it. -/
theorem exec_onWay (h : exec http c i o = some ch) :
    releasedShare.instr i ≤ releasedShare.code ch.push := by
  revert h
  fun_cases exec http c i o
  all_goals
    rintro ⟨⟩ <;> first | exact Nat.zero_le _ | exact Nat.le_refl _

/-- Only `CheckRelease` starts on that way. -/
theorem exec_released
    (hrest : restShare.instr i = 0) (h : exec http c i o = some ch) :
    releasedShare.code ch.push ≤ releasedShare.instr i ∨ i = .checkRelease := by
  revert h
  fun_cases exec http c i o
  case case62 =>
    rintro ⟨⟩
    exact Or.inr rfl
  all_goals
    rintro ⟨⟩ <;>
      first
        | exact Or.inl (Nat.le_of_ble_eq_true rfl)
        | exact absurd hrest Nat.one_ne_zero

/-- Only a sender raises the counter. -/
theorem exec_sending
    (hrest : restShare.instr i = 0) (h : exec http c i o = some ch) :
    i = .increaseSend ∨
      sendingShare.code ch.push ≤ sendingShare.instr i ∧
        releasedShare.code ch.push + sendingShare.code ch.push ≤
          releasedShare.instr i + sendingShare.instr i := by
  revert h
  fun_cases exec http c i o
  case case62 =>
    rintro ⟨⟩
    refine Or.inr ?_
    rw [Change.next_push]
    split_ifs <;> exact ⟨Nat.le_of_ble_eq_true rfl, Nat.le_of_ble_eq_true rfl⟩
  all_goals
    rintro ⟨⟩ <;>
      first
        | exact Or.inl rfl
        | exact Or.inr ⟨Nat.le_of_ble_eq_true rfl, Nat.le_of_ble_eq_true rfl⟩
        | exact absurd hrest Nat.one_ne_zero

/-- A released client is not reset. -/
theorem exec_unreset
    (hrest : restShare.instr i = 0) (h : exec http c i o = some ch) :
    ch.client.mMarkedDestroy = c.mMarkedDestroy ∧
      ch.client.mLogicSocketID = c.mLogicSocketID := by
  revert h
  fun_cases exec http c i o
  all_goals
    rintro ⟨⟩ <;> first | exact ⟨rfl, rfl⟩ | exact absurd hrest Nat.one_ne_zero

end Exec

section Shares

variable {v : View}

/-- What is counted in `mPendingIO` of a released client is a sender. -/
theorem View.Late.sending (hv : v.Lawful) (h : v.Late) :
    v.held pendingShare = v.held sendingShare := by
  have hle : v.held pendingShare ≤ v.held (sendingShare.add restShare) :=
    hv.mono
      (fun i => by
        cases i
        case storeConnected site | postRecv site | wsaRecv site | recvFailed site |
            onConnected site =>
          cases site <;> decide
        all_goals exact Nat.le_of_ble_eq_true rfl)
      (fun k => by cases k <;> decide)
  have hge : v.held sendingShare ≤ v.held pendingShare :=
    hv.mono (fun i => by cases i <;> exact Nat.le_of_ble_eq_true rfl) (fun k => Nat.zero_le _)
  have hrest := h.rest
  rw [hv.add] at hle
  omega

/-- What hands a released client on is on its way to `RemoveClient`. -/
theorem View.Late.owner (hv : v.Lawful) (h : v.Late) :
    v.held ownerShare = v.held releasedShare := by
  have hle : v.held ownerShare ≤ v.held (releasedShare.add restShare) :=
    hv.mono
      (fun i => by
        cases i
        case storeConnected site | postRecv site | wsaRecv site | recvFailed site |
            onConnected site =>
          cases site <;> decide
        all_goals exact Nat.le_of_ble_eq_true rfl)
      (fun k => by cases k <;> decide)
  have hge : v.held releasedShare ≤ v.held ownerShare :=
    hv.mono (fun i => by cases i <;> exact Nat.le_of_ble_eq_true rfl) (fun k => Nat.zero_le _)
  have hrest := h.rest
  rw [hv.add] at hle
  omega

theorem View.released_cases (hrel : v.isReleased = true) :
    v.client.live = true ∧ (v.client.mMarkedDestroy = true ∨ 0 < v.held releasedShare) := by
  rw [View.isReleased] at hrel
  rwa [Bool.and_eq_true, Bool.or_eq_true, decide_eq_true_eq] at hrel

theorem View.isReleased_of
    (hlive : v.client.live = true)
    (h : v.client.mMarkedDestroy = true ∨ 0 < v.held releasedShare) : v.isReleased = true := by
  rw [View.isReleased]
  rw [Bool.and_eq_true, Bool.or_eq_true, decide_eq_true_eq]
  exact ⟨hlive, h⟩

/-- No operation is pending on a client that is released with right counters. -/
theorem View.Sound.released_idle (hv : v.Sound) (hrel : v.isReleased = true) :
    v.held pendingShare = 0 ∧ v.held ownerShare = v.held releasedShare ∧
      v.held releasedShare ≤ 1 := by
  obtain ⟨hlive, hway⟩ := View.released_cases hrel
  have hle : v.held releasedShare ≤ v.held ownerShare :=
    hv.mono (fun i => by cases i <;> exact Nat.le_of_ble_eq_true rfl) (fun k => Nat.zero_le _)
  have howner := hv.owner
  rw [hlive] at howner
  cases hmark : v.client.mMarkedDestroy with
  | true =>
      rw [hmark] at howner
      simp only [Bool.and_self, Bool.toNat_true] at howner
      omega
  | false =>
      rw [hmark] at howner hway
      simp only [Bool.and_false, Bool.toNat_false, Bool.toNat_true] at howner
      have hpos : 0 < v.held releasedShare := hway.resolve_left Bool.false_ne_true
      omega

/-- A client is released with right counters. -/
theorem View.Sound.late (hv : v.Sound) (hrel : v.isReleased = true) : v.Late := by
  obtain ⟨hidle, howner, hone⟩ := hv.released_idle hrel
  obtain ⟨hlive, hway⟩ := View.released_cases hrel
  have hle : v.held (restShare.idle.add releasedShare) ≤ v.held ownerShare :=
    hv.mono
      (fun i => by
        cases i
        case storeConnected site | postRecv site | wsaRecv site | recvFailed site |
            onConnected site =>
          cases site <;> decide
        all_goals exact Nat.le_of_ble_eq_true rfl)
      (fun k => by cases k <;> decide)
  have hsending : v.held sendingShare ≤ v.held pendingShare :=
    hv.mono (fun i => by cases i <;> exact Nat.le_of_ble_eq_true rfl) (fun k => Nat.zero_le _)
  have hremove : v.held (removeShare.add releasedShare) ≤ v.held ownerShare :=
    hv.mono (fun i => by cases i <;> exact Nat.le_of_ble_eq_true rfl) (fun k => Nat.zero_le _)
  rw [hv.add] at hle hremove
  refine ⟨hv.pending, hv.reference, ?_, hv.stray, ?_, ?_, hv.saved⟩
  · have hsplit := hv.held_split restShare
    have hbusy := hv.held_busy restShare hidle
    omega
  · omega
  · rcases hv.ident hlive with hid | ⟨hid, hmarked | hpos⟩
    · exact Or.inl hid
    · refine Or.inr ⟨hid, ?_⟩
      have howner' := hv.owner
      rw [hlive, hmarked] at howner'
      simp only [Bool.and_self, Bool.toNat_true] at howner'
      constructor <;> omega
    · omega

end Shares

section Steps

variable {http : Bool} {v v' : View} {ℓ : Label}

/-- An instruction that is run on a released client leaves it released. -/
theorem View.Late.run
    {i : Instr} {o : Outcome} {ch : Change}
    (h : v.Late) (hrel : v.isReleased = true)
    (hkept : lateKept v (.run i o) = true)
    (hexec : exec http v.client i o = some ch)
    (own : ∀ W : Weight, W.instr i ≤ v.held W)
    (client : v'.client = ch.client)
    (held : ∀ W : Weight,
      v'.held W + W.instr i = v.held W + W.code ch.push + W.ops ch.post) :
    v'.isReleased = true ∧ v'.Late := by
  have hrest : restShare.instr i = 0 := by
    have := own restShare
    have := h.rest
    omega
  have hstray : strayShare.instr i = 0 := by
    have := own strayShare
    have := h.stray
    omega
  have hspecial : ∀ opType, i ≠ .postSpecial opType := by
    rintro opType rfl
    exact absurd hkept Bool.false_ne_true
  have hsend : i = .wsaSend → v.client.socketOpen = false := by
    rintro rfl
    exact h.socket (own sendingShare)
  have hpost : i.postsSpecial = true → o = .ok := by
    intro hposts
    cases i
    case allocExceptionIOContext | postQueued => exact absurd hrest Nat.one_ne_zero
    all_goals exact absurd hposts Bool.false_ne_true
  have hreset : ∀ id, i ≠ .reset id := by
    rintro id rfl
    exact absurd hrest Nat.one_ne_zero
  obtain ⟨hpushRest, hnone⟩ := exec_rest hrest hspecial hsend hexec
  have hops : ∀ W : Weight, W.ops ch.post = 0 := by
    intro W
    rw [hnone, Weight.ops_nil]
  have hpending := exec_pending hpost hstray (fun id hi => absurd hi (hreset id)) hexec
  have hreference := exec_reference (fun id hi => absurd hi (hreset id)) hexec
  obtain ⟨hlive, halloc⟩ := exec_life hexec
  obtain ⟨hmark, hid⟩ := exec_unreset hrest hexec
  have hheld : ∀ W : Weight, v'.held W + W.instr i = v.held W + W.code ch.push := by
    intro W
    have hW := held W
    rw [hops] at hW
    exact hW
  have hheldP := hheld pendingShare
  have hheldR := hheld referenceShare
  have hheldN := hheld restShare
  have hheldW := hheld releasedShare
  have hheldS := hheld sendingShare
  have hheldT := hheld strayShare
  have hheldI := hheld (otherID v.client.allocID)
  have hstrayPush := exec_stray hpost hstray hexec
  have hsavedPush : (otherID v.client.allocID).code ch.push = 0 := by
    refine exec_saved (fun hpos => ?_) ?_ hexec
    · cases i
      case removeSelf => exact absurd hexec (by cases o <;> simp [exec])
      case increaseRef | closeSocket => exact absurd hrest Nat.one_ne_zero
      all_goals exact absurd hpos (Nat.lt_irrefl 0)
    · have := own (otherID v.client.allocID)
      have := h.saved
      omega
  have hclosed : v.client.socketOpen = false → ch.client.socketOpen = false := fun hshut =>
    Bool.eq_false_iff.mpr fun hopen => Bool.eq_false_iff.mp hshut (exec_socket hexec hopen)
  constructor
  · obtain ⟨hlive', hway⟩ := View.released_cases hrel
    have hontoway := exec_onWay hexec
    refine View.isReleased_of ?_ ?_
    · rw [client, hlive, hlive']
    · rw [client, hmark]
      exact hway.imp id fun hpos => by omega
  · constructor
    case pending =>
      rw [client]
      have := h.pending
      have := hops pendingShare
      omega
    case reference =>
      rw [client]
      have := h.reference
      omega
    case rest =>
      have := h.rest
      omega
    case stray =>
      have := h.stray
      omega
    case socket =>
      rw [client]
      intro hpos
      rcases exec_sending hrest hexec with rfl | ⟨hle, -⟩
      · exact hclosed (of_decide_eq_true hkept).1
      · exact hclosed (h.socket (by omega))
    case ident =>
      rw [client, hid, halloc]
      rcases h.ident with hown | ⟨hcleared, hway, hidle⟩
      · exact Or.inl hown
      · refine Or.inr ⟨hcleared, ?_⟩
        rcases exec_sending hrest hexec with rfl | ⟨-, hle⟩
        · exact absurd hcleared (of_decide_eq_true hkept).2
        · constructor <;> omega
    case saved =>
      rw [client, halloc]
      have := h.saved
      omega

/-- The counters of a released client are right when it is freed. -/
theorem View.Late.freed
    (hv : v.Lawful) (h : v.Late)
    (hrefs : ¬ 0 < v.client.mReferenceCount)
    (hsending : v.held sendingShare = 0)
    (client : v'.client = { v.client with live := false })
    (held : ∀ W : Weight, W.instr .removeSelf = 0 → v'.held W = v.held W)
    (howner : v'.held ownerShare = 0) :
    v'.Counters := by
  have hidle := h.sending hv
  have hzero : v'.held referenceShare = 0 := by
    rw [held referenceShare rfl]
    have := h.reference
    omega
  constructor
  case pending =>
    rw [client, held pendingShare rfl]
    exact h.pending
  case reference =>
    rw [client, held referenceShare rfl]
    exact h.reference
  case owner =>
    rw [client, howner, held pendingShare rfl, hidle, hsending]
    rfl
  case unreferenced => exact fun _ => hzero
  case stray =>
    rw [held strayShare rfl]
    exact h.stray
  case ident =>
    rw [client]
    exact fun hfalse => absurd hfalse Bool.false_ne_true
  case saved =>
    rw [client, held (otherID v.client.allocID) rfl]
    exact h.saved

theorem View.Late.remove
    {i : Instr}
    (hv : v.Lawful) (h : v.Late) (hrel : v.isReleased = true)
    (hsole : ¬ 0 < v.client.mReferenceCount →
      v.held releasedShare ≤ 1 ∧ v.held sendingShare = 0)
    (hi : i.removes = true)
    (client : v'.client = v.client.removed)
    (held : ∀ W : Weight, v'.held W + W.instr i = v.held W) :
    (v'.isReleased = true ∧ v'.Late) ∨ (v'.client.live = false ∧ v'.Counters) := by
  have hself : i = .removeSelf := by
    cases i
    case removeSelf => rfl
    case removeClient id =>
      have hone : restShare.instr (.removeClient id) = 1 := rfl
      have := held restShare
      have := h.rest
      omega
    all_goals exact absurd hi (by simp [Instr.removes])
  subst hself
  have hplain : ∀ W : Weight, W.instr .removeSelf = 0 → v'.held W = v.held W := by
    intro W hW
    have := held W
    omega
  by_cases hactive : 0 < v.client.mReferenceCount
  · rw [removed_active hactive] at client
    refine Or.inl ⟨View.isReleased_of ?_ ?_, ?_⟩
    · rw [client]
      exact (View.released_cases hrel).1
    · rw [client]
      exact Or.inl rfl
    · constructor
      case pending =>
        rw [client, hplain pendingShare rfl]
        exact h.pending
      case reference =>
        rw [client, hplain referenceShare rfl]
        exact h.reference
      case rest => exact (hplain restShare rfl).trans h.rest
      case stray => exact (hplain strayShare rfl).trans h.stray
      case socket =>
        rw [client, hplain sendingShare rfl]
        exact h.socket
      case ident =>
        rw [client, hplain sendingShare rfl]
        refine h.ident.imp id fun hcleared => ⟨hcleared.1, ?_, hcleared.2.2⟩
        have := held releasedShare
        have := hcleared.2.1
        omega
      case saved =>
        rw [client]
        exact (hplain _ rfl).trans h.saved
  · rw [removed_idle hactive] at client
    obtain ⟨hone, hsending⟩ := hsole hactive
    have howner := held ownerShare
    have hshare : ownerShare.instr .removeSelf = 1 := rfl
    have := h.owner hv
    refine Or.inr ⟨?_, h.freed hv hactive hsending client hplain (by omega)⟩
    rw [client]

theorem View.Late.sweep
    {socketID : SocketID}
    (hv : v.Lawful) (h : v.Late) (hrel : v.isReleased = true)
    (hkept : lateKept v (.run (.sweep socketID) .ok) = true)
    (hsole : ¬ 0 < v.client.mReferenceCount →
      v.held releasedShare ≤ 1 ∧ v.held sendingShare = 0)
    (client : v'.client = v.client.swept)
    (held : ∀ W : Weight, v'.held W = v.held W) :
    (v'.isReleased = true ∧ v'.Late) ∨ (v'.client.live = false ∧ v'.Counters) := by
  by_cases hfree : v.client.mMarkedDestroy ∧ ¬ 0 < v.client.mReferenceCount
  · rw [swept_free hfree] at client
    have hway := of_decide_eq_true hkept hfree
    have := h.owner hv
    refine Or.inr ⟨?_, h.freed hv hfree.2 (hsole hfree.2).2 client (fun W _ => held W) ?_⟩
    · rw [client]
    · rw [held]
      omega
  · rw [swept_kept hfree] at client
    have hsame : v'.held = v.held := funext held
    refine Or.inl ⟨?_, ?_⟩
    · rw [View.isReleased] at hrel ⊢
      rw [client, held]
      exact hrel
    · constructor <;> simp only [client, held]
      case pending => exact h.pending
      case reference => exact h.reference
      case rest => exact h.rest
      case stray => exact h.stray
      case socket => exact h.socket
      case ident => exact h.ident
      case saved => exact h.saved

theorem View.Late.find
    {code : List Instr}
    (h : v.Late) (hrel : v.isReleased = true)
    (hcode : code = sendCode ∨ code = closeCode)
    (client : v'.client =
      { v.client with mReferenceCount := v.client.mReferenceCount + 1 })
    (held : ∀ W : Weight, v'.held W = v.held W + W.code code) :
    v'.isReleased = true ∧ v'.Late := by
  have hplain :
      pendingShare.code code = 0 ∧ releasedShare.code code = 0 ∧
        sendingShare.code code = 0 ∧ restShare.code code = 0 ∧
          referenceShare.code code = 1 ∧ strayShare.code code = 0 ∧
            ∀ n, (otherID n).code code = 0 := by
    rcases hcode with rfl | rfl <;> exact ⟨rfl, rfl, rfl, rfl, rfl, rfl, fun _ => rfl⟩
  obtain ⟨hp, hw, hs, hn, hr, ht, hi⟩ := hplain
  constructor
  · obtain ⟨hlive, hway⟩ := View.released_cases hrel
    refine View.isReleased_of ?_ ?_
    · rw [client]
      exact hlive
    · rw [client, held, hw]
      exact hway
  · constructor <;> simp only [client, held, hp, hw, hs, hn, hr, ht, hi, Nat.add_zero]
    case pending => exact h.pending
    case reference =>
      have := h.reference
      omega
    case rest => exact h.rest
    case stray => exact h.stray
    case socket => exact h.socket
    case ident => exact h.ident
    case saved => exact h.saved

/-- A released client stays released until it is freed, with right counters. -/
theorem View.Late.step
    (hv : v.Lawful) (h : v.Late) (hrel : v.isReleased = true) (hkept : lateKept v ℓ = true)
    (hsole : ¬ 0 < v.client.mReferenceCount →
      v.held releasedShare ≤ 1 ∧ v.held sendingShare = 0)
    (hs : ClientStep http v ℓ v') :
    (v'.isReleased = true ∧ v'.Late) ∨ (v'.client.live = false ∧ v'.Counters) := by
  cases hs with
  | run hexec own release client held seen =>
      exact Or.inl (h.run hrel hkept hexec own client held)
  | remove hi client held seen => exact h.remove hv hrel hsole hi client held
  | sweep client held seen => exact h.sweep hv hrel hkept hsole client held
  | @complete k r code _ hexec own client held seen =>
      have hone : restShare.op k = 1 := rfl
      have := own restShare
      have := h.rest
      omega
  | find hexec live client held seen => exact Or.inl (h.find hrel hexec client held)
  | alloc hexec live client held seen =>
      have hlive := (View.released_cases hrel).1
      rw [live] at hlive
      cases hlive

end Steps

end Service
end IocpNetlib
