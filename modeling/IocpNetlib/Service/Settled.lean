import IocpNetlib.Service.Released

/-!
# Runs in which senders are late

`State.Settled` is kept by the steps that meet `closeKept`: the counters of
every client are right up to the `CheckRelease` that takes `mPendingIO` to zero,
and `View.Late` holds from there to the end.  A sender holds its `TcpClientRef`
while it posts, so that a released client without references has one thread on
its way to `RemoveClient` at most.  `settled_invariant` is the rule for what
holds of each client in every such run.
-/

namespace IocpNetlib
namespace Service

open Ledger Reachability

/-- The shares of client `a` in code that no end of a `TcpClientRef` of `a` follows. -/
def State.loose (s : State) (a : Addr) (W : Weight) : Nat :=
  shares (unguarded (a, Instr.decreaseRef) (ofOwner a W.instr)) s.threads

/-- One thread without a reference is on its way to `RemoveClient`, and none posts a send. -/
structure State.Guarded (s : State) (a : Addr) : Prop where
  released : s.loose a releasedShare ≤ 1
  sending : s.loose a sendingShare = 0

structure State.Settled (s : State) : Prop where
  ordered : s.Ordered
  registered : s.Registered
  counters : ∀ a, (s.view a).isReleased = false → (s.view a).Counters
  late : ∀ a, (s.view a).isReleased = true → (s.view a).Late
  guarded : ∀ a, (s.view a).isReleased = true → s.Guarded a
  allocating : ∀ e ∈ s.allocating, e.2 = s.listening ∧ e.1 ≠ 0

section Loose

variable {s s' : State} {a : Addr}

theorem loose_le_held (s : State) (a : Addr) (W : Weight) :
    s.loose a W ≤ s.held a W := by
  have hle : s.loose a W ≤ shares (shares (ofOwner a W.instr)) s.threads :=
    shares_mono unguarded_le s.threads
  rw [← total_eq] at hle
  exact Nat.le_trans hle (Nat.le_add_right _ _)

/-- Without a reference nothing is guarded. -/
theorem loose_eq_held
    (hrefs : s.held a referenceShare = 0) {W : Weight} (hop : ∀ k, W.op k = 0) :
    s.held a W = s.loose a W := by
  have hnone : ∀ t ∈ s.threads, (a, Instr.decreaseRef) ∉ t := by
    intro t ht hmem
    have hle := share_le_shares referenceShare hmem
    have htotal := shares_le_total (w := ofOwner a referenceShare.instr) ht
    have hone : referenceShare.instr .decreaseRef = 1 := rfl
    rw [State.held] at hrefs
    omega
  have hops : shares (ofOwner a W.op) s.outstanding = 0 := by
    by_contra hne
    obtain ⟨⟨b, k⟩, -, hpos⟩ := shares_pos (Nat.pos_of_ne_zero hne)
    obtain ⟨-, hk⟩ := ofOwner_pos hpos
    rw [hop] at hk
    exact Nat.lt_irrefl 0 hk
  rw [State.held, State.loose, hops, Nat.add_zero, total_eq]
  exact shares_congr fun t ht => (unguarded_eq (hnone t ht)).symm

/-- What a thread is about to run without a reference. -/
theorem loose_head
    {j : Nat} {i : Instr} {rest : List (Addr × Instr)}
    (hj : s.threads[j]? = some ((a, i) :: rest)) (hloose : (a, Instr.decreaseRef) ∉ rest)
    (W : Weight) :
    W.instr i ≤ s.loose a W := by
  have hle := le_shares (w := unguarded (a, Instr.decreaseRef) (ofOwner a W.instr))
    (List.mem_of_getElem? hj)
  rw [unguarded, if_neg hloose, ofOwner_self] at hle
  rw [State.loose]
  omega

/-- A thread replaces its next instruction. -/
theorem loose_setThread
    {j : Nat} {b : Addr} {i : Instr} {rest : List (Addr × Instr)}
    (hj : s.threads[j]? = some ((b, i) :: rest)) (push : List Instr) (W : Weight)
    (hpush : b = a → (a, Instr.decreaseRef) ∉ rest → W.code push ≤ W.instr i) :
    (s.setThread j (owned b push ++ rest)).loose a W ≤ s.loose a W := by
  refine unguarded_run_le hj (owned b push) fun hloose => ?_
  have hle :
      unguarded (a, Instr.decreaseRef) (ofOwner a W.instr) (owned b push) ≤
        shares (ofOwner a W.instr) (owned b push) :=
    unguarded_le _
  by_cases hb : b = a
  · subst hb
    rw [shares_owned_self] at hle
    rw [ofOwner_self]
    exact Nat.le_trans hle (hpush rfl hloose)
  · rw [shares_owned_other hb] at hle
    exact Nat.le_trans hle (Nat.zero_le _)

/-- A thread with no share is started. -/
theorem loose_spawn
    (s : State) (b : Addr) {code : List Instr} {W : Weight} (hcode : b = a → W.code code = 0) :
    State.loose { s with threads := s.threads ++ [owned b code] } a W = s.loose a W := by
  have hle :
      unguarded (a, Instr.decreaseRef) (ofOwner a W.instr) (owned b code) ≤
        shares (ofOwner a W.instr) (owned b code) :=
    unguarded_le _
  have hzero : shares (ofOwner a W.instr) (owned b code) = 0 := by
    by_cases hb : b = a
    · subst hb
      rw [shares_owned_self]
      exact hcode rfl
    · exact shares_owned_other hb _ _
  simp only [State.loose, shares_append, shares]
  omega

/-- The assist thread starts its visits. -/
theorem loose_visits
    {ts : List (List (Addr × Instr))} (hts : s.threads = [] :: ts) (W : Weight) :
    State.loose
        { s with threads := (s.mTcpClientMap.map fun e => (e.2, .visit e.1)) :: ts } a W ≤
      s.loose a W := by
  have hle :
      unguarded (a, Instr.decreaseRef) (ofOwner a W.instr)
          (s.mTcpClientMap.map fun e => (e.2, .visit e.1)) ≤
        shares (ofOwner a W.instr) (s.mTcpClientMap.map fun e => (e.2, .visit e.1)) :=
    unguarded_le _
  rw [shares_visits] at hle
  simp only [State.loose, hts, shares]
  omega

end Loose

section Guarded

variable {s s' : State} {a : Addr}

theorem State.Guarded.of_le
    (h : s.Guarded a) (hreleased : s'.loose a releasedShare ≤ s.loose a releasedShare)
    (hsending : s'.loose a sendingShare ≤ s.loose a sendingShare) : s'.Guarded a where
  released := Nat.le_trans hreleased h.released
  sending := Nat.le_zero.mp (Nat.le_trans hsending (Nat.le_of_eq h.sending))

theorem State.Guarded.congr (h : s.Guarded a) (hthreads : s'.threads = s.threads) :
    s'.Guarded a := by
  have hsame : s'.loose a = s.loose a := by
    funext W
    rw [State.loose, State.loose, hthreads]
  exact h.of_le (Nat.le_of_eq (congrFun hsame _)) (Nat.le_of_eq (congrFun hsame _))

/-- A thread that runs its next instruction keeps its `TcpClientRef` to the end. -/
theorem State.Guarded.setThread
    (h : s.Guarded a) (hordered : s.Ordered) (hlate : (s.view a).Late)
    {j : Nat} {b : Addr} {i : Instr} {rest : List (Addr × Instr)}
    (hj : s.threads[j]? = some ((b, i) :: rest)) {push : List Instr}
    (hpush : push = [] ∨ ∃ http o ch, exec http (s.client b) i o = some ch ∧ ch.push = push) :
    (s.setThread j (owned b push ++ rest)).Guarded a := by
  rcases hpush with rfl | ⟨http, o, ch, hexec, rfl⟩
  · refine h.of_le ?_ ?_
    all_goals
      exact loose_setThread hj [] _ fun _ _ => Nat.zero_le _
  · have hrest : b = a → restShare.instr i = 0 := by
      rintro rfl
      have hle := share_le_held hj restShare
      have hzero : s.held b restShare = 0 := hlate.rest
      omega
    refine h.of_le ?_ ?_
    · refine loose_setThread hj ch.push _ fun hb hloose => ?_
      rcases exec_released (hrest hb) hexec with hle | rfl
      · exact hle
      · subst hb
        have hone : sendingShare.instr .checkRelease = 1 := rfl
        have hhead := loose_head hj hloose sendingShare
        have hnone := h.sending
        omega
    · refine loose_setThread hj ch.push _ fun hb hloose => ?_
      rcases exec_sending (hrest hb) hexec with rfl | ⟨hle, -⟩
      · subst hb
        exact absurd ((hordered.released _ (List.mem_of_getElem? hj)).1 _ rfl) hloose
      · exact hle

/-- A step leaves one thread without a reference on its way. -/
theorem State.Guarded.step
    (h : s.Guarded a) (hordered : s.Ordered) (hlate : (s.view a).Late) {act : Action}
    (hs : step s act = some s') :
    s'.Guarded a := by
  have hfind :
      ∀ {id : SocketID} {code : List Instr}, code = sendCode ∨ code = closeCode →
        s.find id code = some s' → s'.Guarded a := by
    intro id code hcode hfind
    rcases find_cases hfind with ⟨-, rfl⟩ | ⟨b, -, rfl⟩
    · exact h
    · refine h.of_le (Nat.le_of_eq ?_) (Nat.le_of_eq ?_)
      all_goals
        exact loose_spawn _ b fun _ => by rcases hcode with rfl | rfl <;> rfl
  cases act with
  | otherService =>
      rcases hs with ⟨⟩
      exact h.congr rfl
  | getNextLogicSocketID =>
      rcases hs with ⟨⟩
      exact h.congr rfl
  | allocTcpClient j b o =>
      obtain ⟨id, accepting, -, ⟨-, rfl⟩ | ⟨-, -, rfl⟩⟩ := allocTcpClient_cases hs
      · exact h.congr rfl
      · refine h.of_le (Nat.le_of_eq ?_) (Nat.le_of_eq ?_)
        all_goals
          exact loose_spawn _ b fun _ => by cases accepting <;> rfl
  | send socketID => exact hfind (Or.inl rfl) hs
  | closeSocket socketID => exact hfind (Or.inr rfl) hs
  | checkStatus =>
      obtain ⟨ts, hts, rfl⟩ := checkStatus_cases hs
      exact h.of_le (loose_visits hts _) (loose_visits hts _)
  | complete j r =>
      obtain ⟨b, k, code, hj, hcode, rfl⟩ := complete_cases hs
      have hother : b ≠ a := by
        rintro rfl
        have hle := op_le_held hj restShare
        have hzero : s.held b restShare = 0 := hlate.rest
        have hone : restShare.op k = 1 := rfl
        omega
      refine h.of_le (Nat.le_of_eq ?_) (Nat.le_of_eq ?_)
      all_goals
        exact loose_spawn { s with outstanding := s.outstanding.eraseIdx j } b
          fun hb => absurd hb hother
  | run j o =>
      obtain ⟨b, i, rest, hj, ⟨-, id, -, rfl⟩ | ⟨-, id, -, hsweep⟩ | ⟨ch, hch, rfl⟩⟩ :=
        run_cases hs
      · have hnext := h.setThread hordered hlate hj (Or.inl rfl)
        exact hnext.congr (removeClient_keeps (s.setThread j rest) id).2.2.1
      · obtain ⟨-, rfl⟩ := sweep_eq hsweep
        exact (h.setThread hordered hlate hj (Or.inl rfl)).congr rfl
      · exact (h.setThread hordered hlate hj (Or.inr ⟨_, _, _, hch, rfl⟩)).congr rfl

end Guarded

section Settled

variable {s s' : State}

theorem State.Settled.init (http listening : Bool) : (State.init http listening).Settled where
  ordered := .init http listening
  registered := .init http listening
  counters := fun _ _ =>
    { pending := rfl
      reference := rfl
      owner := rfl
      unreferenced := fun _ => rfl
      stray := rfl
      ident := fun h => absurd h Bool.false_ne_true
      saved := rfl }
  late := fun _ hrel => by cases hrel
  guarded := fun _ hrel => by cases hrel
  allocating := fun _ h => absurd h List.not_mem_nil

/-- Code that is about to remove the client finds it in the map. -/
theorem State.Settled.mapped (h : s.Settled) : s.Mapped where
  live := fun hlook => ((h.registered.mem _ _).mp (lookup_mem hlook)).1
  self := by
    intro j b rest hj
    have hown := fun W => Nat.le_trans (Nat.le_add_right _ _) (share_le_held hj W)
    have hway : 0 < (s.view b).held releasedShare := hown releasedShare
    have hin : (s.client b).live = true ∧ (s.client b).mLogicSocketID = (s.client b).allocID := by
      cases hrel : (s.view b).isReleased with
      | true =>
          refine ⟨(View.released_cases hrel).1, ?_⟩
          rcases (h.late b hrel).ident with hid | ⟨-, hnone, -⟩
          · exact hid
          · omega
      | false => exact (h.counters b hrel).readID (h.ordered.lawful b) (hown readShare)
    exact lookup_of_mem h.registered.nodup ((h.registered.mem _ _).mpr ⟨hin.1, hin.2.symm⟩)
  saved := by
    intro j b id rest hj
    have hown := fun W => Nat.le_trans (Nat.le_add_right _ _) (share_le_held hj W)
    have hnot : (s.view b).isReleased = false := by
      by_contra hrel
      have hrest : (s.view b).held restShare = 0 :=
        (h.late b ((Bool.not_eq_false _).mp hrel)).rest
      have hone : 1 ≤ (s.view b).held restShare := hown restShare
      omega
    have hcounters := h.counters b hnot
    obtain ⟨hlive, -, -, -⟩ := hcounters.owned (hown ownerShare)
    have hother := hown (otherID (s.client b).allocID)
    have hsaved : s.held b (otherID (s.client b).allocID) = 0 := hcounters.saved
    have hid := otherID_zero (n := (s.client b).allocID) (i := .removeClient id) (by omega) id rfl
    exact lookup_of_mem h.registered.nodup ((h.registered.mem _ _).mpr ⟨hlive, hid.symm⟩)

/-- A client as the rules for these runs see it. -/
structure View.Settled (v : View) : Prop extends View.Lawful v where
  counters : v.isReleased = false → v.Counters
  late : v.isReleased = true → v.Late
  sole : v.isReleased = true → ¬ 0 < v.client.mReferenceCount →
    v.held releasedShare ≤ 1 ∧ v.held sendingShare = 0

theorem State.Settled.view (h : s.Settled) (a : Addr) : (s.view a).Settled :=
  { h.ordered.lawful a with
    counters := h.counters a
    late := h.late a
    sole := fun hrel hrefs => by
      have hnone : s.held a referenceShare = 0 := by
        have hcount := (h.late a hrel).reference
        change (s.view a).client.mReferenceCount = s.held a referenceShare at hcount
        omega
      obtain ⟨hone, hzero⟩ := h.guarded a hrel
      rw [← loose_eq_held hnone fun _ => rfl] at hone hzero
      exact ⟨hone, hzero⟩ }

theorem View.Settled.sound {v : View} (h : v.Settled) (hnot : v.isReleased = false) : v.Sound :=
  { h.toLawful, h.counters hnot with }

theorem View.Settled.stray {v : View} (h : v.Settled) : v.held strayShare = 0 := by
  cases hrel : v.isReleased with
  | true => exact (h.late hrel).stray
  | false => exact (h.counters hrel).stray

theorem View.Settled.saved {v : View} (h : v.Settled) :
    v.held (otherID v.client.allocID) = 0 := by
  cases hrel : v.isReleased with
  | true => exact (h.late hrel).saved
  | false => exact (h.counters hrel).saved

/-- A step of one client: its counters stay right, or what is left of it stays so. -/
theorem View.Settled.step
    {http : Bool} {v v' : View} {ℓ : Label}
    (h : v.Settled) (hkept : closeKept v ℓ = true) (hs : ClientStep http v ℓ v') :
    (v.isReleased = false ∧ v'.Counters) ∨
      (v.isReleased = true ∧ v'.isReleased = true ∧ v'.Late) ∨
        (v.isReleased = true ∧ v'.client.live = false ∧ v'.Counters) := by
  cases hrel : v.isReleased with
  | false =>
      exact Or.inl ⟨rfl, (h.counters hrel).step h.toLawful (closeKept_live hrel hkept) hs⟩
  | true =>
      rcases (h.late hrel).step h.toLawful hrel (closeKept_late hrel hkept) (h.sole hrel) hs with
        hlate | hdead
      · exact Or.inr (Or.inl ⟨rfl, hlate⟩)
      · exact Or.inr (Or.inr ⟨rfl, hdead⟩)

/-- A block that is not handed out is not released. -/
theorem View.not_released {v : View} (hdead : v.client.live = false) : v.isReleased = false := by
  rw [View.isReleased, hdead]
  rfl

theorem meets_label
    {act : Action} {a : Addr} {ℓ : Label} {G : View → Label → Bool} (hkept : Meets G s act)
    (hlabel : label s act = some (a, ℓ)) : G (s.view a) ℓ = true := by
  rw [Meets] at hkept
  rwa [hlabel] at hkept

/-- A step that meets `closeKept` leaves the service settled. -/
theorem State.Settled.step
    (h : s.Settled) {act : Action} (hkept : Meets closeKept s act)
    (hs : step s act = some s') :
    s'.Settled := by
  have hordered := h.ordered.step hs
  have hcounters : ∀ a, (s.view a).isReleased = false → (s'.view a).Counters := by
    intro a hnot
    rcases step_view h.ordered h.mapped hs a with ⟨ℓ, hlabel, hstep⟩ | hsame
    · exact (h.counters a hnot).step (h.ordered.lawful a)
        (closeKept_live hnot (meets_label hkept hlabel)) hstep
    · rw [hsame]
      exact h.counters a hnot
  have hlate : ∀ a, (s.view a).isReleased = true →
      ((s'.view a).isReleased = true ∧ (s'.view a).Late) ∨
        ((s'.view a).client.live = false ∧ (s'.view a).Counters) := by
    intro a hrel
    rcases step_view h.ordered h.mapped hs a with ⟨ℓ, hlabel, hstep⟩ | hsame
    · exact (h.late a hrel).step (h.ordered.lawful a) hrel
        (closeKept_late hrel (meets_label hkept hlabel)) ((h.view a).sole hrel) hstep
    · rw [hsame]
      exact Or.inl ⟨hrel, h.late a hrel⟩
  -- a client is released with right counters
  have henter : ∀ a, (s.view a).isReleased = false → (s'.view a).Sound := fun a hnot =>
    { hordered.lawful a, hcounters a hnot with }
  constructor
  case ordered => exact hordered
  case registered =>
    refine h.registered.step ?_ hs
    rintro j b id accepting rfl hj
    have hlabel : label s (.allocTcpClient j b .ok) = some (b, .alloc (if accepting then .acceptEx
        else .increaseRef) id (s.mTcpClientMap.lookup id).isNone) := by
      simp only [label, hj, Option.map_some]
    obtain ⟨_, _, -, ⟨hfail, -⟩ | ⟨-, hdead, -⟩⟩ := allocTcpClient_cases hs
    · cases hfail
    · exact closeKept_live (View.not_released hdead) (meets_label hkept hlabel)
  case counters =>
    intro a hnot'
    cases hrel : (s.view a).isReleased with
    | false => exact hcounters a hrel
    | true =>
        rcases hlate a hrel with ⟨hrel', -⟩ | ⟨-, hcount⟩
        · rw [hnot'] at hrel'
          cases hrel'
        · exact hcount
  case late =>
    intro a hrel'
    cases hrel : (s.view a).isReleased with
    | false => exact (henter a hrel).late hrel'
    | true =>
        rcases hlate a hrel with ⟨-, hlate'⟩ | ⟨hdead, -⟩
        · exact hlate'
        · rw [View.not_released hdead] at hrel'
          cases hrel'
  case guarded =>
    intro a hrel'
    cases hrel : (s.view a).isReleased with
    | false =>
        obtain ⟨hidle, -, hone⟩ := (henter a hrel).released_idle hrel'
        have hsending : (s'.view a).held sendingShare ≤ (s'.view a).held pendingShare :=
          (hordered.lawful a).mono
            (fun i => by cases i <;> exact Nat.le_of_ble_eq_true rfl) (fun k => Nat.zero_le _)
        have hzero : s'.held a sendingShare = 0 := Nat.le_zero.mp (hidle ▸ hsending)
        exact ⟨Nat.le_trans (loose_le_held s' a _) hone,
          Nat.le_zero.mp (hzero ▸ loose_le_held s' a sendingShare)⟩
    | true => exact (h.guarded a hrel).step h.ordered (h.late a hrel) hs
  case allocating => exact allocating_step h.allocating hs

end Settled

section Runs

variable {G : View → Label → Bool} {http listening : Bool} {s s' : State}

/-- In the runs that meet `closeKept` the service stays settled. -/
theorem closeRuns_settled
    (hG : ∀ v ℓ, G v ℓ = true → closeKept v ℓ = true) (h : Runs G http listening s) :
    s.Settled :=
  h.invariant (I := State.Settled) (.init http listening)
    fun hsettled hmeets hs => hsettled.step (hmeets.mono hG) hs

/--
What holds of every block at the start, and is kept by every client step that
meets `G`, holds of every client in every run.
-/
theorem settled_invariant
    (hG : ∀ v ℓ, G v ℓ = true → closeKept v ℓ = true)
    {I : View → Prop}
    (hstart : ∀ v : View, v.client = .unused → (∀ W, v.held W = 0) → (∀ p, v.seen p = 0) → I v)
    (hstep : ∀ {v v' : View} {ℓ : Label}, v.Settled → v'.Settled → I v → G v ℓ = true →
      ℓ.Of listening → ClientStep http v ℓ v' → I v')
    (h : Runs G http listening s) (a : Addr) :
    I (s.view a) := by
  suffices hall : s.Settled ∧ (s.http = http ∧ s.listening = listening) ∧ ∀ a, I (s.view a) from
    hall.2.2 a
  refine
    h.invariant
      (I := fun s =>
        s.Settled ∧ (s.http = http ∧ s.listening = listening) ∧ ∀ a, I (s.view a))
      ⟨.init http listening, ⟨rfl, rfl⟩, fun a => ?_⟩ ?_
  · exact hstart _ rfl (fun _ => rfl) (fun _ => rfl)
  · rintro s s' act ⟨hsettled, ⟨rfl, rfl⟩, hI⟩ hmeets hs
    have hsettled' := hsettled.step (hmeets.mono hG) hs
    refine ⟨hsettled', step_config hs, fun a => ?_⟩
    rcases step_view hsettled.ordered hsettled.mapped hs a with ⟨ℓ, hlabel, hclient⟩ | hsame
    · exact hstep (hsettled.view a) (hsettled'.view a) (hI a) (meets_label hmeets hlabel)
        (label_of hsettled.allocating hlabel) hclient
    · rw [hsame]
      exact hI a

end Runs

end Service
end IocpNetlib
