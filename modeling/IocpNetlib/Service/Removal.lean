import IocpNetlib.Service.Settled

/-!
# What is freed is not in use

In the runs that meet `closeKept` a client goes back to the pool only when no
operation of it is outstanding and no `TcpClientRef` points to it.  A call on a
client that is still accepting breaks this.
-/

namespace IocpNetlib
namespace Service

open Ledger Reachability

/-- An outstanding operation. -/
def opShare : Weight where
  instr _ := 0
  op _ := 1

/-- No operation names the client and no `TcpClientRef` points to it. -/
def State.Unused (s : State) (a : Addr) : Prop :=
  (∀ k, (a, k) ∉ s.outstanding) ∧ ∀ t ∈ s.threads, ∀ i, (a, i) ∈ t → i.holdsRef = false

/-- The step gives the client back to the pool. -/
def Frees (s s' : State) (a : Addr) : Prop :=
  (s.client a).live = true ∧ (s'.client a).live = false

theorem not_mem_of_held {s : State} {a : Addr} (h : s.held a opShare = 0) :
    ∀ k, (a, k) ∉ s.outstanding := by
  intro k hk
  have hle := le_shares (w := ofOwner a opShare.op) hk
  rw [ofOwner_self] at hle
  have hone : opShare.op k = 1 := rfl
  rw [State.held] at h
  omega

theorem not_holdsRef_of_held {s : State} {a : Addr} (h : s.held a referenceShare = 0) :
    ∀ t ∈ s.threads, ∀ i, (a, i) ∈ t → i.holdsRef = false := by
  intro t ht i hi
  have hle := le_shares (w := ofOwner a referenceShare.instr) hi
  have htotal := shares_le_total (w := ofOwner a referenceShare.instr) ht
  rw [ofOwner_self] at hle
  rw [State.held] at h
  have hzero : i.holdsRef.toNat = 0 := Nat.le_zero.mp (Nat.le_trans hle (by omega))
  cases hholds : i.holdsRef
  · rfl
  · rw [hholds] at hzero
    exact absurd hzero (by simp)

/-- A client is freed without references, by a `RemoveClient` or after one. -/
theorem ClientStep.frees
    {http : Bool} {v v' : View} {ℓ : Label} (hs : ClientStep http v ℓ v')
    (hlive : v.client.live = true) (hfreed : v'.client.live = false) :
    v.Quiet v' ∧ ¬ 0 < v.client.mReferenceCount ∧
      (0 < v.held endShare ∨ v.client.mMarkedDestroy = true) := by
  cases hs with
  | run hexec own release client held seen =>
      rw [client, (exec_life hexec).1, hlive] at hfreed
      cases hfreed
  | @remove i _ removes client held seen =>
      have hheld := held endShare
      obtain ⟨hend, -, -, -⟩ := removes_shares removes
      refine ⟨.remove removes client held seen, fun hactive => ?_, Or.inl (by omega)⟩
      rw [client, removed_active hactive, hlive] at hfreed
      cases hfreed
  | sweep client held seen =>
      by_cases hfree : v.client.mMarkedDestroy ∧ ¬ 0 < v.client.mReferenceCount
      · exact ⟨.sweep client held seen, hfree.2, Or.inr hfree.1⟩
      · rw [client, swept_kept hfree, hlive] at hfreed
        cases hfreed
  | complete hexec own client held seen =>
      rw [client, hlive] at hfreed
      cases hfreed
  | find hexec live client held seen =>
      rw [client] at hfreed
      simp only [hlive] at hfreed
      cases hfreed
  | alloc hexec live client held seen =>
      rw [hlive] at live
      cases live

/-- A block is handed out by `AllocTcpClient`. -/
theorem ClientStep.revives
    {http : Bool} {v v' : View} {ℓ : Label} (hs : ClientStep http v ℓ v')
    (hdead : v.client.live = false) (hlive' : v'.client.live = true) :
    ∃ first id n, (first = .acceptEx ∨ first = .increaseRef) ∧ v'.client = .fresh id n ∧
      ∀ W : Weight, v'.held W = v.held W + W.instr first := by
  cases hs with
  | run hexec own release client held seen =>
      rw [client, (exec_life hexec).1, hdead] at hlive'
      cases hlive'
  | remove removes client held seen =>
      rw [client] at hlive'
      by_cases hactive : 0 < v.client.mReferenceCount
      · rw [removed_active hactive, hdead] at hlive'
        cases hlive'
      · rw [removed_idle hactive] at hlive'
        cases hlive'
  | sweep client held seen =>
      rw [client] at hlive'
      by_cases hfree : v.client.mMarkedDestroy ∧ ¬ 0 < v.client.mReferenceCount
      · rw [swept_free hfree] at hlive'
        cases hlive'
      · rw [swept_kept hfree, hdead] at hlive'
        cases hlive'
  | complete hexec own client held seen =>
      rw [client, hdead] at hlive'
      cases hlive'
  | find hexec live client held seen =>
      rw [hdead] at live
      cases live
  | alloc hexec live client held seen => exact ⟨_, _, _, hexec, client, held⟩

/-- The client step that frees a client leaves nothing of it behind. -/
theorem View.Sound.freed
    {http : Bool} {v v' : View} {ℓ : Label}
    (h : v.Sound) (hs : ClientStep http v ℓ v')
    (hlive : v.client.live = true) (hfreed : v'.client.live = false) :
    v.held opShare = 0 ∧ v.held referenceShare = 0 := by
  have hle : v.held (opShare.add endShare) ≤ v.held (pendingShare.add ownerShare) :=
    h.mono
      (fun i => by
        cases i <;>
          simp [Weight.add, opShare, endShare, Instr.removes, pendingShare, ownerShare])
      (fun k => by cases k <;> simp [Weight.add, opShare, endShare, pendingShare, ownerShare])
  rw [h.add, h.add] at hle
  have href := h.reference
  obtain ⟨-, hidle, hend | hmark⟩ := hs.frees hlive hfreed
  · have hown : v.held endShare ≤ v.held ownerShare :=
      h.mono (fun i => by cases i <;> exact Nat.le_of_ble_eq_true rfl) (fun k => Nat.zero_le _)
    obtain ⟨-, -, hpending, hone⟩ := h.owned (by omega)
    constructor <;> omega
  · have howner := h.owner
    rw [hlive, hmark] at howner
    simp only [Bool.and_self, Bool.toNat_true] at howner
    constructor <;> omega

/-- What frees a client, before or after its `CheckRelease`, leaves nothing of it behind. -/
theorem View.Settled.freed
    {http : Bool} {v v' : View} {ℓ : Label}
    (h : v.Settled) (hs : ClientStep http v ℓ v')
    (hlive : v.client.live = true) (hfreed : v'.client.live = false) :
    v.held opShare = 0 ∧ v.held referenceShare = 0 := by
  cases hrel : v.isReleased with
  | false => exact (h.sound hrel).freed hs hlive hfreed
  | true =>
      obtain ⟨-, hrefs, -⟩ := hs.frees hlive hfreed
      have hcount := (h.late hrel).reference
      have hrest := (h.late hrel).rest
      have hops : v.held opShare ≤ v.held restShare :=
        h.mono (fun i => Nat.zero_le _) (fun k => Nat.le_refl _)
      constructor <;> omega

/--
In every run whose steps meet `closeKept`, a client that goes back to the pool
is not in use.
-/
theorem freed_client_unused
    {http listening : Bool} {s s' : State} {act : Action} {a : Addr}
    (h : Runs closeKept http listening s) (hs : step s act = some s')
    (hfrees : Frees s s' a) :
    s.Unused a := by
  have hsettled := closeRuns_settled (fun _ _ hkept => hkept) h
  rcases step_view hsettled.ordered hsettled.mapped hs a with ⟨ℓ, -, hclient⟩ | hsame
  · obtain ⟨hops, hrefs⟩ := (hsettled.view a).freed hclient hfrees.1 hfrees.2
    exact ⟨not_mem_of_held hops, not_holdsRef_of_held hrefs⟩
  · have hc : s'.client a = s.client a := congrArg View.client hsame
    have hdead := hfrees.2
    rw [hc, hfrees.1] at hdead
    exact absurd hdead (by simp)

/-- A connection is accepted and its peer closes it, up to the removal of the client. -/
def acceptAndClose : List Action :=
  [.getNextLogicSocketID, .allocTcpClient 0 0 .ok, .run 1 .ok, .complete 0 (.success true),
    .run 2 .ok, .run 2 .ok, .run 2 .ok, .run 2 .ok, .run 2 .ok, .complete 0 (.success false),
    .run 3 .ok, .run 3 .ok, .run 3 .ok, .run 3 .ok, .run 3 .ok, .run 3 .ok]

theorem freed_client_unused_example :
    ∃ s s', Runs closeKept false true s ∧ step s (.run 3 .ok) = some s' ∧ Frees s s' 0 ∧
      s.Unused 0 := by
  obtain ⟨s, hs, hp⟩ :=
    exists_run closeKept false true acceptAndClose
      (fun s =>
        (step s (.run 3 .ok)).any fun s' => (s.client 0).live && !(s'.client 0).live)
      (by decide +kernel)
  obtain ⟨s', hs', hp'⟩ := (Option.any_eq_true _ _).mp hp
  rw [Bool.and_eq_true, Bool.not_eq_true'] at hp'
  exact ⟨s, s', hs, hs', hp', freed_client_unused hs hs' hp'⟩

/-- `CloseSocket` on the id of a client whose `AcceptEx` is outstanding. -/
def closeWhileAccepting : List Action :=
  [.getNextLogicSocketID, .allocTcpClient 0 0 .ok, .run 1 .ok, .closeSocket 1, .run 2 .ok,
    .run 2 .ok, .run 2 .ok, .run 2 .ok, .complete 1 (.success true), .run 3 .ok, .run 3 .ok,
    .run 3 .ok, .run 3 .ok]

/-- `RemoveClient` frees a client whose `AcceptEx` is outstanding. -/
theorem freed_client_accepting :
    ¬ ∀ (http listening : Bool) (s s' : State) (act : Action) (a : Addr),
      Runs (fun _ _ => true) http listening s → step s act = some s' → Frees s s' a →
        s.Unused a := by
  intro hclaim
  obtain ⟨s, hs, hp⟩ :=
    exists_run (fun _ _ => true) false true closeWhileAccepting
      (fun s =>
        (step s (.run 3 .ok)).any fun s' =>
          ((s.client 0).live && !(s'.client 0).live) && decide ((0, .accept) ∈ s.outstanding))
      (by decide +kernel)
  obtain ⟨s', hs', hp'⟩ := (Option.any_eq_true _ _).mp hp
  rw [Bool.and_eq_true, Bool.and_eq_true, Bool.not_eq_true', decide_eq_true_eq] at hp'
  exact (hclaim _ _ _ _ _ _ hs hs' hp'.1).1 _ hp'.2

end Service
end IocpNetlib
