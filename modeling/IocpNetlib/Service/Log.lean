import IocpNetlib.Service.Settled

/-!
# What is recorded of a run

`Each` is the rule for what holds of every callback at the time it is made.
`clients_recorded` says that what is recorded of a client can be read off its
block as long as the block is not handed out again, and does not change after.
-/

namespace IocpNetlib
namespace Service

open Ledger Reachability

def Kind.isOnConnected : Kind → Bool
  | .onConnected => true
  | _ => false

def Kind.isOnReceived : Kind → Bool
  | .onReceived _ => true
  | _ => false

/-- An `OnReceived` that left with an exception. -/
def Kind.isThrown : Kind → Bool
  | .onReceived threw => threw
  | _ => false

def Kind.isOnClosed : Kind → Bool
  | .onClosed _ => true
  | _ => false

/-- A result of `ConnectServer` that is an id. -/
def Kind.isConnected : Kind → Bool
  | .connectServer result => decide (result ≠ 0)
  | _ => false

/-- The API is called with ids that `OnConnected` reported or `ConnectServer` returned. -/
def reportedIDs (v : View) : Label → Bool
  | .find _ => decide (0 < v.seen Kind.isOnConnected ∨ 0 < v.seen Kind.isConnected)
  | _ => true

/-- Contexts are allocated and packets posted to the port. -/
def postsSucceed : Label → Bool
  | .run (.allocExceptionIOContext _) o => decide (o = .ok)
  | .run (.postQueued _) o => decide (o = .ok)
  | _ => true

/-- How often an event of a kind is in the log for the client with this number. -/
def recorded (log : List Event) (serial : Nat) (p : Kind → Bool) : Nat :=
  log.countP fun e => decide (e.serial = serial) && p e.kind

/-- Each event stands in a relation to what was recorded before. -/
def Each (P : Event → List Event → Prop) : List Event → Prop
  | [] => True
  | e :: log => P e log ∧ Each P log

section Log

variable {s s' : State}

theorem seen_eq (s : State) (a : Addr) :
    (s.view a).seen = recorded s.log (s.client a).serial :=
  rfl

/-- A step records nothing, or the event of one instruction. -/
theorem step_log {act : Action} (hs : step s act = some s') :
    s'.log = s.log ∨
      ∃ b i o ch k, label s act = some (b, .run i o) ∧
        exec s.http (s.client b) i o = some ch ∧ ch.event = some k ∧
        (∀ W : Weight, W.instr i ≤ s.held b W) ∧
        s'.log = ⟨(s.client b).serial, (s.client b).mLogicSocketID, k⟩ :: s.log := by
  have hfind :
      ∀ {id : SocketID} {code : List Instr}, s.find id code = some s' → s'.log = s.log := by
    intro id code hfind
    rcases find_cases hfind with ⟨-, rfl⟩ | ⟨b, -, rfl⟩
    · rfl
    · rfl
  cases act with
  | otherService =>
      rcases hs with ⟨⟩
      exact Or.inl rfl
  | getNextLogicSocketID =>
      rcases hs with ⟨⟩
      exact Or.inl rfl
  | allocTcpClient j b o =>
      obtain ⟨id, accepting, -, ⟨-, rfl⟩ | ⟨-, -, rfl⟩⟩ := allocTcpClient_cases hs
      · exact Or.inl rfl
      · exact Or.inl rfl
  | send socketID => exact Or.inl (hfind hs)
  | closeSocket socketID => exact Or.inl (hfind hs)
  | checkStatus =>
      obtain ⟨ts, -, rfl⟩ := checkStatus_cases hs
      exact Or.inl rfl
  | complete j r =>
      obtain ⟨b, k, code, -, -, rfl⟩ := complete_cases hs
      exact Or.inl rfl
  | run j o =>
      obtain ⟨b, i, rest, hj, ⟨-, id, -, rfl⟩ | ⟨-, id, -, hsweep⟩ | ⟨ch, hch, rfl⟩⟩ :=
        run_cases hs
      · exact Or.inl (removeClient_keeps _ id).2.2.2.2.2
      · obtain ⟨-, rfl⟩ := sweep_eq hsweep
        exact Or.inl rfl
      · cases hevent : ch.event with
        | none => exact Or.inl (by simp only [State.apply, hevent, State.setThread])
        | some k =>
            refine Or.inr ⟨b, i, o, ch, k, by simp only [label, hj], hch, hevent, ?_, ?_⟩
            · intro W
              exact Nat.le_trans (Nat.le_add_right _ _) (share_le_held hj W)
            · simp only [State.apply, hevent, State.setThread]

variable {G : View → Label → Bool} {http listening : Bool}

/-- The rule for what holds of each event when it is recorded. -/
theorem runs_log
    {P : Event → List Event → Prop}
    (hrecord : ∀ {s : State} {b : Addr} {i : Instr} {o : Outcome} {ch : Change} {k : Kind},
      Runs G http listening s → exec http (s.client b) i o = some ch → ch.event = some k →
        (∀ W : Weight, W.instr i ≤ (s.view b).held W) →
          P ⟨(s.client b).serial, (s.client b).mLogicSocketID, k⟩ s.log)
    (h : Runs G http listening s) :
    Each P s.log := by
  induction h with
  | start => trivial
  | next hrun hmeets hs ih =>
      rcases step_log hs with hlog | ⟨b, i, o, ch, k, -, hexec, hevent, hown, hlog⟩
      · rw [hlog]
        exact ih
      · rw [hlog]
        obtain ⟨rfl, -⟩ := runs_config hrun
        exact ⟨hrecord hrun hexec hevent hown, ih⟩

theorem recorded_pos {log : List Event} {e : Event} (h : e ∈ log) :
    0 < recorded log e.serial fun _ => true :=
  List.countP_pos_iff.mpr ⟨e, h, by simp⟩

theorem recorded_other
    {log : List Event} {e : Event} {n : Nat} (h : e.serial ≠ n) :
    recorded (e :: log) n = recorded log n := by
  funext p
  unfold recorded
  rw [List.countP_cons]
  simp [h]

/-- Only `AllocTcpClient` renumbers a block, which it finds free and with a new number. -/
theorem ClientStep.serial
    {v v' : View} {ℓ : Label} (h : ClientStep http v ℓ v') :
    (v.client.live = false ∧ (∃ first id fresh, ℓ = .alloc first id fresh) ∧
        ∀ p, v'.seen p = 0) ∨
      (v'.client.serial = v.client.serial ∧ v'.client.allocID = v.client.allocID) := by
  cases h with
  | run hexec own release client held seen =>
      rw [client]
      exact Or.inr ⟨exec_serial hexec, (exec_life hexec).2⟩
  | remove removes client held seen =>
      have hq : v.Quiet v' := .remove removes client held seen
      obtain ⟨_, _, _, hclient⟩ := hq.client
      rw [hclient]
      exact Or.inr ⟨rfl, rfl⟩
  | sweep client held seen =>
      have hq : v.Quiet v' := .sweep client held seen
      obtain ⟨_, _, _, hclient⟩ := hq.client
      rw [hclient]
      exact Or.inr ⟨rfl, rfl⟩
  | complete hexec own client held seen =>
      rw [client]
      exact Or.inr ⟨rfl, rfl⟩
  | find hexec live client held seen =>
      rw [client]
      exact Or.inr ⟨rfl, rfl⟩
  | alloc hexec live client held seen => exact Or.inl ⟨live, ⟨_, _, _, rfl⟩, seen⟩

/--
What is recorded of a client is what is recorded of its block, as long as it is
live; what it is when the client is freed holds of it ever after.
-/
theorem clients_recorded
    (hG : ∀ v ℓ, G v ℓ = true → closeKept v ℓ = true)
    {F : ((Kind → Bool) → Nat) → Prop} (hnone : F fun _ => 0)
    (hdead : ∀ {s : State} {a : Addr}, Runs G http listening s →
      (s.client a).live = false → F (s.view a).seen)
    (h : Runs G http listening s) (n : Nat) :
    F (recorded s.log n) ∨ ∃ a, (s.client a).live = true ∧ (s.client a).serial = n := by
  induction h with
  | start => exact Or.inl hnone
  | @next s s' act hrun hmeets hs ih =>
      have hsettled := closeRuns_settled hG hrun
      have hrun' : Runs G http listening s' := .next hrun hmeets hs
      have hblock : ∀ b, (s'.client b).serial = n →
          F (recorded s'.log n) ∨ ∃ a, (s'.client a).live = true ∧ (s'.client a).serial = n := by
        rintro b rfl
        cases hb : (s'.client b).live with
        | true => exact Or.inr ⟨b, hb, rfl⟩
        | false => exact Or.inl (hdead hrun' hb)
      rcases ih with hkept | ⟨a, hlive, hserial⟩
      · rcases step_log hs with hlog | ⟨b, i, o, ch, k, hlabel, -, -, -, hlog⟩
        · rw [hlog]
          exact Or.inl hkept
        · by_cases hserial : (s.client b).serial = n
          · refine hblock b ?_
            rcases step_view hsettled.ordered hsettled.mapped hs b with ⟨ℓ, hℓ, hclient⟩ | hsame
            · rcases hclient.serial with ⟨-, ⟨_, _, _, rfl⟩, -⟩ | ⟨hkeep, -⟩
              · rw [hlabel] at hℓ
                cases hℓ
              · exact hkeep.trans hserial
            · exact (congrArg (fun v => v.client.serial) hsame).trans hserial
          · rw [hlog, recorded_other hserial]
            exact Or.inl hkept
      · refine hblock a ?_
        rcases step_view hsettled.ordered hsettled.mapped hs a with ⟨ℓ, -, hclient⟩ | hsame
        · rcases hclient.serial with ⟨hdead', -, -⟩ | ⟨hkeep, -⟩
          · have hlive' : (s.view a).client.live = true := hlive
            rw [hdead'] at hlive'
            cases hlive'
          · exact hkeep.trans hserial
        · exact (congrArg (fun v => v.client.serial) hsame).trans hserial

end Log

end Service
end IocpNetlib
