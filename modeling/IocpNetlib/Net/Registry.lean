import IocpNetlib.Lib.OrderedMap
import IocpNetlib.Lib.Reach
import Mathlib.Data.Nat.Basic

/-!
# The services of a core

A service is entered in `mServiceMap` of its core by its first `StartNetService`
and taken out by `StopNetService`; the assist thread of the core calls
`TickUpdate` of every service it finds there.  Entries are made and taken out
under `mServiceMapLock`, which the assist thread holds for a whole pass; the
deletion of a service is under no lock.

Each service is started and stopped by one thread at a time, and the threads of
different services and the assist threads run side by side.  The log of a run
says which services should be registered.
-/

namespace IocpNetlib
namespace Registry

open OrderedMap Reachability

/-- What the thread that starts and stops a service is doing. -/
inductive Stage
  | idle
  /-- `StartNetService`, in front of `AddService`. -/
  | adding
  /-- `StartNetService`, behind it. -/
  | starting
  /-- `StopNetService`, in front of `RemoveService`. -/
  | removing
  /-- `StopNetService`, behind it. -/
  | releasing
  | deleted
  deriving DecidableEq

/-- A `TcpService`; `mNetCore` is the core of its `NetCore`. -/
structure TcpService where
  mServiceID : Nat
  mNetCore : Option Nat
  mMarkedStop : Bool
  stage : Stage

/-- A `NetCoreIOCP` and its assist thread. -/
structure NetCoreIOCP where
  mNextServiceID : Nat
  mServiceMap : List (Nat × Nat)
  /-- The iterator of the assist thread, while that holds `mServiceMapLock`. -/
  itor : Option (Option Nat)
  /-- What the assist thread has visited in its pass. -/
  visited : List (Nat × Nat)

/-- What is recorded of a run. -/
inductive Event
  | added (c id x : Nat)
  | removed (x : Nat)
  | deleted (x : Nat)
  /-- `TickUpdate` of the entry the iterator points to, if there is one. -/
  | tick (c : Nat) (e : Option (Nat × Nat))
  deriving DecidableEq

/-- The services, the cores, and the record, the newest first. -/
structure State where
  service : Nat → TcpService
  core : Nat → NetCoreIOCP
  log : List Event

/-- Before anything was started. -/
def init : State where
  service _ := ⟨0, none, false, .idle⟩
  core _ := ⟨0, [], none, []⟩
  log := []

/-- The core a service should be registered with, and the id. -/
def registration : List Event → Nat → Option (Nat × Nat)
  | [], _ => none
  | .added c id y :: log, x => if y = x then some (c, id) else registration log x
  | .removed y :: log, x => if y = x then none else registration log x
  | .deleted _ :: log, x => registration log x
  | .tick _ _ :: log, x => registration log x

section Steps

/-- Write one service. -/
def State.setService (s : State) (x : Nat) (t : TcpService) : State :=
  { s with service := fun y => if y = x then t else s.service y }

/-- Write one core. -/
def State.setCore (s : State) (c : Nat) (k : NetCoreIOCP) : State :=
  { s with core := fun d => if d = c then k else s.core d }

/-- Record an event. -/
def State.note (s : State) (e : Event) : State :=
  { s with log := e :: s.log }

inductive Action
  | start (x c : Nat)
  | add (x : Nat)
  | started (x : Nat)
  | stop (x : Nat)
  | remove (x : Nat)
  | stopped (x : Nat)
  | delete (x : Nat)
  | lock (c : Nat)
  | tick (c : Nat)
  | unlock (c : Nat)

/-- `GetNextServiceID`. -/
def NetCoreIOCP.getNextServiceID (k : NetCoreIOCP) : Nat :=
  (k.mNextServiceID + 1) % 2 ^ 32

/-- The first instructions of `StartNetService`. -/
def State.start (s : State) (x c : Nat) : State :=
  if (s.service x).mServiceID = 0 then
    (s.setCore c { s.core c with mNextServiceID := (s.core c).getNextServiceID }).setService x
      ⟨(s.core c).getNextServiceID, some c, false, .adding⟩
  else s.setService x ⟨(s.service x).mServiceID, some c, false, .starting⟩

/-- `AddService`. -/
def State.add (s : State) (x c : Nat) : State :=
  ((s.setCore c { s.core c with
        mServiceMap := OrderedMap.insert (s.service x).mServiceID x (s.core c).mServiceMap }).setService x
      { s.service x with stage := .starting }).note (.added c (s.service x).mServiceID x)

/-- `RemoveService`. -/
def State.remove (s : State) (x c : Nat) : State :=
  ((s.setCore c { s.core c with
        mServiceMap := OrderedMap.erase (s.service x).mServiceID (s.core c).mServiceMap }).setService x
      { s.service x with stage := .releasing }).note (.removed x)

/-- A visit of the assist thread. -/
def State.tick (s : State) (c k : Nat) : State :=
  (s.setCore c { s.core c with
      itor := some (next (s.core c).mServiceMap k)
      visited := (s.core c).visited ++ (find k (s.core c).mServiceMap).toList }).note
    (.tick c (find k (s.core c).mServiceMap))

/-- The steps of the threads that start and stop services, and of the assist threads. -/
def step (s : State) : Action → Option State
  | .start x c => if (s.service x).stage = .idle then some (s.start x c) else none
  | .add x =>
      match (s.service x).mNetCore with
      | none => none
      | some c =>
          if (s.service x).stage = .adding ∧ (s.core c).itor = none then some (s.add x c) else none
  | .started x =>
      if (s.service x).stage = .starting then
        some (s.setService x { s.service x with stage := .idle })
      else none
  | .stop x =>
      if (s.service x).stage = .idle ∧ (s.service x).mMarkedStop = false then
        some (s.setService x { s.service x with
          mMarkedStop := true
          stage := if (s.service x).mNetCore = none then .releasing else .removing })
      else none
  | .remove x =>
      match (s.service x).mNetCore with
      | none => none
      | some c =>
          if (s.service x).stage = .removing ∧ (s.core c).itor = none then some (s.remove x c)
          else none
  | .stopped x =>
      if (s.service x).stage = .releasing then
        some (s.setService x { s.service x with stage := .idle })
      else none
  | .delete x =>
      if (s.service x).stage = .idle ∧ (s.service x).mMarkedStop = true then
        some ((s.setService x { s.service x with stage := .deleted }).note (.deleted x))
      else none
  | .lock c =>
      if (s.core c).itor = none then
        some (s.setCore c { s.core c with
          itor := some (first (s.core c).mServiceMap), visited := [] })
      else none
  | .tick c =>
      match (s.core c).itor with
      | some (some k) => some (s.tick c k)
      | _ => none
  | .unlock c =>
      if (s.core c).itor = some none then
        some (s.setCore c { s.core c with itor := none })
      else none

/-- A service is only started with the core it was started with before, and no core has given out
all of its ids. -/
def staysWithCore (s : State) : Action → Prop
  | .start x c =>
      if (s.service x).mServiceID = 0 then (s.core c).mNextServiceID + 1 < 2 ^ 32
      else (s.service x).mNetCore = some c
  | _ => True

instance (s : State) (a : Action) : Decidable (staysWithCore s a) :=
  match a with
  | .start x c =>
      inferInstanceAs (Decidable (if (s.service x).mServiceID = 0 then _ else _ = some c))
  | .add _ => inferInstanceAs (Decidable True)
  | .started _ => inferInstanceAs (Decidable True)
  | .stop _ => inferInstanceAs (Decidable True)
  | .remove _ => inferInstanceAs (Decidable True)
  | .stopped _ => inferInstanceAs (Decidable True)
  | .delete _ => inferInstanceAs (Decidable True)
  | .lock _ => inferInstanceAs (Decidable True)
  | .tick _ => inferInstanceAs (Decidable True)
  | .unlock _ => inferInstanceAs (Decidable True)

end Steps

section Invariant

/-- What the record says about the service a `TickUpdate` is called on. -/
def TickOk (log : List Event) (c : Nat) (e : Option (Nat × Nat)) : Prop :=
  ∃ id x, e = some (id, x) ∧ registration log x = some (c, id) ∧ .deleted x ∉ log

/-- Every `TickUpdate` of the record was in order when it was called. -/
def Ticks : List Event → Prop
  | [] => True
  | .tick c e :: log => TickOk log c e ∧ Ticks log
  | .added _ _ _ :: log => Ticks log
  | .removed _ :: log => Ticks log
  | .deleted _ :: log => Ticks log

/-- The record has neither the entry of a service nor its removal. -/
def NeverEntered (log : List Event) (x : Nat) : Prop :=
  .removed x ∉ log ∧ ∀ c id, .added c id x ∉ log

/-- Every service was entered once at most, and not after it was taken out. -/
def EnteredOnce : List Event → Prop
  | [] => True
  | .added _ _ x :: log => NeverEntered log x ∧ EnteredOnce log
  | .tick _ _ :: log => EnteredOnce log
  | .removed _ :: log => EnteredOnce log
  | .deleted _ :: log => EnteredOnce log

/-- What the record and the cores say about a service. -/
structure ServiceOk (log : List Event) (nextID : Nat → Nat) (x : Nat) (t : TcpService) : Prop where
  registered : ∀ c id, registration log x = some (c, id) →
    t.mNetCore = some c ∧ t.mServiceID = id ∧
      (t.stage = .starting ∨ t.stage = .removing ∨ (t.stage = .idle ∧ t.mMarkedStop = false))
  numbered : ∀ c, t.mNetCore = some c → t.mServiceID ≠ 0 ∧ t.mServiceID ≤ nextID c
  unnumbered : t.mNetCore = none → t.mServiceID = 0
  adding : t.stage = .adding → registration log x = none
  unmarked : t.stage = .adding ∨ t.stage = .starting → t.mMarkedStop = false
  deleted : .deleted x ∈ log → t.stage = .deleted
  entered : t.mServiceID = 0 ∨ t.stage = .adding → NeverEntered log x

/-- The map is in order, and the pass of the assist thread goes through all of it. -/
structure CoreOk (k : NetCoreIOCP) : Prop where
  sorted : Sorted k.mServiceMap
  pass : ∀ i, k.itor = some i → k.visited ++ rest k.mServiceMap i = k.mServiceMap
  found : ∀ id, k.itor = some (some id) → ∃ e ∈ k.mServiceMap, e.1 = id

structure Inv (s : State) : Prop where
  services : ∀ x, ServiceOk s.log (fun c => (s.core c).mNextServiceID) x (s.service x)
  distinct : ∀ x y c, (s.service x).mNetCore = some c → (s.service y).mNetCore = some c →
    (s.service x).mServiceID = (s.service y).mServiceID → x = y
  cores : ∀ c, CoreOk (s.core c)
  entries : ∀ c id x, (id, x) ∈ (s.core c).mServiceMap ↔ registration s.log x = some (c, id)
  ticks : Ticks s.log
  once : EnteredOnce s.log

theorem Inv.init : Inv init := by
  constructor
  · intro x
    exact ⟨fun c id h => absurd h (Option.some_ne_none _).symm,
      fun c h => absurd h (Option.some_ne_none _).symm, fun _ => rfl, fun _ => rfl, fun _ => rfl,
      fun h => absurd h List.not_mem_nil,
      fun _ => ⟨List.not_mem_nil, fun c id => List.not_mem_nil⟩⟩
  · intro x y c h
    exact absurd h (Option.some_ne_none c).symm
  · intro c
    exact ⟨List.Pairwise.nil, fun i h => absurd h (Option.some_ne_none i).symm,
      fun id h => absurd h (Option.some_ne_none _).symm⟩
  · intro c id x
    exact ⟨fun h => absurd h List.not_mem_nil, fun h => absurd h (Option.some_ne_none _).symm⟩
  · exact trivial
  · exact trivial

theorem NeverEntered.cons
    {log : List Event} {x : Nat} (h : NeverEntered log x) {e : Event} (he : NeverEntered [e] x) :
    NeverEntered (e :: log) x := by
  refine ⟨fun hmem => ?_, fun c id hmem => ?_⟩
  · rcases List.mem_cons.mp hmem with rfl | hmem
    · exact he.1 List.mem_cons_self
    · exact h.1 hmem
  · rcases List.mem_cons.mp hmem with rfl | hmem
    · exact he.2 c id List.mem_cons_self
    · exact h.2 c id hmem

/-- An event of another service. -/
theorem neverEntered_added {c id x y : Nat} (h : y ≠ x) : NeverEntered [.added c id x] y := by
  refine ⟨fun hmem => ?_, fun d id' hmem => ?_⟩
  · exact Event.noConfusion (List.mem_singleton.mp hmem)
  · exact h (Event.added.inj (List.mem_singleton.mp hmem)).2.2

theorem neverEntered_removed {x y : Nat} (h : y ≠ x) : NeverEntered [.removed x] y := by
  refine ⟨fun hmem => ?_, fun d id' hmem => ?_⟩
  · exact h (Event.removed.inj (List.mem_singleton.mp hmem))
  · exact Event.noConfusion (List.mem_singleton.mp hmem)

theorem neverEntered_deleted (x y : Nat) : NeverEntered [.deleted x] y := by
  refine ⟨fun hmem => ?_, fun d id' hmem => ?_⟩
  · exact Event.noConfusion (List.mem_singleton.mp hmem)
  · exact Event.noConfusion (List.mem_singleton.mp hmem)

theorem neverEntered_tick (c : Nat) (e : Option (Nat × Nat)) (y : Nat) :
    NeverEntered [.tick c e] y := by
  refine ⟨fun hmem => ?_, fun d id' hmem => ?_⟩
  · exact Event.noConfusion (List.mem_singleton.mp hmem)
  · exact Event.noConfusion (List.mem_singleton.mp hmem)

variable {s s' : State}

theorem service_setService (s : State) (x : Nat) (t : TcpService) (y : Nat) :
    (s.setService x t).service y = if y = x then t else s.service y :=
  rfl

theorem core_setCore (s : State) (c : Nat) (k : NetCoreIOCP) (d : Nat) :
    (s.setCore c k).core d = if d = c then k else s.core d :=
  rfl

/-- One service changes, and the record and the cores allow it. -/
theorem Inv.setService
    (hs : Inv s) {x : Nat} {t : TcpService}
    (hok : ServiceOk s.log (fun c => (s.core c).mNextServiceID) x t)
    (hdist : ∀ y c, y ≠ x → t.mNetCore = some c → (s.service y).mNetCore = some c →
      (s.service y).mServiceID ≠ t.mServiceID) :
    Inv (s.setService x t) := by
  constructor
  · intro y
    rw [service_setService]
    split_ifs with hy
    · subst hy
      exact hok
    · exact hs.services y
  · intro y z c hy hz heq
    rw [service_setService] at hy hz heq
    rw [service_setService] at heq
    by_cases hyx : y = x
    · by_cases hzx : z = x
      · rw [hyx, hzx]
      · rw [if_pos hyx] at hy heq
        rw [if_neg hzx] at hz heq
        exact absurd heq.symm (hdist z c hzx hy hz)
    · rw [if_neg hyx] at hy heq
      by_cases hzx : z = x
      · rw [if_pos hzx] at hz heq
        exact absurd heq (hdist y c hyx hz hy)
      · rw [if_neg hzx] at hz heq
        exact hs.distinct y z c hy hz heq
  · exact hs.cores
  · exact hs.entries
  · exact hs.ticks
  · exact hs.once

/-- A service goes on to another stage, and may be marked. -/
theorem Inv.setStage
    (hs : Inv s) {x : Nat} {stage : Stage} {marked : Bool}
    (hreg : ∀ c id, registration s.log x = some (c, id) →
      stage = .starting ∨ stage = .removing ∨ (stage = .idle ∧ marked = false))
    (hadd : stage ≠ .adding) (hstart : stage = .starting → marked = false)
    (hdel : (s.service x).stage ≠ .deleted) :
    Inv (s.setService x { s.service x with stage := stage, mMarkedStop := marked }) := by
  have hok := hs.services x
  refine hs.setService ⟨?_, hok.numbered, hok.unnumbered, fun h => absurd h hadd,
    fun h => hstart (h.resolve_left hadd), ?_,
    fun h => hok.entered (Or.inl (h.resolve_right hadd))⟩ ?_
  · intro c id h
    obtain ⟨hcore, hid, -⟩ := hok.registered c id h
    exact ⟨hcore, hid, hreg c id h⟩
  · exact fun h => absurd (hok.deleted h) hdel
  · intro y c hy hx hyc heq
    exact hy (hs.distinct y x c hyc hx heq)

/-- A core changes, but not its map. -/
theorem Inv.setCore
    (hs : Inv s) {c : Nat} {k : NetCoreIOCP} (hok : CoreOk k)
    (hmap : k.mServiceMap = (s.core c).mServiceMap)
    (hnext : (s.core c).mNextServiceID ≤ k.mNextServiceID) :
    Inv (s.setCore c k) := by
  constructor
  · intro x
    obtain ⟨h1, h2, h3, h4, h5, h6, h7⟩ := hs.services x
    refine ⟨h1, fun d hd => ⟨(h2 d hd).1, (h2 d hd).2.trans ?_⟩, h3, h4, h5, h6, h7⟩
    rw [core_setCore]
    split_ifs with hdc
    · exact hdc ▸ hnext
    · exact Nat.le_refl _
  · exact hs.distinct
  · intro d
    rw [core_setCore]
    split_ifs
    · exact hok
    · exact hs.cores d
  · intro d id x
    rw [core_setCore]
    split_ifs with hdc
    · rw [hmap, hdc]
      exact hs.entries c id x
    · exact hs.entries d id x
  · exact hs.ticks
  · exact hs.once

/-- Something is recorded that registers nothing. -/
theorem Inv.note
    (hs : Inv s) {e : Event}
    (hreg : ∀ x, registration (e :: s.log) x = registration s.log x)
    (hentry : ∀ x, NeverEntered [e] x)
    (hdel : ∀ x, e = .deleted x → (s.service x).stage = .deleted)
    (htick : Ticks (e :: s.log)) (honce : EnteredOnce (e :: s.log)) :
    Inv (s.note e) := by
  constructor
  · intro x
    obtain ⟨h1, h2, h3, h4, h5, h6, h7⟩ := hs.services x
    refine ⟨?_, h2, h3, ?_, h5, ?_, fun h => (h7 h).cons (hentry x)⟩
    · intro c id h
      exact h1 c id ((hreg x).symm.trans h)
    · intro h
      exact (hreg x).trans (h4 h)
    · intro h
      rcases List.mem_cons.mp h with he | h
      · exact hdel x he.symm
      · exact h6 h
  · exact hs.distinct
  · exact hs.cores
  · intro c id x
    exact (hs.entries c id x).trans (by rw [State.note, hreg x])
  · exact htick
  · exact honce

/-- A service that is not registered has no entry. -/
theorem Inv.not_mem
    (hs : Inv s) {x : Nat} (h : registration s.log x = none) (c id : Nat) :
    (id, x) ∉ (s.core c).mServiceMap := by
  intro hmem
  have hreg := (hs.entries c id x).mp hmem
  rw [h] at hreg
  exact absurd hreg (Option.some_ne_none _).symm

/-- An entry under the id of a service is the service's own. -/
theorem Inv.own
    (hs : Inv s) {x y c : Nat} (hcore : (s.service x).mNetCore = some c)
    (h : registration s.log y = some (c, (s.service x).mServiceID)) :
    y = x := by
  obtain ⟨hy, hid, -⟩ := (hs.services y).registered c _ h
  exact hs.distinct y x c hy hcore hid

theorem Inv.add
    (hs : Inv s) {x c : Nat} (hcore : (s.service x).mNetCore = some c)
    (hstage : (s.service x).stage = .adding) (hitor : (s.core c).itor = none) :
    Inv (s.add x c) := by
  have hnone := (hs.services x).adding hstage
  have hreg (y : Nat) : registration (s.add x c).log y =
      if x = y then some (c, (s.service x).mServiceID) else registration s.log y := rfl
  have hservice (y : Nat) : (s.add x c).service y =
      if y = x then { s.service x with stage := .starting } else s.service y := rfl
  have hnext (d : Nat) : ((s.add x c).core d).mNextServiceID = (s.core d).mNextServiceID := by
    change (if d = c then _ else s.core d).mNextServiceID = _
    split_ifs with hd
    · rw [hd]
    · rfl
  have hmap (d : Nat) : ((s.add x c).core d).mServiceMap =
      if d = c then OrderedMap.insert (s.service x).mServiceID x (s.core c).mServiceMap
      else (s.core d).mServiceMap := by
    change (if d = c then _ else s.core d).mServiceMap = _
    split_ifs <;> rfl
  constructor
  · intro y
    obtain ⟨h1, h2, h3, h4, h5, h6, h7⟩ := hs.services y
    simp only [hnext]
    by_cases hy : y = x
    · subst hy
      rw [hservice, if_pos rfl]
      refine ⟨?_, h2, h3, fun h => Stage.noConfusion h, fun _ => h5 (Or.inl hstage), ?_,
        fun h => absurd (h.resolve_right Stage.noConfusion) (h2 c hcore).1⟩
      · intro d id h
        rw [hreg, if_pos rfl] at h
        obtain ⟨rfl, rfl⟩ := Prod.mk.inj (Option.some.inj h)
        exact ⟨hcore, rfl, Or.inl rfl⟩
      · intro h
        rcases List.mem_cons.mp h with he | h
        · exact Event.noConfusion he
        · rw [h6 h] at hstage
          exact Stage.noConfusion hstage
    · rw [hservice, if_neg hy]
      refine ⟨?_, h2, h3, ?_, h5, ?_, fun h => (h7 h).cons (neverEntered_added hy)⟩
      · intro d id h
        rw [hreg, if_neg fun hxy => hy hxy.symm] at h
        exact h1 d id h
      · intro h
        rw [hreg, if_neg fun hxy => hy hxy.symm]
        exact h4 h
      · intro h
        rcases List.mem_cons.mp h with he | h
        · exact Event.noConfusion he
        · exact h6 h
  · intro y z d hy hz heq
    have hcoreOf (y : Nat) : ((s.add x c).service y).mNetCore = (s.service y).mNetCore := by
      rw [hservice]
      split_ifs with h
      · rw [h]
      · rfl
    have hidOf (y : Nat) : ((s.add x c).service y).mServiceID = (s.service y).mServiceID := by
      rw [hservice]
      split_ifs with h
      · rw [h]
      · rfl
    rw [hcoreOf] at hy hz
    rw [hidOf, hidOf] at heq
    exact hs.distinct y z d hy hz heq
  · intro d
    change CoreOk (if d = c then _ else s.core d)
    split_ifs
    · refine ⟨(hs.cores c).sorted.insert, ?_, ?_⟩
      · intro i h
        exact absurd (hitor.symm.trans h) (Option.some_ne_none i).symm
      · intro id h
        exact absurd (hitor.symm.trans h) (Option.some_ne_none _).symm
    · exact hs.cores d
  · intro d id y
    rw [hreg, hmap]
    by_cases hd : d = c
    · subst hd
      rw [if_pos rfl, mem_insert (hs.cores d).sorted]
      by_cases hy : x = y
      · subst hy
        rw [if_pos rfl]
        constructor
        · rintro (h | ⟨-, h⟩)
          · rw [(Prod.mk.inj h).1]
          · exact absurd h (hs.not_mem hnone d id)
        · intro h
          exact Or.inl (by rw [(Prod.mk.inj (Option.some.inj h)).2])
      · rw [if_neg hy, ← hs.entries d id y]
        constructor
        · rintro (h | ⟨-, h⟩)
          · exact absurd (Prod.mk.inj h).2.symm hy
          · exact h
        · intro h
          refine Or.inr ⟨?_, h⟩
          rintro rfl
          exact hy (hs.own hcore ((hs.entries d _ y).mp h)).symm
    · rw [if_neg hd, hs.entries d id y]
      by_cases hy : x = y
      · subst hy
        rw [if_pos rfl, hnone]
        constructor
        · exact fun h => absurd h (Option.some_ne_none _).symm
        · intro h
          exact absurd (Prod.mk.inj (Option.some.inj h)).1.symm hd
      · rw [if_neg hy]
  · exact hs.ticks
  · exact ⟨(hs.services x).entered (Or.inr hstage), hs.once⟩

theorem Inv.remove
    (hs : Inv s) {x c : Nat} (hcore : (s.service x).mNetCore = some c)
    (hstage : (s.service x).stage = .removing) (hitor : (s.core c).itor = none) :
    Inv (s.remove x c) := by
  have hreg (y : Nat) : registration (s.remove x c).log y =
      if x = y then none else registration s.log y := rfl
  have hservice (y : Nat) : (s.remove x c).service y =
      if y = x then { s.service x with stage := .releasing } else s.service y := rfl
  have hnext (d : Nat) : ((s.remove x c).core d).mNextServiceID = (s.core d).mNextServiceID := by
    change (if d = c then _ else s.core d).mNextServiceID = _
    split_ifs with hd
    · rw [hd]
    · rfl
  have hmap (d : Nat) : ((s.remove x c).core d).mServiceMap =
      if d = c then OrderedMap.erase (s.service x).mServiceID (s.core c).mServiceMap
      else (s.core d).mServiceMap := by
    change (if d = c then _ else s.core d).mServiceMap = _
    split_ifs <;> rfl
  constructor
  · intro y
    obtain ⟨h1, h2, h3, h4, h5, h6, h7⟩ := hs.services y
    simp only [hnext]
    by_cases hy : y = x
    · subst hy
      rw [hservice, if_pos rfl]
      refine ⟨?_, h2, h3, fun h => Stage.noConfusion h,
        fun h => h.elim Stage.noConfusion Stage.noConfusion, ?_,
        fun h => absurd (h.resolve_right Stage.noConfusion) (h2 c hcore).1⟩
      · intro d id h
        rw [hreg, if_pos rfl] at h
        exact absurd h (Option.some_ne_none _).symm
      · intro h
        rcases List.mem_cons.mp h with he | h
        · exact Event.noConfusion he
        · rw [h6 h] at hstage
          exact Stage.noConfusion hstage
    · rw [hservice, if_neg hy]
      refine ⟨?_, h2, h3, ?_, h5, ?_, fun h => (h7 h).cons (neverEntered_removed hy)⟩
      · intro d id h
        rw [hreg, if_neg fun hxy => hy hxy.symm] at h
        exact h1 d id h
      · intro h
        rw [hreg, if_neg fun hxy => hy hxy.symm]
        exact h4 h
      · intro h
        rcases List.mem_cons.mp h with he | h
        · exact Event.noConfusion he
        · exact h6 h
  · intro y z d hy hz heq
    have hcoreOf (y : Nat) : ((s.remove x c).service y).mNetCore = (s.service y).mNetCore := by
      rw [hservice]
      split_ifs with h
      · rw [h]
      · rfl
    have hidOf (y : Nat) : ((s.remove x c).service y).mServiceID = (s.service y).mServiceID := by
      rw [hservice]
      split_ifs with h
      · rw [h]
      · rfl
    rw [hcoreOf] at hy hz
    rw [hidOf, hidOf] at heq
    exact hs.distinct y z d hy hz heq
  · intro d
    change CoreOk (if d = c then _ else s.core d)
    split_ifs
    · refine ⟨(hs.cores c).sorted.erase, ?_, ?_⟩
      · intro i h
        exact absurd (hitor.symm.trans h) (Option.some_ne_none i).symm
      · intro id h
        exact absurd (hitor.symm.trans h) (Option.some_ne_none _).symm
    · exact hs.cores d
  · intro d id y
    rw [hreg, hmap]
    by_cases hy : x = y
    · -- the only entry of the service was the one taken out
      subst hy
      rw [if_pos rfl]
      refine ⟨fun h => ?_, fun h => absurd h (Option.some_ne_none _).symm⟩
      split_ifs at h with hd
      · subst hd
        obtain ⟨hne, hmem⟩ := mem_erase.mp h
        exact absurd ((hs.services x).registered d id ((hs.entries d id x).mp hmem)).2.1.symm hne
      · have hxd := ((hs.services x).registered d id ((hs.entries d id x).mp h)).1
        rw [hcore] at hxd
        exact absurd (Option.some.inj hxd).symm hd
    · rw [if_neg hy, ← hs.entries d id y]
      split_ifs with hd
      · subst hd
        rw [mem_erase]
        refine ⟨And.right, fun h => ⟨?_, h⟩⟩
        rintro rfl
        exact hy (hs.own hcore ((hs.entries d _ y).mp h)).symm
      · exact Iff.rfl
  · exact hs.ticks
  · exact hs.once

/-- What an iterator points to. -/
theorem CoreOk.find_some
    {k : NetCoreIOCP} (hk : CoreOk k) {id : Nat} (h : k.itor = some (some id)) :
    ∃ x, find id k.mServiceMap = some (id, x) := by
  obtain ⟨e, hmem, hkey⟩ := hk.found id h
  cases hfind : find id k.mServiceMap with
  | none =>
      have hall := List.find?_eq_none.mp hfind e hmem
      exact absurd (decide_eq_true hkey) hall
  | some e' =>
      obtain ⟨-, hkey'⟩ := find_eq_some hfind
      exact ⟨e'.2, by rw [← hkey']⟩

/-- An iterator that is not at the end points to an entry. -/
theorem exists_of_first
    {m : List (Nat × Nat)} {id : Nat} (h : first m = some id) : ∃ e ∈ m, e.1 = id := by
  rw [first, Option.map_eq_some_iff] at h
  obtain ⟨e, he, hkey⟩ := h
  exact ⟨e, List.mem_of_mem_head? he, hkey⟩

/-- The assist thread begins a pass. -/
theorem CoreOk.lock {k : NetCoreIOCP} (hk : CoreOk k) :
    CoreOk { k with itor := some (first k.mServiceMap), visited := [] } := by
  refine ⟨hk.sorted, ?_, ?_⟩
  · intro i h
    obtain rfl : first k.mServiceMap = i := Option.some.inj h
    exact rest_first hk.sorted
  · intro id h
    exact exists_of_first (Option.some.inj h)

/-- It visits an entry. -/
theorem CoreOk.tick
    {k : NetCoreIOCP} (hk : CoreOk k) {id : Nat} (h : k.itor = some (some id)) :
    CoreOk { k with
      itor := some (next k.mServiceMap id)
      visited := k.visited ++ (find id k.mServiceMap).toList } := by
  obtain ⟨x, hfind⟩ := hk.find_some h
  refine ⟨hk.sorted, ?_, ?_⟩
  · intro i hi
    obtain rfl : next k.mServiceMap id = i := Option.some.inj hi
    have hpass := hk.pass (some id) h
    rw [rest_eq_cons hk.sorted hfind] at hpass
    change k.visited ++ (find id k.mServiceMap).toList ++ rest k.mServiceMap _ = k.mServiceMap
    rw [hfind, Option.toList_some, List.append_assoc]
    exact hpass
  · intro id' hi
    obtain ⟨e, he, hkey⟩ := exists_of_first (Option.some.inj hi)
    exact ⟨e, List.mem_of_mem_filter he, hkey⟩

/-- It ends its pass. -/
theorem CoreOk.unlock {k : NetCoreIOCP} (hk : CoreOk k) : CoreOk { k with itor := none } :=
  ⟨hk.sorted, fun i h => absurd h (Option.some_ne_none i).symm,
    fun _ h => absurd h (Option.some_ne_none _).symm⟩

/-- A registered service has not been deleted. -/
theorem Inv.not_deleted
    (hs : Inv s) {x c id : Nat} (h : registration s.log x = some (c, id)) :
    .deleted x ∉ s.log := by
  intro hmem
  have hok := hs.services x
  have hstage := hok.deleted hmem
  obtain ⟨-, -, hlive⟩ := hok.registered c id h
  rw [hstage] at hlive
  rcases hlive with h | h | ⟨h, -⟩ <;> exact Stage.noConfusion h

theorem Inv.tick
    (hs : Inv s) {c id : Nat} (h : (s.core c).itor = some (some id)) :
    Inv (s.tick c id) := by
  obtain ⟨x, hfind⟩ := (hs.cores c).find_some h
  have hreg : registration s.log x = some (c, id) :=
    (hs.entries c id x).mp (find_eq_some hfind).1
  refine (hs.setCore ((hs.cores c).tick h) rfl (Nat.le_refl _)).note (fun y => rfl)
    (neverEntered_tick c _) ?_ ?_ hs.once
  · intro y he
    exact Event.noConfusion he
  · exact ⟨⟨id, x, hfind, hreg, hs.not_deleted hreg⟩, hs.ticks⟩

/-- A fresh id is drawn. -/
theorem Inv.start
    (hs : Inv s) {x c : Nat} (hstage : (s.service x).stage = .idle)
    (hstays : staysWithCore s (.start x c)) :
    Inv (s.start x c) := by
  have hok := hs.services x
  have hdel : (s.service x).stage ≠ .deleted := by
    rw [hstage]
    exact Stage.noConfusion
  rw [State.start]
  rw [staysWithCore] at hstays
  split_ifs at hstays ⊢ with hid
  · have hnew : (s.core c).getNextServiceID = (s.core c).mNextServiceID + 1 :=
      Nat.mod_eq_of_lt hstays
    have hcoreNone : (s.service x).mNetCore = none := by
      cases hcore : (s.service x).mNetCore with
      | none => rfl
      | some d => exact absurd hid (hok.numbered d hcore).1
    have hs1 : Inv (s.setCore c { s.core c with
        mNextServiceID := (s.core c).getNextServiceID }) := by
      refine hs.setCore ?_ rfl ?_
      · exact ⟨(hs.cores c).sorted, (hs.cores c).pass, (hs.cores c).found⟩
      · rw [hnew]
        exact Nat.le_succ _
    refine hs1.setService
      ⟨?_, ?_, ?_, ?_, fun _ => rfl, ?_, fun _ => hok.entered (Or.inl hid)⟩ ?_
    · intro d id h
      have := (hok.registered d id h).1
      rw [hcoreNone] at this
      exact absurd this (Option.some_ne_none d).symm
    · intro d hd
      obtain rfl : c = d := Option.some.inj hd
      rw [hnew, core_setCore, if_pos rfl]
      exact ⟨Nat.succ_ne_zero _, Nat.le_refl _⟩
    · intro h
      exact absurd h (Option.some_ne_none c)
    · intro _
      cases hreg : registration s.log x with
      | none => exact hreg
      | some e =>
          have := (hok.registered e.1 e.2 hreg).1
          rw [hcoreNone] at this
          exact absurd this (Option.some_ne_none _).symm
    · exact fun h => absurd (hok.deleted h) hdel
    · intro y d hy hd hyd
      obtain rfl : c = d := Option.some.inj hd
      have hle := ((hs.services y).numbered c hyd).2
      change (s.service y).mServiceID ≠ (s.core c).getNextServiceID
      rw [hnew]
      exact Nat.ne_of_lt (Nat.lt_succ_of_le hle)
  · have hsame : (⟨(s.service x).mServiceID, some c, false, .starting⟩ : TcpService) =
        { s.service x with stage := .starting, mMarkedStop := false } := by
      rw [← hstays]
    rw [hsame]
    exact hs.setStage (fun d id _ => Or.inl rfl) Stage.noConfusion (fun _ => rfl) hdel

/-- The step lemma. -/
theorem Inv.step
    (hs : Inv s) {a : Action} (hstays : staysWithCore s a) (h : step s a = some s') : Inv s' := by
  cases a with
  | start x c =>
      rw [Registry.step] at h
      split_ifs at h with hstage
      cases h
      exact hs.start hstage hstays
  | add x =>
      rw [Registry.step] at h
      split at h
      · cases h
      · next c hcore =>
          split_ifs at h with hadd
          cases h
          exact hs.add hcore hadd.1 hadd.2
  | started x =>
      rw [Registry.step] at h
      split_ifs at h with hstage
      cases h
      have hmarked := (hs.services x).unmarked (Or.inr hstage)
      refine hs.setStage (fun c id hreg => Or.inr (Or.inr ⟨rfl, hmarked⟩)) Stage.noConfusion
        Stage.noConfusion ?_
      rw [hstage]
      exact Stage.noConfusion
  | stop x =>
      rw [Registry.step] at h
      have hdel (hidle : (s.service x).stage = .idle) : (s.service x).stage ≠ .deleted := by
        rw [hidle]
        exact Stage.noConfusion
      split_ifs at h with hstage hcore
      · cases h
        refine hs.setStage (fun c id hreg => ?_) Stage.noConfusion Stage.noConfusion
          (hdel hstage.1)
        have hreg := ((hs.services x).registered c id hreg).1
        rw [hcore] at hreg
        exact absurd hreg (Option.some_ne_none c).symm
      · cases h
        exact hs.setStage (fun c id _ => Or.inr (Or.inl rfl)) Stage.noConfusion Stage.noConfusion
          (hdel hstage.1)
  | remove x =>
      rw [Registry.step] at h
      split at h
      · cases h
      · next c hcore =>
          split_ifs at h with hrem
          cases h
          exact hs.remove hcore hrem.1 hrem.2
  | stopped x =>
      rw [Registry.step] at h
      split_ifs at h with hstage
      cases h
      refine hs.setStage (fun c id hreg => ?_) Stage.noConfusion Stage.noConfusion ?_
      · have hlive := ((hs.services x).registered c id hreg).2.2
        rw [hstage] at hlive
        rcases hlive with h | h | ⟨h, -⟩ <;> exact Stage.noConfusion h
      · rw [hstage]
        exact Stage.noConfusion
  | delete x =>
      rw [Registry.step] at h
      split_ifs at h with hstage
      cases h
      have hnone (c id : Nat) (hreg : registration s.log x = some (c, id)) : False := by
        rcases ((hs.services x).registered c id hreg).2.2 with h | h | ⟨-, h⟩
        · exact Stage.noConfusion (hstage.1.symm.trans h)
        · exact Stage.noConfusion (hstage.1.symm.trans h)
        · exact Bool.noConfusion (hstage.2.symm.trans h)
      have hs1 : Inv (s.setService x { s.service x with stage := .deleted }) := by
        refine hs.setStage (fun c id hreg => (hnone c id hreg).elim) Stage.noConfusion
          Stage.noConfusion ?_
        rw [hstage.1]
        exact Stage.noConfusion
      refine hs1.note (fun y => rfl) (neverEntered_deleted x) ?_ hs.ticks hs.once
      intro y hy
      obtain rfl : x = y := Event.deleted.inj hy
      rw [service_setService, if_pos rfl]
  | lock c =>
      rw [Registry.step] at h
      split_ifs at h
      cases h
      exact hs.setCore (hs.cores c).lock rfl (Nat.le_refl _)
  | tick c =>
      rw [Registry.step] at h
      split at h
      · next id hitor =>
          cases h
          exact hs.tick hitor
      · cases h
  | unlock c =>
      rw [Registry.step] at h
      split_ifs at h
      cases h
      exact hs.setCore (hs.cores c).unlock rfl (Nat.le_refl _)

theorem Inv.reach (h : Reach Registry.step staysWithCore Registry.init s) : Inv s :=
  h.invariant Inv.init fun hs hstays hstep => hs.step hstays hstep

theorem Ticks.tail {e : Event} {log : List Event} (h : Ticks (e :: log)) : Ticks log := by
  cases e with
  | added c id x => exact h
  | removed x => exact h
  | deleted x => exact h
  | tick c e => exact h.2

theorem EnteredOnce.tail {e : Event} {log : List Event} (h : EnteredOnce (e :: log)) :
    EnteredOnce log := by
  cases e with
  | added c id x => exact h.2
  | removed x => exact h
  | deleted x => exact h
  | tick c e => exact h

theorem EnteredOnce.of_append
    {post pre : List Event} {c id x : Nat}
    (h : EnteredOnce (post ++ .added c id x :: pre)) : NeverEntered pre x := by
  induction post with
  | nil => exact h.1
  | cons e' post ih => exact ih h.tail

theorem Ticks.of_append
    {post pre : List Event} {c : Nat} {e : Option (Nat × Nat)}
    (h : Ticks (post ++ .tick c e :: pre)) : TickOk pre c e := by
  induction post with
  | nil => exact h.1
  | cons e' post ih => exact ih h.tail

end Invariant

section Results

variable {s : State}

/--
In every run in which services stay with their cores the map of each core has exactly the services
that were entered and not taken out.  `TickUpdate` is only called on registered services that have
not been deleted, none of those a pass has visited is deleted before the end of the pass, and a
pass that comes to its end has visited all services in the order of their ids.  A service is
entered once at most: one that is started again after a stop is not visited any more.
-/
theorem assist_ticks_registered (h : Reach step staysWithCore init s) :
    (∀ c id x, (id, x) ∈ (s.core c).mServiceMap ↔ registration s.log x = some (c, id)) ∧
      (∀ post pre c e, s.log = post ++ .tick c e :: pre → TickOk pre c e) ∧
      (∀ c id x, (s.core c).itor ≠ none → (id, x) ∈ (s.core c).visited →
        (s.service x).stage ≠ .deleted) ∧
      (∀ c, (s.core c).itor = some none →
        (s.core c).visited = (s.core c).mServiceMap ∧ Sorted (s.core c).visited) ∧
      ∀ post pre c id x, s.log = post ++ .added c id x :: pre → NeverEntered pre x := by
  have hs := Inv.reach h
  refine ⟨hs.entries, ?_, ?_, ?_, ?_⟩
  · intro post pre c e hlog
    have hticks := hs.ticks
    rw [hlog] at hticks
    exact hticks.of_append
  · intro c id x hitor hmem hdel
    obtain ⟨i, hi⟩ := Option.ne_none_iff_exists'.mp hitor
    have hmap : (id, x) ∈ (s.core c).mServiceMap := by
      rw [← (hs.cores c).pass i hi]
      exact List.mem_append_left _ hmem
    obtain ⟨-, -, hlive⟩ := (hs.services x).registered c id ((hs.entries c id x).mp hmap)
    rw [hdel] at hlive
    rcases hlive with h | h | ⟨h, -⟩ <;> exact Stage.noConfusion h
  · intro c hitor
    have hpass := (hs.cores c).pass none hitor
    rw [rest, List.append_nil] at hpass
    exact ⟨hpass, hpass ▸ (hs.cores c).sorted⟩
  · intro post pre c id x hlog
    have honce := hs.once
    rw [hlog] at honce
    exact honce.of_append

section Examples

/-- A service is started and visited once. -/
theorem assist_ticks_registered_example :
    ∃ s, Reach step staysWithCore init s ∧
      s.log = [] ++ .tick 0 (some (1, 7)) :: [.added 0 1 7] ∧
      TickOk [.added 0 1 7] 0 (some (1, 7)) := by
  obtain ⟨s, hreach, hlog⟩ := exists_reach_of_runAll
    (p := fun s : State => decide (s.log = [] ++ .tick 0 (some (1, 7)) :: [.added 0 1 7]))
    (show (runAll step staysWithCore init
      [.start 7 0, .add 7, .lock 0, .started 7, .tick 0]).any _ = true by decide)
  have hlog := of_decide_eq_true hlog
  exact ⟨s, hreach, hlog, (assist_ticks_registered hreach).2.1 _ _ _ _ hlog⟩

end Examples

end Results

end Registry
end IocpNetlib
