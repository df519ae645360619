import IocpNetlib.Lib.Reach
import Mathlib.Data.List.Nodup
import Mathlib.Tactic.Common

/-!
# Starting and stopping the core

`NetCoreIOCP::Initialize` makes an exit event and a thread for each worker;
`UnInitialize` posts a null packet for each thread it has, and then waits for
the events one after the other, for as long as it takes.  A worker that takes a
null packet sets the event of its slot and exits.  One thread calls the core;
the workers run beside it.

`new HANDLE[threadCount]` throws for a negative count, and otherwise gives the
array; packets that are posted to an open port arrive.
-/

namespace IocpNetlib
namespace Net

open Reachability

/-- A manual-reset event. -/
inductive ExitEvent
  | unset
  | set
deriving DecidableEq, Repr

/--
What the calls of one `Initialize` answer: `GetModuleFileName` in `MakeLog`, the
allocation of the assist thread, `CreateIoCompletionPort`, `GetSystemInfo`, and
for each worker `CreateEvent`, the allocation of the `Thread` and `CreateThread`.
-/
structure Outcomes where
  moduleFileName : Bool
  assistThread : Bool
  port : Bool
  dwNumberOfProcessors : Nat
  event : Nat → Bool
  thread : Nat → Bool
  osThread : Nat → Bool

/--
The members of a `NetCoreIOCP`, and what the system knows of it.  `mIOCPHandle`
and `mAssistThread` say that the pointer is not `NULL`, `mThreads` holds the
index each `Thread` was made with, `workers` the indices of the `IOCPWorkProc`
calls that have not returned, and `packets` is the number of null packets in the
port.
-/
structure NetCoreIOCP where
  mIOCPHandle : Bool
  mThreadCount : Int
  mThreadExitHandles : List (Option ExitEvent)
  mInitOnce : Bool
  mThreads : List Nat
  mAssistThread : Bool
  workers : List Nat
  packets : Nat

/-- `NetCoreIOCP::NetCoreIOCP`. -/
def NetCoreIOCP.new : NetCoreIOCP :=
  { mIOCPHandle := false
    mThreadCount := 0
    mThreadExitHandles := []
    mInitOnce := false
    mThreads := []
    mAssistThread := false
    workers := []
    packets := 0 }

/-- `Thread::Start` of a new thread: what it returns, and whether the thread runs. -/
def threadStart (createThread : Bool) : Bool × Bool :=
  -- the handle is stored and not looked at
  (true, createThread)

/-- The loop of `Initialize` that makes the events and the threads, from index `i` on. -/
def NetCoreIOCP.startThreads (o : Outcomes) : Nat → Nat → NetCoreIOCP → NetCoreIOCP
  | 0, _, c => c
  | n + 1, i, c =>
      let c₁ :=
        { c with
          mThreadExitHandles :=
            c.mThreadExitHandles.set i (if o.event i then some .unset else none) }
      if o.thread i then
        if o.event i && (threadStart (o.osThread i)).1 then
          startThreads o n (i + 1)
            { c₁ with
              mThreads := c₁.mThreads ++ [i]
              workers :=
                if (threadStart (o.osThread i)).2 then c₁.workers ++ [i] else c₁.workers }
        else c₁
      else startThreads o n (i + 1) c₁

/-- The number of workers: with 0 it is the number of processors. -/
def Outcomes.count (o : Outcomes) (threadCount : Int) : Int :=
  if threadCount = 0 then o.dwNumberOfProcessors else threadCount

/-- The events and threads of `Initialize`, and whether it goes on with `UnInitialize`. -/
def NetCoreIOCP.makeThreads (threadCount : Int) (o : Outcomes) (c : NetCoreIOCP) :
    NetCoreIOCP × Bool :=
  let n := threadCount.toNat
  let c₁ :=
    startThreads o n 0
      { c with
        mThreadCount := threadCount
        mThreadExitHandles := List.replicate n none }
  if c₁.mThreads.length ≠ n then (c₁, true)
  else ({ c₁ with mInitOnce := true }, false)

/-- `Initialize` behind `MakeLog`, and whether it goes on with `UnInitialize`. -/
def NetCoreIOCP.startUp (threadCount : Int) (o : Outcomes) (c : NetCoreIOCP) :
    NetCoreIOCP × Bool :=
  if !(c.mAssistThread || o.assistThread) then (c, true)
  else
    let c₁ := { c with mAssistThread := true, mIOCPHandle := o.port, packets := 0 }
    if !o.port then (c₁, true)
    else if o.count threadCount < 0 then
      -- `new` throws, and the exception leaves `Initialize`
      ({ c₁ with mThreadCount := o.count threadCount }, false)
    else c₁.makeThreads (o.count threadCount) o

/-- An `Initialize` that goes on after the `UnInitialize` of its `MakeLog`. -/
abbrev Resume := Option (Int × Outcomes)

/-- Where the calling thread is: in no call, at the head of `UnInitialize`, or in its wait loop. -/
inductive Stage
  | idle
  | called (resume : Resume)
  | waiting (i : Nat) (resume : Resume)

/-- A core, and the thread that calls it. -/
structure CoreState where
  core : NetCoreIOCP
  stage : Stage

/-- A core that has not been used. -/
def CoreState.init : CoreState :=
  { core := .new, stage := .idle }

/-- The calls of the core, the steps of `UnInitialize`, and the exit of a worker. -/
inductive CoreAction
  | callInitialize (threadCount : Int) (o : Outcomes)
  | callUnInitialize
  | post
  | wait
  | exitWorker (threadIndex : Nat)

/-- `Initialize` behind `MakeLog`. -/
def NetCoreIOCP.started (threadCount : Int) (o : Outcomes) (c : NetCoreIOCP) : CoreState :=
  { core := (c.startUp threadCount o).1
    stage := if (c.startUp threadCount o).2 then .called none else .idle }

/-- The end of `UnInitialize`: the port is closed, and threads that still run are terminated. -/
def NetCoreIOCP.finish (c : NetCoreIOCP) (resume : Resume) : CoreState :=
  let c₁ :=
    { c with
      mIOCPHandle := false
      packets := 0
      workers := c.workers.filter fun w => !c.mThreads.contains w
      mThreads := []
      mInitOnce := false }
  match resume with
  | none => { core := c₁, stage := .idle }
  | some (threadCount, o) => c₁.started threadCount o

/-- One step. -/
def coreStep (s : CoreState) : CoreAction → Option CoreState
  | .callInitialize threadCount o =>
      match s.stage with
      | .idle =>
          if s.core.mInitOnce then some s
          else if !o.moduleFileName then some { s with stage := .called (some (threadCount, o)) }
          else some (s.core.started threadCount o)
      | _ => none
  | .callUnInitialize =>
      match s.stage with
      | .idle => some { s with stage := .called none }
      | _ => none
  | .post =>
      match s.stage with
      | .called resume =>
          let c := { s.core with mAssistThread := false }
          if c.mIOCPHandle then
            some
              { core := { c with packets := c.packets + c.mThreads.length }
                stage := .waiting 0 resume }
          else some (c.finish resume)
      | _ => none
  | .wait =>
      match s.stage with
      | .waiting i resume =>
          if (i : Int) < s.core.mThreadCount then
            match s.core.mThreadExitHandles[i]? with
            -- a read outside the array
            | none => none
            | some none => some { s with stage := .waiting (i + 1) resume }
            | some (some .set) =>
                some
                  { core :=
                      { s.core with
                        mThreadExitHandles := s.core.mThreadExitHandles.set i none }
                    stage := .waiting (i + 1) resume }
            -- `WaitForSingleObject` does not return
            | some (some .unset) => none
          else some (s.core.finish resume)
      | _ => none
  | .exitWorker w =>
      if w ∈ s.core.workers ∧ 0 < s.core.packets then
        some
          { s with
            core :=
              { s.core with
                packets := s.core.packets - 1
                workers := s.core.workers.erase w
                mThreadExitHandles :=
                  match s.core.mThreadExitHandles[w]? with
                  | some (some _) => s.core.mThreadExitHandles.set w (some .set)
                  | _ => s.core.mThreadExitHandles } }
      else none

/-- `UnInitialize` waits for the event in this slot. -/
def NetCoreIOCP.waitsOn (c : NetCoreIOCP) (i : Nat) : Bool :=
  c.mIOCPHandle && decide ((i : Int) < c.mThreadCount) && (c.mThreadExitHandles[i]?.join).isSome

/-- The null packets `UnInitialize` posts. -/
def NetCoreIOCP.posts (c : NetCoreIOCP) : Nat :=
  if c.mIOCPHandle then c.mThreads.length else 0

/-- What is to hold when `UnInitialize` is called: it waits for workers that run, and wakes each. -/
structure NetCoreIOCP.WaitsForWorkers (c : NetCoreIOCP) : Prop where
  runs : ∀ i, c.waitsOn i = true → i ∈ c.workers
  distinct : c.workers.Nodup
  posted : c.posts = (c.workers.filter c.waitsOn).length

/--
What is to hold while `UnInitialize` is at slot `i`: an event it has still to wait
for is set, or its worker runs; there is a packet for each running worker, and
once the packets are consumed all these events are set.
-/
structure NetCoreIOCP.Drains (c : NetCoreIOCP) (i : Nat) : Prop where
  pending : ∀ j, i ≤ j → c.waitsOn j = true →
    c.mThreadExitHandles[j]? = some (some .set) ∨ j ∈ c.workers
  packets : c.packets = c.workers.length
  drained : c.packets = 0 → ∀ j, i ≤ j → c.waitsOn j = true →
    c.mThreadExitHandles[j]? = some (some .set)

/-- `UnInitialize` waits for nothing that does not come. -/
def CoreState.WaitsSafely (s : CoreState) : Prop :=
  match s.stage with
  | .idle => True
  | .called _ => s.core.WaitsForWorkers
  | .waiting i _ =>
      s.core.Drains i ∧
        ((∃ s', coreStep s .wait = some s') ∨ ∃ w s', coreStep s (.exitWorker w) = some s')

/-- The indices the loop of `Initialize` comes to: it is only left where `delete pThread` is. -/
def Outcomes.visited (o : Outcomes) : Nat → Nat → List Nat
  | 0, _ => []
  | n + 1, i => i :: if o.thread i && !o.event i then [] else visited o n (i + 1)

/-- Wherever an event is made, there is a thread for it, and the thread runs. -/
def Outcomes.sound (o : Outcomes) (n : Nat) : Bool :=
  (o.visited n 0).all fun i => !o.event i || (o.thread i && o.osThread i)

/-- `Initialize` does not get as far as its threads, or makes a running thread for each event. -/
def Outcomes.safe (o : Outcomes) (assistThread : Bool) (threadCount : Int) : Bool :=
  !(assistThread || o.assistThread) || !o.port || decide (o.count threadCount < 0) ||
    o.sound (o.count threadCount).toNat

/-- The condition on the steps of a run: every `Initialize` that starts the core does it safely. -/
def initSafe (s : CoreState) : CoreAction → Prop
  | .callInitialize threadCount o =>
      s.core.mInitOnce = true ∨
        o.safe (s.core.mAssistThread && o.moduleFileName) threadCount = true
  | _ => True

section Loop

variable {o : Outcomes} {c : NetCoreIOCP}

theorem visited_range (o : Outcomes) (n i : Nat) {j : Nat} (hj : j ∈ o.visited n i) :
    i ≤ j ∧ j < i + n := by
  induction n generalizing i with
  | zero => exact absurd hj List.not_mem_nil
  | succ n ih =>
      rw [Outcomes.visited] at hj
      rcases List.mem_cons.mp hj with rfl | hj
      · omega
      · split_ifs at hj
        · exact absurd hj List.not_mem_nil
        · have hrange := ih (i + 1) hj
          omega

theorem visited_nodup (o : Outcomes) (n i : Nat) : (o.visited n i).Nodup := by
  induction n generalizing i with
  | zero => exact List.nodup_nil
  | succ n ih =>
      rw [Outcomes.visited, List.nodup_cons]
      split_ifs
      · exact ⟨List.not_mem_nil, List.nodup_nil⟩
      · refine ⟨fun hmem => ?_, ih (i + 1)⟩
        have hrange := visited_range o n (i + 1) hmem
        omega

/-- What the loop makes of the core, for the indices it comes to. -/
structure Started (o : Outcomes) (js : List Nat) (c c' : NetCoreIOCP) : Prop where
  port : c'.mIOCPHandle = c.mIOCPHandle
  count : c'.mThreadCount = c.mThreadCount
  initOnce : c'.mInitOnce = c.mInitOnce
  packets : c'.packets = c.packets
  threads : c'.mThreads = c.mThreads ++ js.filter fun j => o.event j && o.thread j
  workers : c'.workers =
    c.workers ++ js.filter fun j => o.event j && (o.thread j && o.osThread j)
  slots : ∀ j, c'.mThreadExitHandles[j]? =
    if j ∈ js then some (if o.event j then some .unset else none) else c.mThreadExitHandles[j]?

/-- One round of the loop, and the rounds behind it. -/
theorem Started.cons
    {js : List Nat} {i : Nat} {c' c'' : NetCoreIOCP} (h : Started o [i] c c')
    (h' : Started o js c' c'') :
    Started o (i :: js) c c'' where
  port := h'.port.trans h.port
  count := h'.count.trans h.count
  initOnce := h'.initOnce.trans h.initOnce
  packets := h'.packets.trans h.packets
  threads := by
    rw [h'.threads, h.threads, List.append_assoc, ← List.filter_append, List.singleton_append]
  workers := by
    rw [h'.workers, h.workers, List.append_assoc, ← List.filter_append, List.singleton_append]
  slots := by
    intro j
    rw [h'.slots, h.slots]
    by_cases hj : j ∈ js
    · rw [if_pos hj, if_pos (List.mem_cons_of_mem _ hj)]
    · rw [if_neg hj]
      by_cases hi : j = i
      · rw [hi, if_pos (List.mem_singleton_self i), if_pos List.mem_cons_self]
      · rw [if_neg (by simpa using hi), if_neg (by simp [hi, hj])]

theorem slots_set {xs : List (Option ExitEvent)} {i : Nat} (hi : i < xs.length)
    (x : Option ExitEvent) (j : Nat) :
    (xs.set i x)[j]? = if j ∈ [i] then some x else xs[j]? := by
  rw [List.getElem?_set]
  by_cases hj : i = j
  · rw [if_pos hj, if_pos hi, if_pos (by simp [hj])]
  · rw [if_neg hj, if_neg (by simpa [eq_comm] using hj)]

theorem startThreads_spec (o : Outcomes) (n i : Nat) (c : NetCoreIOCP)
    (hlen : i + n ≤ c.mThreadExitHandles.length) :
    Started o (o.visited n i) c (c.startThreads o n i) := by
  induction n generalizing i c with
  | zero =>
      exact ⟨rfl, rfl, rfl, rfl, (List.append_nil _).symm, (List.append_nil _).symm, fun _ => rfl⟩
  | succ n ih =>
      have hset := slots_set (show i < c.mThreadExitHandles.length by omega)
      have hlen' : ∀ x, i + 1 + n ≤ (c.mThreadExitHandles.set i x).length := by
        intro x
        rw [List.length_set]
        omega
      rw [NetCoreIOCP.startThreads, Outcomes.visited]
      cases hthread : o.thread i with
      | false =>
          simp only [Bool.false_eq_true, if_false, Bool.false_and]
          refine Started.cons ?_ (ih (i + 1) _ (hlen' _))
          refine ⟨rfl, rfl, rfl, rfl, ?_, ?_, ?_⟩
          · simp [hthread]
          · simp [hthread]
          · intro j
            rw [hset]
            by_cases hj : j = i <;> simp [hj]
      | true =>
          cases hevent : o.event i with
          | false =>
              simp only [Bool.false_and, Bool.false_eq_true, if_false, if_true, Bool.not_false,
                Bool.and_self]
              refine ⟨rfl, rfl, rfl, rfl, ?_, ?_, ?_⟩
              · simp [hevent]
              · simp [hevent]
              · intro j
                rw [hset]
                by_cases hj : j = i <;> simp [hj, hevent]
          | true =>
              simp only [threadStart, Bool.and_self, if_true, Bool.not_true, Bool.and_false,
                Bool.false_eq_true, if_false]
              refine Started.cons ?_ (ih (i + 1) _ (hlen' _))
              refine ⟨rfl, rfl, rfl, rfl, ?_, ?_, ?_⟩
              · simp [hevent, hthread]
              · cases hos : o.osThread i <;> simp [hevent, hthread, hos]
              · intro j
                rw [hset]
                by_cases hj : j = i <;> simp [hj, hevent]

end Loop

section Running

variable {o : Outcomes} {c : NetCoreIOCP} {i : Nat}

/-- Outside of `UnInitialize` the threads are the workers, and the events are theirs. -/
structure NetCoreIOCP.Running (c : NetCoreIOCP) : Prop where
  threads : c.mThreads = c.workers
  nodup : c.workers.Nodup
  bound : ∀ w ∈ c.workers, (w : Int) < c.mThreadCount
  slots : ∀ j : Nat, (j : Int) < c.mThreadCount →
    c.mThreadExitHandles[j]? = some (if j ∈ c.workers then some .unset else none)
  port : c.workers ≠ [] → c.mIOCPHandle = true
  packets : c.packets = 0

/-- While `UnInitialize` is at slot `i`, the workers are those whose events are not set. -/
structure NetCoreIOCP.Stopping (c : NetCoreIOCP) (i : Nat) : Prop where
  port : c.mIOCPHandle = true
  nodup : c.workers.Nodup
  bound : ∀ w ∈ c.workers, i ≤ w ∧ (w : Int) < c.mThreadCount
  past : ∀ j : Nat, j < i → (j : Int) < c.mThreadCount → c.mThreadExitHandles[j]? = some none
  slots : ∀ j : Nat, i ≤ j → (j : Int) < c.mThreadCount →
    (j ∈ c.workers ∧ c.mThreadExitHandles[j]? = some (some .unset)) ∨
      (j ∉ c.workers ∧
        (c.mThreadExitHandles[j]? = some none ∨ c.mThreadExitHandles[j]? = some (some .set)))
  packets : c.packets = c.workers.length

theorem waitsOn_iff (c : NetCoreIOCP) (i : Nat) :
    c.waitsOn i = true ↔
      c.mIOCPHandle = true ∧ (i : Int) < c.mThreadCount ∧
        ∃ ev, c.mThreadExitHandles[i]? = some (some ev) := by
  rw [NetCoreIOCP.waitsOn, Bool.and_eq_true, Bool.and_eq_true, decide_eq_true_eq, and_assoc,
    Option.isSome_iff_exists]
  simp only [Option.join_eq_some_iff]

theorem NetCoreIOCP.Running.waitsOn (h : c.Running) (hport : c.mIOCPHandle = true) :
    c.waitsOn i = true ↔ i ∈ c.workers := by
  rw [waitsOn_iff]
  constructor
  · rintro ⟨-, hi, ev, hslot⟩
    rw [h.slots i hi] at hslot
    by_contra hmem
    rw [if_neg hmem] at hslot
    cases hslot
  · intro hmem
    refine ⟨hport, h.bound i hmem, .unset, ?_⟩
    rw [h.slots i (h.bound i hmem), if_pos hmem]

/-- Then `UnInitialize` waits for the workers that run, and posts a packet to each. -/
theorem NetCoreIOCP.Running.waits (h : c.Running) : c.WaitsForWorkers := by
  cases hport : c.mIOCPHandle with
  | true =>
      refine ⟨fun i hi => (h.waitsOn hport).mp hi, h.nodup, ?_⟩
      have hall : c.workers.filter c.waitsOn = c.workers :=
        List.filter_eq_self.mpr fun w hw => (h.waitsOn hport).mpr hw
      rw [hall, NetCoreIOCP.posts, if_pos hport, h.threads]
  | false =>
      have hnone : c.workers = [] := by
        by_contra hsome
        exact Bool.false_ne_true (hport.symm.trans (h.port hsome))
      refine ⟨fun i hi => ?_, h.nodup, ?_⟩
      · rw [waitsOn_iff, hport] at hi
        exact absurd hi.1 Bool.false_ne_true
      · rw [hnone, NetCoreIOCP.posts, hport]
        rfl

/-- No worker, no event, and no packet. -/
theorem running_of_none
    (hthreads : c.mThreads = []) (hworkers : c.workers = []) (hpackets : c.packets = 0)
    (hslots : ∀ j : Nat, (j : Int) < c.mThreadCount → c.mThreadExitHandles[j]? = some none) :
    c.Running where
  threads := by rw [hthreads, hworkers]
  nodup := by
    rw [hworkers]
    exact List.nodup_nil
  bound := fun w hw => by
    rw [hworkers] at hw
    exact absurd hw List.not_mem_nil
  slots := fun j hj => by
    rw [hslots j hj, hworkers, if_neg List.not_mem_nil]
  port := fun h => absurd hworkers h
  packets := hpackets

theorem sound_iff (o : Outcomes) (n : Nat) :
    o.sound n = true ↔
      ∀ j ∈ o.visited n 0, o.event j = true → (o.thread j && o.osThread j) = true := by
  rw [Outcomes.sound, List.all_eq_true]
  refine forall_congr' fun j => imp_congr_right fun _ => ?_
  cases o.event j <;> simp

section Started

variable {c' : NetCoreIOCP} {n : Nat}

/-- After a loop that is sound, the workers are those of the events. -/
theorem Started.worker_iff
    (h : Started o (o.visited n 0) c c') (hworkers : c.workers = []) (hsound : o.sound n = true)
    (j : Nat) :
    j ∈ c'.workers ↔ j ∈ o.visited n 0 ∧ o.event j = true := by
  rw [h.workers, hworkers, List.nil_append, List.mem_filter]
  refine and_congr_right fun hj => ?_
  constructor
  · intro hboth
    exact ((Bool.and_eq_true _ _).mp hboth).1
  · intro hevent
    rw [hevent, (sound_iff o n).mp hsound j hj hevent]
    rfl

theorem Started.threads_eq
    (h : Started o (o.visited n 0) c c') (hthreads : c.mThreads = []) (hworkers : c.workers = [])
    (hsound : o.sound n = true) :
    c'.mThreads = c'.workers := by
  rw [h.threads, h.workers, hthreads, hworkers]
  refine congrArg _ (List.filter_congr fun j hj => ?_)
  cases hevent : o.event j with
  | false => rfl
  | true =>
      have hboth := (sound_iff o n).mp hsound j hj hevent
      rw [hboth, ((Bool.and_eq_true _ _).mp hboth).1]

/-- The slots of the events hold them, and the others are `NULL`. -/
theorem Started.slot
    (h : Started o (o.visited n 0) c c') (hslots : c.mThreadExitHandles = List.replicate n none)
    {j : Nat} (hj : j < n) :
    c'.mThreadExitHandles[j]? =
      some (if j ∈ o.visited n 0 ∧ o.event j = true then some .unset else none) := by
  rw [h.slots, hslots, List.getElem?_replicate, if_pos hj]
  by_cases hv : j ∈ o.visited n 0
  · rw [if_pos hv]
    by_cases hevent : o.event j = true
    · rw [if_pos hevent, if_pos ⟨hv, hevent⟩]
    · rw [if_neg hevent, if_neg fun hboth => hevent hboth.2]
  · rw [if_neg hv, if_neg fun hboth => hv hboth.1]

/-- What a sound loop makes of a core without workers. -/
theorem Started.running
    (h : Started o (o.visited n 0) c c')
    (hthreads : c.mThreads = []) (hworkers : c.workers = []) (hpackets : c.packets = 0)
    (hport : c.mIOCPHandle = true) (hcount : c.mThreadCount = n)
    (hslots : c.mThreadExitHandles = List.replicate n none) (hsound : o.sound n = true) :
    c'.Running where
  threads := h.threads_eq hthreads hworkers hsound
  nodup := by
    rw [h.workers, hworkers]
    exact (visited_nodup o n 0).filter _
  bound := by
    intro w hw
    have hrange := visited_range o n 0 ((h.worker_iff hworkers hsound w).mp hw).1
    rw [h.count, hcount]
    omega
  slots := by
    intro j hj
    rw [h.count, hcount] at hj
    rw [h.slot hslots (by omega)]
    by_cases hmem : j ∈ c'.workers
    · rw [if_pos hmem, if_pos ((h.worker_iff hworkers hsound j).mp hmem)]
    · rw [if_neg hmem, if_neg fun hboth => hmem ((h.worker_iff hworkers hsound j).mpr hboth)]
  port := by
    intro _
    rw [h.port]
    exact hport
  packets := by
    rw [h.packets]
    exact hpackets

/-- A loop that is not sound leaves an event without a worker. -/
theorem Started.sound
    (h : Started o (o.visited n 0) c c') (hworkers : c.workers = [])
    (hport : c.mIOCPHandle = true) (hcount : c.mThreadCount = n)
    (hwaits : c'.WaitsForWorkers) :
    o.sound n = true := by
  rw [sound_iff]
  intro j hj hevent
  have hrange := visited_range o n 0 hj
  have hrun : j ∈ c'.workers := by
    apply hwaits.runs
    rw [waitsOn_iff, h.port, h.count, hcount]
    refine ⟨hport, by omega, .unset, ?_⟩
    rw [h.slots, if_pos hj, if_pos hevent]
  rw [h.workers, hworkers, List.nil_append, List.mem_filter] at hrun
  exact ((Bool.and_eq_true _ _).mp hrun.2).2

end Started

end Running

section StartUp

variable {o : Outcomes} {c : NetCoreIOCP} {threadCount : Int}

/-- A core whose workers are all gone. -/
structure NetCoreIOCP.Calm (c : NetCoreIOCP) : Prop where
  running : c.Running
  workers : c.workers = []

theorem NetCoreIOCP.Calm.slots (h : c.Calm) {j : Nat} (hj : (j : Int) < c.mThreadCount) :
    c.mThreadExitHandles[j]? = some none := by
  rw [h.running.slots j hj, h.workers, if_neg List.not_mem_nil]

theorem NetCoreIOCP.Calm.threads (h : c.Calm) : c.mThreads = [] :=
  h.running.threads.trans h.workers

/-- `mInitOnce` plays no part in stopping. -/
theorem NetCoreIOCP.Running.initOnce (h : c.Running) (b : Bool) :
    ({ c with mInitOnce := b } : NetCoreIOCP).Running :=
  ⟨h.threads, h.nodup, h.bound, h.slots, h.port, h.packets⟩

/-- The threads are started safely, or one event is left without a worker. -/
theorem makeThreads_spec
    (h : c.Calm) (hport : c.mIOCPHandle = true) (hpos : 0 ≤ threadCount) :
    (o.sound threadCount.toNat = true →
        (c.makeThreads threadCount o).1.Running ∧
          ((c.makeThreads threadCount o).2 = true ∨
            (c.makeThreads threadCount o).1.mInitOnce = true)) ∧
      ((c.makeThreads threadCount o).1.WaitsForWorkers → o.sound threadCount.toNat = true) := by
  let c₀ :=
    { c with
      mThreadCount := threadCount
      mThreadExitHandles := List.replicate threadCount.toNat none }
  have hcount : c₀.mThreadCount = threadCount.toNat := (Int.toNat_of_nonneg hpos).symm
  have hloop : Started o (o.visited threadCount.toNat 0) c₀
      (c₀.startThreads o threadCount.toNat 0) :=
    startThreads_spec o threadCount.toNat 0 c₀ (by rw [List.length_replicate]; omega)
  have hrunning := hloop.running h.threads h.workers h.running.packets hport hcount rfl
  have hsound := hloop.sound h.workers hport hcount
  rw [NetCoreIOCP.makeThreads]
  split_ifs
  · exact ⟨fun hs => ⟨hrunning hs, Or.inl rfl⟩, hsound⟩
  · refine ⟨fun hs => ⟨(hrunning hs).initOnce true, Or.inr rfl⟩, fun hwaits => ?_⟩
    exact hsound ⟨hwaits.runs, hwaits.distinct, hwaits.posted⟩

/-- A start that is safe makes a worker for each event, and no other start does. -/
theorem startUp_spec (threadCount : Int) (o : Outcomes) (h : c.Calm) :
    (o.safe c.mAssistThread threadCount = true →
        (c.startUp threadCount o).1.Running ∧
          ((c.startUp threadCount o).2 = true ∨ (c.startUp threadCount o).1.mInitOnce = true ∨
            (c.startUp threadCount o).1.workers = [])) ∧
      ((c.startUp threadCount o).1.WaitsForWorkers →
        o.safe c.mAssistThread threadCount = true) := by
  rw [NetCoreIOCP.startUp, Outcomes.safe]
  cases hassist : c.mAssistThread || o.assistThread with
  | false => exact ⟨fun _ => ⟨h.running, Or.inl rfl⟩, fun _ => rfl⟩
  | true =>
      cases hport : o.port with
      | false =>
          refine ⟨fun _ => ⟨?_, Or.inl rfl⟩, fun _ => rfl⟩
          exact running_of_none h.threads h.workers rfl fun j hj => h.slots hj
      | true =>
          simp only [Bool.not_true, Bool.false_eq_true, if_false, Bool.false_or]
          by_cases hneg : o.count threadCount < 0
          · rw [if_pos hneg, decide_eq_true hneg]
            refine ⟨fun _ => ⟨?_, Or.inr (Or.inr h.workers)⟩, fun _ => rfl⟩
            refine running_of_none h.threads h.workers rfl fun j hj => ?_
            have hlt : (j : Int) < o.count threadCount := hj
            omega
          · rw [if_neg hneg, decide_eq_false hneg, Bool.false_or]
            have hcalm : ({ c with
                mAssistThread := true, mIOCPHandle := true, packets := 0 } : NetCoreIOCP).Calm :=
              ⟨running_of_none h.threads h.workers rfl fun j hj => h.slots hj, h.workers⟩
            obtain ⟨hsafe, hwaits⟩ := makeThreads_spec (o := o) hcalm rfl (Int.not_lt.mp hneg)
            refine ⟨fun hsound => ?_, hwaits⟩
            obtain ⟨hrunning, hend⟩ := hsafe hsound
            exact ⟨hrunning, hend.imp_right Or.inl⟩

end StartUp

section Run

variable {s s' : CoreState} {o : Outcomes} {c : NetCoreIOCP} {i : Nat} {r : Resume}

/-- The `Initialize` that goes on behind `MakeLog` is safe; there is no assist thread then. -/
def Resume.safe (r : Resume) : Prop :=
  ∀ threadCount o, r = some (threadCount, o) → o.safe false threadCount = true

/-- What holds in the runs whose starts are all safe. -/
def CoreState.Sound (s : CoreState) : Prop :=
  match s.stage with
  | .idle => s.core.Running ∧ (s.core.mInitOnce = false → s.core.workers = [])
  | .called r => s.core.Running ∧ r.safe
  | .waiting i r => s.core.Stopping i ∧ s.core.mAssistThread = false ∧ r.safe

theorem started_sound
    (h : c.Calm) {threadCount : Int} (hsafe : o.safe c.mAssistThread threadCount = true) :
    (c.started threadCount o).Sound := by
  obtain ⟨hrunning, hend⟩ := (startUp_spec threadCount o h).1 hsafe
  rw [NetCoreIOCP.started, CoreState.Sound]
  cases hfails : (c.startUp threadCount o).2 with
  | true => exact ⟨hrunning, fun _ _ hnone => absurd hnone (by simp)⟩
  | false =>
      refine ⟨hrunning, fun honce => ?_⟩
      rcases hend with hfalse | hinit | hworkers
      · exact absurd (hfails.symm.trans hfalse) Bool.false_ne_true
      · exact absurd (honce.symm.trans hinit) Bool.false_ne_true
      · exact hworkers

/-- The end of an `UnInitialize` whose workers are all gone. -/
theorem finish_sound
    (hworkers : c.workers = []) (hassist : c.mAssistThread = false) (hr : r.safe)
    (hslots : ∀ j : Nat, (j : Int) < c.mThreadCount → c.mThreadExitHandles[j]? = some none) :
    (c.finish r).Sound := by
  have hgone : (c.workers.filter fun w => !c.mThreads.contains w) = [] := by
    rw [hworkers, List.filter_nil]
  have hcalm : ({ c with
      mIOCPHandle := false
      packets := 0
      workers := c.workers.filter fun w => !c.mThreads.contains w
      mThreads := []
      mInitOnce := false } : NetCoreIOCP).Calm :=
    ⟨running_of_none rfl hgone rfl hslots, hgone⟩
  cases r with
  | none => exact ⟨hcalm.running, fun _ => hgone⟩
  | some x =>
      obtain ⟨threadCount, o⟩ := x
      refine started_sound hcalm ?_
      show o.safe c.mAssistThread threadCount = true
      rw [hassist]
      exact hr threadCount o rfl

theorem Resume.safe_none : Resume.safe none :=
  fun _ _ h => absurd h (by simp)

/-- The null packets are posted, one for each worker. -/
theorem NetCoreIOCP.Running.stopping (h : c.Running) (hport : c.mIOCPHandle = true) :
    ({ c with
      mAssistThread := false
      packets := c.packets + c.mThreads.length } : NetCoreIOCP).Stopping 0 where
  port := hport
  nodup := h.nodup
  bound := fun w hw => ⟨Nat.zero_le w, h.bound w hw⟩
  past := fun j hj => absurd hj (Nat.not_lt_zero j)
  slots := by
    intro j _ hj
    show (j ∈ c.workers ∧ c.mThreadExitHandles[j]? = _) ∨
      (j ∉ c.workers ∧ (c.mThreadExitHandles[j]? = _ ∨ c.mThreadExitHandles[j]? = _))
    rw [h.slots j hj]
    by_cases hmem : j ∈ c.workers
    · exact Or.inl ⟨hmem, by rw [if_pos hmem]⟩
    · exact Or.inr ⟨hmem, Or.inl (by rw [if_neg hmem])⟩
  packets := by
    show c.packets + c.mThreads.length = c.workers.length
    rw [h.packets, h.threads, Nat.zero_add]

/-- `UnInitialize` has done with slot `i`, whose worker is gone. -/
theorem NetCoreIOCP.Stopping.next
    (h : c.Stopping i) (hgone : i ∉ c.workers) {slots : List (Option ExitEvent)}
    (hself : slots[i]? = some none)
    (hother : ∀ j, j ≠ i → slots[j]? = c.mThreadExitHandles[j]?) :
    ({ c with mThreadExitHandles := slots } : NetCoreIOCP).Stopping (i + 1) where
  port := h.port
  nodup := h.nodup
  bound := by
    intro w hw
    have hbound := h.bound w hw
    have hne : w ≠ i := fun heq => hgone (heq ▸ hw)
    exact ⟨by omega, hbound.2⟩
  past := by
    intro j hj hcount
    show slots[j]? = some none
    by_cases heq : j = i
    · rw [heq, hself]
    · rw [hother j heq]
      exact h.past j (by omega) hcount
  slots := by
    intro j hj hcount
    have hne : j ≠ i := by omega
    show (j ∈ c.workers ∧ slots[j]? = _) ∨ (j ∉ c.workers ∧ (slots[j]? = _ ∨ slots[j]? = _))
    rw [hother j hne]
    exact h.slots j (by omega) hcount
  packets := h.packets

/-- A worker that exits sets its own event, and no other. -/
theorem NetCoreIOCP.Stopping.exit
    (h : c.Stopping i) {w : Nat} (hw : w ∈ c.workers) :
    ({ c with
      packets := c.packets - 1
      workers := c.workers.erase w
      mThreadExitHandles := c.mThreadExitHandles.set w (some .set) } : NetCoreIOCP).Stopping i where
  port := h.port
  nodup := h.nodup.erase w
  bound := fun v hv => h.bound v (List.mem_of_mem_erase hv)
  past := by
    intro j hj hcount
    have hne : w ≠ j := fun heq => by
      have hbound := (h.bound w hw).1
      omega
    show (c.mThreadExitHandles.set w _)[j]? = _
    rw [List.getElem?_set_ne hne]
    exact h.past j hj hcount
  slots := by
    intro j hj hcount
    show (j ∈ c.workers.erase w ∧ (c.mThreadExitHandles.set w _)[j]? = _) ∨
      (j ∉ c.workers.erase w ∧
        ((c.mThreadExitHandles.set w _)[j]? = _ ∨ (c.mThreadExitHandles.set w _)[j]? = _))
    by_cases heq : j = w
    · rcases h.slots j hj hcount with ⟨-, hslot⟩ | ⟨hnot, -⟩
      · obtain ⟨hlt, -⟩ := List.getElem?_eq_some_iff.mp hslot
        refine Or.inr ⟨?_, Or.inr ?_⟩
        · rw [heq, h.nodup.mem_erase_iff]
          exact fun hmem => hmem.1 rfl
        · rw [← heq, List.getElem?_set_self hlt]
      · exact absurd (heq ▸ hw) hnot
    · rw [List.getElem?_set_ne (Ne.symm heq), h.nodup.mem_erase_iff]
      rcases h.slots j hj hcount with ⟨hmem, hslot⟩ | ⟨hnot, hslot⟩
      · exact Or.inl ⟨⟨heq, hmem⟩, hslot⟩
      · exact Or.inr ⟨fun hmem => hnot hmem.2, hslot⟩
  packets := by
    show c.packets - 1 = (c.workers.erase w).length
    rw [h.packets, List.length_erase_of_mem hw]

theorem CoreState.Sound.callInitialize
    (h : s.Sound) {threadCount : Int} (hsafe : initSafe s (.callInitialize threadCount o))
    (hs : coreStep s (.callInitialize threadCount o) = some s') :
    s'.Sound := by
  obtain ⟨c, stage⟩ := s
  cases stage with
  | called r => cases hs
  | waiting i r => cases hs
  | idle =>
      obtain ⟨hrunning, hworkers⟩ := h
      simp only [coreStep] at hs
      simp only [initSafe] at hsafe
      split_ifs at hs with honce hpath
      · cases hs
        exact ⟨hrunning, hworkers⟩
      · cases hs
        have hpath' : o.moduleFileName = false := by simpa using hpath
        have hsafe' := hsafe.resolve_left honce
        rw [hpath', Bool.and_false] at hsafe'
        refine ⟨hrunning, ?_⟩
        rintro _ _ ⟨⟩
        exact hsafe'
      · cases hs
        have hpath' : o.moduleFileName = true := by simpa using hpath
        have hsafe' := hsafe.resolve_left honce
        rw [hpath', Bool.and_true] at hsafe'
        exact started_sound ⟨hrunning, hworkers (by simpa using honce)⟩ hsafe'

theorem CoreState.Sound.post (h : s.Sound) (hs : coreStep s .post = some s') : s'.Sound := by
  obtain ⟨c, stage⟩ := s
  cases stage with
  | idle => cases hs
  | waiting i r => cases hs
  | called r =>
      obtain ⟨hrunning, hr⟩ := h
      simp only [coreStep] at hs
      split_ifs at hs with hport
      · cases hs
        exact ⟨hrunning.stopping hport, rfl, hr⟩
      · cases hs
        have hnone : c.workers = [] := by
          by_contra hsome
          exact hport (hrunning.port hsome)
        refine finish_sound hnone rfl hr fun j hj => ?_
        show c.mThreadExitHandles[j]? = some none
        rw [hrunning.slots j hj, hnone, if_neg List.not_mem_nil]

theorem CoreState.Sound.wait (h : s.Sound) (hs : coreStep s .wait = some s') : s'.Sound := by
  obtain ⟨c, stage⟩ := s
  cases stage with
  | idle => cases hs
  | called r => cases hs
  | waiting i r =>
      obtain ⟨hstopping, hassist, hr⟩ : c.Stopping i ∧ c.mAssistThread = false ∧ r.safe := h
      simp only [coreStep] at hs
      by_cases hi : (i : Int) < c.mThreadCount
      · rw [if_pos hi] at hs
        rcases hstopping.slots i (Nat.le_refl i) hi with ⟨-, hslot⟩ | ⟨hgone, hslot | hslot⟩
        · rw [hslot] at hs
          cases hs
        · rw [hslot] at hs
          cases hs
          exact ⟨hstopping.next hgone hslot fun _ _ => rfl, hassist, hr⟩
        · rw [hslot] at hs
          cases hs
          obtain ⟨hlt, -⟩ := List.getElem?_eq_some_iff.mp hslot
          exact ⟨hstopping.next hgone (List.getElem?_set_self hlt)
            (fun _ hj => List.getElem?_set_ne (Ne.symm hj)), hassist, hr⟩
      · rw [if_neg hi] at hs
        cases hs
        have hnone : c.workers = [] := by
          rw [List.eq_nil_iff_forall_not_mem]
          intro w hw
          have hbound := hstopping.bound w hw
          omega
        exact finish_sound hnone hassist hr fun j hj => hstopping.past j (by omega) hj

theorem CoreState.Sound.exitWorker
    (h : s.Sound) {w : Nat} (hs : coreStep s (.exitWorker w) = some s') : s'.Sound := by
  obtain ⟨c, stage⟩ := s
  simp only [coreStep] at hs
  split_ifs at hs with hexit
  obtain ⟨hw, hpackets⟩ := hexit
  cases stage with
  | idle =>
      have hnone : c.packets = 0 := h.1.packets
      exact absurd hpackets (by omega)
  | called r =>
      have hnone : c.packets = 0 := h.1.packets
      exact absurd hpackets (by omega)
  | waiting i r =>
      obtain ⟨hstopping, hassist, hr⟩ : c.Stopping i ∧ c.mAssistThread = false ∧ r.safe := h
      have hbound := hstopping.bound w hw
      rcases hstopping.slots w hbound.1 hbound.2 with ⟨-, hslot⟩ | ⟨hgone, -⟩
      · rw [hslot] at hs
        cases hs
        exact ⟨hstopping.exit hw, hassist, hr⟩
      · exact absurd hw hgone

/-- Safe starts keep the events, the threads and the workers in step. -/
theorem CoreState.Sound.step
    (h : s.Sound) {a : CoreAction} (hsafe : initSafe s a) (hs : coreStep s a = some s') :
    s'.Sound := by
  cases a with
  | callInitialize threadCount o => exact h.callInitialize hsafe hs
  | post => exact h.post hs
  | wait => exact h.wait hs
  | exitWorker w => exact h.exitWorker hs
  | callUnInitialize =>
      obtain ⟨c, stage⟩ := s
      cases stage with
      | called r => cases hs
      | waiting i r => cases hs
      | idle =>
          cases hs
          exact ⟨h.1, Resume.safe_none⟩

theorem CoreState.Sound.init : CoreState.init.Sound :=
  ⟨running_of_none rfl rfl rfl fun j hj => by
      have hlt : (j : Int) < 0 := hj
      omega,
    fun _ => rfl⟩

/-- What `UnInitialize` still waits for is set already, or will be. -/
theorem NetCoreIOCP.Stopping.drains (h : c.Stopping i) : c.Drains i := by
  have hpending : ∀ j, i ≤ j → c.waitsOn j = true →
      c.mThreadExitHandles[j]? = some (some .set) ∨ j ∈ c.workers := by
    intro j hj hwaits
    obtain ⟨-, hcount, ev, hev⟩ := (waitsOn_iff c j).mp hwaits
    rcases h.slots j hj hcount with ⟨hmem, -⟩ | ⟨-, hslot | hslot⟩
    · exact Or.inr hmem
    · rw [hev] at hslot
      cases hslot
    · exact Or.inl hslot
  refine ⟨hpending, h.packets, fun hnone j hj hwaits => ?_⟩
  rcases hpending j hj hwaits with hset | hmem
  · exact hset
  · have hlen := h.packets
    rw [hnone] at hlen
    rw [List.length_eq_zero_iff.mp hlen.symm] at hmem
    exact absurd hmem List.not_mem_nil

theorem CoreState.Sound.waitsSafely (h : s.Sound) : s.WaitsSafely := by
  obtain ⟨c, stage⟩ := s
  cases stage with
  | idle => trivial
  | called r => exact h.1.waits
  | waiting i r =>
      obtain ⟨hstopping, -⟩ : c.Stopping i ∧ c.mAssistThread = false ∧ r.safe := h
      refine ⟨hstopping.drains, ?_⟩
      by_cases hi : (i : Int) < c.mThreadCount
      · rcases hstopping.slots i (Nat.le_refl i) hi with ⟨hmem, -⟩ | ⟨-, hslot⟩
        · -- the event is not set, and its worker has a packet to take
          have hpos : 0 < c.packets := by
            rw [hstopping.packets]
            exact List.length_pos_of_mem hmem
          exact Or.inr ⟨i, _, if_pos ⟨hmem, hpos⟩⟩
        · refine Or.inl ?_
          rcases hslot with hslot | hslot
          · exact ⟨_, by simp only [coreStep, if_pos hi, hslot]; rfl⟩
          · exact ⟨_, by simp only [coreStep, if_pos hi, hslot]; rfl⟩
      · exact Or.inl ⟨_, if_neg hi⟩

/-- A step of the wait loop, or the exit of a worker. -/
def whileWaiting (_ : CoreState) (a : CoreAction) : Prop :=
  a = .wait ∨ ∃ w, a = .exitWorker w

/-- The packets and the slots that `UnInitialize` has in front of it. -/
def CoreState.toGo (s : CoreState) : Nat :=
  match s.stage with
  | .waiting i _ => s.core.packets + (s.core.mThreadCount - i).toNat
  | _ => 0

/-- The wait loop comes nearer to its end with each such step. -/
theorem toGo_lt
    {a : CoreAction} (hstage : s.stage = .waiting i r) (ha : whileWaiting s a)
    (hs : coreStep s a = some s') :
    s'.toGo < s.toGo ∨ ∀ i' r', s'.stage ≠ .waiting i' r' := by
  obtain ⟨c, stage⟩ := s
  cases hstage
  rcases ha with rfl | ⟨w, rfl⟩
  · simp only [coreStep] at hs
    by_cases hi : (i : Int) < c.mThreadCount
    · rw [if_pos hi] at hs
      split at hs
      · cases hs
      · cases hs
        refine Or.inl ?_
        simp only [CoreState.toGo]
        omega
      · cases hs
        refine Or.inl ?_
        simp only [CoreState.toGo]
        omega
      · cases hs
    · rw [if_neg hi] at hs
      cases hs
      refine Or.inr fun i' r' => ?_
      rcases r with _ | ⟨threadCount, o⟩
      · exact fun h => nomatch h
      · simp only [NetCoreIOCP.finish, NetCoreIOCP.started]
        split_ifs <;> exact fun h => nomatch h
  · simp only [coreStep] at hs
    split_ifs at hs with hexit
    cases hs
    refine Or.inl ?_
    simp only [CoreState.toGo]
    omega

/-- `UnInitialize` comes to the end of its wait loop, however the workers are scheduled. -/
theorem unInitialize_ends (n : Nat) {s : CoreState} (h : s.Sound) (hn : s.toGo ≤ n) :
    ∃ s', Reach coreStep whileWaiting s s' ∧ ∀ i r, s'.stage ≠ .waiting i r := by
  induction n using Nat.strongRecOn generalizing s with
  | ind n ih =>
      by_cases hstage : ∃ i r, s.stage = .waiting i r
      · obtain ⟨i, r, hstage⟩ := hstage
        have hstep : ∃ a s', whileWaiting s a ∧ coreStep s a = some s' := by
          have hwaits := h.waitsSafely
          rw [CoreState.WaitsSafely, hstage] at hwaits
          rcases hwaits.2 with ⟨s', hs⟩ | ⟨w, s', hs⟩
          · exact ⟨.wait, s', Or.inl rfl, hs⟩
          · exact ⟨.exitWorker w, s', Or.inr ⟨w, rfl⟩, hs⟩
        obtain ⟨a, s', ha, hs⟩ := hstep
        have hsafe : initSafe s a := by
          rcases ha with rfl | ⟨w, rfl⟩ <;> trivial
        rcases toGo_lt hstage ha hs with hlt | hend
        · obtain ⟨s'', hrun, hend⟩ := ih (n - 1) (by omega) (h.step hsafe hs) (by omega)
          exact ⟨s'', (Reach.single ha hs).trans hrun, hend⟩
        · exact ⟨s', .single ha hs, hend⟩
      · exact ⟨s, .start, fun i r hwaiting => hstage ⟨i, r, hwaiting⟩⟩

/--
In every run whose starts are all safe, `UnInitialize` waits for running workers
only, posts a packet to each, and is not held up; and a start that is not safe
leaves an event to wait for without a worker.
-/
theorem unInitialize_waits_iff (h : Reach coreStep initSafe .init s) :
    s.WaitsSafely ∧
      ∀ (threadCount : Int) (o : Outcomes), s.stage = .idle → s.core.mInitOnce = false →
        ((s.core.startUp threadCount o).1.WaitsForWorkers ↔
          o.safe s.core.mAssistThread threadCount = true) := by
  have hsound : s.Sound :=
    h.invariant CoreState.Sound.init fun hs hsafe hstep => hs.step hsafe hstep
  refine ⟨hsound.waitsSafely, fun threadCount o hidle honce => ?_⟩
  rw [CoreState.Sound, hidle] at hsound
  have hcalm : s.core.Calm := ⟨hsound.1, hsound.2 honce⟩
  obtain ⟨hsafe, hwaits⟩ := startUp_spec threadCount o hcalm
  exact ⟨hwaits, fun hs => (hsafe hs).1.waits⟩

/-- Every call succeeds. -/
def allSucceed : Outcomes :=
  { moduleFileName := true
    assistThread := true
    port := true
    dwNumberOfProcessors := 4
    event := fun _ => true
    thread := fun _ => true
    osThread := fun _ => true }

theorem unInitialize_waits_example :
    ∃ s : CoreState, s.core.workers = [0, 1] ∧ s.core.packets = 2 ∧ s.WaitsSafely := by
  have hinit : Reach coreStep initSafe .init
      { core := (NetCoreIOCP.new.startUp 2 allSucceed).1, stage := .idle } :=
    .single (a := .callInitialize 2 allSucceed) (Or.inr rfl) rfl
  have hcall := hinit.next (show initSafe _ .callUnInitialize from trivial) rfl
  have hpost := hcall.next (show initSafe _ .post from trivial) rfl
  exact ⟨_, rfl, rfl, (unInitialize_waits_iff hpost).1⟩

/-- The event of the only worker is made, and there is no memory for its thread. -/
theorem unInitialize_hangs :
    ¬ ∀ s : CoreState, Reach coreStep (fun _ _ => True) .init s → s.WaitsSafely := by
  intro hclaim
  let o := { allSucceed with thread := fun _ => false }
  have hinit : Reach coreStep (fun _ _ => True) .init
      { core := (NetCoreIOCP.new.startUp 1 o).1, stage := .called none } :=
    .single (a := .callInitialize 1 o) trivial rfl
  have hwaits : (NetCoreIOCP.new.startUp 1 o).1.WaitsForWorkers := hclaim _ hinit
  exact absurd (hwaits.runs 0 rfl) List.not_mem_nil

end Run

end Net
end IocpNetlib
