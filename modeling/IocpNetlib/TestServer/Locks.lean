import IocpNetlib.Net.Locks

/-!
# The locks of `TestServer`

The process of `TestServer`: an HTTP service, three TCP services with a queue and
threads of their own, the log of the application.  Its callbacks take no lock
but those of the queues and the log, `OnTestHttp` takes
`mThreadConnectionMapLock`, and none of them is held while anything else is
taken.
-/

namespace IocpNetlib
namespace TestServer

open LockOrder Locks Reachability

/-- The locks of the process that are not the library's. -/
inductive ProcessLock
  | mThreadConnectionMapLock
  deriving DecidableEq

/-- The functions of the process; `n` is a `TestServer`, whose service has the same number. -/
inductive ProcessFn
  | log | makeLog | init | startNetService | runInstance | stopInstance
  | startServer (n : Nat) | stopServer (n : Nat) | checkProc (n : Nat) | processMessage (n : Nat)
  | startHttpServer | stopHttpServer | getThreadConnection | onTestHttp

/-- The service of `mHttpServer1`. -/
def httpServer : Nat := 0

open Code

def processContract : ProcessFn → Contract
  | .log => .leaf
  | .makeLog => .leaf
  | .init => .nothing
  | .startNetService => .nothing
  | .runInstance => .nothing
  | .stopInstance => .nothing
  | .startServer _ => .underMap
  | .stopServer _ => .underMap
  | .checkProc _ => .leaf
  | .processMessage _ => .nothing
  | .startHttpServer => .underMap
  | .stopHttpServer => .underMap
  | .getThreadConnection => .leaf
  | .onTestHttp => .nothing

def processCode : ProcessFn → Code (Lock ProcessLock) (Fn ProcessFn)
  | .log => call (.writeV .application)
  | .makeLog => block [call (.logInit .application), call (.setLogLevel .application),
      call (.writeV .application)]
  | .init => block [optional (block [call (.application .startNetService),
      optional (call (.application .log))]), optional (call (.application .log))]
  | .startNetService => block [call .netCoreInitialize, optional (block [
      call (.application .startHttpServer), call (.application (.startServer 1)),
      call (.application (.startServer 2)), call (.application (.startServer 3))])]
  | .runInstance => block [call (.application .makeLog),
      either (call (.application .stopInstance))
        (block [call (.application .init), repeated (repeated (call (.application .init)))])]
  | .stopInstance => block [call (.application .log), call (.application .stopHttpServer),
      call (.application .log), call (.application (.stopServer 1)),
      call (.application .log), call (.application (.stopServer 2)),
      call (.application .log), call (.application (.stopServer 3)),
      call (.application .log), call .netCoreUnInitialize,
      call (.application .log), call (.logUnInit .application)]
  | .startServer n => block [optional (call (.uninit (.application n))),
      optional (either (call (.application .log)) (optional (block [call (.netServiceStart n),
        optional (call (.application .log))])))]
  | .stopServer n => optional (call (.netServiceStop n))
  | .checkProc _ => skip
  | .processMessage n => repeated (block [call (.pop (.application n)),
      optional (block [call (.netServiceSend n), optional (call (.application .log))]),
      optional (call (.release (.application n)))])
  | .startHttpServer => call (.httpStart httpServer)
  | .stopHttpServer => call (.httpStop httpServer)
  | .getThreadConnection => guarded (.application .mThreadConnectionMapLock) skip
  | .onTestHttp => block [call (.application .getThreadConnection),
      optional (call (.sendResponse httpServer))]

/-- `OnReceived` of the HTTP service, and of a `TestServer`. -/
def processOnReceived (s : Nat) : Code (Lock ProcessLock) (Fn ProcessFn) :=
  if s = httpServer then call (.httpOnReceived s)
  else block [call (.application .log), call (.allocWritePacket (.application s)),
    optional (call (.push (.application s)))]

section Contracts

/-- The lock of the map of connections comes last. -/
def processOuter (_ : ProcessLock) : Bool := false

theorem processCode_follows_leaf
    {a : ProcessFn} (ha : processContract a = .leaf)
    {held : List (Lock ProcessLock)} (h : Contract.leaf.Holds processOuter held) :
    (processCode a).Follows (level processOuter) (entry processOuter processContract) held := by
  have hmap := h.mayTake_leaf (l := .application .mThreadConnectionMapLock) rfl
  cases a with
  | log => exact h
  | makeLog => exact ⟨h, h, h, trivial⟩
  | checkProc n => exact trivial
  | getThreadConnection => exact ⟨hmap, trivial⟩
  | _ => cases ha

theorem processCode_follows_underMap
    {a : ProcessFn} (ha : processContract a = .underMap)
    {held : List (Lock ProcessLock)} (h : Contract.underMap.Holds processOuter held) :
    (processCode a).Follows (level processOuter) (entry processOuter processContract) held := by
  have hleaf := (h.underPool_of_underMap (s := 0)).leaf_of_underPool
  cases a with
  | startServer n =>
      simp [processCode, Code.Follows, entry, contractOf, processContract, h, hleaf]
  | stopServer n => simp [processCode, Code.Follows, entry, contractOf, h]
  | startHttpServer => exact h
  | stopHttpServer => exact h
  | _ => cases ha

theorem processCode_follows_nothing
    {a : ProcessFn} (ha : processContract a = .nothing) :
    (processCode a).Follows (level processOuter) (entry processOuter processContract) [] := by
  cases a with
  | init => simp [processCode, Code.Follows, entry, Contract.holds_nil]
  | startNetService => simp [processCode, Code.Follows, entry, Contract.holds_nil]
  | runInstance => simp [processCode, Code.Follows, entry, Contract.holds_nil]
  | stopInstance => simp [processCode, Code.Follows, entry, Contract.holds_nil]
  | processMessage n => simp [processCode, Code.Follows, entry, Contract.holds_nil]
  | onTestHttp => simp [processCode, Code.Follows, entry, Contract.holds_nil]
  | _ => cases ha

theorem processOnReceived_follows (s : Nat) :
    (processOnReceived s).Follows (level processOuter) (entry processOuter processContract) [] := by
  rw [processOnReceived]
  split_ifs
  · simp [Code.Follows, entry, Contract.holds_nil]
  · simp [Code.Follows, entry, Contract.holds_nil]

end Contracts

/-- The process as an application of the library. -/
def process : Application ProcessLock ProcessFn where
  outer := processOuter
  contract := processContract
  code := processCode
  onConnected _ := skip
  onReceived := processOnReceived
  onClosed _ := skip
  handle _ := call (.application .onTestHttp)
  code_follows := by
    intro a held h
    cases ha : processContract a with
    | nothing =>
        rw [ha] at h
        rw [show held = [] from h]
        exact processCode_follows_nothing ha
    | underMap =>
        rw [ha] at h
        exact processCode_follows_underMap ha h
    | underPool s => cases a <;> cases ha
    | leaf =>
        rw [ha] at h
        exact processCode_follows_leaf ha h
  onConnected_follows _ := trivial
  onReceived_follows := processOnReceived_follows
  onClosed_follows _ _ _ := trivial
  handle_follows _ := rfl

section Examples

/-- The assist thread, and a thread that sends through the first server. -/
def exampleRoot (i : Fin 2) : Fn ProcessFn :=
  if i = 0 then .assistThreadProc else .netServiceSend 1

/-- The assist thread comes to `checkStatus`, the other one to `FindClient`. -/
def exampleActs : List (Act (Fin 2)) :=
  [.run 0 0, .run 0 1, .run 0 1, .run 0 0, .run 0 1, .run 0 1, .run 0 0, .run 0 0, .run 0 1,
    .run 0 0, .run 0 0, .run 1 0, .run 1 1, .run 1 0, .run 1 1, .run 1 0, .run 1 0]

theorem exampleActs_run :
    ∃ s, runAll (LockOrder.step (body process)) TerminatesFree (LockOrder.start exampleRoot)
      exampleActs = some s ∧ WaitsFor s 1 0 := by
  refine ⟨_, rfl, by decide, .mTcpClientPoolLock 1, skip, _, rfl, ?_⟩
  exact List.mem_cons_self

theorem no_deadlock_example :
    ∃ s, Reach (LockOrder.step (body process)) TerminatesFree (LockOrder.start exampleRoot) s ∧
      ∃ j, Relation.TransGen (WaitsFor s) 1 j ∧ GoesOn (body process) s j := by
  obtain ⟨s, hrun, hwaits⟩ := exampleActs_run
  have hreach := reach_of_runAll .start hrun
  exact ⟨s, hreach, (no_deadlock process exampleRoot hreach).2 1 0 hwaits⟩

end Examples

end TestServer
end IocpNetlib
