import IocpNetlib.Lib.LockOrder
import Mathlib.Data.Fintype.EquivFin
import Mathlib.Order.Fin.Basic

/-!
# The locks of the library

Every function of the library that takes a lock or calls one that does, with the
`LOCK_GUARD`s of its body, its calls, and its waits without a time limit.  The
conditions of the branches are left open.  The application is a parameter: its
own locks, its functions, the callbacks and the route handlers.

A pool lock of a service may be held while `OnClosed` runs, and `mServiceMapLock`
as well: `checkStatus` posts under both, and a post that fails may be the end of
the client.  The other callbacks run under no lock.
-/

namespace IocpNetlib
namespace Locks

open LockOrder Reachability

/-- The `LogManager`s: the one of the core and the one of the application. -/
inductive Logger
  | core
  | application
  deriving DecidableEq

/-- The `PackageQueue`s: `m_logQueue`, `mPackageQueue` of an HTTP service, and those of the
application. -/
inductive Queue
  | log (g : Logger)
  | http (s : Nat)
  | application (n : Nat)
  deriving DecidableEq

/--
The locks; `M` are those of the application, and `n` is a `FixedObjectPool` or a
`MessageQueue` of the application.
-/
inductive Lock (M : Type)
  | mServiceMapLock
  | mTcpClientPoolLock (s : Nat)
  | mSendIOContextPoolLock (s : Nat)
  | mSendPacketPoolLock (s : Nat)
  | mRecvPacketPoolLock (s : Nat)
  | mExceptionContextPoolLock (s : Nat)
  | m_poolLock (q : Queue)
  | m_threadLock (g : Logger)
  | m_lock (n : Nat)
  | messageQueue (n : Nat)
  | application (m : M)
  deriving DecidableEq

/-- The functions; `s` is the service an object belongs to, `A` are those of the application. -/
inductive Fn (A : Type)
  -- PackageQueue
  | allocWritePacket (q : Queue) | push (q : Queue) | pop (q : Queue) | release (q : Queue)
  | getQueueSize (q : Queue) | uninit (q : Queue)
  -- FixedObjectPool, and any function of MessageQueue
  | acquire (n : Nat) | releaseObject (n : Nat) | freeCount (n : Nat) | messageQueue (n : Nat)
  -- LogManager
  | logInit (g : Logger) | logUnInit (g : Logger) | setLogLevel (g : Logger)
  | logThreadProc (g : Logger) | writeV (g : Logger) | writeRecord (g : Logger)
  -- NetCore
  | netCoreInitialize | netCoreUnInitialize
  -- NetCoreIOCP
  | initializeNet | makeLog | unInitialize | addService | removeService | createLog | log
  | assistThreadProc | iocpWorkProc
  -- TcpService
  | startNetService (s : Nat) | stopNetService (s : Nat) | onAcceptorReleased (s : Nat)
  | createAllPool (s : Nat) | releaseAllPool (s : Nat)
  | allocTcpClient (s : Nat) | findClient (s : Nat) | removeClient (s : Nat)
  | allocSendIOContext (s : Nat) | releaseSendIOContext (s : Nat)
  | allocSendPacket (s : Nat) | releaseSendPacket (s : Nat)
  | allocRecvPacket (s : Nat) | releaseRecvPacket (s : Nat)
  | allocExceptionIOContext (s : Nat) | releaseExceptionIOContext (s : Nat)
  | send (s : Nat) | sendHttpResponse (s : Nat) | closeSocket (s : Nat)
  | connectServer (s : Nat) | getConnectionCount (s : Nat)
  | tickUpdate (s : Nat) | checkStatus (s : Nat) | logStats (s : Nat)
  -- TcpClient
  | setTimeout (s : Nat) | postSpecial (s : Nat) | postRecv (s : Nat) | postConnect (s : Nat)
  | postSend (s : Nat) | postSendHttp (s : Nat)
  | onCompleteOperation (s : Nat) | checkRelease (s : Nat) | onRecvCompletion (s : Nat)
  | onSendCompletion (s : Nat) | onConnectExCompletion (s : Nat)
  | splitPacket (s : Nat) | splitHttpPacket (s : Nat)
  -- TcpAcceptor
  | acceptorInitialize (s : Nat) | postCancel (s : Nat) | postAccept (s : Nat)
  | acceptorOnCompleteOperation (s : Nat) | acceptConnection (s : Nat)
  -- NetService
  | netServiceStart (s : Nat) | netServiceStop (s : Nat) | netServiceSend (s : Nat)
  | netServiceCloseSocket (s : Nat) | netServiceConnectServer (s : Nat)
  | netServiceGetConnectionCount (s : Nat)
  -- HttpServiceImplementer
  | httpStart (s : Nat) | httpStop (s : Nat) | httpOnReceived (s : Nat) | processMsg (s : Nat)
  | onHttpPacket (s : Nat) | sendResponse (s : Nat)
  -- what the application provides
  | onConnected (s : Nat) | onReceived (s : Nat) | onClosed (s : Nat) | handle (s : Nat)
  | application (a : A)

section Order

variable {M A : Type}

/-- The order of the locks.  A lock of the application is taken either before all others or
after them. -/
def level (outer : M → Bool) : Lock M → Fin 4
  | .mServiceMapLock => 1
  | .mTcpClientPoolLock _ => 2
  | .mSendIOContextPoolLock _ => 3
  | .mSendPacketPoolLock _ => 3
  | .mRecvPacketPoolLock _ => 3
  | .mExceptionContextPoolLock _ => 3
  | .m_poolLock _ => 3
  | .m_threadLock _ => 3
  | .m_lock _ => 3
  | .messageQueue _ => 3
  | .application m => if outer m then 0 else 3

/-- Which locks a caller may hold. -/
inductive Contract
  /-- None. -/
  | nothing
  /-- Those in front of `mServiceMapLock`. -/
  | underMap
  /-- Those in front of `mTcpClientPoolLock`, and that lock of the service. -/
  | underPool (s : Nat)
  /-- Those in front of the last ones. -/
  | leaf

/-- A caller with the locks `held` keeps the contract. -/
def Contract.Holds (outer : M → Bool) (held : List (Lock M)) : Contract → Prop
  | .nothing => held = []
  | .underMap => ∀ l ∈ held, level outer l < 1
  | .underPool s => ∀ l ∈ held, l = .mTcpClientPoolLock s ∨ level outer l < 2
  | .leaf => ∀ l ∈ held, level outer l < 3

/-- The contract of each function. -/
def contractOf (contract : A → Contract) : Fn A → Contract
  | .allocWritePacket _ => .leaf
  | .push _ => .leaf
  | .pop _ => .leaf
  | .release _ => .leaf
  | .getQueueSize _ => .leaf
  | .uninit _ => .leaf
  | .acquire _ => .nothing
  | .releaseObject _ => .leaf
  | .freeCount _ => .leaf
  | .messageQueue _ => .leaf
  | .logInit _ => .leaf
  | .logUnInit _ => .leaf
  | .setLogLevel _ => .leaf
  | .logThreadProc _ => .leaf
  | .writeV _ => .leaf
  | .writeRecord _ => .leaf
  | .netCoreInitialize => .nothing
  | .netCoreUnInitialize => .nothing
  | .initializeNet => .nothing
  | .makeLog => .nothing
  | .unInitialize => .nothing
  | .addService => .underMap
  | .removeService => .underMap
  | .createLog => .leaf
  | .log => .leaf
  | .assistThreadProc => .underMap
  | .iocpWorkProc => .nothing
  | .startNetService _ => .underMap
  | .stopNetService _ => .underMap
  | .onAcceptorReleased _ => .leaf
  | .createAllPool _ => .leaf
  | .releaseAllPool s => .underPool s
  | .allocTcpClient s => .underPool s
  | .findClient s => .underPool s
  | .removeClient s => .underPool s
  | .allocSendIOContext _ => .leaf
  | .releaseSendIOContext _ => .leaf
  | .allocSendPacket _ => .leaf
  | .releaseSendPacket _ => .leaf
  | .allocRecvPacket _ => .leaf
  | .releaseRecvPacket _ => .leaf
  | .allocExceptionIOContext _ => .leaf
  | .releaseExceptionIOContext _ => .leaf
  | .send s => .underPool s
  | .sendHttpResponse s => .underPool s
  | .closeSocket s => .underPool s
  | .connectServer _ => .nothing
  | .getConnectionCount s => .underPool s
  | .tickUpdate s => .underPool s
  | .checkStatus s => .underPool s
  | .logStats s => .underPool s
  | .setTimeout s => .underPool s
  | .postSpecial s => .underPool s
  | .postRecv _ => .leaf
  | .postConnect _ => .leaf
  | .postSend s => .underPool s
  | .postSendHttp s => .underPool s
  | .onCompleteOperation _ => .nothing
  | .checkRelease s => .underPool s
  | .onRecvCompletion _ => .nothing
  | .onSendCompletion _ => .leaf
  | .onConnectExCompletion _ => .nothing
  | .splitPacket _ => .nothing
  | .splitHttpPacket _ => .nothing
  | .acceptorInitialize s => .underPool s
  | .postCancel _ => .leaf
  | .postAccept s => .underPool s
  | .acceptorOnCompleteOperation _ => .nothing
  | .acceptConnection _ => .nothing
  | .netServiceStart _ => .underMap
  | .netServiceStop _ => .underMap
  | .netServiceSend s => .underPool s
  | .netServiceCloseSocket s => .underPool s
  | .netServiceConnectServer _ => .nothing
  | .netServiceGetConnectionCount s => .underPool s
  | .httpStart _ => .underMap
  | .httpStop _ => .underMap
  | .httpOnReceived _ => .leaf
  | .processMsg _ => .nothing
  | .onHttpPacket _ => .nothing
  | .sendResponse s => .underPool s
  | .onConnected _ => .nothing
  | .onReceived _ => .nothing
  | .onClosed s => .underPool s
  | .handle _ => .nothing
  | .application a => contract a

/-- The contract of each function, on the locks of the caller. -/
def entry (outer : M → Bool) (contract : A → Contract) (f : Fn A) (held : List (Lock M)) : Prop :=
  (contractOf contract f).Holds outer held

end Order

/-- An application that keeps the contracts of the library, and its own. -/
structure Application (M A : Type) where
  outer : M → Bool
  contract : A → Contract
  code : A → Code (Lock M) (Fn A)
  onConnected : Nat → Code (Lock M) (Fn A)
  onReceived : Nat → Code (Lock M) (Fn A)
  onClosed : Nat → Code (Lock M) (Fn A)
  /-- The route handlers of an HTTP service. -/
  handle : Nat → Code (Lock M) (Fn A)
  code_follows : ∀ a held, (contract a).Holds outer held →
    (code a).Follows (level outer) (entry outer contract) held
  onConnected_follows : ∀ s, (onConnected s).Follows (level outer) (entry outer contract) []
  onReceived_follows : ∀ s, (onReceived s).Follows (level outer) (entry outer contract) []
  onClosed_follows : ∀ s held, (Contract.underPool s).Holds outer held →
    (onClosed s).Follows (level outer) (entry outer contract) held
  handle_follows : ∀ s, (handle s).Follows (level outer) (entry outer contract) []

section Body

open Code

variable {M A : Type}

/-- The functions of the library, and of an application. -/
def body (app : Application M A) : Fn A → Code (Lock M) (Fn A)
  -- PackageQueue
  | .allocWritePacket q => guarded (.m_poolLock q) skip
  | .push q => optional (guarded (.m_poolLock q) skip)
  | .pop q => optional (guarded (.m_poolLock q) skip)
  | .release q => guarded (.m_poolLock q) skip
  | .getQueueSize q => guarded (.m_poolLock q) skip
  | .uninit q => guarded (.m_poolLock q) skip
  -- FixedObjectPool and MessageQueue
  | .acquire n => block [wait, optional (guarded (.m_lock n) skip)]
  | .releaseObject n => optional (guarded (.m_lock n) skip)
  | .freeCount n => guarded (.m_lock n) skip
  | .messageQueue n => optional (guarded (.messageQueue n) skip)
  -- LogManager
  | .logInit g => block [optional (call (.uninit (.log g))), optional (call (.logUnInit g))]
  | .logUnInit g => optional (guarded (.m_threadLock g) skip)
  | .setLogLevel g => optional (guarded (.m_threadLock g) skip)
  | .logThreadProc g => repeated (block [call (.pop (.log g)), optional (call (.writeRecord g)),
      optional (call (.release (.log g)))])
  | .writeV g => block [call (.allocWritePacket (.log g)), optional (call (.push (.log g)))]
  | .writeRecord g => guarded (.m_threadLock g) skip
  -- NetCore
  | .netCoreInitialize => block [optional (call .initializeNet),
      optional (call .netCoreUnInitialize)]
  | .netCoreUnInitialize => optional (call .unInitialize)
  -- NetCoreIOCP
  | .initializeNet => optional (block [call .makeLog, optional (call .log), call .log,
      optional (call .unInitialize)])
  | .makeLog => optional (either (call .unInitialize)
      (block [call (.logInit .core), call (.setLogLevel .core)]))
  | .unInitialize => block [repeated (block [call .log, wait, call .log]), call .log]
  | .addService => guarded .mServiceMapLock skip
  | .removeService => guarded .mServiceMapLock skip
  | .createLog => optional (call (.setLogLevel .core))
  | .log => optional (call (.writeV .core))
  | .assistThreadProc => repeated (optional
      (guarded .mServiceMapLock (repeated (choose fun s => call (.tickUpdate s)))))
  | .iocpWorkProc => block [call .log, repeated (block [wait,
      optional (choose fun s =>
        either (call (.onCompleteOperation s)) (call (.acceptorOnCompleteOperation s))),
      optional (call .log)]), call .log, call .log]
  -- TcpService
  | .startNetService s => block [call .log, optional (block [call .addService, call .createLog]),
      call (.createAllPool s), optional (block [call .log,
        optional (either (call .log) (block [call (.acceptorInitialize s), call .log]))])]
  | .stopNetService s => optional (block [optional (call .removeService), call .log,
      optional (block [call .log, call (.postCancel s), call .log]), call .log,
      guarded (.mTcpClientPoolLock s) skip, call .log,
      repeated (guarded (.mTcpClientPoolLock s) (optional (call .log))),
      call (.releaseAllPool s), call .log])
  | .onAcceptorReleased _ => call .log
  | .createAllPool _ => optional (block [call .log, call .log])
  | .releaseAllPool s => block [call .log, guarded (.mTcpClientPoolLock s) skip,
      guarded (.mSendIOContextPoolLock s) skip, guarded (.mSendPacketPoolLock s) skip,
      guarded (.mRecvPacketPoolLock s) skip, guarded (.mExceptionContextPoolLock s) skip,
      call .log]
  | .allocTcpClient s => optional (guarded (.mTcpClientPoolLock s) (optional (call .log)))
  | .findClient s => guarded (.mTcpClientPoolLock s) skip
  | .removeClient s => guarded (.mTcpClientPoolLock s) (optional (call .log))
  | .allocSendIOContext s => guarded (.mSendIOContextPoolLock s) skip
  | .releaseSendIOContext s => optional (guarded (.mSendIOContextPoolLock s) skip)
  | .allocSendPacket s => guarded (.mSendPacketPoolLock s) skip
  | .releaseSendPacket s => optional (guarded (.mSendPacketPoolLock s) skip)
  | .allocRecvPacket s => guarded (.mRecvPacketPoolLock s) skip
  | .releaseRecvPacket s => optional (guarded (.mRecvPacketPoolLock s) skip)
  | .allocExceptionIOContext s => guarded (.mExceptionContextPoolLock s) skip
  | .releaseExceptionIOContext s => optional (guarded (.mExceptionContextPoolLock s) skip)
  | .send s => optional (block [call (.findClient s), optional (call (.postSend s))])
  | .sendHttpResponse s => block [call (.findClient s), optional (call (.postSendHttp s))]
  | .closeSocket s => block [call (.findClient s), optional (call (.postSpecial s))]
  | .connectServer s => block [call .log, either (call .log) (block [call (.allocTcpClient s),
      either (call .log) (block [call (.postConnect s),
        either (block [call .log, call (.removeClient s)])
          (block [wait, optional (call (.postSpecial s))])])])]
  | .getConnectionCount s => guarded (.mTcpClientPoolLock s) skip
  | .tickUpdate s => block [optional (call (.checkStatus s)), optional (call (.logStats s))]
  | .checkStatus s => guarded (.mTcpClientPoolLock s) (repeated (block [
      optional (call (.setTimeout s)), optional (call .log)]))
  | .logStats s => block [guarded (.mTcpClientPoolLock s) skip,
      guarded (.mSendIOContextPoolLock s) skip, guarded (.mSendPacketPoolLock s) skip,
      guarded (.mRecvPacketPoolLock s) skip, guarded (.mExceptionContextPoolLock s) skip,
      call (.getConnectionCount s), call .log]
  -- TcpClient
  | .setTimeout s => block [call .log, call (.postSpecial s)]
  | .postSpecial s => block [call (.allocExceptionIOContext s),
      optional (block [either (call .log) (block [call (.releaseExceptionIOContext s), call .log]),
        call (.checkRelease s)])]
  | .postRecv _ => optional (call .log)
  | .postConnect _ => optional (call .log)
  | .postSend s => block [call (.allocSendIOContext s), either (call .log) (block [
      call (.allocSendPacket s), either (call .log)
        (optional (block [call (.checkRelease s), call .log]))]),
      optional (call (.releaseSendIOContext s)), optional (call (.releaseSendPacket s))]
  | .postSendHttp s => block [call (.allocSendIOContext s), either (call .log) (block [
      call (.allocSendPacket s), either (call .log)
        (optional (block [call (.checkRelease s), call .log]))]),
      optional (call (.releaseSendIOContext s)), optional (call (.releaseSendPacket s))]
  | .onCompleteOperation s => block [
      either
        (block [call .log, optional (either
          (block [call (.releaseSendPacket s), call (.releaseSendIOContext s)])
          (block [call .log, call (.onConnectExCompletion s)]))])
        (either (either (call (.onRecvCompletion s)) (call (.onSendCompletion s)))
          (either (call (.releaseExceptionIOContext s)) (either (call (.onConnectExCompletion s))
            (either (block [call .log, call (.releaseExceptionIOContext s),
              call (.onConnectExCompletion s)]) (call .log))))),
      optional (call .log), call (.checkRelease s)]
  | .checkRelease s => optional (block [
      optional (block [optional (call (.releaseRecvPacket s)), call (.onClosed s)]),
      call (.removeClient s)])
  | .onRecvCompletion s => optional (block [
      optional (either (call (.splitPacket s)) (call (.splitHttpPacket s))),
      optional (call (.postRecv s))])
  | .onSendCompletion s => block [optional (call .log), optional (call (.releaseSendPacket s)),
      call (.releaseSendIOContext s)]
  | .onConnectExCompletion s => optional (block [call (.postRecv s),
      optional (call (.onConnected s))])
  | .splitPacket s => repeated (block [
      optional (block [call (.allocRecvPacket s), optional (call .log)]),
      repeated (block [call (.onReceived s), optional (call .log)])])
  | .splitHttpPacket s => repeated (block [
      optional (block [call (.allocRecvPacket s), optional (call .log)]),
      repeated (block [optional (call .log), optional (block [call (.onReceived s),
        optional (call .log)])])])
  -- TcpAcceptor
  | .acceptorInitialize s => block [optional (call .log),
      repeated (block [call (.postAccept s), call .log])]
  | .postCancel _ => block [call .log, optional (call .log)]
  | .postAccept s => either (call .log) (block [call (.allocTcpClient s), either (call .log)
      (optional (block [call (.removeClient s), call .log]))])
  | .acceptorOnCompleteOperation s => block [
      optional (block [call (.acceptConnection s), optional (call .log)]),
      optional (block [call (.removeClient s), call .log]), call (.postAccept s),
      optional (block [call .log, call (.onAcceptorReleased s)])]
  | .acceptConnection s => either (optional (call .log)) (block [call (.postRecv s),
      either (call .log) (call (.onConnected s))])
  -- NetService
  | .netServiceStart s => block [optional (call .log), optional (block [call (.startNetService s),
      optional (call .log)]), optional (call (.netServiceStop s))]
  | .netServiceStop s => optional (block [call (.stopNetService s), call (.stopNetService s)])
  | .netServiceSend s => either (call .log) (call (.send s))
  | .netServiceCloseSocket s => either (call .log) (call (.closeSocket s))
  | .netServiceConnectServer s => either (call .log) (call (.connectServer s))
  | .netServiceGetConnectionCount s => either (call .log) (call (.getConnectionCount s))
  -- HttpServiceImplementer
  | .httpStart s => block [optional (call (.uninit (.http s))), either (call .log) (block [
      call (.startNetService s), call .log]), optional (call (.httpStop s))]
  | .httpStop s => optional (call (.stopNetService s))
  | .httpOnReceived s => block [call (.allocWritePacket (.http s)),
      optional (call (.push (.http s)))]
  | .processMsg s => repeated (block [call (.pop (.http s)), optional (call (.onHttpPacket s)),
      optional (call (.release (.http s)))])
  | .onHttpPacket s => optional (either (call (.handle s)) (call (.sendHttpResponse s)))
  | .sendResponse s => optional (call (.sendHttpResponse s))
  -- what the application provides
  | .onConnected s => app.onConnected s
  | .onReceived s => app.onReceived s
  | .onClosed s => app.onClosed s
  | .handle s => app.handle s
  | .application a => app.code a

end Body

section Contracts

variable {M : Type} {outer : M → Bool} {held : List (Lock M)} {s : Nat}

theorem Contract.holds_nil (c : Contract) : c.Holds outer [] := by
  cases c with
  | nothing => rfl
  | underMap => exact fun l hl => absurd hl List.not_mem_nil
  | underPool s => exact fun l hl => absurd hl List.not_mem_nil
  | leaf => exact fun l hl => absurd hl List.not_mem_nil

theorem Contract.Holds.leaf_of_underPool
    (h : (Contract.underPool s).Holds outer held) :
    Contract.leaf.Holds outer held := by
  intro l hl
  rcases h l hl with rfl | hlt
  · exact (by decide : (2 : Fin 4) < 3)
  · exact hlt.trans (by decide)

theorem Contract.Holds.underPool_of_underMap
    (h : Contract.underMap.Holds outer held) :
    (Contract.underPool s).Holds outer held :=
  fun l hl => Or.inr ((h l hl).trans (by decide))

/-- The contract still holds with the lock it names taken. -/
theorem Contract.Holds.cons_pool
    (h : (Contract.underPool s).Holds outer held) :
    (Contract.underPool s).Holds outer (.mTcpClientPoolLock s :: held) := by
  intro l hl
  rcases List.mem_cons.mp hl with rfl | hl
  · exact Or.inl rfl
  · exact h l hl

theorem Contract.Holds.cons_map
    (h : Contract.underMap.Holds outer held) :
    (Contract.underPool s).Holds outer (.mServiceMapLock :: held) := by
  intro l hl
  rcases List.mem_cons.mp hl with rfl | hl
  · exact Or.inr (by decide : (1 : Fin 4) < 2)
  · exact Or.inr ((h l hl).trans (by decide))

/-- The lock of a pool may be taken, or is there already. -/
theorem Contract.Holds.mayTake_pool
    (h : (Contract.underPool s).Holds outer held) :
    MayTake (level outer) held (.mTcpClientPoolLock s) := by
  by_cases hmem : Lock.mTcpClientPoolLock s ∈ held
  · exact Or.inl hmem
  · refine Or.inr ?_
    intro l hl
    rcases h l hl with rfl | hlt
    · exact absurd hl hmem
    · exact hlt

/-- The locks that come last. -/
theorem Contract.Holds.mayTake_leaf
    (h : Contract.leaf.Holds outer held) {l : Lock M} (hl : level outer l = 3) :
    MayTake (level outer) held l :=
  Or.inr (by rw [hl]; exact h)

theorem Contract.Holds.mayTake_map
    (h : Contract.underMap.Holds outer held) :
    MayTake (level outer) held .mServiceMapLock :=
  Or.inr h

end Contracts

section Discipline

variable {M A : Type} (app : Application M A)

/-- A function of the program under locks of the program keeps to the order. -/
abbrev FollowsOrder (f : Fn A) (held : List (Lock M)) : Prop :=
  (body app f).Follows (level app.outer) (entry app.outer app.contract) held

open Code

/-- A function of the application under its contract. -/
theorem follows_application
    {a : A} {c : Contract} (ha : contractOf app.contract (.application a) = c)
    {held : List (Lock M)} (h : c.Holds app.outer held) :
    FollowsOrder app (.application a) held := by
  refine app.code_follows a held ?_
  rw [show app.contract a = c from ha]
  exact h

theorem follows_leaf
    {f : Fn A} (hf : contractOf app.contract f = .leaf)
    {held : List (Lock M)} (h : Contract.leaf.Holds app.outer held) :
    FollowsOrder app f held := by
  have hqueue (q : Queue) := h.mayTake_leaf (l := .m_poolLock q) rfl
  have hlog (g : Logger) := h.mayTake_leaf (l := .m_threadLock g) rfl
  have hio (s : Nat) := h.mayTake_leaf (l := .mSendIOContextPoolLock s) rfl
  have hsend (s : Nat) := h.mayTake_leaf (l := .mSendPacketPoolLock s) rfl
  have hrecv (s : Nat) := h.mayTake_leaf (l := .mRecvPacketPoolLock s) rfl
  have hexc (s : Nat) := h.mayTake_leaf (l := .mExceptionContextPoolLock s) rfl
  have hobject (n : Nat) := h.mayTake_leaf (l := .m_lock n) rfl
  have hmessage (n : Nat) := h.mayTake_leaf (l := .messageQueue n) rfl
  cases f with
  | application a => exact follows_application app hf h
  | _ => first
      | cases hf; done
      | simp [FollowsOrder, body, Code.Follows, entry, contractOf, h, hqueue, hlog, hio, hsend,
          hrecv, hexc, hobject, hmessage]

theorem follows_underPool
    {f : Fn A} {s : Nat} (hf : contractOf app.contract f = .underPool s)
    {held : List (Lock M)} (h : (Contract.underPool s).Holds app.outer held) :
    FollowsOrder app f held := by
  have hleaf := h.leaf_of_underPool
  have hpool := h.mayTake_pool
  have hin := h.cons_pool
  have hinLeaf := hin.leaf_of_underPool
  have hio := hleaf.mayTake_leaf (l := .mSendIOContextPoolLock s) rfl
  have hsend := hleaf.mayTake_leaf (l := .mSendPacketPoolLock s) rfl
  have hrecv := hleaf.mayTake_leaf (l := .mRecvPacketPoolLock s) rfl
  have hexc := hleaf.mayTake_leaf (l := .mExceptionContextPoolLock s) rfl
  cases f with
  | application a => exact follows_application app hf h
  | onClosed s => cases hf; exact app.onClosed_follows s held h
  | _ => first
      | cases hf; done
      | cases hf
        simp [FollowsOrder, body, Code.Follows, entry, contractOf, h, hleaf, hpool, hin, hinLeaf,
          hio, hsend, hrecv, hexc]

theorem follows_underMap
    {f : Fn A} (hf : contractOf app.contract f = .underMap)
    {held : List (Lock M)} (h : Contract.underMap.Holds app.outer held) :
    FollowsOrder app f held := by
  have hunder (s : Nat) := h.underPool_of_underMap (s := s)
  have hleaf := (hunder 0).leaf_of_underPool
  have hmap := h.mayTake_map
  have hin (s : Nat) := h.cons_map (s := s)
  have hpool (s : Nat) := (hunder s).mayTake_pool
  have hinLeaf (s : Nat) := (hunder s).cons_pool.leaf_of_underPool
  cases f with
  | application a => exact follows_application app hf h
  | _ => first
      | cases hf; done
      | simp [FollowsOrder, body, Code.Follows, entry, contractOf, h, hunder, hleaf, hmap, hin,
          hpool, hinLeaf]

theorem follows_nothing
    {f : Fn A} (hf : contractOf app.contract f = .nothing) :
    FollowsOrder app f [] := by
  have hobject (n : Nat) : MayTake (level app.outer) [] (.m_lock n) :=
    (Contract.holds_nil .leaf).mayTake_leaf rfl
  cases f with
  | application a => exact follows_application app hf rfl
  | onConnected s => exact app.onConnected_follows s
  | onReceived s => exact app.onReceived_follows s
  | handle s => exact app.handle_follows s
  | _ => first
      | cases hf; done
      | simp [FollowsOrder, body, Code.Follows, entry, Contract.holds_nil, hobject]

/-- Every function of the program keeps to the order of the locks. -/
theorem disciplined :
    Disciplined (level app.outer) (entry app.outer app.contract) (body app) := by
  intro f held h
  rw [entry] at h
  cases hf : contractOf app.contract f with
  | nothing =>
      rw [hf] at h
      rw [show held = [] from h]
      exact follows_nothing app hf
  | underMap =>
      rw [hf] at h
      exact follows_underMap app hf h
  | underPool s =>
      rw [hf] at h
      exact follows_underPool app hf h
  | leaf =>
      rw [hf] at h
      exact follows_leaf app hf h

end Discipline

section Deadlock

variable {M A : Type} [DecidableEq M] (app : Application M A)
variable {ι : Type} [Fintype ι] [DecidableEq ι]

/--
Any number of threads in any functions of the program: as long as `Join` terminates none of them
under a lock, they never wait for each other in a circle, and behind every thread that waits for a
lock there is one that goes on.
-/
theorem no_deadlock
    (root : ι → Fn A) {s : ι → Thread (Lock M) (Fn A)}
    (h : Reach (LockOrder.step (body app)) TerminatesFree (LockOrder.start root) s) :
    (∀ i, ¬ Relation.TransGen (WaitsFor s) i i) ∧
      ∀ i j, WaitsFor s i j →
        ∃ j', Relation.TransGen (WaitsFor s) i j' ∧ GoesOn (body app) s j' := by
  have hkept : Kept (level app.outer) (entry app.outer app.contract) s :=
    Kept.reach (disciplined app) (fun i => Contract.holds_nil _) h
  exact ⟨hkept.acyclic, fun i j hw => hkept.exists_goesOn hw⟩

/--
A thread that `Join` terminates under a lock keeps it: whoever comes to a guard of that lock later
waits for it and does not go on, whatever else happens.
-/
theorem blocked_of_terminated
    {G : (ι → Thread (Lock M) (Fn A)) → Act ι → Prop} {s s' : ι → Thread (Lock M) (Fn A)}
    {i : ι} {l : Lock M} (hl : l ∈ (s i).held)
    (h : Reach (LockOrder.step (body app)) G (Function.update s i ⟨(s i).held, []⟩) s')
    {j : ι} (hj : j ≠ i) {c : Code (Lock M) (Fn A)} {k : List (Task (Lock M) (Fn A))}
    (htodo : (s' j).todo = .run (.guarded l c) :: k) :
    WaitsFor s' j i ∧ ¬ GoesOn (body app) s' j := by
  have hsame : s' i = ⟨(s i).held, []⟩ := by
    have h0 := held_of_ended h (i := i) (by rw [Function.update_self])
    rw [h0, Function.update_self]
  have hheld : l ∈ (s' i).held := by
    rw [hsame]
    exact hl
  refine ⟨⟨hj.symm, l, c, k, htodo, hheld⟩, ?_⟩
  rintro ⟨-, choice, t, hstep⟩
  have hfree : ¬ FreeFor s' j l := fun hfree => hfree i hj.symm hheld
  obtain ⟨t', ht', -⟩ := Option.map_eq_some_iff.mp hstep
  rw [Thread.step, htodo] at ht'
  simp only [decide_eq_true_eq, if_neg hfree] at ht'
  cases ht'

end Deadlock

end Locks
end IocpNetlib
