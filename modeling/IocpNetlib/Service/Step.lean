import IocpNetlib.Lib.Ledger
import IocpNetlib.Lib.Reach
import IocpNetlib.Service.Client

/-!
# The running service

The state of a `TcpService` between `StartNetService` and `StopNetService`: the
blocks of its client pool, `mTcpClientMap`, the outstanding operations, and
what each thread still has to run.  Thread 0 is the assist thread, which runs
`checkStatus` under `mTcpClientPoolLock`; a worker that handles a completion and
a caller of the API are further threads.  An operation that is outstanding may
complete at any time and in any order, and any thread may take the next step.
-/

namespace IocpNetlib
namespace Service

open Ledger Reachability

/-- The address of a block of the client pool. -/
abbrev Addr := Nat

/-- A recorded event of the client with this serial number. -/
structure Event where
  serial : Nat
  socketID : SocketID
  kind : Kind
deriving DecidableEq, Repr

/--
The state of a service.  `allocating` holds the threads between
`GetNextLogicSocketID` and the locked part of `AllocTcpClient`, with the id they
drew and whether the acceptor called.
-/
structure State where
  http : Bool
  listening : Bool
  client : Addr → TcpClient
  mTcpClientMap : List (SocketID × Addr)
  mNextLogicSocketID : SocketID
  allocating : List (SocketID × Bool)
  outstanding : List (Addr × OpType)
  threads : List (List (Addr × Instr))
  nextSerial : Nat
  log : List Event

/-- The service after `StartNetService`, before any client is allocated. -/
def State.init (http listening : Bool) : State :=
  { http := http
    listening := listening
    client := fun _ => .unused
    mTcpClientMap := []
    mNextLogicSocketID := 0
    allocating := []
    outstanding := []
    threads := [[]]
    nextSerial := 1
    log := [] }

/-- One step of the service. -/
inductive Action
  | otherService
  | getNextLogicSocketID
  | allocTcpClient (j : Nat) (a : Addr) (o : Outcome)
  | send (socketID : SocketID)
  | closeSocket (socketID : SocketID)
  | checkStatus
  | complete (j : Nat) (r : Completion)
  | run (j : Nat) (o : Outcome)
deriving DecidableEq, Repr

/-- Write one client. -/
def State.setClient (s : State) (a : Addr) (c : TcpClient) : State :=
  { s with client := fun b => if b = a then c else s.client b }

/-- The assist thread holds `mTcpClientPoolLock` as long as it has code to run. -/
def State.locked (s : State) : Bool :=
  match s.threads with
  | (_ :: _) :: _ => true
  | _ => false

/-- `GetNextLogicSocketID`: the next id that is not zero. -/
def nextID (mNextLogicSocketID : SocketID) : SocketID :=
  if mNextLogicSocketID + 1 = 0 then 1 else mNextLogicSocketID + 1

/-- What `RemoveClient` does to the client it finds. -/
def TcpClient.removed (c : TcpClient) : TcpClient :=
  if 0 < c.mReferenceCount then { c with mMarkedDestroy := true }
  else { c with live := false }

theorem removed_active {c : TcpClient} (h : 0 < c.mReferenceCount) :
    c.removed = { c with mMarkedDestroy := true } :=
  if_pos h

theorem removed_idle {c : TcpClient} (h : ¬ 0 < c.mReferenceCount) :
    c.removed = { c with live := false } :=
  if_neg h

/-- `TcpService::RemoveClient`. -/
def State.removeClient (s : State) (socketID : SocketID) : State :=
  match s.mTcpClientMap.lookup socketID with
  | none => s
  | some a =>
      { s.setClient a (s.client a).removed with
        mTcpClientMap :=
          if 0 < (s.client a).mReferenceCount then s.mTcpClientMap
          else s.mTcpClientMap.filter fun e => e.1 ≠ socketID }

/-- What `checkStatus` does to a client it finds, at the end of its visit. -/
def TcpClient.swept (c : TcpClient) : TcpClient :=
  if c.mMarkedDestroy ∧ ¬ 0 < c.mReferenceCount then { c with live := false } else c

theorem swept_free
    {c : TcpClient} (h : c.mMarkedDestroy ∧ ¬ 0 < c.mReferenceCount) :
    c.swept = { c with live := false } :=
  if_pos h

theorem swept_kept
    {c : TcpClient} (h : ¬ (c.mMarkedDestroy ∧ ¬ 0 < c.mReferenceCount)) : c.swept = c :=
  if_neg h

/--
The end of a visit of `checkStatus`.  When the entry is gone the iterator is
not valid any more, and the language gives the rest of the sweep no meaning.
-/
def State.sweep (s : State) (a : Addr) (socketID : SocketID) : Option State :=
  if s.mTcpClientMap.lookup socketID = some a then
    some
      { s.setClient a (s.client a).swept with
        mTcpClientMap :=
          if (s.client a).mMarkedDestroy ∧ ¬ 0 < (s.client a).mReferenceCount then
            s.mTcpClientMap.filter fun e => e.1 ≠ socketID
          else s.mTcpClientMap }
  else none

/-- What one thread goes on with. -/
def State.setThread (s : State) (j : Nat) (code : List (Addr × Instr)) : State :=
  { s with threads := s.threads.set j code }

/-- The effect of an instruction on the client `a` that does not use the map. -/
def State.apply (s : State) (a : Addr) (ch : Change) : State :=
  { s.setClient a ch.client with
    outstanding := s.outstanding ++ owned a ch.post
    log :=
      match ch.event with
      | none => s.log
      | some k => ⟨(s.client a).serial, (s.client a).mLogicSocketID, k⟩ :: s.log }

/-- Thread `j` runs its next instruction; only the assist thread runs while it holds the lock. -/
def State.run (s : State) (j : Nat) (o : Outcome) : Option State :=
  match s.threads[j]? with
  | some ((a, .removeSelf) :: rest) =>
      if o = .ok ∧ (j = 0 ∨ s.locked = false) then
        some ((s.setThread j rest).removeClient (s.client a).mLogicSocketID)
      else none
  | some ((_, .removeClient socketID) :: rest) =>
      if o = .ok ∧ (j = 0 ∨ s.locked = false) then
        some ((s.setThread j rest).removeClient socketID)
      else none
  | some ((a, .sweep socketID) :: rest) =>
      if o = .ok then (s.setThread j rest).sweep a socketID else none
  | some ((a, i) :: rest) =>
      match exec s.http (s.client a) i o with
      | none => none
      | some ch => some ((s.setThread j (owned a ch.push ++ rest)).apply a ch)
  | _ => none

/-- `FindClient` and the call on the client it finds. -/
def State.find (s : State) (socketID : SocketID) (code : List Instr) : Option State :=
  if s.locked then none
  else
    match s.mTcpClientMap.lookup socketID with
    | none => some s
    | some a =>
        some
          { s.setClient a
              { s.client a with mReferenceCount := (s.client a).mReferenceCount + 1 } with
            threads := s.threads ++ [owned a code] }

/--
The locked part of `AllocTcpClient`, with the first instruction of its caller.
The new client gets a block that is not handed out; `insert` keeps an entry
that is there already.
-/
def State.allocTcpClient (s : State) (j : Nat) (a : Addr) (o : Outcome) : Option State :=
  match s.allocating[j]? with
  | none => none
  | some (id, accepting) =>
      if s.locked then none
      else if o = .fail then some { s with allocating := s.allocating.eraseIdx j }
      else if o = .ok ∧ (s.client a).live = false then
        some
          { s.setClient a (.fresh id s.nextSerial) with
            mTcpClientMap :=
              if (s.mTcpClientMap.lookup id).isSome then s.mTcpClientMap
              else (id, a) :: s.mTcpClientMap
            allocating := s.allocating.eraseIdx j
            threads :=
              s.threads ++ [owned a [if accepting then .acceptEx else .increaseRef]]
            nextSerial := s.nextSerial + 1 }
      else none

/--
The steps of the service.  `ConnectServer` returns at once when the service
listens, so that only a service that does not listen connects.
-/
def step (s : State) : Action → Option State
  | .otherService => some { s with mNextLogicSocketID := nextID s.mNextLogicSocketID }
  | .getNextLogicSocketID =>
      some
        { s with
          mNextLogicSocketID := nextID s.mNextLogicSocketID
          allocating := s.allocating ++ [(nextID s.mNextLogicSocketID, s.listening)] }
  | .allocTcpClient j a o => s.allocTcpClient j a o
  | .send socketID => s.find socketID sendCode
  | .closeSocket socketID => s.find socketID closeCode
  | .checkStatus =>
      match s.threads with
      | [] :: ts =>
          some
            { s with
              threads := (s.mTcpClientMap.map fun e => (e.2, .visit e.1)) :: ts }
      | _ => none
  | .complete j r =>
      match s.outstanding[j]? with
      | none => none
      | some (a, k) =>
          match onCompleteOperation k r with
          | none => none
          | some code =>
              some
                { s with
                  outstanding := s.outstanding.eraseIdx j
                  threads := s.threads ++ [owned a code] }
  | .run j o => s.run j o

end Service
end IocpNetlib
