import IocpNetlib.Net.Config

/-!
# What a thread does to one `TcpClient`

The code that completion handlers, API calls and the status sweep run on a
client is cut into instructions: each Win32 post, each interlocked operation,
each section under a lock, each callback, each wait and each plain read or
write of `mConnState` is one of them, and other plain writes go with the
instruction next to them.  A thread is the list of instructions it still has to
run; `exec` runs one of them and says which instructions take its place.

What the operating system, a pool or the application answers is the `Outcome`.
`OnConnected` and `OnReceived` return or throw: `OnCompleteOperation` catches
what they throw, and goes on with `CheckRelease`; what `OnConnected` throws to
the acceptor ends its handler.  `OnClosed` is called outside of the `try`, and
returns.
-/

namespace IocpNetlib
namespace Service

/-- `unsigned int`, for the ids of logic sockets. -/
def SocketID : Type := UInt32
deriving DecidableEq, Repr

instance (n : Nat) : OfNat SocketID n := inferInstanceAs (OfNat UInt32 n)

instance : Add SocketID := inferInstanceAs (Add UInt32)

/-- `TcpConnState`. -/
inductive TcpConnState
  | closed
  | connected
  | closing
deriving DecidableEq, Repr

/-- `IOCP_OP_TYPE`. -/
inductive OpType
  | idle
  | accept
  | recv
  | send
  | timeout
  | closed
  | exit
  | connectEx
  | connectExTimeout
deriving DecidableEq, Repr

/-- The pools of a `TcpService`, the client pool apart. -/
inductive Pool
  | sendIOContext
  | sendPacket
  | recvPacket
  | exceptionContext
deriving DecidableEq, Repr

/--
The fields of a `TcpClient` that threads share.  `socketOpen` is
`!mSocket.IsInvalid()`, `mOperationType` is that of `mRecvContext`, and
`mConnctRemoteSem` is the count of the semaphore.  The last four fields are not
in the source: `live` says that the block is handed out by the client pool,
`serial` numbers the clients in the order of their allocation, `allocID` is the
id the client was entered in the map under, and `holdsRecvPacket` says that a
block of the receive pool has not been given back.
-/
structure TcpClient where
  mLogicSocketID : SocketID
  mPendingIo : Int
  mReferenceCount : Int
  mConnState : TcpConnState
  mOperationType : OpType
  socketOpen : Bool
  mRecvPacketBuffer : Bool
  mLastErrorCode : NetServiceErr
  mMarkedDestroy : Bool
  mCloseAfterSend : Bool
  mConnctRemoteSem : Nat
  live : Bool
  serial : Nat
  allocID : SocketID
  holdsRecvPacket : Bool
deriving DecidableEq, Repr

/-- `TcpClient::Reset`. -/
def TcpClient.reset (c : TcpClient) : TcpClient :=
  { c with
    mLogicSocketID := 0
    mPendingIo := 0
    mReferenceCount := 0
    mConnState := .closed
    mOperationType := .idle
    socketOpen := false
    mRecvPacketBuffer := false
    mLastErrorCode := .success
    mMarkedDestroy := false
    mCloseAfterSend := false
    mConnctRemoteSem := 0 }

/-- A block that has never been a client. -/
def TcpClient.unused : TcpClient :=
  { mLogicSocketID := 0
    mPendingIo := 0
    mReferenceCount := 0
    mConnState := .closed
    mOperationType := .idle
    socketOpen := false
    mRecvPacketBuffer := false
    mLastErrorCode := .success
    mMarkedDestroy := false
    mCloseAfterSend := false
    mConnctRemoteSem := 0
    live := false
    serial := 0
    allocID := 0
    holdsRecvPacket := false }

/-- A client as `AllocTcpClient` enters it in the map. -/
def TcpClient.fresh (nextID : SocketID) (serial : Nat) : TcpClient :=
  { TcpClient.unused with
    mLogicSocketID := nextID
    socketOpen := true
    live := true
    serial := serial
    allocID := nextID }

/-- The three places that call `PostRecv`. -/
inductive RecvSite
  | accept
  | connect
  | again
deriving DecidableEq, Repr

/-- The next thing a thread does to a client. -/
inductive Instr
  -- `TcpService::ConnectServer` and `TcpClient::PostConnect`
  | increaseRef
  | postConnect (nSocketID : SocketID)
  | connectEx (nSocketID : SocketID)
  | connectFailed (nSocketID : SocketID)
  | closeHandle (nSocketID : SocketID)
  | wait (nSocketID : SocketID)
  | readConnState (nSocketID : SocketID)
  -- `~TcpClientRef` and `TcpClientRef::UnRef`
  | decreaseRef
  -- `RemoveClient`, with an id read before or with the client's own
  | removeClient (socketID : SocketID)
  | removeSelf
  -- `TcpAcceptor`
  | acceptEx
  | acceptConnection
  | closeSocket
  | reset (logicSocketID : SocketID)
  -- `PostRecv` and its callers
  | storeConnected (site : RecvSite)
  | postRecv (site : RecvSite)
  | wsaRecv (site : RecvSite)
  | recvFailed (site : RecvSite)
  | semPost
  | onConnected (site : RecvSite)
  | storeClosed
  -- `SetDisconnect`
  | setDisconnect (errCode : NetServiceErr)
  | disconnected (errCode : NetServiceErr)
  -- `SplitPacket` and `SplitHttpPacket`
  | allocRecvPacket
  | splitPacket
  -- `OnSendCompletion` and `PostSend`
  | onSendCompletion (full : Bool)
  | releaseSendPacket
  | releaseSendIOContext
  | allocSendIOContext
  | allocSendPacket
  | increaseSend
  | wsaSend
  -- `PostSpecial`
  | postSpecial (opType : OpType)
  | allocExceptionIOContext (opType : OpType)
  | postQueued (opType : OpType)
  | decreaseIOCount
  | releaseExceptionIOContext
  -- `CheckRelease`
  | checkRelease
  | casClosed
  | freeRecvPacket
  | onClosed
  -- one client of `checkStatus`
  | visit (socketID : SocketID)
  | sweep (socketID : SocketID)
deriving DecidableEq, Repr

/-- What the operating system, a pool or the application answers to an instruction. -/
inductive Outcome
  | ok
  | fail
  | badAddress
  | deliver (close : Bool)
  | refuse
  | throw
deriving DecidableEq, Repr

/-- What is recorded of a run. -/
inductive Kind
  | onConnected
  | onReceived (threw : Bool)
  | onClosed (nErrorCode : NetServiceErr)
  | connectServer (result : SocketID)
  | acquire (pool : Pool)
  | release (pool : Pool)
deriving DecidableEq, Repr

/-- What an instruction does: the new fields, the code it goes on with, what it posts. -/
structure Change where
  client : TcpClient
  push : List Instr
  post : List OpType
  event : Option Kind

/-- An instruction that only changes fields and goes on with `push`. -/
def Change.next (c : TcpClient) (push : List Instr) : Change :=
  { client := c
    push := push
    post := []
    event := none }

@[simp] theorem Change.next_client (c : TcpClient) (push : List Instr) :
    (Change.next c push).client = c := rfl

@[simp] theorem Change.next_push (c : TcpClient) (push : List Instr) :
    (Change.next c push).push = push := rfl

@[simp] theorem Change.next_post (c : TcpClient) (push : List Instr) :
    (Change.next c push).post = [] := rfl

@[simp] theorem Change.next_event (c : TcpClient) (push : List Instr) :
    (Change.next c push).event = none := rfl

/-- What follows a successful `PostRecv`. -/
def RecvSite.onOk : RecvSite → List Instr
  | .accept => [.onConnected .accept]
  | .connect => [.semPost, .onConnected .connect]
  | .again => []

/-- What follows a failed `PostRecv`. -/
def RecvSite.onFail : RecvSite → List Instr
  | .accept => [.closeSocket]
  | .connect => [.setDisconnect .exception]
  | .again => [.setDisconnect .recvFailed]

/-- `SetDisconnect` after a callback that refuses a packet; the HTTP splitter calls it too. -/
def refused (http : Bool) : List Instr :=
  if http then [.setDisconnect .beClosed, .setDisconnect .beClosed]
  else [.setDisconnect .beClosed]

/-- The `SetDisconnect` of a handled send, if any. -/
def sendResult (c : TcpClient) (full : Bool) : List Instr :=
  if full = false then [.setDisconnect .sendNotComplete]
  else if c.mCloseAfterSend then [.setDisconnect .beClosed]
  else []

/--
One instruction on the client `c`.  The instructions that look the map up are
not here.
-/
def exec (http : Bool) (c : TcpClient) : Instr → Outcome → Option Change
  | .increaseRef, .ok =>
      some (.next { c with mReferenceCount := c.mReferenceCount + 1 }
        [.postConnect c.mLogicSocketID])
  | .postConnect nSocketID, .ok =>
      some (.next
        { c with
          mConnctRemoteSem := 0
          mOperationType := .connectEx
          mPendingIo := c.mPendingIo + 1 }
        [.connectEx nSocketID])
  | .postConnect nSocketID, .badAddress =>
      -- `PostConnect` returns without closing the socket
      some ⟨c, [.decreaseRef, .removeClient nSocketID], [], some (.connectServer 0)⟩
  | .postConnect nSocketID, .fail =>
      some ⟨c, [.closeHandle nSocketID], [], some (.connectServer 0)⟩
  | .connectEx nSocketID, .ok =>
      if c.socketOpen then some ⟨c, [.wait nSocketID], [.connectEx], none⟩ else none
  | .connectEx nSocketID, .fail =>
      some ⟨c, [.connectFailed nSocketID], [], some (.connectServer 0)⟩
  | .connectFailed nSocketID, .ok =>
      some (.next { c with mPendingIo := c.mPendingIo - 1 } [.closeHandle nSocketID])
  | .closeHandle nSocketID, .ok =>
      some (.next { c with socketOpen := false } [.decreaseRef, .removeClient nSocketID])
  | .wait nSocketID, .ok =>
      if 0 < c.mConnctRemoteSem then
        some (.next { c with mConnctRemoteSem := c.mConnctRemoteSem - 1 }
          [.readConnState nSocketID])
      else none
  | .wait _, .fail =>
      if c.mConnctRemoteSem = 0 then
        some ⟨c, [.postSpecial .connectExTimeout, .decreaseRef], [], some (.connectServer 0)⟩
      else none
  | .readConnState nSocketID, .ok =>
      some ⟨c, [.decreaseRef], [],
        some (.connectServer (if c.mConnState = .connected then nSocketID else 0))⟩
  | .decreaseRef, .ok =>
      some (.next { c with mReferenceCount := c.mReferenceCount - 1 } [])
  | .acceptEx, .ok =>
      if c.socketOpen then some ⟨{ c with mOperationType := .accept }, [], [.accept], none⟩
      else none
  | .acceptEx, .fail =>
      some (.next { c with mOperationType := .accept } [.removeSelf])
  | .acceptConnection, .ok =>
      if c.mOperationType = .accept ∧ c.socketOpen then
        some (.next c [.storeConnected .accept])
      else none
  | .acceptConnection, .fail => some (.next c [.closeSocket])
  | .closeSocket, .ok =>
      some (.next { c with mConnState := .closing, socketOpen := false }
        [.reset c.mLogicSocketID])
  | .reset logicSocketID, .ok => some (.next c.reset [.removeClient logicSocketID])
  | .storeConnected site, .ok =>
      some (.next { c with mConnState := .connected } [.postRecv site])
  | .postRecv site, .ok =>
      some (.next { c with mPendingIo := c.mPendingIo + 1, mOperationType := .recv }
        [.wsaRecv site])
  | .wsaRecv site, .ok =>
      if c.socketOpen then some ⟨c, site.onOk, [.recv], none⟩ else none
  | .wsaRecv site, .fail => some (.next c [.recvFailed site])
  | .recvFailed site, .ok =>
      some (.next { c with mPendingIo := c.mPendingIo - 1 } site.onFail)
  | .semPost, .ok =>
      some (.next { c with mConnctRemoteSem := c.mConnctRemoteSem + 1 } [])
  | .onConnected _, .ok => some ⟨c, [], [], some .onConnected⟩
  | .storeClosed, .ok => some (.next { c with mConnState := .closed } [])
  | .setDisconnect errCode, .ok =>
      if c.mConnState = .connected then
        some (.next { c with mConnState := .closing } [.disconnected errCode])
      else some (.next c [])
  | .disconnected errCode, .ok =>
      some (.next { c with mLastErrorCode := errCode, socketOpen := false } [])
  | .allocRecvPacket, .ok =>
      if c.mRecvPacketBuffer then some (.next c [.splitPacket])
      else
        some ⟨{ c with mRecvPacketBuffer := true, holdsRecvPacket := true }, [.splitPacket],
          [], some (.acquire .recvPacket)⟩
  | .allocRecvPacket, .fail =>
      if c.mRecvPacketBuffer then none
      else some (.next c [.setDisconnect .recvQueueFull])
  | .splitPacket, .deliver close =>
      some ⟨{ c with mCloseAfterSend := if http then close else c.mCloseAfterSend },
        [.splitPacket], [], some (.onReceived false)⟩
  | .splitPacket, .refuse => some ⟨c, refused http, [], some (.onReceived false)⟩
  | .splitPacket, .fail => some (.next c [.setDisconnect .illegalRecvPacket])
  | .splitPacket, .ok => some (.next c [.postRecv .again])
  | .onSendCompletion full, .ok =>
      some (.next c (.releaseSendPacket :: .releaseSendIOContext :: sendResult c full))
  | .releaseSendPacket, .ok => some ⟨c, [], [], some (.release .sendPacket)⟩
  | .releaseSendIOContext, .ok => some ⟨c, [], [], some (.release .sendIOContext)⟩
  | .allocSendIOContext, .ok =>
      some ⟨c, [.allocSendPacket], [], some (.acquire .sendIOContext)⟩
  | .allocSendIOContext, .fail => some (.next c [])
  | .allocSendPacket, .ok => some ⟨c, [.increaseSend], [], some (.acquire .sendPacket)⟩
  | .allocSendPacket, .fail => some (.next c [.releaseSendIOContext])
  | .increaseSend, .ok =>
      some (.next { c with mPendingIo := c.mPendingIo + 1 } [.wsaSend])
  | .wsaSend, .ok => if c.socketOpen then some ⟨c, [], [.send], none⟩ else none
  | .wsaSend, .fail =>
      some (.next c [.checkRelease, .releaseSendIOContext, .releaseSendPacket])
  | .postSpecial opType, .ok =>
      some (.next { c with mPendingIo := c.mPendingIo + 1 } [.allocExceptionIOContext opType])
  | .allocExceptionIOContext opType, .ok =>
      some ⟨c, [.postQueued opType], [], some (.acquire .exceptionContext)⟩
  | .allocExceptionIOContext _, .fail => some (.next c [.decreaseIOCount, .checkRelease])
  | .postQueued opType, .ok => some ⟨c, [], [opType], none⟩
  | .postQueued _, .fail =>
      some (.next c [.releaseExceptionIOContext, .decreaseIOCount, .checkRelease])
  | .decreaseIOCount, .ok => some (.next { c with mPendingIo := c.mPendingIo - 1 } [])
  | .releaseExceptionIOContext, .ok => some ⟨c, [], [], some (.release .exceptionContext)⟩
  | .checkRelease, .ok =>
      some (.next { c with mPendingIo := c.mPendingIo - 1 }
        (if c.mPendingIo - 1 = 0 then [.casClosed] else []))
  | .casClosed, .ok =>
      if c.mConnState = .closing then
        some (.next { c with mConnState := .closed } [.freeRecvPacket])
      else some (.next c [.removeSelf])
  | .freeRecvPacket, .ok =>
      if c.mRecvPacketBuffer then
        some ⟨{ c with mRecvPacketBuffer := false, holdsRecvPacket := false }, [.onClosed],
          [], some (.release .recvPacket)⟩
      else some (.next c [.onClosed])
  | .onClosed, .ok => some ⟨c, [.removeSelf], [], some (.onClosed c.mLastErrorCode)⟩
  | .visit socketID, .ok =>
      -- the client has been idle for too long
      if c.mOperationType = .accept then none
      else some (.next c [.postSpecial .timeout, .sweep socketID])
  | .visit socketID, .fail =>
      if c.mOperationType = .accept then some (.next c [])
      else some (.next c [.sweep socketID])
  | .splitPacket, .throw =>
      -- neither `SetDisconnect` nor `PostRecv` is called
      some ⟨c, [], [], some (.onReceived true)⟩
  | .onConnected _, .throw => some ⟨c, [], [], some .onConnected⟩
  | _, _ => none

/-- How an overlapped operation ends; `full` is a receive of at least one byte, or a send of all. -/
inductive Completion
  | failure
  | success (full : Bool)
deriving DecidableEq, Repr

/--
The code of `OnCompleteOperation`, of the client or of the acceptor, on a
completed operation.  Packets posted to the port only complete with success.
-/
def onCompleteOperation : OpType → Completion → Option (List Instr)
  | .accept, .success _ => some [.acceptConnection]
  | .accept, .failure => some [.closeSocket]
  | .recv, .success true => some [.allocRecvPacket, .checkRelease]
  | .recv, .success false => some [.setDisconnect .remoteDisconnect, .checkRelease]
  | .recv, .failure => some [.setDisconnect .remoteDisconnect, .checkRelease]
  | .send, .success full => some [.onSendCompletion full, .checkRelease]
  | .send, .failure =>
      some [.releaseSendPacket, .releaseSendIOContext, .setDisconnect .exception,
        .checkRelease]
  | .timeout, .success _ =>
      some [.releaseExceptionIOContext, .setDisconnect .timeout, .checkRelease]
  | .closed, .success _ =>
      some [.releaseExceptionIOContext, .setDisconnect .beClosed, .checkRelease]
  | .connectEx, .success _ => some [.storeConnected .connect, .checkRelease]
  | .connectEx, .failure =>
      some [.storeClosed, .semPost, .setDisconnect .connectFailed, .setDisconnect .exception,
        .checkRelease]
  | .connectExTimeout, .success _ =>
      some [.releaseExceptionIOContext, .storeClosed, .semPost, .setDisconnect .timeout,
        .checkRelease]
  | _, _ => none

/-- `TcpService::Send` and `SendHttpResponse`, once the client is found. -/
def sendCode : List Instr := [.allocSendIOContext, .decreaseRef]

/-- `TcpService::CloseSocket`, once the client is found. -/
def closeCode : List Instr := [.postSpecial .closed, .decreaseRef]

end Service
end IocpNetlib
