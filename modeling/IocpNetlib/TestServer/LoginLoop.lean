import IocpNetlib.Lib.Reach
import IocpNetlib.Tcp.Channel
import Mathlib.Algebra.BigOperators.Group.Finset.Basic
import Mathlib.Data.List.ReduceOption
import Mathlib.Data.Multiset.Count

/-!
# The login loop of `TestClient` and `TestServer`

A client sends a login request, the server answers it, and the answer makes the
client send its next request.  On both sides packets go through `SplitPacket`,
`OnReceived`, a `PackageQueue` and several threads.  Connections are closed at
any time on either side, and `CheckThreadProc` makes new ones.  Steps of the
parties, of their threads and of the connections follow each other in any order.

Every message under way, wherever it is, goes back to one `TestSend` of `main`
or of `CheckThreadProc`: the loop neither duplicates nor loses any, except where
a `Send` fails or a connection is closed under the messages in its stream.
-/

namespace IocpNetlib
namespace TestServer

open ByteBlock Reachability Tcp

section TestProtocol

/-- `CMD_LOGIN_REQUEST` and `CMD_LOGIN_RESPONSE`. -/
def cmdLoginRequest : Nat := 1
def cmdLoginResponse : Nat := 2

/-- `sizeof(BaseMsgHead)`, `sizeof(LoginRequest)` and `sizeof(LoginResponse)`. -/
def sizeofBaseMsgHead : Nat := 8
def sizeofLoginRequest : Nat := 1028
def sizeofLoginResponse : Nat := 1032

/-- The packet that `Client::TestSend` fills in; `reserved` is what its buffer holds there. -/
def loginRequest (reserved : List UInt8) : List UInt8 :=
  leBytes 4 (sizeofBaseMsgHead + sizeofLoginRequest) ++ leBytes 4 cmdLoginRequest ++
    leBytes 4 102 ++ reserved

/-- The packet that `TestServer::ProcessMessage` fills in for a user. -/
def loginResponse (userId reserved : List UInt8) : List UInt8 :=
  leBytes 4 (sizeofBaseMsgHead + sizeofLoginResponse) ++ leBytes 4 cmdLoginResponse ++
    leBytes 4 100 ++ userId ++ reserved

/--
`TestServer::ProcessMessage` on a packet, with `rest` behind it in its block:
the packet it sends, if any.
-/
def processMessage (data rest reserved : List UInt8) : Option (List UInt8) :=
  if int32At (data ++ rest) 4 = cmdLoginRequest then
    some (loginResponse (((data ++ rest).drop 8).take 4) reserved)
  else none

/-- The test of `Client::ProcessMsg`, in front of its `TestSend`. -/
def isOwnResponse (data rest : List UInt8) : Bool :=
  decide (int32At (data ++ rest) 4 = cmdLoginResponse ∧ int32At (data ++ rest) 12 = 102)

/-- The parameters of `Client::StartClient`. -/
def clientFraming : FramingParam where
  mMaxPacketSize := 4096
  mPacketSizeOffset := 0
  maxPacketSize_pos := by decide
  maxPacketSize_le := by decide
  packetSizeOffset_le := firstField_le

/-- A packet of `TestSend`. -/
def IsLoginRequest (packet : List UInt8) : Prop :=
  ∃ reserved, reserved.length = 1024 ∧ packet = loginRequest reserved

/-- The answer of the server to a packet of `TestSend`. -/
def IsLoginResponse (packet : List UInt8) : Prop :=
  ∃ reserved, reserved.length = 1024 ∧ packet = loginResponse (leBytes 4 102) reserved

end TestProtocol

section Model

/-- The end of a connection that receives; a receive that fails is followed by a close. -/
inductive EndState
  | receiving | failing | closed
deriving DecidableEq, Repr

/--
One direction of a connection: its stream, the packets that `SplitPacket` has
found and that wait for their `OnReceived`, those that it accepted, and those
that it was not called on or refused.
-/
structure Direction where
  channel : Channel
  arrived : List (List UInt8)
  accepted : List (List UInt8)
  refused : List (List UInt8)
  receiver : EndState
deriving DecidableEq, Repr

def Direction.start : Direction :=
  { channel := .start, arrived := [], accepted := [], refused := [], receiver := .receiving }

section Direction

variable (d : Direction)

/-- A packet is handed to `WSASend`. -/
def Direction.post (packet : List UInt8) : Direction :=
  { d with channel := d.channel.post packet }

/-- A receive of at most `n` bytes, and `SplitPacket` on them. -/
def Direction.receive (p : FramingParam) (n : Nat) : Direction :=
  { d with
    channel := (d.channel.deliver p n).2
    arrived := d.channel.arrivals p n
    receiver := if (d.channel.deliver p n).1 = .success then .receiving else .failing }

/-- `OnReceived` takes the first of the packets. -/
def Direction.accept (q : List UInt8) (qs : List (List UInt8)) : Direction :=
  { d with arrived := qs, accepted := d.accepted ++ [q] }

/-- `OnReceived` answers -1: `SplitPacket` returns, and the connection will be closed. -/
def Direction.refuse : Direction :=
  { d with arrived := [], refused := d.refused ++ d.arrived, receiver := .failing }

/-- No receive follows, and what is left in the stream is gone. -/
def Direction.close : Direction :=
  { d with receiver := .closed }

/-- The messages that can still get to the receiving end. -/
def Direction.underWay : Nat :=
  d.arrived.length + if d.receiver = .receiving then d.channel.inFlight.length else 0

/-- The messages that a close has lost. -/
def Direction.lost : Nat :=
  d.refused.length + if d.receiver = .receiving then 0 else d.channel.inFlight.length

end Direction

/-- A connection of client number `client`; the server receives what goes up. -/
structure Connection where
  client : Nat
  up : Direction
  down : Direction
deriving DecidableEq, Repr

def Connection.underWay (x : Connection) : Nat :=
  x.up.underWay + x.down.underWay

def Connection.lost (x : Connection) : Nat :=
  x.up.lost + x.down.lost

/-- A packet in the queue of the server: the socket of its header, and its bytes. -/
structure QueuedPacket where
  nSocketID : Nat
  data : List UInt8
deriving DecidableEq, Repr

/--
A `Client`: its socket, none for 0, the results of `ConnectServer` that have not
been stored in it yet, and its queue and `ProcessMsg` threads.
-/
structure Client where
  mSocketID : Option Nat
  connecting : List Nat
  mPackageQueue : List (List UInt8)
  mThreads : List (Option (List UInt8))
deriving DecidableEq, Repr

def Client.start : Client :=
  { mSocketID := none
    connecting := []
    mPackageQueue := []
    mThreads := List.replicate 4 none }

section Client

variable (y : Client)

/-- A packet is queued, a thread takes the first one, and gives it back. -/
def Client.push (q : List UInt8) : Client :=
  { y with mPackageQueue := y.mPackageQueue ++ [q] }

def Client.take (i : Nat) (q : List UInt8) (qs : List (List UInt8)) : Client :=
  { y with mPackageQueue := qs, mThreads := y.mThreads.set i (some q) }

def Client.giveBack (i : Nat) : Client :=
  { y with mThreads := y.mThreads.set i none }

/-- The blocks of the client's queue in use: queued packets, and those a thread holds. -/
def Client.used : Nat :=
  y.mPackageQueue.length + y.mThreads.reduceOption.length

/-- The connections that are or can become `mSocketID`. -/
def Client.sockets : List Nat :=
  y.mSocketID.toList ++ y.connecting

end Client

/--
The server, its clients, and the connections made so far, by number; both ends
know a connection by an id of its own.  The calls of `TestSend` from outside the
loop, and the messages that led to no further one, are recorded by their
clients; `failed` says that some receive has failed.
-/
structure LoginState where
  made : Nat
  connection : Nat → Connection
  client : Nat → Client
  mPackageQueue : List QueuedPacket
  mThreads : List (Option QueuedPacket)
  started : List Nat
  dropped : List Nat
  failed : Bool

def LoginState.start (threadCount : Nat) : LoginState :=
  { made := 0
    connection := fun _ => { client := 0, up := .start, down := .start }
    client := fun _ => .start
    mPackageQueue := []
    mThreads := List.replicate threadCount none
    started := []
    dropped := []
    failed := false }

/-- The number of blocks of `PackageQueue::Init(4096, 200)` and of that of a client. -/
def serverBlocks : Nat := 200
def clientBlocks : Nat := 500

/--
What can happen; `sent` says that a send has its buffer, finds its client and its
blocks, and that `WSASend` takes it.  `ConnectServer` is called by `StartClient`,
and by `CheckThreadProc` when it has read 0 in `mSocketID`; `OnClosed` may come
before its result is stored.
-/
inductive LoginAction
  | connectServer (c : Nat)
  | storeSocketID (c k : Nat)
  | connectFailed (c : Nat)
  | testSend (c : Nat) (reserved : List UInt8) (sent : Bool)
  | serverReceive (k n : Nat)
  | serverOnReceived (k : Nat)
  | serverPop (i : Nat)
  | serverProcess (i : Nat) (rest reserved : List UInt8) (sent : Bool)
  | serverOnClosed (k : Nat)
  | clientReceive (k n : Nat)
  | clientOnReceived (k : Nat)
  | clientPop (c i : Nat)
  | clientProcess (c i : Nat) (rest reserved : List UInt8) (sent : Bool)
  | clientOnClosed (k : Nat)
deriving DecidableEq, Repr

section Writes

variable (s : LoginState)

/-- Write one connection, or one client. -/
def LoginState.setConnection (k : Nat) (x : Connection) : LoginState :=
  { s with connection := fun d => if d = k then x else s.connection d }

def LoginState.setClient (c : Nat) (y : Client) : LoginState :=
  { s with client := fun d => if d = c then y else s.client d }

def LoginState.setUp (k : Nat) (d : Direction) : LoginState :=
  s.setConnection k { s.connection k with up := d }

def LoginState.setDown (k : Nat) (d : Direction) : LoginState :=
  s.setConnection k { s.connection k with down := d }

/-- A new connection of client `c`, on its way into `mSocketID`. -/
def LoginState.connect (c : Nat) : LoginState :=
  { (s.setConnection s.made { client := c, up := .start, down := .start }).setClient c
      { s.client c with connecting := s.made :: (s.client c).connecting } with
    made := s.made + 1 }

/-- A message of client `c` leads to no further one. -/
def LoginState.drop (c : Nat) : LoginState :=
  { s with dropped := c :: s.dropped }

/-- A packet from connection `k` is queued. -/
def LoginState.push (k : Nat) (q : List UInt8) : LoginState :=
  { s with mPackageQueue := s.mPackageQueue ++ [⟨k, q⟩] }

/-- A thread takes the first packet of the queue, or gives back what it holds. -/
def LoginState.take (i : Nat) (q : QueuedPacket) (qs : List QueuedPacket) : LoginState :=
  { s with mPackageQueue := qs, mThreads := s.mThreads.set i (some q) }

def LoginState.giveBack (i : Nat) : LoginState :=
  { s with mThreads := s.mThreads.set i none }

/-- The blocks of the server's queue in use. -/
def LoginState.used : Nat :=
  s.mPackageQueue.length + s.mThreads.reduceOption.length

end Writes

section Step

variable (p : FramingParam) (s : LoginState)

/-- `Client::TestSend`; without a socket it returns before it sends anything. -/
def LoginState.testSend (c : Nat) (packet : List UInt8) (sent : Bool) : LoginState :=
  match (s.client c).mSocketID with
  | none => s.drop c
  | some k =>
      if (s.connection k).down.receiver ≠ .closed ∧
          packet.length ≤ clientFraming.mMaxPacketSize ∧ sent then
        s.setUp k ((s.connection k).up.post packet)
      else s.drop c

/-- A pass of `TestServer::ProcessMessage` ends with a send, or without one. -/
def LoginState.answer (k : Nat) (response : Option (List UInt8)) (sent : Bool) : LoginState :=
  match response with
  | none => s.drop (s.connection k).client
  | some packet =>
      if (s.connection k).up.receiver ≠ .closed ∧ packet.length ≤ p.mMaxPacketSize ∧ sent then
        s.setDown k ((s.connection k).down.post packet)
      else s.drop (s.connection k).client

/-- A pass of `Client::ProcessMsg` ends with `TestSend`, or without it. -/
def LoginState.goOn (c : Nat) (own : Bool) (packet : List UInt8) (sent : Bool) : LoginState :=
  if own then s.testSend c packet sent else s.drop c

/-- A receive follows the one before it once `OnReceived` was called on all its packets. -/
def Direction.canReceive (d : Direction) : Bool :=
  decide (d.receiver = .receiving ∧ d.arrived = [])

/-- `OnClosed` comes once, when nothing that was received is being handled. -/
def Direction.canClose (d : Direction) : Bool :=
  decide (d.receiver ≠ .closed ∧ d.arrived = [])

/-- A receive ends with the error of `SplitPacket`. -/
def LoginState.received (d : Direction) : LoginState :=
  { s with failed := s.failed || decide (d.receiver = .failing) }

/-- `TestServer::OnReceived` on the first of the packets that have arrived. -/
def LoginState.serverOnReceived (k : Nat) (q : List UInt8) (qs : List (List UInt8)) : LoginState :=
  if s.used < serverBlocks then
    (s.setUp k ((s.connection k).up.accept q qs)).push k q
  else { s.setUp k (s.connection k).up.refuse with failed := true }

/-- `Client::OnReceived`. -/
def LoginState.clientOnReceived (k : Nat) (q : List UInt8) (qs : List (List UInt8)) : LoginState :=
  if (s.client (s.connection k).client).used < clientBlocks then
    (s.setDown k ((s.connection k).down.accept q qs)).setClient (s.connection k).client
      ((s.client (s.connection k).client).push q)
  else { s.setDown k (s.connection k).down.refuse with failed := true }

/-- `Client::OnClosed`, which is not told whether another socket has been stored. -/
def LoginState.clientOnClosed (k : Nat) : LoginState :=
  (s.setDown k (s.connection k).down.close).setClient (s.connection k).client
    { s.client (s.connection k).client with mSocketID := none }

/-- One step of one of the parties. -/
def LoginState.step (s : LoginState) : LoginAction → Option LoginState
  | .connectServer c => some (s.connect c)
  | .storeSocketID c k =>
      if k ∈ (s.client c).connecting then
        some (s.setClient c
          { s.client c with
            mSocketID := some k
            connecting := (s.client c).connecting.erase k })
      else none
  | .connectFailed c => some (s.setClient c { s.client c with mSocketID := none })
  | .testSend c reserved sent =>
      if reserved.length = 1024 then
        some { s.testSend c (loginRequest reserved) sent with started := c :: s.started }
      else none
  | .serverReceive k n =>
      if k < s.made ∧ (s.connection k).up.canReceive then
        some ((s.setUp k ((s.connection k).up.receive p n)).received
          ((s.connection k).up.receive p n))
      else none
  | .serverOnReceived k =>
      match (s.connection k).up.arrived with
      | q :: qs => if k < s.made then some (s.serverOnReceived k q qs) else none
      | [] => none
  | .serverPop i =>
      match s.mThreads[i]?, s.mPackageQueue with
      | some none, q :: qs => some (s.take i q qs)
      | _, _ => none
  | .serverProcess i rest reserved sent =>
      match s.mThreads[i]? with
      | some (some q) =>
          if reserved.length = 1024 then
            some ((s.giveBack i).answer p q.nSocketID (processMessage q.data rest reserved) sent)
          else none
      | _ => none
  | .serverOnClosed k =>
      if k < s.made ∧ (s.connection k).up.canClose then
        some (s.setUp k (s.connection k).up.close)
      else none
  | .clientReceive k n =>
      if k < s.made ∧ (s.connection k).down.canReceive then
        some ((s.setDown k ((s.connection k).down.receive clientFraming n)).received
          ((s.connection k).down.receive clientFraming n))
      else none
  | .clientOnReceived k =>
      match (s.connection k).down.arrived with
      | q :: qs => if k < s.made then some (s.clientOnReceived k q qs) else none
      | [] => none
  | .clientPop c i =>
      match (s.client c).mThreads[i]?, (s.client c).mPackageQueue with
      | some none, q :: qs => some (s.setClient c ((s.client c).take i q qs))
      | _, _ => none
  | .clientProcess c i rest reserved sent =>
      match (s.client c).mThreads[i]? with
      | some (some q) =>
          if reserved.length = 1024 then
            some
              ((s.setClient c ((s.client c).giveBack i)).goOn c (isOwnResponse q rest)
                (loginRequest reserved) sent)
          else none
      | _ => none
  | .clientOnClosed k =>
      if k < s.made ∧ (s.connection k).down.canClose then some (s.clientOnClosed k) else none

end Step

end Model

section Messages

variable {p : FramingParam}

/-- A field behind a front of a message. -/
theorem int32At_behind
    {front rest : List UInt8} {n k : Nat} (hn : n < 2 ^ 31) (hk : front.length = k) :
    int32At (front ++ (leBytes 4 n ++ rest)) k = n := by
  refine int32At_of_field hn ?_
  rw [List.drop_left' hk, List.take_left' (length_leBytes 4 n)]

theorem loginRequest_append (reserved rest : List UInt8) :
    loginRequest reserved ++ rest =
      leBytes 4 1036 ++ (leBytes 4 cmdLoginRequest ++ (leBytes 4 102 ++ (reserved ++ rest))) := by
  simp [loginRequest, sizeofBaseMsgHead, sizeofLoginRequest]

theorem loginResponse_append (userId reserved rest : List UInt8) :
    loginResponse userId reserved ++ rest =
      leBytes 4 1040 ++ (leBytes 4 cmdLoginResponse ++
        (leBytes 4 100 ++ (userId ++ (reserved ++ rest)))) := by
  simp [loginResponse, sizeofBaseMsgHead, sizeofLoginResponse]

theorem IsLoginRequest.length
    {q : List UInt8} (h : IsLoginRequest q) : q.length = 1036 := by
  obtain ⟨reserved, hlen, rfl⟩ := h
  simp [loginRequest, hlen]

theorem IsLoginResponse.length
    {q : List UInt8} (h : IsLoginResponse q) : q.length = 1040 := by
  obtain ⟨reserved, hlen, rfl⟩ := h
  simp [loginResponse, hlen]

theorem IsLoginRequest.conforming
    {q : List UInt8} (h : IsLoginRequest q) (hoffset : p.mPacketSizeOffset = 0)
    (hsize : 1040 ≤ p.mMaxPacketSize) : Conforming p q := by
  have hlength := h.length
  obtain ⟨reserved, hlen, rfl⟩ := h
  have happend := loginRequest_append reserved []
  rw [List.append_nil] at happend
  refine ⟨by omega, by omega, ?_⟩
  rw [hoffset, List.drop_zero, hlength, happend, List.take_left' (length_leBytes 4 1036)]

theorem IsLoginResponse.conforming
    {q : List UInt8} (h : IsLoginResponse q) : Conforming clientFraming q := by
  have hlength := h.length
  have hoffset : clientFraming.mPacketSizeOffset = 0 := rfl
  have hsize : clientFraming.mMaxPacketSize = 4096 := rfl
  obtain ⟨reserved, hlen, rfl⟩ := h
  have happend := loginResponse_append (leBytes 4 102) reserved []
  rw [List.append_nil] at happend
  refine ⟨by omega, by omega, ?_⟩
  rw [hoffset, List.drop_zero, hlength, happend, List.take_left' (length_leBytes 4 1040)]

/-- The server answers every packet of `TestSend`, with the user it is from. -/
theorem IsLoginRequest.processMessage
    {q : List UInt8} (h : IsLoginRequest q) (rest reserved : List UInt8) :
    processMessage q rest reserved = some (loginResponse (leBytes 4 102) reserved) := by
  obtain ⟨reserved', -, rfl⟩ := h
  have hcmd : int32At (loginRequest reserved' ++ rest) 4 = cmdLoginRequest := by
    rw [loginRequest_append]
    exact int32At_behind (by decide) (length_leBytes 4 1036)
  have huser : ((loginRequest reserved' ++ rest).drop 8).take 4 = leBytes 4 102 := by
    rw [loginRequest_append, ← List.append_assoc, List.drop_left' (by simp),
      List.take_left' (length_leBytes 4 102)]
  rw [TestServer.processMessage]
  rw [if_pos hcmd, huser]

/-- The client takes every answer for its own. -/
theorem IsLoginResponse.isOwnResponse
    {q : List UInt8} (h : IsLoginResponse q) (rest : List UInt8) : isOwnResponse q rest = true := by
  obtain ⟨reserved', -, rfl⟩ := h
  rw [TestServer.isOwnResponse, decide_eq_true_eq]
  constructor
  · rw [loginResponse_append]
    exact int32At_behind (by decide) (length_leBytes 4 1040)
  · rw [loginResponse_append, ← List.append_assoc, ← List.append_assoc]
    exact int32At_behind (by decide) (by simp)

end Messages

section Threads

variable {α : Type}

/-- A thread that is idle takes something. -/
theorem reduceOption_set_some
    {ts : List (Option α)} {i : Nat} (h : ts[i]? = some none) (x : α) :
    (ts.set i (some x)).reduceOption.Perm (x :: ts.reduceOption) := by
  obtain ⟨hlt, hnone⟩ := List.getElem?_eq_some_iff.mp h
  have hts : ts = ts.take i ++ none :: ts.drop (i + 1) := by
    rw [← hnone, ← List.drop_eq_getElem_cons hlt, List.take_append_drop]
  conv_rhs => rw [hts, List.reduceOption_append, List.reduceOption_cons_of_none]
  rw [List.set_eq_take_append_cons_drop, if_pos hlt, List.reduceOption_append,
    List.reduceOption_cons_of_some]
  exact List.perm_middle

/-- A thread is through with what it took. -/
theorem reduceOption_set_none
    {ts : List (Option α)} {i : Nat} {x : α} (h : ts[i]? = some (some x)) :
    ts.reduceOption.Perm (x :: (ts.set i none).reduceOption) := by
  obtain ⟨hlt, hsome⟩ := List.getElem?_eq_some_iff.mp h
  have hts : ts = ts.take i ++ some x :: ts.drop (i + 1) := by
    rw [← hsome, ← List.drop_eq_getElem_cons hlt, List.take_append_drop]
  conv_lhs => rw [hts, List.reduceOption_append, List.reduceOption_cons_of_some]
  rw [List.set_eq_take_append_cons_drop, if_pos hlt, List.reduceOption_append,
    List.reduceOption_cons_of_none]
  exact List.perm_middle

end Threads

section Directions

variable {p : FramingParam} {P : List UInt8 → Prop} {d : Direction}

/-- Of the packets sent, those that have been handed on were accepted one after another. -/
structure Direction.Inv (p : FramingParam) (P : List UInt8 → Prop) (d : Direction) : Prop where
  lossless : d.channel.Lossless p
  posted : ∀ q ∈ d.channel.posted, P q
  calls : d.accepted ++ d.arrived ++ d.refused = d.channel.recv.calls
  refused : d.refused ≠ [] → d.arrived = [] ∧ d.receiver ≠ .receiving

/-- The messages of a direction, whether they can still arrive or not. -/
def Direction.held (d : Direction) : Nat :=
  d.underWay + d.lost

theorem Direction.held_eq (d : Direction) :
    d.held = d.arrived.length + d.refused.length + d.channel.inFlight.length := by
  rw [Direction.held, Direction.underWay, Direction.lost]
  split_ifs <;> omega

theorem inFlight_post
    {c : Channel} {P : FramingParam} (h : c.Lossless P) (q : List UInt8) :
    (c.post q).inFlight.length = c.inFlight.length + 1 := by
  have hlen := congrArg List.length h.posted_eq
  rw [List.length_append] at hlen
  rw [Channel.inFlight, Channel.inFlight]
  show ((c.posted ++ [q]).drop c.recv.calls.length).length = _
  rw [List.length_drop, List.length_drop, List.length_append, List.length_singleton]
  omega

theorem Direction.Inv.start : Direction.start.Inv p P where
  lossless := Channel.start_lossless
  posted := fun _ hq => absurd hq List.not_mem_nil
  calls := rfl
  refused := fun h => absurd rfl h

/-- What `SplitPacket` has found was sent. -/
theorem Direction.Inv.found
    (h : d.Inv p P) {q : List UInt8} (hq : q ∈ d.channel.recv.calls) : P q := by
  refine h.posted q ?_
  rw [h.lossless.posted_eq]
  exact List.mem_append_left _ hq

theorem Direction.Inv.post
    (h : d.Inv p P) {packet : List UInt8} (hconforming : Conforming p packet)
    (hpacket : P packet) :
    (d.post packet).Inv p P ∧ (d.post packet).held = d.held + 1 := by
  refine ⟨⟨h.lossless.post hconforming, ?_, h.calls, h.refused⟩, ?_⟩
  · exact List.forall_mem_append.mpr ⟨h.posted, List.forall_mem_singleton.mpr hpacket⟩
  · have hpost := inFlight_post h.lossless packet
    rw [Direction.held_eq, Direction.held_eq]
    show d.arrived.length + d.refused.length + (d.channel.post packet).inFlight.length = _
    omega

/-- A receive succeeds, and moves packets off the stream. -/
theorem Direction.Inv.receive
    (h : d.Inv p P) (hcan : d.canReceive) (n : Nat) :
    (d.receive p n).Inv p P ∧ (d.receive p n).held = d.held ∧
      (d.receive p n).receiver = .receiving := by
  obtain ⟨hreceiving, harrived⟩ := of_decide_eq_true hcan
  obtain ⟨hret, hlossless, hmove⟩ := h.lossless.deliver n
  have hrefused : d.refused = [] := by
    by_contra hne
    exact (h.refused hne).2 hreceiving
  have hcont : (d.channel.deliver p n).2.recv.calls =
      d.channel.recv.calls ++ d.channel.arrivals p n := by
    have hafter := hlossless.posted_eq
    have hbefore := h.lossless.posted_eq
    rw [hmove, ← List.append_assoc] at hbefore
    exact List.append_cancel_right (hafter.symm.trans hbefore)
  refine ⟨⟨hlossless, h.posted, ?_, fun hne => absurd hrefused hne⟩, ?_, if_pos hret⟩
  · have hcalls := h.calls
    rw [harrived, hrefused, List.append_nil, List.append_nil] at hcalls
    show d.accepted ++ d.channel.arrivals p n ++ d.refused = (d.channel.deliver p n).2.recv.calls
    rw [hrefused, List.append_nil, hcont, hcalls]
  · have hlen := congrArg List.length hmove
    rw [List.length_append] at hlen
    rw [Direction.held_eq, Direction.held_eq, harrived, List.length_nil]
    show (d.channel.arrivals p n).length + d.refused.length +
      (d.channel.deliver p n).2.inFlight.length = _
    omega

/-- `OnReceived` takes a packet over. -/
theorem Direction.Inv.accept
    (h : d.Inv p P) {q : List UInt8} {qs : List (List UInt8)} (harrived : d.arrived = q :: qs) :
    (d.accept q qs).Inv p P ∧ (d.accept q qs).held + 1 = d.held ∧ P q := by
  have hcalls := h.calls
  rw [harrived] at hcalls
  have hrefused : d.refused = [] := by
    by_contra hne
    exact absurd (h.refused hne).1 (by simp [harrived])
  refine ⟨⟨h.lossless, h.posted, ?_, fun hne => absurd hrefused hne⟩, ?_, h.found ?_⟩
  · show d.accepted ++ [q] ++ qs ++ d.refused = d.channel.recv.calls
    rw [← hcalls, List.append_assoc d.accepted, List.singleton_append]
  · rw [Direction.held_eq, Direction.held_eq, harrived, List.length_cons]
    show qs.length + d.refused.length + d.channel.inFlight.length + 1 = _
    omega
  · rw [← hcalls]
    simp

/-- `OnReceived` refuses a packet, and those behind it are lost with it. -/
theorem Direction.Inv.refuse
    (h : d.Inv p P) : d.refuse.Inv p P ∧ d.refuse.held = d.held := by
  refine ⟨⟨h.lossless, h.posted, ?_, fun _ => ⟨rfl, by simp [Direction.refuse]⟩⟩, ?_⟩
  · show d.accepted ++ [] ++ (d.refused ++ d.arrived) = d.channel.recv.calls
    rw [← h.calls]
    by_cases hne : d.refused = []
    · rw [hne, List.append_nil, List.append_nil, List.nil_append]
    · rw [(h.refused hne).1, List.append_nil, List.append_nil]
  · rw [Direction.held_eq, Direction.held_eq]
    show 0 + (d.refused ++ d.arrived).length + d.channel.inFlight.length = _
    rw [List.length_append]
    omega

/-- A close loses what is left in the stream. -/
theorem Direction.Inv.close
    (h : d.Inv p P) : d.close.Inv p P ∧ d.close.held = d.held := by
  refine ⟨⟨h.lossless, h.posted, h.calls, fun hne => ⟨(h.refused hne).1, ?_⟩⟩, ?_⟩
  · simp [Direction.close]
  · rw [Direction.held_eq, Direction.held_eq]
    rfl

end Directions

section Invariant

/-- Requests go up and answers come down. -/
structure Connection.Inv (p : FramingParam) (x : Connection) : Prop where
  up : x.up.Inv p IsLoginRequest
  down : x.down.Inv clientFraming IsLoginResponse

structure Client.Inv (y : Client) : Prop where
  queued : ∀ q ∈ y.mPackageQueue, IsLoginResponse q
  worked : ∀ q ∈ y.mThreads.reduceOption, IsLoginResponse q

/-- Connection `k` has been made, by client `c`. -/
def LoginState.MadeBy (s : LoginState) (c k : Nat) : Prop :=
  k < s.made ∧ (s.connection k).client = c

/-- The client that a packet in the queue of the server is from. -/
def LoginState.sender (s : LoginState) (q : QueuedPacket) : Nat :=
  (s.connection q.nSocketID).client

/-- What holds of the contents, whatever has been counted. -/
structure LoginState.Sound (p : FramingParam) (s : LoginState) : Prop where
  connection : ∀ k, (s.connection k).Inv p
  client : ∀ c, (s.client c).Inv
  sockets : ∀ c, ∀ k ∈ (s.client c).sockets, s.MadeBy c k
  queued : ∀ q ∈ s.mPackageQueue, IsLoginRequest q.data ∧ q.nSocketID < s.made
  worked : ∀ q ∈ s.mThreads.reduceOption, IsLoginRequest q.data ∧ q.nSocketID < s.made

/-- The messages of client `c` by its connections. -/
def LoginState.onConnections (s : LoginState) (f : Connection → Nat) (c : Nat) : Nat :=
  ∑ k ∈ Finset.range s.made, if (s.connection k).client = c then f (s.connection k) else 0

/-- The messages of client `c` in the two queues and with their threads. -/
def LoginState.inQueues (s : LoginState) (c : Nat) : Nat :=
  (s.mPackageQueue.map s.sender).count c + (s.mThreads.reduceOption.map s.sender).count c +
    (s.client c).used

/-- The messages under way that belong to client `c`. -/
def LoginState.underWay (s : LoginState) (c : Nat) : Nat :=
  s.onConnections Connection.underWay c + s.inQueues c

/-- The messages of client `c` that were lost by a close. -/
def LoginState.lost (s : LoginState) (c : Nat) : Nat :=
  s.onConnections Connection.lost c

def Connection.held (x : Connection) : Nat :=
  x.up.held + x.down.held

/-- The messages of a client that are under way, lost or dropped. -/
def LoginState.accounted (s : LoginState) (c : Nat) : Nat :=
  s.onConnections Connection.held c + s.inQueues c + s.dropped.count c

/-- They all go back to one start, and no receive has failed but for want of blocks. -/
structure LoginState.Inv (p : FramingParam) (s : LoginState) : Prop where
  sound : s.Sound p
  conserved : ∀ c, s.accounted c = s.started.count c
  failed : s.failed = true → serverBlocks < s.started.length

variable {p : FramingParam} {s s' : LoginState}

@[simp] theorem LoginState.setConnection_self (s : LoginState) (k : Nat) (x : Connection) :
    (s.setConnection k x).connection k = x := by
  simp [LoginState.setConnection]

theorem LoginState.setConnection_other
    (s : LoginState) {k j : Nat} (x : Connection) (h : j ≠ k) :
    (s.setConnection k x).connection j = s.connection j := by
  simp [LoginState.setConnection, h]

@[simp] theorem LoginState.setClient_self (s : LoginState) (c : Nat) (y : Client) :
    (s.setClient c y).client c = y := by
  simp [LoginState.setClient]

theorem LoginState.setClient_other
    (s : LoginState) {c d : Nat} (y : Client) (h : d ≠ c) :
    (s.setClient c y).client d = s.client d := by
  simp [LoginState.setClient, h]

/-- The connection stays with its client. -/
theorem LoginState.setConnection_client
    (s : LoginState) {k : Nat} {x : Connection} (hx : x.client = (s.connection k).client)
    (j : Nat) : ((s.setConnection k x).connection j).client = (s.connection j).client := by
  by_cases hj : j = k
  · rw [hj, LoginState.setConnection_self, hx]
  · rw [s.setConnection_other x hj]

theorem LoginState.Sound.setConnection
    (h : s.Sound p) {k : Nat} {x : Connection} (hx : x.Inv p)
    (hclient : x.client = (s.connection k).client) : (s.setConnection k x).Sound p where
  connection := by
    intro j
    by_cases hj : j = k
    · rw [hj, LoginState.setConnection_self]
      exact hx
    · rw [s.setConnection_other x hj]
      exact h.connection j
  client := h.client
  sockets := by
    intro c j hj
    have hmade := h.sockets c j hj
    exact ⟨hmade.1, (s.setConnection_client hclient j).trans hmade.2⟩
  queued := h.queued
  worked := h.worked

theorem LoginState.Sound.setClient
    (h : s.Sound p) {c : Nat} {y : Client} (hy : y.Inv)
    (hsockets : ∀ k ∈ y.sockets, s.MadeBy c k) : (s.setClient c y).Sound p where
  connection := h.connection
  client := by
    intro d
    by_cases hd : d = c
    · rw [hd, LoginState.setClient_self]
      exact hy
    · rw [s.setClient_other y hd]
      exact h.client d
  sockets := by
    intro d
    by_cases hd : d = c
    · rw [hd, LoginState.setClient_self]
      exact hsockets
    · rw [s.setClient_other y hd]
      exact h.sockets d
  queued := h.queued
  worked := h.worked

/-- Writing a connection changes the messages of its client only. -/
theorem LoginState.accounted_setConnection
    (s : LoginState) {k : Nat} (hk : k < s.made) {x : Connection}
    (hclient : x.client = (s.connection k).client) (c : Nat) :
    (s.setConnection k x).accounted c +
        (if (s.connection k).client = c then (s.connection k).held else 0) =
      s.accounted c + (if (s.connection k).client = c then x.held else 0) := by
  have hsender : (s.setConnection k x).sender = s.sender :=
    funext fun q => s.setConnection_client hclient q.nSocketID
  have hqueues : (s.setConnection k x).inQueues c = s.inQueues c := by
    rw [LoginState.inQueues, LoginState.inQueues, hsender]
    rfl
  have hmem : k ∈ Finset.range s.made := Finset.mem_range.mpr hk
  have hrest :
      ∑ j ∈ (Finset.range s.made).erase k,
          (if ((s.setConnection k x).connection j).client = c then
            ((s.setConnection k x).connection j).held else 0) =
        ∑ j ∈ (Finset.range s.made).erase k,
          (if (s.connection j).client = c then (s.connection j).held else 0) := by
    refine Finset.sum_congr rfl fun j hj => ?_
    rw [s.setConnection_other x (Finset.ne_of_mem_erase hj)]
  have hconnections :
      (s.setConnection k x).onConnections Connection.held c +
          (if (s.connection k).client = c then (s.connection k).held else 0) =
        s.onConnections Connection.held c +
          (if (s.connection k).client = c then x.held else 0) := by
    rw [LoginState.onConnections, LoginState.onConnections]
    show ∑ j ∈ Finset.range s.made, _ + _ = _
    rw [← Finset.add_sum_erase _ _ hmem, hrest, ← Finset.add_sum_erase (Finset.range s.made)
      (fun j => if (s.connection j).client = c then (s.connection j).held else 0) hmem,
      LoginState.setConnection_self, hclient]
    omega
  rw [LoginState.accounted, LoginState.accounted, hqueues]
  show _ + _ + s.dropped.count c + _ = _
  omega

/-- Writing a client changes its own messages only. -/
theorem LoginState.accounted_setClient (s : LoginState) (c d : Nat) (y : Client) :
    (s.setClient c y).accounted d + (if d = c then (s.client c).used else 0) =
      s.accounted d + (if d = c then y.used else 0) := by
  rw [LoginState.accounted, LoginState.accounted, LoginState.inQueues, LoginState.inQueues]
  by_cases hd : d = c
  · subst hd
    rw [if_pos rfl, if_pos rfl, LoginState.setClient_self]
    show s.onConnections Connection.held d + ((s.mPackageQueue.map s.sender).count d +
      (s.mThreads.reduceOption.map s.sender).count d + y.used) + s.dropped.count d + _ = _
    omega
  · rw [if_neg hd, if_neg hd, s.setClient_other y hd]
    rfl

theorem count_cons_if (c d : Nat) (l : List Nat) :
    (c :: l).count d = l.count d + (if c = d then 1 else 0) := by
  rw [List.count_cons]
  by_cases h : c = d
  · simp [h]
  · simp [h]

/-- A dropped message stays accounted for. -/
theorem LoginState.accounted_drop (s : LoginState) (c d : Nat) :
    (s.drop c).accounted d = s.accounted d + (if c = d then 1 else 0) := by
  rw [LoginState.accounted, LoginState.accounted]
  show s.onConnections Connection.held d + s.inQueues d + (c :: s.dropped).count d = _
  rw [count_cons_if, ← Nat.add_assoc]

theorem LoginState.Sound.drop (h : s.Sound p) (c : Nat) : (s.drop c).Sound p :=
  ⟨h.connection, h.client, h.sockets, h.queued, h.worked⟩

end Invariant

section Steps

variable {p : FramingParam} {s s' : LoginState}

/-- Writing one direction of a connection, with other messages in it. -/
theorem LoginState.Sound.setUp
    (h : s.Sound p) {k : Nat} (hk : k < s.made) {d : Direction} (hd : d.Inv p IsLoginRequest) :
    (s.setUp k d).Sound p ∧
      ∀ c, (s.setUp k d).accounted c +
          (if (s.connection k).client = c then (s.connection k).up.held else 0) =
        s.accounted c + (if (s.connection k).client = c then d.held else 0) := by
  have hx : Connection.Inv p { s.connection k with up := d } := ⟨hd, (h.connection k).down⟩
  refine ⟨h.setConnection hx rfl, fun c => ?_⟩
  have hacc := s.accounted_setConnection (x := { s.connection k with up := d }) hk rfl c
  have hold : (s.connection k).held = (s.connection k).up.held + (s.connection k).down.held := rfl
  have hnew : Connection.held { s.connection k with up := d } =
    d.held + (s.connection k).down.held := rfl
  rw [hold, hnew] at hacc
  rw [LoginState.setUp]
  split_ifs at hacc ⊢ <;> omega

theorem LoginState.Sound.setDown
    (h : s.Sound p) {k : Nat} (hk : k < s.made) {d : Direction}
    (hd : d.Inv clientFraming IsLoginResponse) :
    (s.setDown k d).Sound p ∧
      ∀ c, (s.setDown k d).accounted c +
          (if (s.connection k).client = c then (s.connection k).down.held else 0) =
        s.accounted c + (if (s.connection k).client = c then d.held else 0) := by
  have hx : Connection.Inv p { s.connection k with down := d } := ⟨(h.connection k).up, hd⟩
  refine ⟨h.setConnection hx rfl, fun c => ?_⟩
  have hacc := s.accounted_setConnection (x := { s.connection k with down := d }) hk rfl c
  have hold : (s.connection k).held = (s.connection k).up.held + (s.connection k).down.held := rfl
  have hnew : Connection.held { s.connection k with down := d } =
    (s.connection k).up.held + d.held := rfl
  rw [hold, hnew] at hacc
  rw [LoginState.setDown]
  split_ifs at hacc ⊢ <;> omega

/-- Messages move within a direction, or are lost in it. -/
theorem LoginState.Sound.moveUp
    (h : s.Sound p) {k : Nat} (hk : k < s.made) {d : Direction} (hd : d.Inv p IsLoginRequest)
    (hheld : d.held = (s.connection k).up.held) :
    (s.setUp k d).Sound p ∧ ∀ c, (s.setUp k d).accounted c = s.accounted c := by
  obtain ⟨hsound, hacc⟩ := h.setUp hk hd
  refine ⟨hsound, fun c => ?_⟩
  have haccc := hacc c
  rw [hheld] at haccc
  exact Nat.add_right_cancel haccc

theorem LoginState.Sound.moveDown
    (h : s.Sound p) {k : Nat} (hk : k < s.made) {d : Direction}
    (hd : d.Inv clientFraming IsLoginResponse) (hheld : d.held = (s.connection k).down.held) :
    (s.setDown k d).Sound p ∧ ∀ c, (s.setDown k d).accounted c = s.accounted c := by
  obtain ⟨hsound, hacc⟩ := h.setDown hk hd
  refine ⟨hsound, fun c => ?_⟩
  have haccc := hacc c
  rw [hheld] at haccc
  exact Nat.add_right_cancel haccc

/-- A new connection leaves those before it as they are. -/
theorem LoginState.connect_connection
    (s : LoginState) (c : Nat) {k : Nat} (h : k ≠ s.made) :
    (s.connect c).connection k = s.connection k :=
  s.setConnection_other _ h

theorem LoginState.connect_made (s : LoginState) (c : Nat) :
    (s.connect c).connection s.made = { client := c, up := .start, down := .start } :=
  s.setConnection_self _ _

/-- The client has a socket more to store, and the queue it had. -/
theorem LoginState.connect_client (s : LoginState) (c d : Nat) :
    ((s.connect c).client d).mPackageQueue = (s.client d).mPackageQueue ∧
      ((s.connect c).client d).mThreads = (s.client d).mThreads ∧
      ∀ k ∈ ((s.connect c).client d).sockets, k ∈ (s.client d).sockets ∨ k = s.made ∧ d = c := by
  by_cases hd : d = c
  · have hwritten : (s.connect c).client d =
        { s.client d with connecting := s.made :: (s.client d).connecting } := by
      rw [hd]
      exact LoginState.setClient_self _ _ _
    rw [hwritten]
    refine ⟨rfl, rfl, fun k hk => ?_⟩
    rw [Client.sockets] at hk ⊢
    simp only [List.mem_append, List.mem_cons] at hk ⊢
    tauto
  · have hwritten : (s.connect c).client d = s.client d := LoginState.setClient_other _ _ hd
    rw [hwritten]
    exact ⟨rfl, rfl, fun k hk => .inl hk⟩

theorem LoginState.Sound.connect (h : s.Sound p) (c : Nat) : (s.connect c).Sound p where
  connection := by
    intro k
    by_cases hk : k = s.made
    · rw [hk, s.connect_made]
      exact ⟨.start, .start⟩
    · rw [s.connect_connection c hk]
      exact h.connection k
  client := by
    intro d
    obtain ⟨hqueue, hthreads, -⟩ := s.connect_client c d
    have hy := h.client d
    exact ⟨by rw [hqueue]; exact hy.queued, by rw [hthreads]; exact hy.worked⟩
  sockets := by
    intro d k hk
    rcases (s.connect_client c d).2.2 k hk with hold | ⟨rfl, rfl⟩
    · obtain ⟨hlt, hclient⟩ := h.sockets d k hold
      exact ⟨Nat.lt_succ_of_lt hlt, by rw [s.connect_connection c (Nat.ne_of_lt hlt), hclient]⟩
    · exact ⟨Nat.lt_succ_self _, by rw [s.connect_made]⟩
  queued := fun q hq => ⟨(h.queued q hq).1, Nat.lt_succ_of_lt (h.queued q hq).2⟩
  worked := fun q hq => ⟨(h.worked q hq).1, Nat.lt_succ_of_lt (h.worked q hq).2⟩

/-- A new connection is empty. -/
theorem LoginState.Sound.accounted_connect
    (h : s.Sound p) (c d : Nat) : (s.connect c).accounted d = s.accounted d := by
  have hsender : ∀ q : QueuedPacket, q.nSocketID < s.made →
      (s.connect c).sender q = s.sender q := by
    intro q hq
    rw [LoginState.sender, LoginState.sender, s.connect_connection c (Nat.ne_of_lt hq)]
  have hqueued : s.mPackageQueue.map (s.connect c).sender = s.mPackageQueue.map s.sender :=
    List.map_congr_left fun q hq => hsender q (h.queued q hq).2
  have hworked : s.mThreads.reduceOption.map (s.connect c).sender =
      s.mThreads.reduceOption.map s.sender :=
    List.map_congr_left fun q hq => hsender q (h.worked q hq).2
  have hconnections : (s.connect c).onConnections Connection.held d =
      s.onConnections Connection.held d := by
    rw [LoginState.onConnections, LoginState.onConnections]
    show ∑ k ∈ Finset.range (s.made + 1), _ = _
    have hempty : Connection.held { client := c, up := .start, down := .start } = 0 := rfl
    rw [Finset.sum_range_succ, s.connect_made, hempty, ite_self, Nat.add_zero]
    refine Finset.sum_congr rfl fun k hk => ?_
    rw [s.connect_connection c (Nat.ne_of_lt (Finset.mem_range.mp hk))]
  have hqueues : (s.connect c).inQueues d = s.inQueues d := by
    obtain ⟨hqueue, hthreads, -⟩ := s.connect_client c d
    rw [LoginState.inQueues, LoginState.inQueues, Client.used, Client.used, hqueue, hthreads]
    show (s.mPackageQueue.map (s.connect c).sender).count d +
      (s.mThreads.reduceOption.map (s.connect c).sender).count d + _ = _
    rw [hqueued, hworked]
  rw [LoginState.accounted, LoginState.accounted, hconnections, hqueues]
  rfl

/-- `TestSend` puts one message under way, or it is dropped. -/
theorem LoginState.Sound.testSend
    (h : s.Sound p) (hoffset : p.mPacketSizeOffset = 0) (hsize : 1040 ≤ p.mMaxPacketSize)
    (c : Nat) {packet : List UInt8} (hpacket : IsLoginRequest packet) (sent : Bool) :
    (s.testSend c packet sent).Sound p ∧
      ∀ d, (s.testSend c packet sent).accounted d = s.accounted d + (if c = d then 1 else 0) := by
  rw [LoginState.testSend]
  split
  · exact ⟨h.drop c, fun d => s.accounted_drop c d⟩
  · next k hsocket =>
      obtain ⟨hk, hclient⟩ := h.sockets c k (by simp [Client.sockets, hsocket])
      split_ifs
      · obtain ⟨hd, hheld⟩ :=
          (h.connection k).up.post (hpacket.conforming hoffset hsize) hpacket
        obtain ⟨hsound, hacc⟩ := h.setUp hk hd
        refine ⟨hsound, fun d => ?_⟩
        have haccd := hacc d
        rw [hheld, hclient] at haccd
        split_ifs at haccd ⊢ <;> omega
      · exact ⟨h.drop c, fun d => s.accounted_drop c d⟩

theorem LoginState.accounted_push (s : LoginState) (k : Nat) (q : List UInt8) (c : Nat) :
    (s.push k q).accounted c =
      s.accounted c + (if (s.connection k).client = c then 1 else 0) := by
  have hcount : ((s.push k q).mPackageQueue.map s.sender).count c =
      (s.mPackageQueue.map s.sender).count c +
        (if (s.connection k).client = c then 1 else 0) := by
    show ((s.mPackageQueue ++ [QueuedPacket.mk k q]).map s.sender).count c = _
    rw [List.map_append, List.count_append, List.map_singleton, count_cons_if, List.count_nil,
      Nat.zero_add]
    rfl
  rw [LoginState.accounted, LoginState.accounted, LoginState.inQueues, LoginState.inQueues]
  show s.onConnections Connection.held c + (((s.push k q).mPackageQueue.map s.sender).count c +
    (s.mThreads.reduceOption.map s.sender).count c + (s.client c).used) + s.dropped.count c = _
  rw [hcount]
  omega

theorem LoginState.used_push (s : LoginState) (k : Nat) (q : List UInt8) :
    (s.push k q).used = s.used + 1 := by
  rw [LoginState.used, LoginState.used]
  show (s.mPackageQueue ++ [QueuedPacket.mk k q]).length + s.mThreads.reduceOption.length = _
  rw [List.length_append, List.length_singleton]
  omega

theorem LoginState.Sound.push
    (h : s.Sound p) {k : Nat} (hk : k < s.made) {q : List UInt8} (hq : IsLoginRequest q) :
    (s.push k q).Sound p :=
  ⟨h.connection, h.client, h.sockets,
    List.forall_mem_append.mpr ⟨h.queued, List.forall_mem_singleton.mpr ⟨hq, hk⟩⟩, h.worked⟩

theorem LoginState.Sound.take
    (h : s.Sound p) {i : Nat} {q : QueuedPacket} {qs : List QueuedPacket}
    (hi : s.mThreads[i]? = some none) (hqueue : s.mPackageQueue = q :: qs) :
    (s.take i q qs).Sound p ∧ ∀ c, (s.take i q qs).accounted c = s.accounted c := by
  have hperm := reduceOption_set_some hi q
  have hqueued := h.queued
  rw [hqueue] at hqueued
  obtain ⟨hq, hqs⟩ := List.forall_mem_cons.mp hqueued
  refine ⟨⟨h.connection, h.client, h.sockets, hqs, fun r hr => ?_⟩, fun c => ?_⟩
  · rcases List.mem_cons.mp (hperm.subset hr) with rfl | hr
    · exact hq
    · exact h.worked r hr
  · have hcount := (hperm.map s.sender).count_eq c
    rw [List.map_cons, count_cons_if] at hcount
    rw [LoginState.accounted, LoginState.accounted, LoginState.inQueues, LoginState.inQueues,
      hqueue]
    show s.onConnections Connection.held c + ((qs.map s.sender).count c +
      ((s.mThreads.set i (some q)).reduceOption.map s.sender).count c + (s.client c).used) +
        s.dropped.count c = _
    rw [List.map_cons, count_cons_if]
    omega

theorem LoginState.Sound.giveBack
    (h : s.Sound p) {i : Nat} {q : QueuedPacket} (hi : s.mThreads[i]? = some (some q)) :
    (s.giveBack i).Sound p ∧ IsLoginRequest q.data ∧ q.nSocketID < s.made ∧
      ∀ c, (s.giveBack i).accounted c + (if s.sender q = c then 1 else 0) = s.accounted c := by
  have hperm := reduceOption_set_none hi
  have hworked := fun r hr => h.worked r (hperm.symm.subset hr)
  obtain ⟨⟨hq, hk⟩, hrest⟩ := List.forall_mem_cons.mp hworked
  refine ⟨⟨h.connection, h.client, h.sockets, h.queued, hrest⟩, hq, hk, fun c => ?_⟩
  have hcount := (hperm.map s.sender).count_eq c
  rw [List.map_cons, count_cons_if] at hcount
  rw [LoginState.accounted, LoginState.accounted, LoginState.inQueues, LoginState.inQueues]
  show s.onConnections Connection.held c + ((s.mPackageQueue.map s.sender).count c +
    ((s.mThreads.set i none).reduceOption.map s.sender).count c + (s.client c).used) +
      s.dropped.count c + _ = _
  omega

/-- The server answers the request a thread holds, or drops it. -/
theorem LoginState.Sound.serverProcess
    (h : s.Sound p) {i : Nat} {q : QueuedPacket} (hi : s.mThreads[i]? = some (some q))
    (rest : List UInt8) {reserved : List UInt8} (hlen : reserved.length = 1024) (sent : Bool) :
    ((s.giveBack i).answer p q.nSocketID (processMessage q.data rest reserved) sent).Sound p ∧
      ∀ c, ((s.giveBack i).answer p q.nSocketID
        (processMessage q.data rest reserved) sent).accounted c = s.accounted c := by
  obtain ⟨hback, hq, hk, hfree⟩ := h.giveBack hi
  rw [hq.processMessage, LoginState.answer]
  split_ifs
  · have hresponse : IsLoginResponse (loginResponse (leBytes 4 102) reserved) :=
      ⟨reserved, hlen, rfl⟩
    obtain ⟨hd, hheld⟩ :=
      (hback.connection q.nSocketID).down.post hresponse.conforming hresponse
    obtain ⟨hsound, hacc⟩ := hback.setDown hk hd
    refine ⟨hsound, fun c => ?_⟩
    have haccc := hacc c
    have hfreec := hfree c
    rw [hheld] at haccc
    rw [LoginState.sender] at hfreec
    change _ + (if (s.connection q.nSocketID).client = c then _ else 0) =
      _ + (if (s.connection q.nSocketID).client = c then _ else 0) at haccc
    split_ifs at haccc hfreec <;> omega
  · refine ⟨hback.drop _, fun c => ?_⟩
    rw [LoginState.accounted_drop]
    exact hfree c

/-- A client keeps its sockets, and the packets it is given are answers. -/
theorem LoginState.Sound.writeClient
    (h : s.Sound p) (c : Nat) {y : Client} (hsockets : y.sockets = (s.client c).sockets)
    (hy : y.Inv) : (s.setClient c y).Sound p :=
  h.setClient hy fun k hk => h.sockets c k (hsockets ▸ hk)

theorem Client.used_push (y : Client) (q : List UInt8) : (y.push q).used = y.used + 1 := by
  rw [Client.used, Client.used]
  show (y.mPackageQueue ++ [q]).length + y.mThreads.reduceOption.length = _
  rw [List.length_append, List.length_singleton]
  omega

/-- `TestServer::OnReceived` moves a message from the connection to the queue. -/
theorem LoginState.Sound.serverAccept
    (h : s.Sound p) {k : Nat} (hk : k < s.made) {q : List UInt8} {qs : List (List UInt8)}
    (harrived : (s.connection k).up.arrived = q :: qs) :
    ((s.setUp k ((s.connection k).up.accept q qs)).push k q).Sound p ∧
      ∀ c, ((s.setUp k ((s.connection k).up.accept q qs)).push k q).accounted c =
        s.accounted c := by
  obtain ⟨hd, hheld, hq⟩ := (h.connection k).up.accept harrived
  obtain ⟨hsound, hacc⟩ := h.setUp hk hd
  refine ⟨hsound.push hk hq, fun c => ?_⟩
  have haccc := hacc c
  have hclient :
      ((s.setUp k ((s.connection k).up.accept q qs)).connection k).client =
        (s.connection k).client :=
    s.setConnection_client (x := { s.connection k with up := (s.connection k).up.accept q qs })
      rfl k
  rw [LoginState.accounted_push, hclient]
  split_ifs at haccc ⊢ <;> omega

/-- A packet that is refused is lost, with those behind it. -/
theorem LoginState.Sound.serverRefuse
    (h : s.Sound p) {k : Nat} (hk : k < s.made) :
    (s.setUp k (s.connection k).up.refuse).Sound p ∧
      ∀ c, (s.setUp k (s.connection k).up.refuse).accounted c = s.accounted c := by
  obtain ⟨hd, hheld⟩ := (h.connection k).up.refuse
  exact h.moveUp hk hd hheld

/-- `Client::OnReceived` moves a message from the connection to the queue. -/
theorem LoginState.Sound.clientAccept
    (h : s.Sound p) {k : Nat} (hk : k < s.made) {q : List UInt8} {qs : List (List UInt8)}
    (harrived : (s.connection k).down.arrived = q :: qs) :
    ((s.setDown k ((s.connection k).down.accept q qs)).setClient (s.connection k).client
        ((s.client (s.connection k).client).push q)).Sound p ∧
      ∀ c, ((s.setDown k ((s.connection k).down.accept q qs)).setClient (s.connection k).client
        ((s.client (s.connection k).client).push q)).accounted c = s.accounted c := by
  obtain ⟨hd, hheld, hq⟩ := (h.connection k).down.accept harrived
  obtain ⟨hsound, hacc⟩ := h.setDown hk hd
  have hy := hsound.client (s.connection k).client
  have hpush : ((s.client (s.connection k).client).push q).Inv :=
    ⟨List.forall_mem_append.mpr ⟨hy.queued, List.forall_mem_singleton.mpr hq⟩, hy.worked⟩
  refine ⟨hsound.writeClient _ rfl hpush, fun c => ?_⟩
  have hset := (s.setDown k ((s.connection k).down.accept q qs)).accounted_setClient
    (s.connection k).client c ((s.client (s.connection k).client).push q)
  have hbefore : (s.setDown k ((s.connection k).down.accept q qs)).client
      (s.connection k).client = s.client (s.connection k).client := rfl
  have haccc := hacc c
  rw [Client.used_push, hbefore] at hset
  by_cases hc : (s.connection k).client = c
  · rw [if_pos hc.symm, if_pos hc.symm] at hset
    rw [if_pos hc, if_pos hc] at haccc
    omega
  · rw [if_neg (Ne.symm hc), if_neg (Ne.symm hc)] at hset
    rw [if_neg hc, if_neg hc] at haccc
    omega

theorem LoginState.Sound.clientRefuse
    (h : s.Sound p) {k : Nat} (hk : k < s.made) :
    (s.setDown k (s.connection k).down.refuse).Sound p ∧
      ∀ c, (s.setDown k (s.connection k).down.refuse).accounted c = s.accounted c := by
  obtain ⟨hd, hheld⟩ := (h.connection k).down.refuse
  exact h.moveDown hk hd hheld

/-- A thread of a client takes the first packet of its queue. -/
theorem Client.Inv.take
    {y : Client} (h : y.Inv) {i : Nat} {q : List UInt8} {qs : List (List UInt8)}
    (hi : y.mThreads[i]? = some none) (hqueue : y.mPackageQueue = q :: qs) :
    (y.take i q qs).Inv ∧ (y.take i q qs).used = y.used := by
  have hperm := reduceOption_set_some hi q
  have hqueued := h.queued
  rw [hqueue] at hqueued
  obtain ⟨hq, hqs⟩ := List.forall_mem_cons.mp hqueued
  refine ⟨⟨hqs, fun r hr => ?_⟩, ?_⟩
  · rcases List.mem_cons.mp (hperm.subset hr) with rfl | hr
    · exact hq
    · exact h.worked r hr
  · have hlen := hperm.length_eq
    rw [List.length_cons] at hlen
    rw [Client.used, Client.used, hqueue]
    show qs.length + (y.mThreads.set i (some q)).reduceOption.length = _
    rw [List.length_cons]
    omega

theorem Client.Inv.giveBack
    {y : Client} (h : y.Inv) {i : Nat} {q : List UInt8} (hi : y.mThreads[i]? = some (some q)) :
    (y.giveBack i).Inv ∧ (y.giveBack i).used + 1 = y.used ∧ IsLoginResponse q := by
  have hperm := reduceOption_set_none hi
  have hworked := fun r hr => h.worked r (hperm.symm.subset hr)
  obtain ⟨hq, hrest⟩ := List.forall_mem_cons.mp hworked
  refine ⟨⟨h.queued, hrest⟩, ?_, hq⟩
  have hlen := hperm.length_eq
  rw [List.length_cons] at hlen
  rw [Client.used, Client.used]
  show y.mPackageQueue.length + (y.mThreads.set i none).reduceOption.length + 1 = _
  omega

/-- The client goes on to its next request, or drops the message. -/
theorem LoginState.Sound.clientProcess
    (h : s.Sound p) (hoffset : p.mPacketSizeOffset = 0) (hsize : 1040 ≤ p.mMaxPacketSize)
    {c i : Nat} {q : List UInt8} (hi : (s.client c).mThreads[i]? = some (some q))
    (rest : List UInt8) {reserved : List UInt8} (hlen : reserved.length = 1024) (sent : Bool) :
    ((s.setClient c ((s.client c).giveBack i)).goOn c (isOwnResponse q rest)
        (loginRequest reserved) sent).Sound p ∧
      ∀ d, ((s.setClient c ((s.client c).giveBack i)).goOn c (isOwnResponse q rest)
        (loginRequest reserved) sent).accounted d = s.accounted d := by
  obtain ⟨hy, hused, hq⟩ := (h.client c).giveBack hi
  rw [hq.isOwnResponse, LoginState.goOn, if_pos rfl]
  obtain ⟨hsound, hacc⟩ :=
    (h.writeClient c (y := (s.client c).giveBack i) rfl hy).testSend hoffset hsize c
      ⟨reserved, hlen, rfl⟩ sent
  refine ⟨hsound, fun d => ?_⟩
  have hset := s.accounted_setClient c d ((s.client c).giveBack i)
  rw [hacc]
  by_cases hd : d = c
  · rw [if_pos hd, if_pos hd] at hset
    rw [if_pos hd.symm]
    omega
  · rw [if_neg hd, if_neg hd] at hset
    rw [if_neg (Ne.symm hd)]
    omega

/-- A receive splits what it gets into packets, and does not fail. -/
theorem LoginState.Sound.serverReceive
    (h : s.Sound p) {k : Nat} (hk : k < s.made) (hcan : (s.connection k).up.canReceive)
    (n : Nat) :
    (s.setUp k ((s.connection k).up.receive p n)).Sound p ∧
      (∀ c, (s.setUp k ((s.connection k).up.receive p n)).accounted c = s.accounted c) ∧
      ((s.connection k).up.receive p n).receiver = .receiving := by
  obtain ⟨hd, hheld, hreceiving⟩ := (h.connection k).up.receive hcan n
  obtain ⟨hsound, hacc⟩ := h.moveUp hk hd hheld
  exact ⟨hsound, hacc, hreceiving⟩

theorem LoginState.Sound.clientReceive
    (h : s.Sound p) {k : Nat} (hk : k < s.made) (hcan : (s.connection k).down.canReceive)
    (n : Nat) :
    (s.setDown k ((s.connection k).down.receive clientFraming n)).Sound p ∧
      (∀ c, (s.setDown k ((s.connection k).down.receive clientFraming n)).accounted c =
        s.accounted c) ∧
      ((s.connection k).down.receive clientFraming n).receiver = .receiving := by
  obtain ⟨hd, hheld, hreceiving⟩ := (h.connection k).down.receive hcan n
  obtain ⟨hsound, hacc⟩ := h.moveDown hk hd hheld
  exact ⟨hsound, hacc, hreceiving⟩

/-- What is left in the stream stays accounted for as lost. -/
theorem LoginState.Sound.serverOnClosed
    (h : s.Sound p) {k : Nat} (hk : k < s.made) :
    (s.setUp k (s.connection k).up.close).Sound p ∧
      ∀ c, (s.setUp k (s.connection k).up.close).accounted c = s.accounted c := by
  obtain ⟨hd, hheld⟩ := (h.connection k).up.close
  exact h.moveUp hk hd hheld

/-- Writing the sockets of a client. -/
theorem LoginState.Sound.setSockets
    (h : s.Sound p) {c : Nat} {y : Client} (hqueue : y.mPackageQueue = (s.client c).mPackageQueue)
    (hthreads : y.mThreads = (s.client c).mThreads) (hsockets : ∀ k ∈ y.sockets, s.MadeBy c k) :
    (s.setClient c y).Sound p ∧ ∀ d, (s.setClient c y).accounted d = s.accounted d := by
  have hy := h.client c
  refine ⟨h.setClient ⟨by rw [hqueue]; exact hy.queued, by rw [hthreads]; exact hy.worked⟩ hsockets,
    fun d => ?_⟩
  have hset := s.accounted_setClient c d y
  have hused : y.used = (s.client c).used := by
    rw [Client.used, Client.used, hqueue, hthreads]
  rw [hused] at hset
  omega

theorem LoginState.Sound.clientOnClosed
    (h : s.Sound p) {k : Nat} (hk : k < s.made) :
    (s.clientOnClosed k).Sound p ∧ ∀ c, (s.clientOnClosed k).accounted c = s.accounted c := by
  obtain ⟨hd, hheld⟩ := (h.connection k).down.close
  obtain ⟨hsound, hacc⟩ := h.moveDown hk hd hheld
  obtain ⟨hclosed, hsame⟩ :=
    hsound.setSockets (c := (s.connection k).client)
      (y := { s.client (s.connection k).client with mSocketID := none }) rfl rfl
      fun j hj => hsound.sockets _ j (List.mem_append_right _ hj)
  exact ⟨hclosed, fun c => (hsame c).trans (hacc c)⟩

/-- The blocks of the server's queue in use belong to messages that were started. -/
theorem LoginState.used_le
    (hconserved : ∀ c, s.accounted c ≤ s.started.count c) : s.used ≤ s.started.length := by
  have hle :
      ((s.mPackageQueue.map s.sender ++ s.mThreads.reduceOption.map s.sender : List Nat) :
          Multiset Nat) ≤ (s.started : Multiset Nat) := by
    rw [Multiset.le_iff_count]
    intro c
    have hc := hconserved c
    rw [LoginState.accounted, LoginState.inQueues] at hc
    rw [Multiset.coe_count, Multiset.coe_count, List.count_append]
    omega
  have hcard := Multiset.card_le_card hle
  rw [Multiset.coe_card, Multiset.coe_card, List.length_append, List.length_map,
    List.length_map] at hcard
  exact hcard

/-- And so do those of a client's queue. -/
theorem LoginState.clientUsed_le
    (hconserved : ∀ c, s.accounted c ≤ s.started.count c) (c : Nat) :
    (s.client c).used ≤ s.started.length := by
  have hc := hconserved c
  have hle : s.started.count c ≤ s.started.length := List.count_le_length
  rw [LoginState.accounted, LoginState.inQueues] at hc
  omega

/-- The steps of the loop count nothing and fail nothing. -/
structure LoginState.Frame (s s' : LoginState) : Prop where
  started : s'.started = s.started
  failed : s'.failed = s.failed

theorem LoginState.testSend_frame (s : LoginState) (c : Nat) (packet : List UInt8)
    (sent : Bool) : s.Frame (s.testSend c packet sent) := by
  rw [LoginState.testSend]
  split
  · exact ⟨rfl, rfl⟩
  · split_ifs
    · exact ⟨rfl, rfl⟩
    · exact ⟨rfl, rfl⟩

theorem LoginState.answer_frame (s : LoginState) (k : Nat)
    (response : Option (List UInt8)) (sent : Bool) : s.Frame (s.answer p k response sent) := by
  cases response with
  | none => exact ⟨rfl, rfl⟩
  | some packet =>
      rw [LoginState.answer]
      split_ifs
      · exact ⟨rfl, rfl⟩
      · exact ⟨rfl, rfl⟩

theorem LoginState.goOn_frame (s : LoginState) (c : Nat) (own : Bool) (packet : List UInt8)
    (sent : Bool) : s.Frame (s.goOn c own packet sent) := by
  rw [LoginState.goOn]
  split_ifs
  · exact s.testSend_frame c packet sent
  · exact ⟨rfl, rfl⟩

theorem LoginState.Inv.keep
    (h : s.Inv p) (hsound : s'.Sound p) (hacc : ∀ c, s'.accounted c = s.accounted c)
    (hframe : s.Frame s') : s'.Inv p where
  sound := hsound
  conserved := fun c => by rw [hacc, hframe.started, h.conserved]
  failed := by
    rw [hframe.started, hframe.failed]
    exact h.failed

/-- A receive fails only when more blocks are in use than messages were started. -/
theorem LoginState.Inv.fail
    (h : s.Inv p) (hsound : s'.Sound p) (hacc : ∀ c, s'.accounted c = s.accounted c)
    (hstarted : s'.started = s.started) (hfull : serverBlocks < s.started.length) :
    { s' with failed := true }.Inv p where
  sound := ⟨hsound.connection, hsound.client, hsound.sockets, hsound.queued, hsound.worked⟩
  conserved := fun c => by
    show s'.accounted c = s'.started.count c
    rw [hacc, hstarted, h.conserved]
  failed := fun _ => by
    show serverBlocks < s'.started.length
    rw [hstarted]
    exact hfull

theorem LoginState.Inv.received
    (h : s.Inv p) {d : Direction} (hd : d.receiver = .receiving) : (s.received d).Inv p := by
  have hsame : s.received d = s := by simp [LoginState.received, hd]
  rw [hsame]
  exact h

theorem LoginState.Inv.start (threadCount : Nat) : (LoginState.start threadCount).Inv p := by
  have hnone (α : Type) (n : Nat) : (List.replicate n (none : Option α)).reduceOption = [] := by
    rw [List.reduceOption_eq_nil_iff]
    exact ⟨n, rfl⟩
  refine ⟨⟨fun k => ⟨.start, .start⟩, fun c => ⟨?_, ?_⟩, ?_, ?_, ?_⟩, fun c => ?_, fun h => ?_⟩
  · exact fun q hq => absurd hq List.not_mem_nil
  · show ∀ q ∈ (List.replicate 4 none).reduceOption, IsLoginResponse q
    rw [hnone]
    exact fun q hq => absurd hq List.not_mem_nil
  · exact fun c k hk => absurd hk List.not_mem_nil
  · exact fun q hq => absurd hq List.not_mem_nil
  · show ∀ q ∈ (List.replicate threadCount (none : Option QueuedPacket)).reduceOption, _
    rw [hnone]
    exact fun q hq => absurd hq List.not_mem_nil
  · simp [LoginState.accounted, LoginState.onConnections, LoginState.inQueues, LoginState.start,
      Client.used, Client.start, hnone]
  · exact absurd h (by simp [LoginState.start])

/-- One step of a party keeps every message. -/
theorem LoginState.Inv.step
    (h : s.Inv p) (hoffset : p.mPacketSizeOffset = 0) (hsize : 1040 ≤ p.mMaxPacketSize)
    {a : LoginAction} (hs : s.step p a = some s') : s'.Inv p := by
  cases a with
  | connectServer c =>
      rw [LoginState.step] at hs
      injection hs with hs
      subst hs
      exact h.keep (h.sound.connect c) (h.sound.accounted_connect c) ⟨rfl, rfl⟩
  | storeSocketID c k =>
      rw [LoginState.step] at hs
      split_ifs at hs with hk
      injection hs with hs
      subst hs
      have hsockets := h.sound.sockets c
      obtain ⟨hsound, hacc⟩ :=
        h.sound.setSockets (c := c)
          (y := { s.client c with
            mSocketID := some k
            connecting := (s.client c).connecting.erase k }) rfl rfl
          (by
            intro j hj
            rcases List.mem_cons.mp hj with rfl | hj
            · exact hsockets _ (List.mem_append_right _ hk)
            · exact hsockets j (List.mem_append_right _ (List.mem_of_mem_erase hj)))
      exact h.keep hsound hacc ⟨rfl, rfl⟩
  | connectFailed c =>
      rw [LoginState.step] at hs
      injection hs with hs
      subst hs
      obtain ⟨hsound, hacc⟩ :=
        h.sound.setSockets (c := c) (y := { s.client c with mSocketID := none }) rfl rfl
          fun k hk => h.sound.sockets c k (List.mem_append_right _ hk)
      exact h.keep hsound hacc ⟨rfl, rfl⟩
  | testSend c reserved sent =>
      rw [LoginState.step] at hs
      split_ifs at hs with hlen
      injection hs with hs
      subst hs
      obtain ⟨hsound, hacc⟩ := h.sound.testSend hoffset hsize c ⟨reserved, hlen, rfl⟩ sent
      have hframe := s.testSend_frame c (loginRequest reserved) sent
      refine ⟨⟨hsound.connection, hsound.client, hsound.sockets, hsound.queued, hsound.worked⟩,
        fun d => ?_, fun hfailed => ?_⟩
      · show (s.testSend c (loginRequest reserved) sent).accounted d = (c :: s.started).count d
        rw [hacc, h.conserved, count_cons_if]
      · have hbefore := h.failed (hframe.failed ▸ hfailed)
        show serverBlocks < (c :: s.started).length
        rw [List.length_cons]
        omega
  | serverReceive k n =>
      rw [LoginState.step] at hs
      split_ifs at hs with hcan
      injection hs with hs
      subst hs
      obtain ⟨hsound, hacc, hreceiving⟩ := h.sound.serverReceive hcan.1 hcan.2 n
      exact (h.keep hsound hacc ⟨rfl, rfl⟩).received hreceiving
  | serverOnReceived k =>
      rw [LoginState.step] at hs
      split at hs
      · next q qs harrived =>
          split_ifs at hs with hk
          injection hs with hs
          subst hs
          obtain ⟨hsound, hacc⟩ := h.sound.serverAccept hk harrived
          rw [LoginState.serverOnReceived]
          split_ifs with hfits
          · exact h.keep hsound hacc ⟨rfl, rfl⟩
          · obtain ⟨hrefused, hlost⟩ := h.sound.serverRefuse hk
            refine h.fail hrefused hlost rfl ?_
            have hused := LoginState.used_le fun c => (hacc c).trans (h.conserved c) |>.le
            rw [LoginState.used_push] at hused
            change s.used + 1 ≤ s.started.length at hused
            omega
      · exact absurd hs (by simp)
  | serverPop i =>
      rw [LoginState.step] at hs
      split at hs
      · next hi hqueue =>
          injection hs with hs
          subst hs
          obtain ⟨hsound, hacc⟩ := h.sound.take hi hqueue
          exact h.keep hsound hacc ⟨rfl, rfl⟩
      · exact absurd hs (by simp)
  | serverProcess i rest reserved sent =>
      rw [LoginState.step] at hs
      split at hs
      · next q hi =>
          split_ifs at hs with hlen
          injection hs with hs
          subst hs
          obtain ⟨hsound, hacc⟩ := h.sound.serverProcess hi rest hlen sent
          have hframe :=
            (s.giveBack i).answer_frame (p := p) q.nSocketID
              (processMessage q.data rest reserved) sent
          exact h.keep hsound hacc ⟨hframe.started, hframe.failed⟩
      · exact absurd hs (by simp)
  | serverOnClosed k =>
      rw [LoginState.step] at hs
      split_ifs at hs with hcan
      injection hs with hs
      subst hs
      obtain ⟨hsound, hacc⟩ := h.sound.serverOnClosed hcan.1
      exact h.keep hsound hacc ⟨rfl, rfl⟩
  | clientReceive k n =>
      rw [LoginState.step] at hs
      split_ifs at hs with hcan
      injection hs with hs
      subst hs
      obtain ⟨hsound, hacc, hreceiving⟩ := h.sound.clientReceive hcan.1 hcan.2 n
      exact (h.keep hsound hacc ⟨rfl, rfl⟩).received hreceiving
  | clientOnReceived k =>
      rw [LoginState.step] at hs
      split at hs
      · next q qs harrived =>
          split_ifs at hs with hk
          injection hs with hs
          subst hs
          obtain ⟨hsound, hacc⟩ := h.sound.clientAccept hk harrived
          rw [LoginState.clientOnReceived]
          split_ifs with hfits
          · exact h.keep hsound hacc ⟨rfl, rfl⟩
          · obtain ⟨hrefused, hlost⟩ := h.sound.clientRefuse hk
            refine h.fail hrefused hlost rfl ?_
            have hused :=
              LoginState.clientUsed_le (fun c => (hacc c).trans (h.conserved c) |>.le)
                (s.connection k).client
            rw [LoginState.setClient_self, Client.used_push] at hused
            change _ + 1 ≤ s.started.length at hused
            have hblocks : serverBlocks ≤ clientBlocks := by simp [serverBlocks, clientBlocks]
            omega
      · exact absurd hs (by simp)
  | clientPop c i =>
      rw [LoginState.step] at hs
      split at hs
      · next q qs hi hqueue =>
          injection hs with hs
          subst hs
          obtain ⟨hy, hused⟩ := (h.sound.client c).take hi hqueue
          refine h.keep (h.sound.writeClient c (y := (s.client c).take i q qs) rfl hy)
            (fun d => ?_) ⟨rfl, rfl⟩
          have hacc := s.accounted_setClient c d ((s.client c).take i q qs)
          rw [hused] at hacc
          omega
      · exact absurd hs (by simp)
  | clientProcess c i rest reserved sent =>
      rw [LoginState.step] at hs
      split at hs
      · next q hi =>
          split_ifs at hs with hlen
          injection hs with hs
          subst hs
          obtain ⟨hsound, hacc⟩ := h.sound.clientProcess hoffset hsize hi rest hlen sent
          have hframe :=
            (s.setClient c ((s.client c).giveBack i)).goOn_frame c (isOwnResponse q rest)
              (loginRequest reserved) sent
          exact h.keep hsound hacc ⟨hframe.started, hframe.failed⟩
      · exact absurd hs (by simp)
  | clientOnClosed k =>
      rw [LoginState.step] at hs
      split_ifs at hs with hcan
      injection hs with hs
      subst hs
      obtain ⟨hsound, hacc⟩ := h.sound.clientOnClosed hcan.1
      exact h.keep hsound hacc ⟨rfl, rfl⟩

end Steps

section Runs

variable {p : FramingParam} {s : LoginState}

section Examples

end Examples

end Runs

end TestServer
end IocpNetlib
