import IocpNetlib.Http.SplitHttpPacket
import IocpNetlib.Lib.Reach

/-!
# Receive handlers, the packet queue and the `ProcessMsg` threads

The receive handler of a connection splits what came in and queues each request
it finds; the `ProcessMsg` threads take requests off the queue and answer them;
a send completion reads `mCloseAfterSend`.  They all run on threads of their
own, so that every access to the queue, to the flag and to the socket is a step,
and the steps of different threads follow each other in any order.

The receive handler of one connection is never run by two threads, since its
next receive is posted at its end.
-/

namespace IocpNetlib
namespace Http

open ByteBlock Reachability

/--
A packet of `mPackageQueue`: the connection of its header, and its bytes.  The
last two fields are not in the source: the number of packets that `OnReceived`
got from the connection before, and what `IsConnectionClose` says of this one.
-/
structure QueuedRequest where
  socketID : UInt32
  packet : List UInt8
  index : Nat
  close : Bool
deriving DecidableEq, Repr

/-- Where the receive handler of a connection stands in `SplitHttpPacket`. -/
inductive RecvPoint
  -- the head of the outer and of the inner loop, with the bytes not yet copied
  | outer (pData : List UInt8)
  | inner (pData : List UInt8)
  -- `OnReceived` has returned zero
  | received (pData : List UInt8) (hs : HttpHeaders) (packetSize : Nat)
  | returned (ret : NetServiceErr)
deriving DecidableEq, Repr

/-- A connection: its receive fields, its receive handler, and whether its socket is open. -/
structure Connection where
  buffer : HttpBuffer
  point : RecvPoint
  connected : Bool
deriving DecidableEq, Repr

/-- A connection before its first receive; its buffer is a block of zeros. -/
def Connection.start (p : FramingParam) : Connection :=
  { buffer := ⟨List.replicate p.mMaxPacketSize 0, 0, false, []⟩
    point := .returned .success
    connected := true }

/-- The splitter returns; any code but zero disconnects. -/
def Connection.finish (x : Connection) (ret : NetServiceErr) : Connection :=
  { x with
    point := .returned ret
    connected := x.connected && decide (ret = .success) }

/--
The state of the service: the connections, the queue, what each thread of
`ProcessMsg` works on, and the sends in flight.  What was delivered, the
`WSASend`s in the order of their calls, and the handled completions with what
`OnSendCompletion` returned are recorded.
-/
structure ServerState where
  conn : UInt32 → Connection
  mPackageQueue : List QueuedRequest
  mThreads : List (Option QueuedRequest)
  outstanding : List QueuedRequest
  delivered : List QueuedRequest
  posted : List QueuedRequest
  completed : List (QueuedRequest × NetServiceErr)

/-- The service with its threads, before any receive. -/
def ServerState.start (p : FramingParam) (threadCount : Nat) : ServerState :=
  { conn := fun _ => .start p
    mPackageQueue := []
    mThreads := List.replicate threadCount none
    outstanding := []
    delivered := []
    posted := []
    completed := [] }

/-- The steps of the threads; `i` is a thread of `ProcessMsg`, or a send in flight. -/
inductive ServerAction
  | receive (socketID : UInt32) (pData : List UInt8)
  | split (socketID : UInt32)
  | onReceived (socketID : UInt32) (accepted : Bool)
  | disconnect (socketID : UInt32)
  | pop (i : Nat)
  | answer (i : Nat) (pending : Bool)
  | drop (i : Nat)
  | onSendCompletion (i : Nat)
deriving DecidableEq, Repr

/-- What `OnSendCompletion` returns; `full` says that all bytes were sent. -/
def onSendCompletion (mCloseAfterSend full : Bool) : NetServiceErr :=
  if full = false then .sendNotComplete
  else if mCloseAfterSend then .beClosed
  else .success

/-- Write one connection. -/
def ServerState.setConn (s : ServerState) (socketID : UInt32) (x : Connection) : ServerState :=
  { s with conn := fun c => if c = socketID then x else s.conn c }

section Split

variable (p : FramingParam)

/-- The first bytes of a chunk are copied behind the received ones. -/
def HttpBuffer.copy (b : HttpBuffer) (pData : List UInt8) : HttpBuffer :=
  { b with
    mRecvPacketBuffer :=
      memcpy b.mRecvPacketBuffer b.mRecvBytes
        (pData.take (min pData.length (p.mMaxPacketSize - b.mRecvBytes)))
    mRecvBytes := b.mRecvBytes + min pData.length (p.mMaxPacketSize - b.mRecvBytes) }

/-- The first `packetSize` received bytes are moved out, and the flag is stored. -/
def HttpBuffer.shift (b : HttpBuffer) (packetSize : Nat) (close : Bool) : HttpBuffer :=
  { b with
    mRecvPacketBuffer := shiftOut b.mRecvPacketBuffer packetSize b.mRecvBytes
    mRecvBytes := b.mRecvBytes - packetSize
    mCloseAfterSend := close }

/--
The parts of `SplitHttpPacket` between two calls of `OnReceived`: a pass of the
outer loop, a scan that finds no packet, and what follows an accepted packet.
-/
def Connection.split (x : Connection) : Option Connection :=
  match x.point with
  | .outer pData =>
      if pData.length = 0 then some (x.finish .success)
      else if min pData.length (p.mMaxPacketSize - x.buffer.mRecvBytes) = 0 then
        some (x.finish .illegalRecvPacket)
      else
        some
          { x with
            buffer := x.buffer.copy p pData
            point :=
              .inner (pData.drop (min pData.length (p.mMaxPacketSize - x.buffer.mRecvBytes))) }
  | .inner pData =>
      match scanPacket p x.buffer.mRecvPacketBuffer x.buffer.mRecvBytes with
      | .incomplete => some { x with point := .outer pData }
      | .illegal => some (x.finish .illegalRecvPacket)
      | .outside | .complete .. => none
  | .received pData hs packetSize =>
      match isConnectionClose x.buffer.mRecvPacketBuffer hs.headers with
      | none => none
      | some close =>
          some { x with buffer := x.buffer.shift packetSize close, point := .inner pData }
  | .returned _ => none

/-- The call of `OnReceived`, if the handler stands in front of one. -/
def Connection.call (x : Connection) : Option (List UInt8 × HttpHeaders × HttpCall) :=
  match x.point with
  | .inner pData =>
      match scanPacket p x.buffer.mRecvPacketBuffer x.buffer.mRecvBytes with
      | .complete hs headerSize contentLength =>
          some
            (pData, hs,
              ⟨x.buffer.mRecvPacketBuffer.take (packetSizeOf headerSize contentLength).toNat,
                headerSize, contentLength⟩)
      | _ => none
  | _ => none

/-- The request that a call of `OnReceived` queues. -/
def Connection.request (x : Connection) (socketID : UInt32) (hs : HttpHeaders) (call : HttpCall) :
    QueuedRequest :=
  { socketID := socketID
    packet := call.packet
    index := x.buffer.calls.length
    close := decide (isConnectionClose x.buffer.mRecvPacketBuffer hs.headers = some true) }

/-- The connection after a call of `OnReceived`. -/
def Connection.called (x : Connection) (call : HttpCall) : Connection :=
  { x with buffer := { x.buffer with calls := x.buffer.calls ++ [call] } }

/-- `OnReceived` queues a packet of `c` and returns zero. -/
def ServerState.queued (s : ServerState) (c : UInt32) (pData : List UInt8) (hs : HttpHeaders)
    (call : HttpCall) : ServerState :=
  { s.setConn c
      { (s.conn c).called call with
        point :=
          .received pData hs (packetSizeOf call.headerSize call.contentLength).toNat } with
    mPackageQueue := s.mPackageQueue ++ [(s.conn c).request c hs call]
    delivered := s.delivered ++ [(s.conn c).request c hs call] }

/-- The send in flight `i` completes; a result that is not zero disconnects. -/
def ServerState.sent (s : ServerState) (i : Nat) (r : QueuedRequest) : ServerState :=
  let x := s.conn r.socketID
  let ret := onSendCompletion x.buffer.mCloseAfterSend true
  { s.setConn r.socketID { x with connected := x.connected && decide (ret = .success) } with
    outstanding := s.outstanding.eraseIdx i
    completed := s.completed ++ [(r, ret)] }

/--
One step.  `OnReceived` refuses a packet when the queue has no free block.  A
request is dropped when `OnHttpPacket` does not answer it, or when a pool has no
block for the answer; `pending` is a `WSASend` that does not fail, and every
send that is pending completes with all of its bytes.
-/
def ServerState.step (s : ServerState) : ServerAction → Option ServerState
  | .receive c pData =>
      if (s.conn c).connected ∧ (s.conn c).point = .returned .success ∧ pData ≠ [] then
        some (s.setConn c { s.conn c with point := .outer pData })
      else none
  | .split c => ((s.conn c).split p).map (s.setConn c)
  | .onReceived c accepted =>
      match (s.conn c).call p with
      | none => none
      | some (pData, hs, call) =>
          if accepted then some (s.queued c pData hs call)
          else some (s.setConn c (((s.conn c).called call).finish .beClosed))
  | .disconnect c => some (s.setConn c { s.conn c with connected := false })
  | .pop i =>
      match s.mThreads[i]?, s.mPackageQueue with
      | some none, r :: rs =>
          some { s with mPackageQueue := rs, mThreads := s.mThreads.set i (some r) }
      | _, _ => none
  | .answer i pending =>
      match s.mThreads[i]? with
      | some (some r) =>
          if pending ∧ (s.conn r.socketID).connected = false then none
          else
            some
              { s with
                mThreads := s.mThreads.set i none
                posted := s.posted ++ [r]
                outstanding := if pending then s.outstanding ++ [r] else s.outstanding }
      | _ => none
  | .drop i =>
      match s.mThreads[i]? with
      | some (some _) => some { s with mThreads := s.mThreads.set i none }
      | _ => none
  | .onSendCompletion i =>
      match s.outstanding[i]? with
      | none => none
      | some r => some (s.sent i r)

end Split

/-!
Run alone, the steps of a receive handler compute `splitHttpPacketLoop`.
-/

section Alone

variable {p : FramingParam} {onReceived : List (List UInt8) → Int} {c : UInt32}

@[simp] theorem setConn_self (s : ServerState) (c : UInt32) (x : Connection) :
    (s.setConn c x).conn c = x :=
  if_pos rfl

theorem setConn_other (s : ServerState) {c d : UInt32} (h : d ≠ c) (x : Connection) :
    (s.setConn c x).conn d = s.conn d :=
  if_neg h

/-- The steps of the receive handler of `c`, with the answers of the application. -/
def alone (p : FramingParam) (onReceived : List (List UInt8) → Int) (c : UInt32)
    (s : ServerState) : ServerAction → Prop
  | .split d => d = c
  | .onReceived d accepted =>
      d = c ∧ ∀ pData hs call, (s.conn c).call p = some (pData, hs, call) →
        (accepted = true ↔
          onReceived (((s.conn c).buffer.calls ++ [call]).map HttpCall.packet) = 0)
  | _ => False

/-- The connection `c` has got to a buffer and a point. -/
structure ServerState.At (s : ServerState) (c : UInt32) (b : HttpBuffer) (point : RecvPoint) :
    Prop where
  buffer : (s.conn c).buffer = b
  point : (s.conn c).point = point

theorem setConn_at
    {s : ServerState} {x : Connection} {b : HttpBuffer} {point : RecvPoint}
    (hbuffer : x.buffer = b) (hpoint : x.point = point) :
    (s.setConn c x).At c b point := by
  constructor
  · rw [setConn_self]
    exact hbuffer
  · rw [setConn_self]
    exact hpoint

/-- The steps of the receive handler alone lead from one state to another. -/
abbrev Receives (p : FramingParam) (onReceived : List (List UInt8) → Int) (c : UInt32)
    (s s' : ServerState) : Prop :=
  Reach (ServerState.step p) (alone p onReceived c) s s'

theorem receives_split
    {s : ServerState} {x : Connection} (h : (s.conn c).split p = some x) :
    Receives p onReceived c s (s.setConn c x) :=
  .single (a := .split c) rfl (by rw [ServerState.step, h]; rfl)

/-- Where the handler goes on behind the inner loop. -/
def RecvPoint.behind (pData : List UInt8) (ret : NetServiceErr) : RecvPoint :=
  if ret = .success then .outer pData else .returned ret

theorem called_buffer {x : Connection} {b : HttpBuffer} (h : x.buffer = b) (call : HttpCall) :
    (x.called call).buffer = { b with calls := b.calls ++ [call] } := by
  subst h
  rfl

theorem queued_at
    {s : ServerState} {b : HttpBuffer} (h : (s.conn c).buffer = b)
    (pData : List UInt8) (hs : HttpHeaders) (call : HttpCall) :
    (s.queued c pData hs call).At c { b with calls := b.calls ++ [call] }
      (.received pData hs (packetSizeOf call.headerSize call.contentLength).toNat) := by
  constructor
  · show ((s.setConn c _).conn c).buffer = _
    rw [setConn_self]
    exact called_buffer h call
  · show ((s.setConn c _).conn c).point = _
    rw [setConn_self]

theorem receives_called
    {s : ServerState} {b : HttpBuffer} {pData : List UInt8}
    {hs : HttpHeaders} {headerSize : Nat} {contentLength : Int}
    (hat : s.At c b (.inner pData))
    (hscan :
      scanPacket p b.mRecvPacketBuffer b.mRecvBytes = .complete hs headerSize contentLength) :
    (s.conn c).call p =
      some
        (pData, hs,
          ⟨b.mRecvPacketBuffer.take (packetSizeOf headerSize contentLength).toNat,
            headerSize, contentLength⟩) := by
  rw [Connection.call]
  rw [hat.point]
  simp only [hat.buffer, hscan]

/-- The inner loop, by its scan. -/
theorem splitHttpPacketInner_of_scan
    {b : HttpBuffer} {scan : Scan} (hscan : scanPacket p b.mRecvPacketBuffer b.mRecvBytes = scan) :
    splitHttpPacketInner p onReceived b =
      match scan with
      | .outside => (none, b)
      | .incomplete => (some .success, b)
      | .illegal => (some .illegalRecvPacket, b)
      | .complete hs headerSize contentLength =>
          let packetSize := (packetSizeOf headerSize contentLength).toNat
          let calls :=
            b.calls ++ [⟨b.mRecvPacketBuffer.take packetSize, headerSize, contentLength⟩]
          if onReceived (calls.map HttpCall.packet) ≠ 0 then
            (some .beClosed, { b with calls := calls })
          else
            match isConnectionClose b.mRecvPacketBuffer hs.headers with
            | none => (none, { b with calls := calls })
            | some close =>
                splitHttpPacketInner p onReceived
                  ({ b with calls := calls }.shift packetSize close) := by
  rw [splitHttpPacketInner]
  split
  · next h =>
      obtain rfl := hscan.symm.trans h
      rfl
  · next h =>
      obtain rfl := hscan.symm.trans h
      rfl
  · next h =>
      obtain rfl := hscan.symm.trans h
      rfl
  · next h =>
      obtain rfl := hscan.symm.trans h
      rfl

theorem splitHttpPacketInner_receives (pData : List UInt8) (b : HttpBuffer) :
    ∀ (s : ServerState) (ret : NetServiceErr) (b' : HttpBuffer),
      s.At c b (.inner pData) → splitHttpPacketInner p onReceived b = (some ret, b') →
        ∃ s', Receives p onReceived c s s' ∧ s'.At c b' (.behind pData ret) := by
  induction b using splitHttpPacketInner.induct p onReceived with
  | case1 b hscan =>
      intro s ret b' hat hinner
      rw [splitHttpPacketInner_of_scan hscan] at hinner
      exact absurd (congrArg Prod.fst hinner) (by simp)
  | case2 b hscan =>
      intro s ret b' hat hinner
      rw [splitHttpPacketInner_of_scan hscan] at hinner
      obtain ⟨rfl, rfl⟩ : .success = ret ∧ b = b' := by simpa using hinner
      have hsplit :
          (s.conn c).split p = some { s.conn c with point := .outer pData } := by
        rw [Connection.split]
        rw [hat.point]
        simp only [hat.buffer, hscan]
      exact ⟨_, receives_split hsplit, setConn_at hat.buffer rfl⟩
  | case3 b hscan =>
      intro s ret b' hat hinner
      rw [splitHttpPacketInner_of_scan hscan] at hinner
      obtain ⟨rfl, rfl⟩ : .illegalRecvPacket = ret ∧ b = b' := by simpa using hinner
      have hsplit : (s.conn c).split p = some ((s.conn c).finish .illegalRecvPacket) := by
        rw [Connection.split]
        rw [hat.point]
        simp only [hat.buffer, hscan]
      exact ⟨_, receives_split hsplit, setConn_at hat.buffer rfl⟩
  | case4 b hs headerSize contentLength hscan packetSize calls hrefused =>
      intro s ret b' hat hinner
      have hcall := receives_called hat hscan
      rw [splitHttpPacketInner_of_scan hscan] at hinner
      simp only at hinner
      rw [if_pos hrefused] at hinner
      obtain ⟨rfl, rfl⟩ : .beClosed = ret ∧ { b with calls := calls } = b' := by
        simpa using hinner
      have hstep :
          s.step p (.onReceived c false) =
            some
              (s.setConn c
                (((s.conn c).called
                  ⟨b.mRecvPacketBuffer.take packetSize, headerSize, contentLength⟩).finish
                    .beClosed)) := by
        rw [ServerState.step, hcall]
        rfl
      refine
        ⟨_, .single (a := .onReceived c false) ⟨rfl, ?_⟩ hstep,
          setConn_at (called_buffer hat.buffer _) rfl⟩
      intro pData' hs' call' hcall'
      obtain ⟨rfl, rfl, rfl⟩ := by simpa using hcall.symm.trans hcall'
      rw [hat.buffer]
      exact ⟨fun h => absurd h (by decide), fun h => absurd h hrefused⟩
  | case5 b hs headerSize contentLength hscan packetSize calls haccepted hclose =>
      intro s ret b' hat hinner
      rw [splitHttpPacketInner_of_scan hscan] at hinner
      simp only at hinner
      rw [if_neg haccepted, hclose] at hinner
      exact absurd (congrArg Prod.fst hinner) (by simp)
  | case6 b hs headerSize contentLength hscan packetSize calls haccepted close hclose ih =>
      intro s ret b' hat hinner
      have hcall := receives_called hat hscan
      rw [splitHttpPacketInner_of_scan hscan] at hinner
      simp only at hinner
      rw [if_neg haccepted, hclose] at hinner
      -- `OnReceived` accepts the packet, then the flag is stored
      have hstep :
          s.step p (.onReceived c true) = some (s.queued c pData hs
            ⟨b.mRecvPacketBuffer.take packetSize, headerSize, contentLength⟩) := by
        rw [ServerState.step, hcall]
        rfl
      have hqueued := queued_at hat.buffer pData hs
        ⟨b.mRecvPacketBuffer.take packetSize, headerSize, contentLength⟩
      have hfirst :
          Receives p onReceived c s (s.queued c pData hs
            ⟨b.mRecvPacketBuffer.take packetSize, headerSize, contentLength⟩) := by
        refine .single (a := .onReceived c true) ⟨rfl, ?_⟩ hstep
        intro pData' hs' call' hcall'
        obtain ⟨rfl, rfl, rfl⟩ := by simpa using hcall.symm.trans hcall'
        rw [hat.buffer]
        exact ⟨fun _ => not_not.mp haccepted, fun _ => rfl⟩
      generalize s.queued c pData hs _ = s₁ at hqueued hfirst
      have hsplit :
          (s₁.conn c).split p =
            some
              { s₁.conn c with
                buffer := { b with calls := calls }.shift packetSize close
                point := .inner pData } := by
        rw [Connection.split]
        rw [hqueued.point]
        simp only [hqueued.buffer, hclose]
        rfl
      have hat₂ :
          (s₁.setConn c
            { s₁.conn c with
              buffer := { b with calls := calls }.shift packetSize close
              point := .inner pData }).At c
            ({ b with calls := calls }.shift packetSize close) (.inner pData) :=
        setConn_at rfl rfl
      obtain ⟨s', hrest, hat'⟩ := ih _ ret b' hat₂ hinner
      exact ⟨s', (hfirst.trans (receives_split hsplit)).trans hrest, hat'⟩

/-- One pass of the outer loop. -/
theorem receives_copied
    {s : ServerState} {b b' : HttpBuffer} {pData : List UInt8} {ret : NetServiceErr}
    (hat : s.At c b (.outer pData)) (hne : ¬ pData.length = 0)
    (hroom : ¬ min pData.length (p.mMaxPacketSize - b.mRecvBytes) = 0)
    (hinner : splitHttpPacketInner p onReceived (b.copy p pData) = (some ret, b')) :
    ∃ s', Receives p onReceived c s s' ∧
      s'.At c b'
        (.behind (pData.drop (min pData.length (p.mMaxPacketSize - b.mRecvBytes))) ret) := by
  have hsplit :
      (s.conn c).split p =
        some
          { s.conn c with
            buffer := b.copy p pData
            point :=
              .inner (pData.drop (min pData.length (p.mMaxPacketSize - b.mRecvBytes))) } := by
    rw [Connection.split]
    rw [hat.point]
    simp only [hat.buffer, if_neg hne, if_neg hroom]
  have hat' :
      (s.setConn c
        { s.conn c with
          buffer := b.copy p pData
          point :=
            .inner (pData.drop (min pData.length (p.mMaxPacketSize - b.mRecvBytes))) }).At c
        (b.copy p pData)
        (.inner (pData.drop (min pData.length (p.mMaxPacketSize - b.mRecvBytes)))) :=
    setConn_at rfl rfl
  obtain ⟨s', hrest, hbehind⟩ := splitHttpPacketInner_receives _ _ _ ret b' hat' hinner
  exact ⟨s', (receives_split hsplit).trans hrest, hbehind⟩

/--
**The receive handler is the splitter.**  From the head of the outer loop, the
steps of the handler alone reach the buffer and the code that
`splitHttpPacketLoop` computes.
-/
theorem splitHttpPacketLoop_receives (b : HttpBuffer) (pData : List UInt8) :
    ∀ (s : ServerState) (ret : NetServiceErr) (b' : HttpBuffer),
      s.At c b (.outer pData) → splitHttpPacketLoop p onReceived b pData = (some ret, b') →
        ∃ s', Receives p onReceived c s s' ∧ s'.At c b' (.returned ret) := by
  induction b, pData using splitHttpPacketLoop.induct p onReceived with
  | case1 b pData hnil =>
      intro s ret b' hat hloop
      rw [splitHttpPacketLoop, if_pos hnil] at hloop
      obtain ⟨rfl, rfl⟩ : .success = ret ∧ b = b' := by simpa using hloop
      have hsplit : (s.conn c).split p = some ((s.conn c).finish .success) := by
        rw [Connection.split]
        rw [hat.point]
        exact if_pos hnil
      exact ⟨_, receives_split hsplit, setConn_at hat.buffer rfl⟩
  | case2 b pData hne hfull =>
      intro s ret b' hat hloop
      rw [splitHttpPacketLoop, if_neg hne, if_pos hfull] at hloop
      obtain ⟨rfl, rfl⟩ : .illegalRecvPacket = ret ∧ b = b' := by simpa using hloop
      have hsplit : (s.conn c).split p = some ((s.conn c).finish .illegalRecvPacket) := by
        rw [Connection.split]
        rw [hat.point]
        simp only [hat.buffer, if_neg hne, if_pos hfull]
      exact ⟨_, receives_split hsplit, setConn_at hat.buffer rfl⟩
  | case3 b pData hne hroom b₁ hinner ih =>
      intro s ret b' hat hloop
      obtain ⟨s₁, hfirst, hat₁⟩ := receives_copied hat hne hroom hinner
      rw [splitHttpPacketLoop, if_neg hne, if_neg hroom, hinner] at hloop
      obtain ⟨s', hrest, hat'⟩ := ih s₁ ret b' hat₁ hloop
      exact ⟨s', hfirst.trans hrest, hat'⟩
  | case4 b pData hne hroom hinner =>
      intro s ret b' hat hloop
      rw [splitHttpPacketLoop, if_neg hne, if_neg hroom] at hloop
      -- the inner loop ends with a code that is not zero
      generalize hr : splitHttpPacketInner p onReceived _ = r at hinner hloop
      obtain ⟨code, b₁⟩ := r
      have hbad : code ≠ some .success := by
        rintro rfl
        exact hinner b₁ rfl
      obtain ⟨rfl, rfl⟩ : code = some ret ∧ b₁ = b' := by
        split at hloop
        · next heq => exact absurd (congrArg Prod.fst heq) hbad
        · exact Prod.mk.inj hloop
      obtain ⟨s', hrest, hat'⟩ := receives_copied hat hne hroom hr
      rw [RecvPoint.behind, if_neg (by simpa using hbad)] at hat'
      exact ⟨s', hrest, hat'⟩

end Alone

section Steps

variable {p : FramingParam} {s s' : ServerState} {a : ServerAction}

/-- What a step does. -/
inductive Stepped (p : FramingParam) (s : ServerState) : ServerAction → ServerState → Prop
  | receive {c : UInt32} {pData : List UInt8}
      (hpoint : (s.conn c).point = .returned .success) :
      Stepped p s (.receive c pData) (s.setConn c { s.conn c with point := .outer pData })
  | split {c : UInt32} {x : Connection} (hsplit : (s.conn c).split p = some x) :
      Stepped p s (.split c) (s.setConn c x)
  | accepted {c : UInt32} {pData : List UInt8} {hs : HttpHeaders} {call : HttpCall}
      (hcall : (s.conn c).call p = some (pData, hs, call)) :
      Stepped p s (.onReceived c true) (s.queued c pData hs call)
  | refused {c : UInt32} {pData : List UInt8} {hs : HttpHeaders} {call : HttpCall}
      (hcall : (s.conn c).call p = some (pData, hs, call)) :
      Stepped p s (.onReceived c false) (s.setConn c (((s.conn c).called call).finish .beClosed))
  | disconnect {c : UInt32} :
      Stepped p s (.disconnect c) (s.setConn c { s.conn c with connected := false })
  | pop {i : Nat} {r : QueuedRequest} {rs : List QueuedRequest}
      (hi : s.mThreads[i]? = some none) (hqueue : s.mPackageQueue = r :: rs) :
      Stepped p s (.pop i) { s with mPackageQueue := rs, mThreads := s.mThreads.set i (some r) }
  | answer {i : Nat} {pending : Bool} {r : QueuedRequest} (hi : s.mThreads[i]? = some (some r)) :
      Stepped p s (.answer i pending)
        { s with
          mThreads := s.mThreads.set i none
          posted := s.posted ++ [r]
          outstanding := if pending then s.outstanding ++ [r] else s.outstanding }
  | drop {i : Nat} {r : QueuedRequest} (hi : s.mThreads[i]? = some (some r)) :
      Stepped p s (.drop i) { s with mThreads := s.mThreads.set i none }
  | completed {i : Nat} {r : QueuedRequest} (hi : s.outstanding[i]? = some r) :
      Stepped p s (.onSendCompletion i) (s.sent i r)

theorem step_stepped (h : s.step p a = some s') : Stepped p s a s' := by
  cases a with
  | receive c pData =>
      rw [ServerState.step] at h
      split_ifs at h with hready
      obtain rfl := Option.some.inj h
      exact .receive hready.2.1
  | split c =>
      rw [ServerState.step] at h
      obtain ⟨x, hx, rfl⟩ := Option.map_eq_some_iff.mp h
      exact .split hx
  | onReceived c accepted =>
      rw [ServerState.step] at h
      split at h
      · exact absurd h (by simp)
      · next hcall =>
          cases accepted with
          | true =>
              obtain rfl := Option.some.inj h
              exact .accepted hcall
          | false =>
              obtain rfl := Option.some.inj h
              exact .refused hcall
  | disconnect c =>
      obtain rfl := Option.some.inj h
      exact .disconnect
  | pop i =>
      rw [ServerState.step] at h
      split at h
      · next hi hqueue =>
          obtain rfl := Option.some.inj h
          exact .pop hi hqueue
      · exact absurd h (by simp)
  | answer i pending =>
      rw [ServerState.step] at h
      split at h
      · next hi =>
          split at h
          · exact absurd h (by simp)
          · obtain rfl := Option.some.inj h
            exact .answer hi
      · exact absurd h (by simp)
  | drop i =>
      rw [ServerState.step] at h
      split at h
      · next hi =>
          obtain rfl := Option.some.inj h
          exact .drop hi
      · exact absurd h (by simp)
  | onSendCompletion i =>
      rw [ServerState.step] at h
      split at h
      · exact absurd h (by simp)
      · next hi =>
          obtain rfl := Option.some.inj h
          exact .completed hi

theorem split_calls {x y : Connection} (h : x.split p = some y) :
    y.buffer.calls = x.buffer.calls := by
  rw [Connection.split] at h
  split at h
  · split_ifs at h
    all_goals
      obtain rfl := Option.some.inj h
      rfl
  · split at h
    · obtain rfl := Option.some.inj h
      rfl
    · obtain rfl := Option.some.inj h
      rfl
    · exact absurd h (by simp)
    · exact absurd h (by simp)
  · split at h
    · exact absurd h (by simp)
    · obtain rfl := Option.some.inj h
      rfl
  · exact absurd h (by simp)

/-- The requests of one connection. -/
def onConn (c : UInt32) (rs : List QueuedRequest) : List QueuedRequest :=
  rs.filter (·.socketID = c)

theorem mem_onConn {c : UInt32} {rs : List QueuedRequest} {r : QueuedRequest} :
    r ∈ onConn c rs ↔ r ∈ rs ∧ r.socketID = c := by
  simp [onConn]

@[simp] theorem onConn_append (c : UInt32) (rs rs' : List QueuedRequest) :
    onConn c (rs ++ rs') = onConn c rs ++ onConn c rs' :=
  List.filter_append _ _

theorem onConn_cons_self (r : QueuedRequest) (rs : List QueuedRequest) :
    onConn r.socketID (r :: rs) = r :: onConn r.socketID rs := by
  simp [onConn]

theorem onConn_cons_other {c : UInt32} {r : QueuedRequest} (h : r.socketID ≠ c)
    (rs : List QueuedRequest) :
    onConn c (r :: rs) = onConn c rs := by
  simp [onConn, h]

/--
Requests of a connection are numbered in the order of their delivery, and leave
the queue in that order.
-/
structure ServerState.Fifo (s : ServerState) : Prop where
  ordered : ∀ c, (onConn c s.delivered).Pairwise (·.index < ·.index)
  counted : ∀ r ∈ s.delivered, r.index < (s.conn r.socketID).buffer.calls.length
  queue : s.mPackageQueue.Sublist s.delivered
  held : ∀ (i : Nat) (r : QueuedRequest), s.mThreads[i]? = some (some r) →
    r ∈ s.delivered ∧ ∀ q ∈ s.mPackageQueue, q.socketID = r.socketID → r.index < q.index

theorem ServerState.Fifo.start (p : FramingParam) (threadCount : Nat) :
    (ServerState.start p threadCount).Fifo where
  ordered := fun _ => List.Pairwise.nil
  counted := fun _ h => absurd h List.not_mem_nil
  queue := List.Sublist.refl _
  held := by
    intro i r h
    exact absurd (List.eq_of_mem_replicate (List.mem_of_getElem? h)) (by simp)

theorem setConn_calls {c : UInt32} {x : Connection}
    (h : (s.conn c).buffer.calls.length ≤ x.buffer.calls.length) (d : UInt32) :
    (s.conn d).buffer.calls.length ≤ ((s.setConn c x).conn d).buffer.calls.length := by
  by_cases hd : d = c
  · subst hd
    rw [setConn_self]
    exact h
  · exact Nat.le_of_eq (by rw [setConn_other s hd])

/-- A step that neither queues a request nor takes one off the queue. -/
theorem ServerState.Fifo.keep
    (h : s.Fifo)
    (hdelivered : s'.delivered = s.delivered)
    (hqueue : s'.mPackageQueue = s.mPackageQueue)
    (hheld : ∀ (i : Nat) (r : QueuedRequest),
      s'.mThreads[i]? = some (some r) → s.mThreads[i]? = some (some r))
    (hcalls : ∀ c, (s.conn c).buffer.calls.length ≤ (s'.conn c).buffer.calls.length) :
    s'.Fifo where
  ordered := by
    rw [hdelivered]
    exact h.ordered
  counted := by
    rw [hdelivered]
    intro r hr
    exact Nat.lt_of_lt_of_le (h.counted r hr) (hcalls _)
  queue := by
    rw [hdelivered, hqueue]
    exact h.queue
  held := by
    rw [hdelivered, hqueue]
    intro i r hi
    exact h.held i r (hheld i r hi)

/-- A request is delivered behind all that were delivered before. -/
theorem ServerState.Fifo.queued
    (h : s.Fifo) (c : UInt32) (pData : List UInt8) (hs : HttpHeaders) (call : HttpCall) :
    (s.queued c pData hs call).Fifo := by
  have hlast : ∀ r ∈ s.delivered, r.socketID = c →
      r.index < ((s.conn c).request c hs call).index := by
    rintro r hr rfl
    exact h.counted r hr
  have hcalls : ∀ d, (s.conn d).buffer.calls.length ≤
      ((s.queued c pData hs call).conn d).buffer.calls.length :=
    setConn_calls (by simp [Connection.called])
  constructor
  · intro d
    show (onConn d (s.delivered ++ [_])).Pairwise _
    rw [onConn_append, List.pairwise_append]
    refine ⟨h.ordered d, List.pairwise_singleton _ _ |>.filter _, ?_⟩
    intro r hr q hq
    obtain ⟨hmem, hr⟩ := mem_onConn.mp hr
    obtain ⟨hnew, hq⟩ := mem_onConn.mp hq
    rw [List.mem_singleton] at hnew
    subst hnew
    exact hlast r hmem (hr.trans hq.symm)
  · intro r hr
    rcases List.mem_append.mp hr with hr | hr
    · exact Nat.lt_of_lt_of_le (h.counted r hr) (hcalls _)
    · rw [List.mem_singleton] at hr
      subst hr
      show _ < ((s.setConn c _).conn c).buffer.calls.length
      rw [setConn_self]
      simp [Connection.request, Connection.called]
  · exact h.queue.append (List.Sublist.refl _)
  · intro i r hi
    obtain ⟨hr, hfront⟩ := h.held i r hi
    refine ⟨List.mem_append_left _ hr, ?_⟩
    intro q hq hsame
    rcases List.mem_append.mp hq with hq | hq
    · exact hfront q hq hsame
    · rw [List.mem_singleton] at hq
      subst hq
      exact hlast r hr hsame.symm

/-- The front request is before all others of its connection that are queued. -/
theorem ServerState.Fifo.front
    {r : QueuedRequest} {rs : List QueuedRequest}
    (h : s.Fifo) (hqueue : s.mPackageQueue = r :: rs) :
    ∀ q ∈ rs, q.socketID = r.socketID → r.index < q.index := by
  have hsub : (onConn r.socketID (r :: rs)).Sublist (onConn r.socketID s.delivered) :=
    (hqueue ▸ h.queue).filter _
  have hpair := (h.ordered r.socketID).sublist hsub
  rw [onConn_cons_self, List.pairwise_cons] at hpair
  intro q hq hsame
  exact hpair.1 q (mem_onConn.mpr ⟨hq, hsame⟩)

theorem ServerState.Fifo.pop
    {i : Nat} {r : QueuedRequest} {rs : List QueuedRequest}
    (h : s.Fifo) (hqueue : s.mPackageQueue = r :: rs) :
    { s with mPackageQueue := rs, mThreads := s.mThreads.set i (some r) }.Fifo := by
  have hsub : (r :: rs).Sublist s.delivered := hqueue ▸ h.queue
  refine ⟨h.ordered, h.counted, (List.sublist_cons_self r rs).trans hsub, ?_⟩
  intro j q hj
  have hj : (s.mThreads.set i (some r))[j]? = some (some q) := hj
  rw [List.getElem?_set] at hj
  split_ifs at hj with hij hlt
  · obtain rfl : r = q := by simpa using hj
    exact ⟨hsub.subset List.mem_cons_self, h.front hqueue⟩
  · obtain ⟨hq, hfront⟩ := h.held j q hj
    refine ⟨hq, ?_⟩
    intro q' hq' hsame
    exact hfront q' (hqueue ▸ List.mem_cons_of_mem _ hq') hsame

theorem held_of_set
    {ts : List (Option QueuedRequest)} {i j : Nat} {r : QueuedRequest}
    (h : (ts.set i none)[j]? = some (some r)) :
    ts[j]? = some (some r) := by
  rw [List.getElem?_set] at h
  split_ifs at h with hij hlt
  · exact absurd h (by simp)
  · exact h

theorem ServerState.Fifo.step (h : s.Fifo) (hs : s.step p a = some s') : s'.Fifo := by
  cases step_stepped hs with
  | receive hpoint => exact h.keep rfl rfl (fun _ _ hi => hi) (setConn_calls (Nat.le_refl _))
  | split hsplit =>
      exact
        h.keep rfl rfl (fun _ _ hi => hi)
          (setConn_calls (Nat.le_of_eq (by rw [split_calls hsplit])))
  | accepted hcall => exact h.queued _ _ _ _
  | refused hcall =>
      refine h.keep rfl rfl (fun _ _ hi => hi) (setConn_calls ?_)
      simp [Connection.finish, Connection.called]
  | disconnect => exact h.keep rfl rfl (fun _ _ hi => hi) (setConn_calls (Nat.le_refl _))
  | pop hi hqueue => exact h.pop hqueue
  | answer hi => exact h.keep rfl rfl (fun _ _ => held_of_set) (fun _ => Nat.le_refl _)
  | drop hi => exact h.keep rfl rfl (fun _ _ => held_of_set) (fun _ => Nat.le_refl _)
  | completed hi => exact h.keep rfl rfl (fun _ _ hi => hi) (setConn_calls (Nat.le_refl _))

/-- Any steps in any order. -/
abbrev Runs (p : FramingParam) (threadCount : Nat) (s : ServerState) : Prop :=
  Reach (ServerState.step p) (fun _ _ => True) (.start p threadCount) s

/-- A run that can be evaluated. -/
theorem exists_run
    (p : FramingParam) (G : ServerState → ServerAction → Prop) [∀ s a, Decidable (G s a)]
    (threadCount : Nat) (as : List ServerAction) (q : ServerState → Bool)
    (h : (runAll (ServerState.step p) G (.start p threadCount) as).any q = true) :
    ∃ s, Reach (ServerState.step p) G (.start p threadCount) s ∧ q s = true :=
  exists_reach_of_runAll h

end Steps

end Http
end IocpNetlib
