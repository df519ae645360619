import IocpNetlib.Lib.ByteBlock
import IocpNetlib.Net.Config
import IocpNetlib.Http.Headers

/-!
# `TcpClient::SplitHttpPacket`

The HTTP splitter collects received bytes in `mRecvPacketBuffer` like the TCP
splitter, and finds the end of a request by scanning the buffer for a blank
line and a `Content-Length` header.  The scan runs over the whole block, not
only over the `mRecvBytes` received bytes.

A result without a code is a scan that reads behind the end of the block;
the language gives such a run no meaning, so it ends there.
-/

namespace IocpNetlib
namespace Http

open ByteBlock

/-- A packet handed to `OnReceived`, and the sizes it was framed with. -/
structure HttpCall where
  packet : List UInt8
  headerSize : Nat
  contentLength : Int
deriving DecidableEq, Repr

/-- The fields of a `TcpClient` that the HTTP splitter uses, and its calls. -/
structure HttpRecvState where
  mRecvPacketBuffer : Option (List UInt8)
  mRecvBytes : Nat
  mCloseAfterSend : Bool
  calls : List HttpCall
deriving DecidableEq, Repr

/-- The receive fields after `TcpClient::Reset`. -/
def HttpRecvState.reset : HttpRecvState :=
  { mRecvPacketBuffer := none
    mRecvBytes := 0
    mCloseAfterSend := false
    calls := [] }

/-- What a loop of the splitter works on. -/
structure HttpBuffer where
  mRecvPacketBuffer : List UInt8
  mRecvBytes : Nat
  mCloseAfterSend : Bool
  calls : List HttpCall
deriving DecidableEq, Repr

/-- What the scan of the buffer says of the packet at its front. -/
inductive Scan
  | outside
  | incomplete
  | illegal
  | complete (hs : HttpHeaders) (headerSize : Nat) (contentLength : Int)
deriving DecidableEq, Repr

section SplitHttpPacket

variable (p : FramingParam)
variable (onReceived : List (List UInt8) → Int)

/-- `packetSize = (int)(headerSize + contentLength)`. -/
def packetSizeOf (headerSize : Nat) (contentLength : Int) : Int :=
  toInt32 (headerSize + contentLength.toNat)

/-- The head of the inner loop of `SplitHttpPacket`, up to `OnReceived`. -/
def scanPacket (buf : List UInt8) (mRecvBytes : Nat) : Scan :=
  match parseHttpHeaders buf mRecvBytes with
  | none => .outside
  | some none => .incomplete
  | some (some (hs, headerSize)) =>
      match getContentLength buf hs.headers with
      | none => .outside
      | some contentLength =>
          if contentLength < 0 then .illegal
          else if packetSizeOf headerSize contentLength ≤ 0 ∨
              p.mMaxPacketSize < packetSizeOf headerSize contentLength then .illegal
          else if mRecvBytes < packetSizeOf headerSize contentLength then .incomplete
          else .complete hs headerSize contentLength

theorem scanPacket_complete
    {buf : List UInt8} {mRecvBytes : Nat}
    {hs : HttpHeaders} {headerSize : Nat} {contentLength : Int}
    (h : scanPacket p buf mRecvBytes = .complete hs headerSize contentLength) :
    parseHttpHeaders buf mRecvBytes = some (some (hs, headerSize)) ∧
    getContentLength buf hs.headers = some contentLength ∧
    0 ≤ contentLength ∧
    0 < packetSizeOf headerSize contentLength ∧
    packetSizeOf headerSize contentLength ≤ p.mMaxPacketSize ∧
    packetSizeOf headerSize contentLength ≤ mRecvBytes := by
  rw [scanPacket] at h
  split at h
  · exact absurd h (by simp)
  · exact absurd h (by simp)
  · next hparse =>
      split at h
      · exact absurd h (by simp)
      · next hlen =>
          split_ifs at h with h₁ h₂ h₃
          injection h with e₁ e₂ e₃
          subst e₁ e₂ e₃
          exact ⟨hparse, hlen, by omega, by omega, by omega, by omega⟩

/-- Drop the first `k` bytes of the `mRecvBytes` received ones. -/
def shiftOut (buf : List UInt8) (k mRecvBytes : Nat) : List UInt8 :=
  if 0 < mRecvBytes - k then memmove buf 0 k (mRecvBytes - k) else buf

theorem length_shiftOut
    {buf : List UInt8} {k n : Nat} (hn : n ≤ buf.length) :
    (shiftOut buf k n).length = buf.length := by
  rw [shiftOut]
  split_ifs with h
  · exact length_memmove k (by omega)
  · rfl

/-- The received bytes that are left move to the front. -/
theorem take_shiftOut
    {buf : List UInt8} {k n : Nat} (hk : k ≤ n) (hn : n ≤ buf.length) :
    (shiftOut buf k n).take (n - k) = (buf.take n).drop k := by
  rw [List.drop_take]
  rw [shiftOut]
  split_ifs with h
  · exact take_memmove_zero (by omega)
  · have hzero : n - k = 0 := by omega
    simp [hzero]

/--
The inner `while (true)` of `SplitHttpPacket`; leaving it by `break` is the
code `success`.  A refusing application also makes the splitter call
`SetDisconnect`, which does not touch these fields.
-/
def splitHttpPacketInner (b : HttpBuffer) : Option NetServiceErr × HttpBuffer :=
  match _h : scanPacket p b.mRecvPacketBuffer b.mRecvBytes with
  | .outside => (none, b)
  | .incomplete => (some .success, b)
  | .illegal => (some .illegalRecvPacket, b)
  | .complete hs headerSize contentLength =>
      let packetSize := (packetSizeOf headerSize contentLength).toNat
      let calls :=
        b.calls ++ [⟨b.mRecvPacketBuffer.take packetSize, headerSize, contentLength⟩]
      if onReceived (calls.map HttpCall.packet) ≠ 0 then
        (some .beClosed, { b with calls := calls })
      else
        match isConnectionClose b.mRecvPacketBuffer hs.headers with
        | none => (none, { b with calls := calls })
        | some close =>
            splitHttpPacketInner
              { mRecvPacketBuffer := shiftOut b.mRecvPacketBuffer packetSize b.mRecvBytes
                mRecvBytes := b.mRecvBytes - packetSize
                mCloseAfterSend := close
                calls := calls }
termination_by b.mRecvBytes
decreasing_by
  have hsize := scanPacket_complete p _h
  show b.mRecvBytes - (packetSizeOf headerSize contentLength).toNat < b.mRecvBytes
  omega

/-- The outer `while (leftSize > 0)` once the buffer exists. -/
def splitHttpPacketLoop (b : HttpBuffer) (pData : List UInt8) :
    Option NetServiceErr × HttpBuffer :=
  if pData.length = 0 then (some .success, b)
  else if min pData.length (p.mMaxPacketSize - b.mRecvBytes) = 0 then
    (some .illegalRecvPacket, b)
  else
    match splitHttpPacketInner p onReceived
      { b with
        mRecvPacketBuffer :=
          memcpy b.mRecvPacketBuffer b.mRecvBytes
            (pData.take (min pData.length (p.mMaxPacketSize - b.mRecvBytes)))
        mRecvBytes :=
          b.mRecvBytes + min pData.length (p.mMaxPacketSize - b.mRecvBytes) } with
    | (some .success, b') =>
        splitHttpPacketLoop b'
          (pData.drop (min pData.length (p.mMaxPacketSize - b.mRecvBytes)))
    | r => r
termination_by pData.length
decreasing_by
  simp only [List.length_drop]
  omega

/-- The receive buffer as the loop finds it; `AllocRecvPacket` gives zeroed bytes. -/
def HttpRecvState.buffer (available : Bool) (st : HttpRecvState) : Option HttpBuffer :=
  match st.mRecvPacketBuffer with
  | some buf => some ⟨buf, st.mRecvBytes, st.mCloseAfterSend, st.calls⟩
  | none =>
      if available then
        some ⟨List.replicate p.mMaxPacketSize 0, 0, st.mCloseAfterSend, st.calls⟩
      else none

/-- The client fields after a loop of the splitter. -/
def HttpBuffer.state (b : HttpBuffer) : HttpRecvState :=
  { mRecvPacketBuffer := some b.mRecvPacketBuffer
    mRecvBytes := b.mRecvBytes
    mCloseAfterSend := b.mCloseAfterSend
    calls := b.calls }

/-- `TcpClient::SplitHttpPacket` on one received chunk. -/
def splitHttpPacket (available : Bool) (st : HttpRecvState) (pData : List UInt8) :
    Option NetServiceErr × HttpRecvState :=
  if pData.length = 0 then (some .success, st)
  else
    match st.buffer p available with
    | none => (some .recvQueueFull, st)
    | some b =>
        ((splitHttpPacketLoop p onReceived b pData).1,
          (splitHttpPacketLoop p onReceived b pData).2.state)

/--
Chunks fed in order to a client whose receive buffer can be allocated.
Feeding stops at the first return that is not zero.
-/
def splitHttpPackets (st : HttpRecvState) :
    List (List UInt8) → Option NetServiceErr × HttpRecvState
  | [] => (some .success, st)
  | c :: cs =>
      match splitHttpPacket p onReceived true st c with
      | (some .success, st') => splitHttpPackets st' cs
      | r => r

end SplitHttpPacket

end Http
end IocpNetlib
