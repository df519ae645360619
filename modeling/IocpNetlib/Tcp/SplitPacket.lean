import IocpNetlib.Lib.ByteBlock
import IocpNetlib.Net.Config

/-!
# `TcpClient::SplitPacket`

The TCP splitter collects received bytes in `mRecvPacketBuffer`, a block of
`mMaxPacketSize` bytes, and hands every complete packet to `OnReceived`.  The
length of a packet is the little-endian `int` at `mPacketSizeOffset`.

`splitPacketInner` is the inner `while (true)` and `splitPacketLoop` the outer
`while (leftSize > 0)`.  The application is a function `onReceived` of the
packets delivered so far, the newest one last; the calls made are recorded in
`calls`.
-/

namespace IocpNetlib
namespace Tcp

open ByteBlock

/-- The receive fields of a `TcpClient`, and the calls of `OnReceived` so far. -/
structure RecvState where
  mRecvPacketBuffer : Option (List UInt8)
  mRecvBytes : Nat
  calls : List (List UInt8)
deriving DecidableEq, Repr

/-- The receive fields after `TcpClient::Reset`. -/
def RecvState.reset : RecvState :=
  { mRecvPacketBuffer := none, mRecvBytes := 0, calls := [] }

/-- The received bytes that are not delivered yet. -/
def RecvState.residual (st : RecvState) : List UInt8 :=
  (st.mRecvPacketBuffer.getD []).take st.mRecvBytes

/-- What a loop of the splitter leaves behind. -/
structure SplitResult where
  ret : NetServiceErr
  mRecvPacketBuffer : List UInt8
  mRecvBytes : Nat
  calls : List (List UInt8)
deriving DecidableEq, Repr

section SplitPacket

variable (p : FramingParam)
variable (onReceived : List (List UInt8) → Int)

/--
The inner `while (true)` of `SplitPacket`.  Leaving it by `break` is the result
`success`; every `return` inside it has another code.
-/
def splitPacketInner
    (buf : List UInt8) (mRecvBytes : Nat) (calls : List (List UInt8)) :
    SplitResult :=
  if mRecvBytes < p.mPacketSizeOffset + 4 then
    ⟨.success, buf, mRecvBytes, calls⟩
  else
    let packetSize := int32At buf p.mPacketSizeOffset
    -- the second comparison is unsigned, but never sees a negative size
    if _h : packetSize < 0 ∨ packetSize.toNat < 4 ∨
        p.mMaxPacketSize < packetSize then
      ⟨.illegalRecvPacket, buf, mRecvBytes, calls⟩
    else if _h' : mRecvBytes < packetSize then
      ⟨.success, buf, mRecvBytes, calls⟩
    else
      let calls' := calls ++ [buf.take packetSize.toNat]
      if onReceived calls' ≠ 0 then
        ⟨.beClosed, buf, mRecvBytes, calls'⟩
      else
        let mRecvBytes' := mRecvBytes - packetSize.toNat
        let buf' :=
          if 0 < mRecvBytes' then
            memmove buf 0 packetSize.toNat mRecvBytes'
          else buf
        splitPacketInner buf' mRecvBytes' calls'
termination_by mRecvBytes
decreasing_by
  show mRecvBytes - packetSize.toNat < mRecvBytes
  clear_value packetSize
  omega

/-- `AllocRecvPacket`: a zeroed block, or `NULL` when the pool gives none. -/
def allocRecvPacket (available : Bool) : Option (List UInt8) :=
  if available then some (List.replicate p.mMaxPacketSize 0) else none

/--
The outer `while (leftSize > 0)` of `SplitPacket` once the buffer exists;
`pData` is what is left of the chunk.
-/
def splitPacketLoop
    (buf : List UInt8) (mRecvBytes : Nat) (calls : List (List UInt8))
    (pData : List UInt8) : SplitResult :=
  if pData.length = 0 then
    ⟨.success, buf, mRecvBytes, calls⟩
  else if min pData.length (p.mMaxPacketSize - mRecvBytes) = 0 then
    ⟨.illegalRecvPacket, buf, mRecvBytes, calls⟩
  else
    match splitPacketInner p onReceived
      (memcpy buf mRecvBytes
        (pData.take (min pData.length (p.mMaxPacketSize - mRecvBytes))))
      (mRecvBytes + min pData.length (p.mMaxPacketSize - mRecvBytes))
      calls with
    | ⟨.success, buf', mRecvBytes', calls'⟩ =>
        splitPacketLoop buf' mRecvBytes' calls'
          (pData.drop (min pData.length (p.mMaxPacketSize - mRecvBytes)))
    | r => r
termination_by pData.length
decreasing_by
  simp only [List.length_drop]
  omega

/--
`TcpClient::SplitPacket` on one received chunk.  The buffer is allocated by
the first pass of the loop, so a chunk without bytes allocates nothing.
-/
def splitPacket
    (available : Bool) (st : RecvState) (pData : List UInt8) :
    NetServiceErr × RecvState :=
  if pData.length = 0 then
    (.success, st)
  else
    match st.mRecvPacketBuffer with
    | some buf =>
        let r := splitPacketLoop p onReceived buf st.mRecvBytes st.calls pData
        (r.ret, ⟨some r.mRecvPacketBuffer, r.mRecvBytes, r.calls⟩)
    | none =>
        match allocRecvPacket p available with
        | none => (.recvQueueFull, st)
        | some buf =>
            let r := splitPacketLoop p onReceived buf 0 st.calls pData
            (r.ret, ⟨some r.mRecvPacketBuffer, r.mRecvBytes, r.calls⟩)

/--
Chunks fed in order to a client whose receive buffer can be allocated.
Feeding stops at the first non-zero return.
-/
def splitPackets
    (st : RecvState) : List (List UInt8) → NetServiceErr × RecvState
  | [] => (.success, st)
  | c :: cs =>
      match splitPacket p onReceived true st c with
      | (.success, st') => splitPackets st' cs
      | r => r

end SplitPacket

end Tcp
end IocpNetlib
