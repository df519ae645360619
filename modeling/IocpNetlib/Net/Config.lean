import Mathlib.Algebra.Group.Int.Defs
import Mathlib.Algebra.Group.Nat.Defs

/-!
# Shared constants of the service: error codes and framing parameters
-/

namespace IocpNetlib

/-- `INT_MAX` of the 32-bit `int`. -/
def intMax : Nat := 2 ^ 31 - 1

/-- A length field at the start of a packet. -/
theorem firstField_le : 0 + 4 ≤ intMax := by decide

/-- The error codes of `NetServiceErr`. -/
inductive NetServiceErr
  | success
  | illegalRecvPacket
  | remoteDisconnect
  | systemError
  | invalidSocket
  | beClosed
  | sendQueueFull
  | illegalSendPacket
  | bindAddrFailed
  | exception
  | recvFailed
  | recvQueueFull
  | sendNotComplete
  | timeout
  | connectFailed
  | invalidParam
deriving DecidableEq, Repr

/-- The numbers behind the error codes. -/
def NetServiceErr.code : NetServiceErr → Nat
  | .success => 0
  | .illegalRecvPacket => 1
  | .remoteDisconnect => 2
  | .systemError => 3
  | .invalidSocket => 4
  | .beClosed => 5
  | .sendQueueFull => 6
  | .illegalSendPacket => 7
  | .bindAddrFailed => 8
  | .exception => 9
  | .recvFailed => 10
  | .recvQueueFull => 11
  | .sendNotComplete => 12
  | .timeout => 13
  | .connectFailed => 14
  | .invalidParam => 15

/--
The framing parameters a service is started with.  Both are values of the C++
type `int`; the offset leaves room for the four bytes of the length field.
-/
structure FramingParam where
  mMaxPacketSize : Nat
  mPacketSizeOffset : Nat
  maxPacketSize_pos : 0 < mMaxPacketSize
  maxPacketSize_le : mMaxPacketSize ≤ intMax
  packetSizeOffset_le : mPacketSizeOffset + 4 ≤ intMax

end IocpNetlib
