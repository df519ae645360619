import IocpNetlib.Http.SendResponse

/-!
# `TcpService::Send`

`Send` refuses data longer than a packet and hands the rest to
`TcpClient::PostSend`, which copies it into a block of the send pool.  The
length is an `int`: only an upper bound is checked, and a negative length turns
into a huge one.
-/

namespace IocpNetlib
namespace Tcp

open ByteBlock Http

/--
How posting a send ends: it returns without a copy, it writes behind its block,
or it calls `WSASend` with `written` bytes written into the block.
-/
inductive Posted
  | returned (ret : NetServiceErr)
  | overrun
  | wsaSend (ret : NetServiceErr) (written : Nat) (mBuffer : WSABuf)
deriving DecidableEq, Repr

/--
The send stays inside a packet of `M` bytes, or it is refused before anything
is copied.
-/
inductive Posted.Inside (M : Nat) : Posted → Prop
  | refused {ret : NetServiceErr} (ret_ne : ret ≠ .success) : Inside M (.returned ret)
  | sent {ret : NetServiceErr} {written : Nat} {mBuffer : WSABuf} (written_le : written ≤ M)
      (len_le : mBuffer.len ≤ M) : Inside M (.wsaSend ret written mBuffer)

/-- What is returned, and what was sent. -/
def Posted.result : Posted → Option (NetServiceErr × Option WSABuf)
  | .returned ret => some (ret, none)
  | .overrun => none
  | .wsaSend ret _ mBuffer => some (ret, if ret = .success then some mBuffer else none)

variable {p : FramingParam} {w : Nat}

/-- The code after `WSASend`. -/
def wsaSendRet (env : SendEnv p w) : NetServiceErr :=
  if env.wsaSend then .success else .systemError

/-- `TcpClient::PostSend`; `data` are the bytes from the pointer on. -/
def postSend (data : Nat → UInt8) (dataLen : Int) (env : SendEnv p w) : Posted :=
  if env.allocSendIOContext = false then .returned .sendQueueFull
  else
    match env.allocSendPacket with
    | none => .returned .sendQueueFull
    | some sendPacket =>
        if sendPacket.1.length < toSize w dataLen then .overrun
        else
          .wsaSend (wsaSendRet env) (toSize w dataLen)
            ⟨memcpy sendPacket.1 0 ((List.range (toSize w dataLen)).map data),
              toSize 32 dataLen⟩

/-- `TcpService::Send`. -/
def send (pData : Nat → UInt8) (nDataLen : Int) (env : SendEnv p w) : Posted :=
  if p.mMaxPacketSize < nDataLen then .returned .illegalSendPacket
  else if env.findClient = false then .returned .invalidSocket
  else postSend pData nDataLen env

section Bounds

theorem not_inside_overrun {M : Nat} : ¬ Posted.overrun.Inside M :=
  nofun

theorem inside_wsaSend
    {M : Nat} {ret : NetServiceErr} {written : Nat} {mBuffer : WSABuf} :
    (Posted.wsaSend ret written mBuffer).Inside M ↔ written ≤ M ∧ mBuffer.len ≤ M :=
  ⟨fun h => by cases h with | sent h₁ h₂ => exact ⟨h₁, h₂⟩, fun h => .sent h.1 h.2⟩

/-- A negative length is a size that no packet has. -/
theorem toSize_negative
    (hw : w = 32 ∨ w = 64) {n : Int} (hmin : -2 ^ 31 ≤ n) (hneg : n < 0) :
    2 ^ 31 ≤ toSize w n := by
  rw [toSize]
  rcases hw with rfl | rfl
  · omega
  · omega

theorem toSize_nonneg
    (hw : w = 32 ∨ w = 64) {n : Int} (hpos : 0 ≤ n) (hmax : n < 2 ^ 31) :
    (toSize w n : Int) = n := by
  rw [toSize]
  rcases hw with rfl | rfl
  · omega
  · omega

/-- **When `Send` stays inside its block.** -/
theorem send_inside_iff
    (hw : w = 32 ∨ w = 64) (pData : Nat → UInt8) {nDataLen : Int}
    (hlen : -2 ^ 31 ≤ nDataLen ∧ nDataLen < 2 ^ 31) (env : SendEnv p w) :
    (send pData nDataLen env).Inside p.mMaxPacketSize ↔
      p.mMaxPacketSize < nDataLen ∨ env.Refuses ∨ 0 ≤ nDataLen := by
  have hmax := p.maxPacketSize_le
  rw [intMax] at hmax
  rw [send, postSend]
  by_cases hlarge : (p.mMaxPacketSize : Int) < nDataLen
  · rw [if_pos hlarge]
    exact iff_of_true (.refused (by decide)) (Or.inl hlarge)
  · rw [if_neg hlarge]
    simp only [hlarge, false_or]
    by_cases hrefuses : env.Refuses
    · refine iff_of_true ?_ (Or.inl hrefuses)
      exact hrefuses.returns Posted.returned (fun _ he => Posted.Inside.refused he) _
    · obtain ⟨hfind, hcontext, ⟨block, hblock⟩, hsome⟩ := SendEnv.not_refuses hrefuses
      have hbounds := alignUp_bounds hw p.mMaxPacketSize
      rw [if_neg hfind, if_neg hcontext, hsome]
      simp only [hrefuses, false_or]
      rcases Int.lt_or_le nDataLen 0 with hneg | hpos
      · have hhuge := toSize_negative hw hlen.1 hneg
        refine iff_of_false ?_ (by omega)
        split_ifs
        · exact not_inside_overrun
        · rw [inside_wsaSend]
          omega
      · have hsize := toSize_nonneg hw hpos hlen.2
        have hsent := toSize_nonneg (Or.inl rfl) hpos hlen.2
        rw [if_neg (by omega), inside_wsaSend]
        simp only
        omega

end Bounds

end Tcp
end IocpNetlib
