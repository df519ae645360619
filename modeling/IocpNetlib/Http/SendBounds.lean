import IocpNetlib.Tcp.PostSend

/-!
# When a posted send lies inside its block

`PostSendHttp` prints into a block of the send pool, with the limit
`mMaxPacketSize - 128`, and takes the result of the formatting as the length.
A response that is cut has the result -1, and with small packets there is no
limit.
-/

namespace IocpNetlib
namespace Http

open ByteBlock CFormat Tcp

variable {p : FramingParam} {w : Nat}

/-- How many bytes `_snprintf_s` writes for a text: the text or its front, and a NUL. -/
def printedBytes (sizeOfBuffer : Nat) (text : List UInt8) : Nat :=
  if text.length < sizeOfBuffer then text.length + 1 else sizeOfBuffer

/-- `TcpClient::PostSendHttp`, with the call of `WSASend`. -/
def postSendHttpCall (resp : HttpResponse) (env : SendEnv p w) : Posted :=
  if env.allocSendIOContext = false then .returned .sendQueueFull
  else
    match env.allocSendPacket with
    | none => .returned .sendQueueFull
    | some sendPacket =>
        match
          snprintf_s sendPacket.1 (toSize w ((p.mMaxPacketSize : Int) - 128))
            (responseText resp) with
        | none => .overrun
        | some (dataLen, buf) =>
            .wsaSend (wsaSendRet env)
              (printedBytes (toSize w ((p.mMaxPacketSize : Int) - 128)) (responseText resp))
              ⟨buf, toSize 32 dataLen⟩

/-- `TcpService::SendHttpResponse`, with the call of `WSASend`. -/
def sendHttpResponseCall (resp : HttpResponse) (env : SendEnv p w) : Posted :=
  if env.findClient = false then .returned .invalidSocket else postSendHttpCall resp env

/-- The length below which a response stays inside its packet. -/
def responseRoom (p : FramingParam) : Nat :=
  if 128 < p.mMaxPacketSize then p.mMaxPacketSize - 128
  else if p.mMaxPacketSize = 128 then 0
  else p.mMaxPacketSize

section Bounds

/-- The call of `WSASend` is the one whose result `SendHttpResponse` returns. -/
theorem sendHttpResponse_result (resp : HttpResponse) (env : SendEnv p w) :
    sendHttpResponse resp env = (sendHttpResponseCall resp env).result := by
  rw [sendHttpResponse, sendHttpResponseCall]
  by_cases hfind : env.findClient = false
  · rw [if_pos hfind, if_pos hfind]
    rfl
  · rw [if_neg hfind, if_neg hfind]
    rw [postSendHttp, postSendHttpCall]
    by_cases hcontext : env.allocSendIOContext = false
    · rw [if_pos hcontext, if_pos hcontext]
      rfl
    · rw [if_neg hcontext, if_neg hcontext]
      cases env.allocSendPacket with
      | none => rfl
      | some sendPacket =>
          cases hprint :
            snprintf_s sendPacket.1 (toSize w ((p.mMaxPacketSize : Int) - 128))
              (responseText resp) with
          | none => simp [hprint, Posted.result]
          | some r =>
              cases hsend : env.wsaSend with
              | true => simp [hprint, Posted.result, wsaSendRet, hsend]
              | false => simp [hprint, Posted.result, wsaSendRet, hsend]

/-- **When `SendHttpResponse` stays inside its block.** -/
theorem sendHttpResponse_inside_iff
    (hw : w = 32 ∨ w = 64) (resp : HttpResponse) (env : SendEnv p w) :
    (sendHttpResponseCall resp env).Inside p.mMaxPacketSize ↔
      env.Refuses ∨ (responseText resp).length < responseRoom p := by
  have hmax := p.maxPacketSize_le
  rw [intMax] at hmax
  rw [sendHttpResponseCall, postSendHttpCall]
  by_cases hrefuses : env.Refuses
  · refine iff_of_true ?_ (Or.inl hrefuses)
    exact hrefuses.returns Posted.returned (fun _ he => Posted.Inside.refused he) _
  · obtain ⟨hfind, hcontext, ⟨block, hblock⟩, hsome⟩ := SendEnv.not_refuses hrefuses
    have hbounds := alignUp_bounds hw p.mMaxPacketSize
    rw [if_neg hfind, if_neg hcontext, hsome]
    simp only [hrefuses, false_or]
    by_cases htext : (responseText resp).length < formatRoom p w
    · have hle := formatRoom_le hw p
      have hlen : (toSize 32 (responseText resp).length : Int) = (responseText resp).length := by
        rw [toSize]
        omega
      simp only [snprintf_s_room hw hblock htext]
      rw [inside_wsaSend]
      rw [formatRoom] at htext
      rw [printedBytes, responseRoom]
      simp only
      rcases Nat.lt_trichotomy p.mMaxPacketSize 128 with hlt | heq | hgt
      · have hwraps := toSize_wraps hw hlt
        rw [if_neg (by omega), if_neg (by omega)] at htext
        rw [if_pos (by omega), if_neg (by omega), if_neg (by omega)]
        omega
      · rw [if_neg (by omega), if_pos heq] at htext
        exact absurd htext (Nat.not_lt_zero _)
      · rw [if_pos hgt] at htext
        rw [toSize_room hw hgt, if_pos htext, if_pos hgt]
        omega
    · have hlong := Nat.le_of_not_lt htext
      have hshort : ¬ (responseText resp).length < responseRoom p := by
        rw [formatRoom] at htext
        rw [responseRoom]
        split_ifs at htext ⊢ <;> omega
      refine iff_of_false ?_ hshort
      by_cases hroom : 128 < p.mMaxPacketSize
      · obtain ⟨buf, hcut, -⟩ := snprintf_s_cut hw hblock hlong hroom
        have hminus : toSize 32 (-1) = 4294967295 := by decide
        simp only [hcut]
        rw [inside_wsaSend]
        simp only [hminus]
        omega
      · simp only [snprintf_s_overrun hw hblock hlong hroom]
        exact not_inside_overrun

/--
**When a posted send stays inside its block.**  A send of data does if its
length is not negative, a response if it is printed in front of the estimate;
everything else has to be refused before.
-/
theorem sends_inside_iff
    (hw : w = 32 ∨ w = 64) (pData : Nat → UInt8) {nDataLen : Int}
    (hlen : -2 ^ 31 ≤ nDataLen ∧ nDataLen < 2 ^ 31) (resp : HttpResponse)
    (env env' : SendEnv p w) :
    ((send pData nDataLen env).Inside p.mMaxPacketSize ↔
        p.mMaxPacketSize < nDataLen ∨ env.Refuses ∨ 0 ≤ nDataLen) ∧
      ((sendHttpResponseCall resp env').Inside p.mMaxPacketSize ↔
        env'.Refuses ∨ (responseText resp).length < responseRoom p) :=
  ⟨send_inside_iff hw pData hlen env, sendHttpResponse_inside_iff hw resp env'⟩

theorem sends_inside_iff_example :
    (send (fun _ => 97) 5 sendAccepted).Inside 256 ∧
      (sendHttpResponseCall (textResponse 5) sendAccepted).Inside 256 := by
  have hlen : -2 ^ 31 ≤ (5 : Int) ∧ (5 : Int) < 2 ^ 31 := by decide
  obtain ⟨hsend, hresponse⟩ :=
    sends_inside_iff (Or.inr rfl) (fun _ => 97) hlen (textResponse 5) sendAccepted sendAccepted
  exact ⟨hsend.mpr (Or.inr (Or.inr (by decide))), hresponse.mpr (Or.inr (by decide +kernel))⟩

/-- A length of -1 is copied as if it were a size; a body of 128 bytes is sent with length -1. -/
theorem sends_outside :
    send (fun _ => 97) (-1) sendAccepted = .overrun ∧
      ¬ (send (fun _ => 97) (-1) sendAccepted).Inside 256 ∧
      ¬ (sendHttpResponseCall (textResponse 128) sendAccepted).Inside 256 := by
  have hlen : -2 ^ 31 ≤ (-1 : Int) ∧ (-1 : Int) < 2 ^ 31 := by decide
  have hsend := send_inside_iff (Or.inr rfl) (fun _ => 97) hlen sendAccepted
  have hresponse := sendHttpResponse_inside_iff (p := sendBuffer) (Or.inr rfl)
    (textResponse 128) sendAccepted
  refine ⟨by decide +kernel, ?_, ?_⟩
  · exact fun h => absurd (hsend.mp h) (by decide)
  · exact fun h => absurd (hresponse.mp h) (by decide +kernel)

end Bounds

end Http
end IocpNetlib
