import IocpNetlib.Http.Dispatch
import IocpNetlib.Lib.CFormat
import IocpNetlib.Net.Config

/-!
# Sending a response

`SendResponse` and `SendNotFoundResponse` end in `TcpClient::PostSendHttp`,
which prints the response into a block of the send pool and hands the block to
`WSASend`.  The result `none` is a run that does not come back: the formatting
has no room at all, or writes behind the block.
-/

namespace IocpNetlib
namespace Http

open ByteBlock CFormat

/-- `HttpResponse`; the status is an `int`. -/
structure HttpResponse where
  socketId : UInt32
  status : Int
  body : List UInt8
  headers : List UInt8
deriving DecidableEq, Repr

/-- `HttpResponse::AddHeader`. -/
def HttpResponse.addHeader (resp : HttpResponse) (h : List UInt8) : HttpResponse :=
  { resp with headers := resp.headers ++ cStr h ++ crlf }

/-- `GetHttpStatusDescription`: `"OK"`, `"Not Found"` or `"Unknown Error"`. -/
def getHttpStatusDescription (status : Int) : List UInt8 :=
  if status = 200 then [79, 75]
  else if status = 404 then [78, 111, 116, 32, 70, 111, 117, 110, 100]
  else [85, 110, 107, 110, 111, 119, 110, 32, 69, 114, 114, 111, 114]

/-- `"HTTP/1.1 %d %s\r\nContent-Length: %u\r\n"`. -/
def statusLines (status : Int) (bodySize : Nat) : List UInt8 :=
  httpVersion ++ spaceByte :: (signedDecimal status ++ spaceByte ::
    (getHttpStatusDescription status ++ crlf ++
      contentLengthName ++ colonByte :: spaceByte :: (decimal bodySize ++ crlf)))

/-- What the format of `PostSendHttp` prints; `%u` is an `unsigned int`. -/
def responseText (resp : HttpResponse) : List UInt8 :=
  statusLines resp.status (resp.body.length % 2 ^ 32) ++
    (cStr resp.headers ++ crlf ++ cStr resp.body)

/-- The size of the blocks of a `DynamicMemoryPool`, with pointers of `w` bits. -/
def alignUp (w elemSize : Nat) : Nat :=
  (elemSize + w / 8 - 1) / (w / 8) * (w / 8)

/-- A `WSABUF`. -/
structure WSABuf where
  buf : List UInt8
  len : Nat
deriving DecidableEq, Repr

/--
What the rest of the service answers to one send: whether `FindClient` finds the
client, what the two pools give, and whether `WSASend` takes the buffer.
-/
structure SendEnv (p : FramingParam) (w : Nat) where
  findClient : Bool
  allocSendIOContext : Bool
  allocSendPacket : Option {block : List UInt8 // block.length = alignUp w p.mMaxPacketSize}
  wsaSend : Bool

variable {p : FramingParam} {w : Nat}

/-- `TcpClient::PostSendHttp`: what it returns, and what was sent. -/
def postSendHttp (resp : HttpResponse) (env : SendEnv p w) :
    Option (NetServiceErr × Option WSABuf) :=
  if env.allocSendIOContext = false then some (.sendQueueFull, none)
  else
    match env.allocSendPacket with
    | none => some (.sendQueueFull, none)
    | some sendPacket =>
        match
          snprintf_s sendPacket.1 (toSize w ((p.mMaxPacketSize : Int) - 128))
            (responseText resp) with
        | none => none
        | some (dataLen, buf) =>
            if env.wsaSend then some (.success, some ⟨buf, toSize 32 dataLen⟩)
            else some (.systemError, none)

/-- `TcpService::SendHttpResponse`. -/
def sendHttpResponse (resp : HttpResponse) (env : SendEnv p w) :
    Option (NetServiceErr × Option WSABuf) :=
  if env.findClient = false then some (.invalidSocket, none) else postSendHttp resp env

/-- `HttpServiceImplementer::SendResponse`. -/
def sendResponse (resp : HttpResponse) (env : SendEnv p w) :
    Option (NetServiceErr × Option WSABuf) :=
  if p.mMaxPacketSize < resp.body.length then some (.illegalSendPacket, none)
  else sendHttpResponse resp env

/-- `"Content-Type: text/html; charset=utf-8"`. -/
def htmlType : List UInt8 :=
  [67, 111, 110, 116, 101, 110, 116, 45, 84, 121, 112, 101, 58, 32, 116, 101, 120, 116, 47, 104,
    116, 109, 108, 59, 32, 99, 104, 97, 114, 115, 101, 116, 61, 117, 116, 102, 45, 56]

/--
`"<html><head><title>404 Not Found</title></head>"` and
`"<body><h1>404 Not Found</h1></body></html>"`.
-/
def notFoundBody : List UInt8 :=
  [60, 104, 116, 109, 108, 62, 60, 104, 101, 97, 100, 62, 60, 116, 105, 116, 108, 101, 62, 52,
    48, 52, 32, 78, 111, 116, 32, 70, 111, 117, 110, 100, 60, 47, 116, 105, 116, 108, 101, 62,
    60, 47, 104, 101, 97, 100, 62, 60, 98, 111, 100, 121, 62, 60, 104, 49, 62, 52, 48, 52, 32,
    78, 111, 116, 32, 70, 111, 117, 110, 100, 60, 47, 104, 49, 62, 60, 47, 98, 111, 100, 121, 62,
    60, 47, 104, 116, 109, 108, 62]

/-- The response of `SendNotFoundResponse`. -/
def notFoundResponse (nSocket : UInt32) : HttpResponse :=
  { HttpResponse.addHeader ⟨nSocket, 200, [], []⟩ htmlType with
    status := 404
    body := notFoundBody }

/-- `HttpServiceImplementer::SendNotFoundResponse`, with the result it does not look at. -/
def sendNotFoundResponse (nSocket : UInt32) (env : SendEnv p w) :
    Option (NetServiceErr × Option WSABuf) :=
  sendHttpResponse (notFoundResponse nSocket) env

section Whole

/-- The whole response: `n` is the number of bytes behind the blank line. -/
def HttpResponse.whole (resp : HttpResponse) : List UInt8 :=
  statusLines resp.status resp.body.length ++ (resp.headers ++ crlf ++ resp.body)

/-- A call sends the response whole, or refuses it and sends nothing. -/
inductive SentWhole (resp : HttpResponse) : Option (NetServiceErr × Option WSABuf) → Prop
  | sent {b : WSABuf} (len : b.len = resp.whole.length) (buf : b.buf.take b.len = resp.whole) :
      SentWhole resp (some (.success, some b))
  | refused {ret : NetServiceErr} (ret_ne : ret ≠ .success) : SentWhole resp (some (ret, none))

/-- The room that the formatting has. -/
def formatRoom (p : FramingParam) (w : Nat) : Nat :=
  if 128 < p.mMaxPacketSize then p.mMaxPacketSize - 128
  else if p.mMaxPacketSize = 128 then 0
  else alignUp w p.mMaxPacketSize

/-- The call returns before it formats anything. -/
def SendEnv.Refuses (env : SendEnv p w) : Prop :=
  env.findClient = false ∨ env.allocSendIOContext = false ∨ env.allocSendPacket = none

instance (env : SendEnv p w) : Decidable env.Refuses :=
  inferInstanceAs (Decidable (_ ∨ _ ∨ _))

/-- A send that is not refused comes to its formatting with a block. -/
theorem SendEnv.not_refuses
    {env : SendEnv p w} (h : ¬ env.Refuses) :
    ¬ env.findClient = false ∧ ¬ env.allocSendIOContext = false ∧
      ∃ block, env.allocSendPacket = some block := by
  rw [SendEnv.Refuses] at h
  refine ⟨fun hfind => h (Or.inl hfind), fun hcontext => h (Or.inr (Or.inl hcontext)), ?_⟩
  exact Option.ne_none_iff_exists'.mp fun hpacket => h (Or.inr (Or.inr hpacket))

/-- A send that is refused returns an error, whatever it would have sent. -/
theorem SendEnv.Refuses.returns
    {env : SendEnv p w} (h : env.Refuses) {β : Type} {Q : β → Prop} (ret : NetServiceErr → β)
    (hret : ∀ e, e ≠ .success → Q (ret e))
    (sent : {block : List UInt8 // block.length = alignUp w p.mMaxPacketSize} → β) :
    Q (if env.findClient = false then ret .invalidSocket
      else if env.allocSendIOContext = false then ret .sendQueueFull
      else
        match env.allocSendPacket with
        | none => ret .sendQueueFull
        | some sendPacket => sent sendPacket) := by
  rcases h with hfind | hcontext | hpacket
  · rw [if_pos hfind]
    exact hret _ (by decide)
  · rw [if_pos hcontext]
    split_ifs <;> exact hret _ (by decide)
  · rw [hpacket]
    split_ifs <;> exact hret _ (by decide)

/-- Formatting comes back: a limit that is cut at is not zero, or nothing is cut. -/
def HttpResponse.Formats (resp : HttpResponse) (p : FramingParam) (w : Nat) : Prop :=
  128 < p.mMaxPacketSize ∨ (responseText resp).length < formatRoom p w

/-- The response has no NUL and fits. -/
def HttpResponse.Fits (resp : HttpResponse) (p : FramingParam) (w : Nat) : Prop :=
  0 ∉ resp.headers ∧ 0 ∉ resp.body ∧ resp.whole.length < formatRoom p w

end Whole

section Lengths

/-- A block is at least as large as it was asked for, and not a word larger. -/
theorem alignUp_bounds (hw : w = 32 ∨ w = 64) (n : Nat) :
    n ≤ alignUp w n ∧ alignUp w n < n + 8 := by
  rw [alignUp]
  rcases hw with rfl | rfl
  · omega
  · omega

theorem HttpResponse.whole_eq
    {resp : HttpResponse} (hbody : resp.body.length < 2 ^ 32) :
    resp.whole =
      statusLines resp.status (resp.body.length % 2 ^ 32) ++
        (resp.headers ++ crlf ++ resp.body) := by
  rw [whole]
  rw [Nat.mod_eq_of_lt hbody]

/-- Without a NUL the whole response is printed. -/
theorem responseText_eq
    {resp : HttpResponse} (hbody : resp.body.length < 2 ^ 32)
    (hheaders : 0 ∉ resp.headers) (hzero : 0 ∉ resp.body) :
    responseText resp = resp.whole := by
  rw [responseText]
  rw [HttpResponse.whole_eq hbody, cStr_eq hheaders, cStr_eq hzero]

theorem HttpResponse.whole_length
    {resp : HttpResponse} (hbody : resp.body.length < 2 ^ 32) :
    resp.whole.length + (cStr resp.headers).length + (cStr resp.body).length =
      (responseText resp).length + resp.headers.length + resp.body.length := by
  rw [HttpResponse.whole_eq hbody]
  rw [responseText]
  simp only [List.length_append]
  omega

/-- A response that is printed in full length has no NUL. -/
theorem HttpResponse.zero_not_mem
    {resp : HttpResponse} (hbody : resp.body.length < 2 ^ 32)
    (hlen : (responseText resp).length = resp.whole.length) :
    0 ∉ resp.headers ∧ 0 ∉ resp.body := by
  have hwhole := HttpResponse.whole_length hbody
  have hheaders := cStr_length_le resp.headers
  have hzero := cStr_length_le resp.body
  constructor
  · intro hmem
    have := cStr_length_lt hmem
    omega
  · intro hmem
    have := cStr_length_lt hmem
    omega

end Lengths

section Format

variable {resp : HttpResponse} {block : List UInt8}

theorem toSize_room (hw : w = 32 ∨ w = 64) (hroom : 128 < p.mMaxPacketSize) :
    toSize w ((p.mMaxPacketSize : Int) - 128) = p.mMaxPacketSize - 128 := by
  have hmax := p.maxPacketSize_le
  rw [intMax] at hmax
  rw [toSize]
  rcases hw with rfl | rfl
  · omega
  · omega

/-- Below 128 the limit wraps around. -/
theorem toSize_wraps (hw : w = 32 ∨ w = 64) (hroom : p.mMaxPacketSize < 128) :
    2 ^ 31 ≤ toSize w ((p.mMaxPacketSize : Int) - 128) := by
  rw [toSize]
  rcases hw with rfl | rfl
  · omega
  · omega

theorem formatRoom_le (hw : w = 32 ∨ w = 64) (p : FramingParam) :
    formatRoom p w ≤ alignUp w p.mMaxPacketSize := by
  obtain ⟨hle, -⟩ := alignUp_bounds hw p.mMaxPacketSize
  rw [formatRoom]
  split_ifs <;> omega

/-- Text that fits the room is printed whole. -/
theorem snprintf_s_room
    (hw : w = 32 ∨ w = 64) (hblock : block.length = alignUp w p.mMaxPacketSize)
    {text : List UInt8} (htext : text.length < formatRoom p w) :
    snprintf_s block (toSize w ((p.mMaxPacketSize : Int) - 128)) text =
      some ((text.length : Int), memcpy block 0 (text ++ [0])) := by
  have hle := formatRoom_le hw p
  have hbounds := alignUp_bounds hw p.mMaxPacketSize
  refine snprintf_s_fits ?_ (by omega)
  rw [formatRoom] at htext
  split_ifs at htext with hroom hzero
  · rw [toSize_room hw hroom]
    exact htext
  · exact absurd htext (Nat.not_lt_zero _)
  · have hwraps := toSize_wraps hw (p := p) (by omega)
    omega

/-- Longer text is cut, and the result is -1. -/
theorem snprintf_s_cut
    (hw : w = 32 ∨ w = 64) (hblock : block.length = alignUp w p.mMaxPacketSize)
    {text : List UInt8} (htext : formatRoom p w ≤ text.length)
    (hroom : 128 < p.mMaxPacketSize) :
    ∃ buf, snprintf_s block (toSize w ((p.mMaxPacketSize : Int) - 128)) text =
      some (-1, buf) ∧ buf.length = block.length := by
  obtain ⟨hle, -⟩ := alignUp_bounds hw p.mMaxPacketSize
  rw [formatRoom] at htext
  rw [if_pos hroom] at htext
  rw [toSize_room hw hroom]
  refine ⟨memcpy block 0 (text.take (p.mMaxPacketSize - 128 - 1) ++ [0]), ?_, ?_⟩
  · rw [snprintf_s]
    rw [if_neg (by omega), if_neg (by omega), if_pos (by omega)]
  · apply length_memcpy
    simp only [List.length_append, List.length_take, List.length_singleton]
    omega

/-- Without a limit to cut at, formatting does not come back from text that is too long. -/
theorem snprintf_s_overrun
    (hw : w = 32 ∨ w = 64) (hblock : block.length = alignUp w p.mMaxPacketSize)
    {text : List UInt8} (htext : formatRoom p w ≤ text.length)
    (hroom : ¬ 128 < p.mMaxPacketSize) :
    snprintf_s block (toSize w ((p.mMaxPacketSize : Int) - 128)) text = none := by
  have hbounds := alignUp_bounds hw p.mMaxPacketSize
  rw [formatRoom] at htext
  rw [if_neg hroom] at htext
  rw [snprintf_s]
  by_cases hzero : p.mMaxPacketSize = 128
  · have hsize : toSize w ((p.mMaxPacketSize : Int) - 128) = 0 := by
      rw [hzero]
      rw [toSize]
      simp
    rw [if_pos hsize]
  · rw [if_neg hzero] at htext
    have hwraps := toSize_wraps hw (p := p) (by omega)
    rw [if_neg (by omega)]
    by_cases hlimit : text.length < toSize w ((p.mMaxPacketSize : Int) - 128)
    · rw [if_pos hlimit, if_neg (by omega)]
    · rw [if_neg hlimit, if_neg (by omega)]

theorem sentWhole_success (b : WSABuf) :
    SentWhole resp (some (.success, some b)) ↔
      b.len = resp.whole.length ∧ b.buf.take b.len = resp.whole := by
  constructor
  · rintro ⟨hlen, hbuf⟩
    exact ⟨hlen, hbuf⟩
  · rintro ⟨hlen, hbuf⟩
    exact .sent hlen hbuf

theorem sentWhole_systemError : SentWhole resp (some (.systemError, none)) :=
  .refused (by decide)

theorem not_sentWhole_none : ¬ SentWhole resp none :=
  nofun

/-- The buffer of a response that fits its room. -/
theorem sentWhole_printed
    (block : List UInt8) (hw : w = 32 ∨ w = 64) (hbody : resp.body.length < 2 ^ 32)
    (htext : (responseText resp).length < formatRoom p w) :
    SentWhole resp
        (some (.success, some
          ⟨memcpy block 0 (responseText resp ++ [0]), toSize 32 (responseText resp).length⟩)) ↔
      resp.Fits p w := by
  have hle := formatRoom_le hw p
  have hbounds := alignUp_bounds hw p.mMaxPacketSize
  have hmax := p.maxPacketSize_le
  rw [intMax] at hmax
  have hlen : toSize 32 (responseText resp).length = (responseText resp).length := by
    rw [toSize]
    omega
  rw [sentWhole_success, hlen]
  simp only [take_printed]
  constructor
  · rintro ⟨hsame, -⟩
    obtain ⟨hheaders, hzero⟩ := HttpResponse.zero_not_mem hbody hsame
    exact ⟨hheaders, hzero, hsame ▸ htext⟩
  · rintro ⟨hheaders, hzero, -⟩
    have hwhole := responseText_eq hbody hheaders hzero
    exact ⟨congrArg List.length hwhole, hwhole⟩

/-- A response that was cut is not sent whole. -/
theorem not_sentWhole_cut
    (resp : HttpResponse) (hw : w = 32 ∨ w = 64) {buf : List UInt8}
    (hbuf : buf.length = alignUp w p.mMaxPacketSize) :
    ¬ SentWhole resp (some (.success, some ⟨buf, toSize 32 (-1)⟩)) := by
  have hbounds := alignUp_bounds hw p.mMaxPacketSize
  have hmax := p.maxPacketSize_le
  rw [intMax] at hmax
  have hlen : toSize 32 (-1) = 4294967295 := by decide
  rw [sentWhole_success, hlen]
  rintro ⟨hsame, htake⟩
  have htook := congrArg List.length htake
  rw [List.length_take, ← hsame] at htook
  simp only at htook
  omega

/-- **When `SendHttpResponse` sends whole or refuses.** -/
theorem sendHttpResponse_whole_iff
    (hw : w = 32 ∨ w = 64) (hbody : resp.body.length < 2 ^ 32) (env : SendEnv p w) :
    SentWhole resp (sendHttpResponse resp env) ↔
      env.Refuses ∨ (env.wsaSend = false ∧ resp.Formats p w) ∨ resp.Fits p w := by
  by_cases hrefuses : env.Refuses
  · have hsent : SentWhole resp (sendHttpResponse resp env) := by
      rw [sendHttpResponse, postSendHttp]
      exact hrefuses.returns (fun e => some (e, none)) (fun _ he => .refused he) _
    exact ⟨fun _ => Or.inl hrefuses, fun _ => hsent⟩
  · obtain ⟨hfind, hcontext, ⟨block, hblock⟩, hsome⟩ := SendEnv.not_refuses hrefuses
    rw [sendHttpResponse, postSendHttp]
    rw [if_neg hfind, if_neg hcontext, hsome]
    simp only [hrefuses, false_or]
    by_cases htext : (responseText resp).length < formatRoom p w
    · rw [snprintf_s_room hw hblock htext]
      cases hsend : env.wsaSend with
      | true =>
          have hprinted := sentWhole_printed block hw hbody htext
          simpa using hprinted
      | false =>
          have hformats : resp.Formats p w := Or.inr htext
          simp [sentWhole_systemError, hformats]
    · have hfits : ¬ resp.Fits p w := by
        rintro ⟨hheaders, hzero, hroom⟩
        rw [responseText_eq hbody hheaders hzero] at htext
        exact htext hroom
      by_cases hroom : 128 < p.mMaxPacketSize
      · obtain ⟨buf, hcut, hbuf⟩ := snprintf_s_cut hw hblock (Nat.le_of_not_lt htext) hroom
        rw [hcut]
        cases hsend : env.wsaSend with
        | true =>
            have hnot := not_sentWhole_cut resp hw (hbuf.trans hblock)
            simpa [hfits] using hnot
        | false =>
            have hformats : resp.Formats p w := Or.inl hroom
            simp [sentWhole_systemError, hformats]
      · rw [snprintf_s_overrun hw hblock (Nat.le_of_not_lt htext) hroom]
        have hformats : ¬ resp.Formats p w := by
          rintro (h | h)
          · exact hroom h
          · exact htext h
        simp [not_sentWhole_none, hformats, hfits]

/--
**When a response is sent whole or refused.**  `SendResponse` also refuses a body
larger than a packet; the `404` path sends its own response.
-/
theorem sendResponse_whole_iff
    (hw : w = 32 ∨ w = 64) (resp : HttpResponse) (nSocket : UInt32) (env : SendEnv p w) :
    (SentWhole resp (sendResponse resp env) ↔
      p.mMaxPacketSize < resp.body.length ∨ env.Refuses ∨
        (env.wsaSend = false ∧ resp.Formats p w) ∨ resp.Fits p w) ∧
    (SentWhole (notFoundResponse nSocket) (sendNotFoundResponse nSocket env) ↔
      env.Refuses ∨ (env.wsaSend = false ∧ (notFoundResponse nSocket).Formats p w) ∨
        (notFoundResponse nSocket).Fits p w) := by
  constructor
  · rw [sendResponse]
    by_cases hlarge : p.mMaxPacketSize < resp.body.length
    · rw [if_pos hlarge]
      exact ⟨fun _ => Or.inl hlarge, fun _ => .refused (by decide)⟩
    · have hmax := p.maxPacketSize_le
      rw [intMax] at hmax
      rw [if_neg hlarge, sendHttpResponse_whole_iff hw (by omega) env]
      simp only [hlarge, false_or]
  · have hsize : (notFoundResponse nSocket).body.length < 2 ^ 32 := by
      show notFoundBody.length < 2 ^ 32
      decide
    exact sendHttpResponse_whole_iff hw hsize env

end Format

section Examples

/-- Packets of 256 bytes. -/
def sendBuffer : FramingParam where
  mMaxPacketSize := 256
  mPacketSizeOffset := 0
  maxPacketSize_pos := by decide
  maxPacketSize_le := by decide
  packetSizeOffset_le := firstField_le

/-- Nothing refuses the send. -/
def sendAccepted : SendEnv sendBuffer 64 where
  findClient := true
  allocSendIOContext := true
  allocSendPacket := some ⟨List.replicate 256 0, List.length_replicate⟩
  wsaSend := true

/-- A body of `n` letters. -/
def textResponse (n : Nat) : HttpResponse :=
  ⟨1, 200, List.replicate n 97, []⟩

theorem sendResponse_whole_iff_example :
    SentWhole (textResponse 5) (sendResponse (textResponse 5) sendAccepted) :=
  ((sendResponse_whole_iff (Or.inr rfl) (textResponse 5) 1 sendAccepted).1).mpr
    (Or.inr (Or.inr (Or.inr
      ⟨by simp [textResponse], by simp [textResponse], by decide +kernel⟩)))

/-- A body that is not too large for a packet, but too large for the room in front of it. -/
theorem sendResponse_cut :
    ¬ ∀ (p : FramingParam) (resp : HttpResponse) (env : SendEnv p 64),
      SentWhole resp (sendResponse resp env) := by
  intro hclaim
  have hwhole := hclaim sendBuffer (textResponse 128) sendAccepted
  have hsent :
      (sendResponse (textResponse 128) sendAccepted).any
        (fun x => decide (x.1 = .success) &&
          x.2.any fun b => decide (b.len = 4294967295)) = true := by
    decide +kernel
  obtain ⟨⟨ret, sent⟩, hresult, hany⟩ := (Option.any_eq_true _ _).mp hsent
  rw [Bool.and_eq_true, decide_eq_true_eq] at hany
  obtain ⟨rfl, hlen⟩ := hany
  obtain ⟨b, rfl, hb⟩ := (Option.any_eq_true _ _).mp hlen
  rw [hresult] at hwhole
  obtain ⟨hsame, -⟩ := (sentWhole_success _).mp hwhole
  rw [of_decide_eq_true hb] at hsame
  exact absurd hsame (by decide +kernel)

end Examples

end Http
end IocpNetlib
