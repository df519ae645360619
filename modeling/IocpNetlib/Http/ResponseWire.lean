import IocpNetlib.Http.Answers
import IocpNetlib.Http.FramedCalls
import IocpNetlib.Http.SendResponse
import IocpNetlib.Http.SplitHttpDelivery

/-!
# A response on the wire

What `PostSendHttp` prints of a response is a message in the sense of the
splitter: a status line, a `Content-Length` field that carries the length of the
body, the headers of the application, the body.  A peer whose receive buffer is
fresh takes it off the stream whole, whatever way it is cut, since behind the
received bytes there is nothing but zeros for a scan to run into.
-/

namespace IocpNetlib
namespace Http

open ByteBlock CFormat CString Framing

section FreshBuffer

variable {p : FramingParam} {q : HttpMessage}

/-- A buffer of zeros after the first `n` bytes of a message have been copied into it. -/
def frontBuffer (p : FramingParam) (q : HttpMessage) (n : Nat) : List UInt8 :=
  q.bytes.take n ++ List.replicate (p.mMaxPacketSize - n) 0

/-- The first message of a connection is still on its way, or has been delivered. -/
structure Arrival.Fresh (p : FramingParam) (q : HttpMessage) (a : Arrival) : Prop where
  recvBytes : a.pending = [q] → a.mRecvPacketBuffer = frontBuffer p q a.mRecvBytes
  pending : a.pending = [q] ∨ a.pending = []

end FreshBuffer

section Response

/-- A response as a handler means it. -/
structure ResponsePacket where
  socketId : UInt32
  status : Int
  headers : List WrittenHeader
  body : List UInt8
deriving DecidableEq, Repr

/-- A header as it is given to `AddHeader`. -/
def WrittenHeader.line (h : WrittenHeader) : List UInt8 :=
  h.key ++ colonByte :: h.value

/-- A call of `AddHeader` for each header. -/
def HttpResponse.addHeaders (resp : HttpResponse) (hs : List WrittenHeader) : HttpResponse :=
  hs.foldl (fun x h => HttpResponse.addHeader x h.line) resp

/-- The calls of a handler: the constructor, `SetStatus`, `AddHeader` and `SetBody`. -/
def ResponsePacket.response (r : ResponsePacket) : HttpResponse :=
  { HttpResponse.addHeaders ⟨r.socketId, 200, [], []⟩ r.headers with
    status := r.status
    body := r.body }

/-- The message that the peer is to read. -/
def ResponsePacket.message (r : ResponsePacket) : HttpMessage :=
  { requestLine :=
      httpVersion ++ spaceByte :: (signedDecimal r.status ++
        spaceByte :: getHttpStatusDescription r.status)
    fields := ⟨contentLengthName, 1, decimal r.body.length⟩ :: r.headers.map WrittenHeader.field
    body := r.body }

/-- The headers are lines of their own, and leave the length of the body to the service. -/
structure ResponsePacket.WellFormed (r : ResponsePacket) : Prop where
  key : ∀ h ∈ r.headers, Clean h.key ∧ colonByte ∉ h.key
  value : ∀ h ∈ r.headers, Clean h.value
  length : ∀ h ∈ r.headers, ¬ eqIgnoreCase h.key contentLengthName
  body : 0 ∉ r.body

variable {r : ResponsePacket}

theorem clean_signedDecimal (n : Int) : Clean (signedDecimal n) := by
  have hdigits : ∀ n : Nat, Clean (decimal n) := by
    intro n c hc
    have hdigit := isdigit_of_mem_decimal hc
    refine ⟨?_, ?_, ?_⟩ <;>
    · rintro rfl
      exact absurd hdigit (by decide)
  cases n with
  | ofNat n => exact hdigits n
  | negSucc n =>
      have hsign : Clean [45] := by simp [Clean]
      exact hsign.append (hdigits (n + 1))

theorem clean_statusDescription (status : Int) : Clean (getHttpStatusDescription status) := by
  rw [getHttpStatusDescription]
  split_ifs <;> simp [Clean]

/-- `AddHeader` puts the line of a header behind the others. -/
theorem addHeaders_eq
    (hs : List WrittenHeader) (hclean : ∀ h ∈ hs, 0 ∉ h.line) (resp : HttpResponse) :
    resp.addHeaders hs =
      { resp with headers := resp.headers ++ hs.flatMap WrittenHeader.text } := by
  induction hs generalizing resp with
  | nil => simp [HttpResponse.addHeaders]
  | cons h hs ih =>
      have htext : h.text = h.line ++ crlf := by
        simp [WrittenHeader.text, WrittenHeader.line]
      have hstep : resp.addHeaders (h :: hs) = (resp.addHeader h.line).addHeaders hs := rfl
      rw [hstep, ih fun g hg => hclean g (List.mem_cons_of_mem _ hg), HttpResponse.addHeader,
        cStr_eq (hclean h List.mem_cons_self), List.flatMap_cons, htext]
      simp

theorem ResponsePacket.WellFormed.line
    (hr : r.WellFormed) : ∀ h ∈ r.headers, 0 ∉ h.line := by
  intro h hh hzero
  rcases List.mem_append.mp hzero with hkey | hrest
  · exact ((hr.key h hh).1 0 hkey).1 rfl
  · rcases List.mem_cons.mp hrest with hcolon | hvalue
    · exact absurd hcolon (by decide)
    · exact (hr.value h hh 0 hvalue).1 rfl

/-- The response object of a handler. -/
theorem ResponsePacket.WellFormed.response_eq
    (hr : r.WellFormed) :
    r.response = ⟨r.socketId, r.status, r.body, r.headers.flatMap WrittenHeader.text⟩ := by
  rw [ResponsePacket.response]
  rw [addHeaders_eq r.headers hr.line, List.nil_append]

/-- What `PostSendHttp` is to send is the message. -/
theorem ResponsePacket.WellFormed.whole
    (hr : r.WellFormed) : r.response.whole = r.message.bytes := by
  rw [hr.response_eq, HttpResponse.whole, HttpMessage.bytes, HttpMessage.head, renderHead,
    ResponsePacket.message]
  simp only [List.map_cons, renderLines]
  rw [renderLines_headers]
  simp [statusLines, HttpField.line, HeaderLine.text]

/-- The field that a header is scanned as. -/
theorem WrittenHeader.field_wellFormed
    (h : WrittenHeader) (hkey : Clean h.key) (hcolon : colonByte ∉ h.key)
    (hvalue : Clean h.value) : h.field.line.WellFormed := by
  refine ⟨hkey, hcolon, fun c hc => hvalue c ((List.dropWhile_sublist _).mem hc), ?_⟩
  intro hspace
  have hnot := List.head?_dropWhile_not (fun c => decide (c = spaceByte)) h.value
  have hhead : (h.value.dropWhile fun c => decide (c = spaceByte)).head? = some spaceByte :=
    hspace
  rw [hhead] at hnot
  exact absurd hnot (by decide)

theorem ResponsePacket.WellFormed.not_contentLength
    (hr : r.WellFormed) : ∀ f ∈ r.headers.map WrittenHeader.field, ¬ f.IsContentLength := by
  intro f hf
  obtain ⟨h, hh, rfl⟩ := List.mem_map.mp hf
  exact hr.length h hh

/-- The message of a response is one a splitter can take off a stream. -/
theorem ResponsePacket.WellFormed.message
    (hr : r.WellFormed) : r.message.WellFormed where
  requestLine := by
    have hspace : Clean [spaceByte] := by simp [Clean, spaceByte]
    have hversion : Clean httpVersion := by simp [Clean, httpVersion]
    exact hversion.append (hspace.append ((clean_signedDecimal r.status).append
      (hspace.append (clean_statusDescription r.status))))
  fields := by
    intro f hf
    rcases List.mem_cons.mp hf with rfl | hf
    · refine ⟨by simp [Clean, contentLengthName], by simp [contentLengthName, colonByte],
        clean_signedDecimal (r.body.length : Nat), ?_⟩
      intro hspace
      have hdigit := isdigit_of_mem_decimal (List.mem_of_mem_head? hspace)
      exact absurd hdigit (by decide)
    · obtain ⟨h, hh, rfl⟩ := List.mem_map.mp hf
      exact h.field_wellFormed (hr.key h hh).1 (hr.key h hh).2 (hr.value h hh)
  unique := by
    have hnone :
        (r.headers.map WrittenHeader.field).filter (fun f => decide f.IsContentLength) = [] := by
      rw [List.filter_eq_nil_iff]
      intro f hf
      rw [decide_eq_true_eq]
      exact hr.not_contentLength f hf
    rw [ResponsePacket.message, List.filter_cons]
    rw [hnone]
    split_ifs <;> simp
  value := by
    intro f hf hlength
    rcases List.mem_cons.mp hf with rfl | hf
    · exact ⟨decimal_ne_nil _, fun d hd => isdigit_of_mem_decimal hd, decimalFrom_decimal _⟩
    · exact absurd hlength (hr.not_contentLength f hf)
  absent := by
    intro hnone
    exact absurd rfl (hnone _ List.mem_cons_self)

end Response

section Wire

/-- The key and the value of a header. -/
def HttpHeader.read (data : List UInt8) (h : HttpHeader) : List UInt8 × List UInt8 :=
  ((data.drop h.key).take h.keyLen, (data.drop h.value).take h.valueLen)

/-- The fields of a head are read as they were written. -/
theorem FieldsAt.read
    {data tail : List UInt8} {p : Nat} (fs : List HttpField) (h : FieldsAt data p fs tail) :
    (headersAt p (fs.map HttpField.line)).map (HttpHeader.read data) =
      fs.map fun f => (f.key, f.value) := by
  induction fs generalizing p with
  | nil => rfl
  | cons f fs ih =>
      obtain ⟨hf, hfs⟩ := h.cons
      have hkey : (data.drop p).take f.key.length = f.key := by
        rw [hf.key, List.take_left]
      have hvalue : (data.drop (p + f.key.length + 1 + f.pad)).take f.value.length = f.value := by
        rw [hf.value, List.take_left]
      rw [headersAt_cons, List.map_cons, List.map_cons, ih hfs, HttpHeader.read]
      simp only [HttpField.headerAt, hkey, hvalue]

variable {p q : FramingParam} {w : Nat} {r : ResponsePacket}

/-- A response that fits is sent as its message. -/
theorem ResponsePacket.WellFormed.sent
    (hr : r.WellFormed) (hw : w = 32 ∨ w = 64)
    (hroom : r.message.bytes.length < formatRoom p w) {env : SendEnv p w} {b : WSABuf}
    (hsend : sendHttpResponse r.response env = some (.success, some b)) :
    b.buf.take b.len = r.message.bytes := by
  have hbounds := alignUp_bounds hw p.mMaxPacketSize
  have hle := formatRoom_le hw p
  have hmax := p.maxPacketSize_le
  rw [intMax] at hmax
  have hlen : r.message.bytes.length = r.message.head.length + r.body.length := List.length_append
  have hbody : r.response.body.length < 2 ^ 32 := by
    rw [hr.response_eq]
    show r.body.length < 2 ^ 32
    omega
  have hheaders : 0 ∉ r.response.headers := by
    rw [hr.response_eq]
    intro hzero
    obtain ⟨h, hh, hmem⟩ := List.mem_flatMap.mp hzero
    have htext : h.text = h.line ++ crlf := by
      simp [WrittenHeader.text, WrittenHeader.line]
    rw [htext, List.mem_append] at hmem
    rcases hmem with hmem | hmem
    · exact hr.line h hh hmem
    · exact absurd hmem (by decide)
  have hfits : r.response.Fits p w := by
    refine ⟨hheaders, ?_, ?_⟩
    · rw [hr.response_eq]
      exact hr.body
    · rw [hr.whole]
      exact hroom
  have hwhole := (sendHttpResponse_whole_iff hw hbody env).mpr (Or.inr (Or.inr hfits))
  rw [hsend] at hwhole
  rw [((sentWhole_success b).mp hwhole).2, hr.whole]

section Examples

end Examples

end Wire

end Http
end IocpNetlib
