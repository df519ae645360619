import IocpNetlib.Http.ResponseWire

/-!
# A request and its response

The way of a request through the service, from the bytes a client sends to the
bytes it receives: the splitter of the service, a `ProcessMsg` thread with the
routes, the send, and a splitter on the other side.  The streams are cut
anyhow on both ways.
-/

namespace IocpNetlib
namespace Http

open ByteBlock CString Framing

/-- A handler, by what it answers to the method, the path and the body it is given. -/
abbrev RouteHandler := List UInt8 → List UInt8 → List UInt8 → ResponsePacket

/-- What a handler answers to the slices of its `HttpRequest`. -/
def HttpRequest.handledBy (req : HttpRequest) (mem : List UInt8) (handler : RouteHandler) :
    ResponsePacket :=
  handler ((mem.drop req.method).take req.methodLen) ((mem.drop req.path).take req.pathLen)
    ((mem.drop req.body).take req.bodyLen)

/--
`OnHttpPacket` with the sends at its end: the response of the handler, or that
of `SendNotFoundResponse`.  A packet that is dropped sends nothing.
-/
def servePacket {p : FramingParam} (w : Nat) (mRoutes : List (List UInt8 × RouteHandler))
    (protocolHeader : HttpProtocolHeader) (mem : List UInt8) (len : Nat) (env : SendEnv p w) :
    Option (NetServiceErr × Option WSABuf) :=
  match onHttpPacket w mRoutes protocolHeader mem len with
  | .outside => none
  | .dropped => some (.success, none)
  | .notFound socketID => sendNotFoundResponse socketID env
  | .handled handler req => sendResponse (req.handledBy mem handler).response env

/-- The `404` as a handler would have meant it. -/
def notFoundPacket (nSocket : UInt32) : ResponsePacket where
  socketId := nSocket
  status := 404
  headers := [⟨htmlType.take 12, htmlType.drop 13⟩]
  body := notFoundBody

/-- What a client is to receive. -/
def RequestPacket.answer (r : RequestPacket) (mRoutes : List (List UInt8 × RouteHandler))
    (protocolHeader : HttpProtocolHeader) : ResponsePacket :=
  match mRoutes.lookup r.route with
  | some handler => handler r.method r.path r.body
  | none => notFoundPacket protocolHeader.socketID

/--
A request that the splitter and the dispatcher read alike: it has a body, the
one field with its length carries nothing else, and no other key can be taken
for that field.
-/
structure RequestPacket.Sendable (r : RequestPacket) (p : FramingParam) : Prop where
  packet : r.WellFormed
  message : r.message.WellFormed
  fronts : ∀ h ∈ r.headers, FrontKey h.key contentLengthName →
    h.key.length = contentLengthName.length
  body : r.body ≠ []
  size : r.bytes.length ≤ p.mMaxPacketSize

section Exchange

variable {p q : FramingParam} {w : Nat} {r : RequestPacket}

/-- A value of digits behind spaces carries its number. -/
theorem carriesLength_digits
    {value : List UInt8} {n : Nat} (hne : value.dropWhile (· = spaceByte) ≠ [])
    (hdigits : ∀ d ∈ value.dropWhile (· = spaceByte), isdigit d = true)
    (hn : decimalFrom 0 (value.dropWhile (· = spaceByte)) = n) : CarriesLength value n := by
  refine ⟨value.takeWhile (· = spaceByte), _, [], ?_, ?_, fun c hc => absurd hc List.not_mem_nil,
    hne, hdigits, hn⟩
  · rw [List.append_nil, List.takeWhile_append_dropWhile]
  · intro c hc
    have hspace := List.mem_takeWhile_imp hc
    exact Or.inl (of_decide_eq_true hspace)

/-- The dispatcher reads the length of the body, whatever is behind the packet. -/
theorem RequestPacket.Sendable.dispatchLength
    (h : r.Sendable p) (rest : List UInt8) : DispatchLength r.bytes rest r.body.length := by
  refine h.packet.dispatchLength rest h.body ?_
  intro f hf hfront
  have hlen := h.fronts f hf hfront
  have hkey : f.field.IsContentLength := by
    have hsame := hfront.2
    rw [hlen, List.take_length] at hsame
    exact hsame
  obtain ⟨hne, hdigits, hn⟩ := h.message.value f.field (List.mem_map_of_mem hf) hkey
  exact carriesLength_digits hne hdigits hn

theorem RequestPacket.Sendable.bodyLen
    (h : r.Sendable p) (hw : 32 ≤ w) (rest : List UInt8) :
    bodyLenOf w (r.bytes ++ rest) r.message.headers.headers = some r.body.length := by
  obtain ⟨x, hx, hatoi⟩ := h.dispatchLength rest
  have hsize := h.packet.size
  have hlen : r.bytes.length = r.head.length + r.body.length := List.length_append
  have hsame : (toSize w r.body.length : Int) = r.body.length :=
    (toSize_eq_iff hw (by omega) (by omega)).mpr rfl
  rw [h.packet.bodyLen, hx]
  simp only [hatoi, Option.map_some, Option.some.injEq]
  exact_mod_cast hsame

/-- `SendNotFoundResponse` builds the response of that packet. -/
theorem notFoundPacket_response (nSocket : UInt32) :
    (notFoundPacket nSocket).response = notFoundResponse nSocket := by
  have hline : htmlType.take 12 ++ colonByte :: htmlType.drop 13 = htmlType := by decide
  simp [ResponsePacket.response, HttpResponse.addHeaders, notFoundPacket, notFoundResponse,
    WrittenHeader.line, hline, HttpResponse.addHeader]

/-- What is sent for a packet is the answer to its request. -/
theorem RequestPacket.Sendable.serve
    (h : r.Sendable p) (hw : w = 32 ∨ w = 64) (mRoutes : List (List UInt8 × RouteHandler))
    (protocolHeader : HttpProtocolHeader) (rest : List UInt8) {env : SendEnv q w} {b : WSABuf}
    (hanswer : (r.answer mRoutes protocolHeader).WellFormed)
    (hroom : (r.answer mRoutes protocolHeader).message.bytes.length < formatRoom q w)
    (hserve : servePacket w mRoutes protocolHeader (r.bytes ++ rest) r.bytes.length env =
      some (.success, some b)) :
    b.buf.take b.len = (r.answer mRoutes protocolHeader).message.bytes := by
  obtain ⟨keepAlive, hdispatch⟩ := h.packet.dispatch w protocolHeader rest
  have hlen : r.bytes.length = r.head.length + r.body.length := List.length_append
  have hmod : (r.head.length + r.body.length) % 2 ^ w ≤ r.bytes.length := by
    rw [hlen]
    exact Nat.mod_le _ _
  obtain ⟨hmethod, hpath, hslice⟩ := r.slices rest
  rw [servePacket, hdispatch, if_neg h.body, h.bodyLen (by omega)] at hserve
  simp only at hserve
  rw [if_neg (by omega)] at hserve
  cases hroute : mRoutes.lookup r.route with
  | none =>
      have hnone : r.answer mRoutes protocolHeader = notFoundPacket protocolHeader.socketID := by
        rw [RequestPacket.answer, hroute]
      rw [hnone] at hanswer hroom ⊢
      rw [hroute] at hserve
      simp only [sendNotFoundResponse, ← notFoundPacket_response] at hserve
      exact hanswer.sent hw hroom hserve
  | some handler =>
      have hsome : r.answer mRoutes protocolHeader = handler r.method r.path r.body := by
        rw [RequestPacket.answer, hroute]
      rw [hsome] at hanswer hroom ⊢
      rw [hroute] at hserve
      simp only [HttpRequest.handledBy, List.drop_zero, hmethod, hpath, hslice] at hserve
      rw [sendResponse] at hserve
      split_ifs at hserve with hlarge
      · exact absurd hserve (by simp)
      · exact hanswer.sent hw hroom hserve

end Exchange

section Examples

end Examples

end Http
end IocpNetlib
