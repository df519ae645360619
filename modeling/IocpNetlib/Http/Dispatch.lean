import IocpNetlib.Http.FramedCalls

/-!
# `HttpServiceImplementer::OnHttpPacket`

A packet the splitter has framed is queued and later dispatched to a route
handler.  The dispatcher scans the head again, and looks headers up with
`HttpHeaders::Find`, which compares only as many bytes as the header's own key
has.

`mem` is the packet followed by the bytes behind it in the queue's block, and
pointers are offsets into it.
-/

namespace IocpNetlib
namespace Http

open ByteBlock CString

universe u

/-- The part of a queued packet in front of its bytes. -/
structure HttpProtocolHeader where
  socketID : UInt32
  remotePort : UInt16
  remoteIP : UInt32
deriving DecidableEq, Repr

/-- What a route handler is given. -/
structure HttpRequest where
  socketId : UInt32
  remoteIP : UInt32
  remotePort : UInt16
  method : Nat
  methodLen : Nat
  path : Nat
  pathLen : Nat
  headers : HttpHeaders
  body : Nat
  bodyLen : Nat
  keepAlive : Bool
deriving DecidableEq, Repr

/-- How the dispatch of a packet ends; `outside` is a read behind the block. -/
inductive Dispatch (H : Type u)
  | outside
  | dropped
  | notFound (socketID : UInt32)
  | handled (handler : H) (req : HttpRequest)
deriving DecidableEq, Repr

/-- `"keep-alive"`. -/
def keepAliveValue : List UInt8 := [107, 101, 101, 112, 45, 97, 108, 105, 118, 101]

/-- `"HTTP/1.1"`. -/
def httpVersion : List UInt8 := [72, 84, 84, 80, 47, 49, 46, 49]

/-- `HttpHeaders::Find`. -/
def find (data name : List UInt8) : List HttpHeader → Option (Option HttpHeader)
  | [] => some none
  | h :: hs =>
      match strnicmpEq (data.drop h.key) (name ++ [0]) h.keyLen with
      | none => none
      | some true => some (some h)
      | some false => find data name hs

/-- The conversion of an `int` to a `size_t` of `w` bits. -/
def toSize (w : Nat) (n : Int) : Nat :=
  (n % 2 ^ w).toNat

/-- The offsets of the two blanks of the request line. -/
def requestLineBlanks (mem : List UInt8) (len : Nat) : Option (Option (Nat × Nat)) :=
  match memchr spaceByte mem len with
  | none => none
  | some none => some none
  | some (some sp1) =>
      if sp1 = 0 then some none
      else
        match memchr spaceByte (mem.drop (sp1 + 1)) (len - (sp1 + 1)) with
        | none => none
        | some none => some none
        | some (some i) => if i = 0 then some none else some (some (sp1, sp1 + 1 + i))

/-- The `bodyLen` of the dispatcher. -/
def bodyLenOf (w : Nat) (mem : List UInt8) (hs : List HttpHeader) : Option Nat :=
  match find mem contentLengthName hs with
  | none => none
  | some none => some 0
  | some (some cl) => (atoi (mem.drop cl.value)).map (toSize w)

/-- The `keepAlive` of the dispatcher. -/
def keepAliveOf (mem : List UInt8) (hs : List HttpHeader) (sp2 : Nat) : Option Bool :=
  match find mem connectionName hs with
  | none => none
  | some (some conn) => strnicmpEq (mem.drop conn.value) (keepAliveValue ++ [0]) 10
  | some none => startsWith httpVersion (mem.drop (sp2 + 1))

/-- `method + "_" + path`. -/
def routeKey (mem : List UInt8) (sp1 purePathLen : Nat) : List UInt8 :=
  mem.take sp1 ++ 95 :: (mem.drop (sp1 + 1)).take purePathLen

/-- The member `HttpServiceImplementer::ParseHttpHeaders` repeats the splitter's scan. -/
def HttpServiceImplementer.parseHttpHeaders (data : List UInt8) (len : Nat) :
    Option (Option (HttpHeaders × Nat)) :=
  Http.parseHttpHeaders data len

/-- `HttpServiceImplementer::OnHttpPacket`. -/
def onHttpPacket {H : Type u} (w : Nat) (mRoutes : List (List UInt8 × H))
    (protocolHeader : HttpProtocolHeader) (mem : List UInt8) (len : Nat) : Dispatch H :=
  if len < 14 then .dropped
  else
    match requestLineBlanks mem len with
    | none => .outside
    | some none => .dropped
    | some (some (sp1, sp2)) =>
        if 16 < sp1 ∨ 256 < sp2 - (sp1 + 1) then .dropped
        else
          match HttpServiceImplementer.parseHttpHeaders mem len with
          | none => .outside
          | some none => .dropped
          | some (some (hs, headerSize)) =>
              if headerSize = 0 ∨ len ≤ headerSize then .dropped
              else
                match bodyLenOf w mem hs.headers with
                | none => .outside
                | some bodyLen =>
                    if len < (headerSize + bodyLen) % 2 ^ w then .dropped
                    else
                      match keepAliveOf mem hs.headers sp2 with
                      | none => .outside
                      | some keepAlive =>
                          match memchr 63 (mem.drop (sp1 + 1)) (sp2 - (sp1 + 1)) with
                          | none => .outside
                          | some q =>
                              match mRoutes.lookup
                                (routeKey mem sp1 (q.getD (sp2 - (sp1 + 1)))) with
                              | none => .notFound protocolHeader.socketID
                              | some handler =>
                                  .handled handler
                                    { socketId := protocolHeader.socketID
                                      remoteIP := protocolHeader.remoteIP
                                      remotePort := protocolHeader.remotePort
                                      method := 0
                                      methodLen := sp1
                                      path := sp1 + 1
                                      pathLen := sp2 - (sp1 + 1)
                                      headers := hs
                                      body := headerSize
                                      bodyLen := bodyLen
                                      keepAlive := keepAlive }

section Find

/-- The key of the header is a front of `name`, up to ASCII case. -/
def HttpHeader.FrontOf (data name : List UInt8) (h : HttpHeader) : Prop :=
  h.keyLen ≤ name.length ∧
    eqIgnoreCase ((data.drop h.key).take h.keyLen) (name.take h.keyLen)

instance (data name : List UInt8) (h : HttpHeader) : Decidable (h.FrontOf data name) :=
  inferInstanceAs (Decidable (_ ∧ _))

/-- `Find` returns the first header whose key is a front of the name. -/
theorem find_eq
    {data name : List UInt8} {e : Nat}
    (hlen : e ≤ data.length) (hzero : ∀ c ∈ data.take e, c ≠ 0) (hname : ∀ c ∈ name, c ≠ 0)
    (hs : List HttpHeader) (hkeys : ∀ x ∈ hs, x.key + x.keyLen ≤ e) :
    find data name hs = some (hs.find? fun h => decide (h.FrontOf data name)) := by
  induction hs with
  | nil => rfl
  | cons h hs ih =>
      have hh := hkeys h List.mem_cons_self
      have hkeyLen : ((data.drop h.key).take h.keyLen).length = h.keyLen :=
        length_slice (by omega)
      have hkey : ∀ c ∈ (data.drop h.key).take h.keyLen, c ≠ 0 := by
        intro c hc
        apply hzero
        have hslice :
            (data.drop h.key).take h.keyLen = ((data.take e).drop h.key).take h.keyLen := by
          rw [List.drop_take, List.take_take, Nat.min_eq_left (by omega)]
        rw [hslice] at hc
        exact List.mem_of_mem_drop (List.mem_of_mem_take hc)
      have hcmp := strnicmpEq_front ((data.drop h.key).drop h.keyLen) _ name hkey hname
      rw [List.take_append_drop, hkeyLen] at hcmp
      rw [find, hcmp, List.find?_cons]
      have hrest := ih (fun x hx => hkeys x (List.mem_cons_of_mem _ hx))
      by_cases hfront : h.FrontOf data name
      · have hfront' := hfront
        rw [HttpHeader.FrontOf] at hfront'
        simp only [hfront', hfront, and_self, decide_true]
      · have hfront' := hfront
        rw [HttpHeader.FrontOf] at hfront'
        simp only [hfront', hfront, decide_false]
        exact hrest

/-- Whether a key inside the packet is a front does not depend on what follows the packet. -/
theorem frontOf_append
    {packet rest name : List UInt8} {h : HttpHeader}
    (hkey : h.key + h.keyLen ≤ packet.length) :
    h.FrontOf (packet ++ rest) name ↔ h.FrontOf packet name := by
  unfold HttpHeader.FrontOf
  rw [List.drop_append_of_le_length (by omega),
    List.take_append_of_le_length (by rw [List.length_drop]; omega)]

end Find

section Body

/-- From 32 bits on, `size_t` tells a body length from every other `int`. -/
theorem toSize_eq_iff
    {w : Nat} (hw : 32 ≤ w) {n m : Int}
    (hn : -2 ^ 31 ≤ n ∧ n ≤ 2 ^ 31 - 1) (hm : 0 ≤ m ∧ m < 2 ^ 31) :
    (toSize w n : Int) = m ↔ n = m := by
  have hpow : (2 : Int) ^ 32 ≤ 2 ^ w := by
    exact_mod_cast Nat.pow_le_pow_right (by decide : 0 < 2) hw
  have hbig : (4294967296 : Int) ≤ 2 ^ w := by simpa using hpow
  rw [toSize]
  generalize (2 : Int) ^ w = W at hbig
  rcases Int.lt_or_le n 0 with hneg | hpos
  · have hmod : n % W = n + W := by
      rw [← Int.add_emod_right, Int.emod_eq_of_lt (by omega) (by omega)]
    rw [hmod]
    omega
  · rw [Int.emod_eq_of_lt hpos (by omega)]
    omega

/-- A request that reaches a handler has passed every check on the way. -/
theorem onHttpPacket_handled
    {H : Type u} {w : Nat} {mRoutes : List (List UInt8 × H)}
    {protocolHeader : HttpProtocolHeader} {mem : List UInt8} {len : Nat}
    {handler : H} {req : HttpRequest}
    (h : onHttpPacket w mRoutes protocolHeader mem len = .handled handler req) :
    parseHttpHeaders mem len = some (some (req.headers, req.body)) ∧
      req.body < len ∧
      bodyLenOf w mem req.headers.headers = some req.bodyLen ∧
      (req.body + req.bodyLen) % 2 ^ w ≤ len := by
  rw [onHttpPacket] at h
  split_ifs at h with hlen
  split at h
  · exact absurd h (by simp)
  · exact absurd h (by simp)
  · split_ifs at h with hline
    split at h
    · exact absurd h (by simp)
    · exact absurd h (by simp)
    · next hparse =>
        split_ifs at h with hhead
        split at h
        · exact absurd h (by simp)
        · next hbody =>
            split_ifs at h with hsum
            split at h
            · exact absurd h (by simp)
            · split at h
              · exact absurd h (by simp)
              · split at h
                · exact absurd h (by simp)
                · injection h with _ hreq
                  subst hreq
                  exact ⟨hparse, Nat.lt_of_not_le fun hle => hhead (Or.inr hle), hbody,
                    Nat.le_of_not_lt hsum⟩

/--
The header the dispatcher takes the body length from: the first one whose key
is a front of `Content-Length`.
-/
def dispatchHeader (packet : List UInt8) : Option HttpHeader :=
  match parseHttpHeaders packet packet.length with
  | some (some (hs, _)) =>
      hs.headers.find? fun h => decide (h.FrontOf packet contentLengthName)
  | _ => none

/-- That header carries the number `n`. -/
def DispatchLength (packet rest : List UInt8) (n : Int) : Prop :=
  ∃ h, dispatchHeader packet = some h ∧ atoi ((packet ++ rest).drop h.value) = some n

/-- The scan of a framed packet, with other bytes behind it. -/
theorem HttpCall.Framed.parse_rest
    {c : HttpCall} {tail : List UInt8} {hs : HttpHeaders}
    (h : c.Framed tail hs) (rest : List UInt8) (len : Nat) :
    parseHttpHeaders (c.packet ++ rest) len = some (some (hs, c.headerSize)) := by
  have hle : c.headerSize ≤ c.packet.length := by
    have := h.size
    have := h.nonneg
    omega
  have hloc := parseHttpHeaders_local rest h.parse hle len
  rw [List.take_left] at hloc
  exact hloc

/-- Looking a name up in a packet, with other bytes behind it. -/
theorem find_packet
    {packet name : List UInt8} {hs : HttpHeaders} {headerSize : Nat}
    (hparse : parseHttpHeaders packet packet.length = some (some (hs, headerSize)))
    (hle : headerSize ≤ packet.length) (hname : ∀ c ∈ name, c ≠ 0) (rest : List UInt8) :
    find (packet ++ rest) name hs.headers =
      some (hs.headers.find? fun x => decide (x.FrontOf packet name)) := by
  obtain ⟨e, hsize, he, hzero, hkeys⟩ := parseHttpHeaders_key hparse
  have hzero' : ∀ x ∈ (packet ++ rest).take e, x ≠ 0 := by
    rw [List.take_append_of_le_length (by omega)]
    exact hzero
  have hlen : e ≤ (packet ++ rest).length := by
    rw [List.length_append]
    omega
  have hcongr :
      ∀ l : List HttpHeader, (∀ x ∈ l, x.key + x.keyLen ≤ e) →
        (l.find? fun x => decide (x.FrontOf (packet ++ rest) name)) =
          l.find? fun x => decide (x.FrontOf packet name) := by
    intro l
    induction l with
    | nil => exact fun _ => rfl
    | cons x xs ih =>
        intro hl
        have hx := hl x List.mem_cons_self
        have hfront : x.FrontOf (packet ++ rest) name ↔ x.FrontOf packet name :=
          frontOf_append (by omega)
        rw [List.find?_cons, List.find?_cons, ih fun y hy => hl y (List.mem_cons_of_mem _ hy)]
        simp only [hfront]
  rw [find_eq hlen hzero' hname hs.headers hkeys, hcongr hs.headers hkeys]

/-- Looking up `Content-Length` in a packet that was scanned. -/
theorem find_dispatchHeader
    {packet : List UInt8} {hs : HttpHeaders} {headerSize : Nat}
    (hparse : parseHttpHeaders packet packet.length = some (some (hs, headerSize)))
    (hle : headerSize ≤ packet.length) (rest : List UInt8) :
    find (packet ++ rest) contentLengthName hs.headers = some (dispatchHeader packet) := by
  rw [dispatchHeader]
  rw [find_packet hparse hle contentLengthName_ne_zero, hparse]

/-- Looking up `Content-Length` in a framed packet. -/
theorem HttpCall.Framed.find_contentLength
    {c : HttpCall} {tail : List UInt8} {hs : HttpHeaders}
    (h : c.Framed tail hs) (rest : List UInt8) :
    find (c.packet ++ rest) contentLengthName hs.headers =
      some (dispatchHeader c.packet) := by
  have hparse := h.parse_rest [] c.packet.length
  rw [List.append_nil] at hparse
  have hsize := h.size
  have hnonneg := h.nonneg
  exact find_dispatchHeader hparse (by omega) rest

/-- The handler's body is the rest of the packet, as long as the packet was framed. -/
structure SameBody (c : HttpCall) (req : HttpRequest) : Prop where
  body : req.body = c.headerSize
  bodyLen : (req.bodyLen : Int) = c.contentLength
  inside : req.body + req.bodyLen = c.packet.length

/--
**When framing and dispatch read the same message.**  A handler is given the
body the packet was framed with if and only if the first header whose key is a
front of `Content-Length` carries the framing length.
-/
theorem onHttpPacket_body_iff
    {H : Type u} {w : Nat} (hw : 32 ≤ w)
    (p : FramingParam) (onReceived : List (List UInt8) → Int) (chunks : List (List UInt8))
    {c : HttpCall} (hc : c ∈ (splitHttpPackets p onReceived .reset chunks).2.calls)
    (mRoutes : List (List UInt8 × H)) (protocolHeader : HttpProtocolHeader)
    (rest : List UInt8) {handler : H} {req : HttpRequest}
    (h : onHttpPacket w mRoutes protocolHeader (c.packet ++ rest) c.packet.length =
      .handled handler req) :
    SameBody c req ↔ DispatchLength c.packet rest c.contentLength := by
  obtain ⟨tail, hs, hframed⟩ :=
    (splitHttpPackets_sound onReceived chunks HttpRecvState.reset_sound).calls c hc
  obtain ⟨hparse, hlt, hbody, _⟩ := onHttpPacket_handled h
  rw [hframed.parse_rest rest] at hparse
  simp only [Option.some.injEq, Prod.mk.injEq] at hparse
  obtain ⟨hheaders, hhead⟩ := hparse
  rw [← hheaders] at hbody
  rw [bodyLenOf] at hbody
  rw [hframed.find_contentLength rest] at hbody
  have hsize := hframed.size
  have hnonneg := hframed.nonneg
  have hsmall := hframed.small
  rw [DispatchLength]
  cases hdispatch : dispatchHeader c.packet with
  | none =>
      -- a packet without a body is not dispatched
      rw [hdispatch] at hbody
      simp only [Option.some.injEq] at hbody
      constructor
      · rintro ⟨_, hlen, _⟩
        omega
      · rintro ⟨_, hnone, _⟩
        exact absurd hnone (by simp)
  | some x =>
      rw [hdispatch] at hbody
      obtain ⟨n, hatoi, hn⟩ := Option.map_eq_some_iff.mp hbody
      have hiff :=
        toSize_eq_iff hw (m := c.contentLength) (atoi_range hatoi) ⟨hnonneg, by omega⟩
      rw [hn] at hiff
      constructor
      · rintro ⟨_, hlen, _⟩
        refine ⟨x, rfl, ?_⟩
        rw [hatoi, hiff.mp hlen]
      · rintro ⟨y, hy, hlen⟩
        simp only [Option.some.injEq] at hy
        subst hy
        rw [hatoi] at hlen
        simp only [Option.some.injEq] at hlen
        have hlen' := hiff.mpr hlen
        exact ⟨hhead.symm, hlen', by omega⟩

section Examples

/-- A receive buffer of 128 bytes. -/
def packetBuffer : FramingParam where
  mMaxPacketSize := 128
  mPacketSizeOffset := 0
  maxPacketSize_pos := by decide
  maxPacketSize_le := by decide
  packetSizeOffset_le := firstField_le

/-- `"POST /a HTTP/1.1\r\n"`. -/
def postLine : List UInt8 :=
  [80, 79, 83, 84, 32, 47, 97, 32, 72, 84, 84, 80, 47, 49, 46, 49, 13, 10]

/-- `"Content-Length:5\r\n\r\nhello"`. -/
def helloBody : List UInt8 :=
  contentLengthName ++ [58, 53, 13, 10, 13, 10, 104, 101, 108, 108, 111]

/-- `"Content:3\r\n"`. -/
def shortKeyLine : List UInt8 :=
  [67, 111, 110, 116, 101, 110, 116, 58, 51, 13, 10]

/-- One handler, for `"POST_/a"`. -/
def postRoutes : List (List UInt8 × Unit) :=
  [([80, 79, 83, 84, 95, 47, 97], ())]

/-- A packet framed with five body bytes is handed over with three of them. -/
theorem onHttpPacket_short_key :
    ∃ c ∈ (splitHttpPackets packetBuffer (fun _ => 0) .reset
        [postLine ++ shortKeyLine ++ helloBody]).2.calls,
      ∃ req, onHttpPacket 64 postRoutes ⟨1, 0, 0⟩ c.packet c.packet.length =
          .handled () req ∧
        c.contentLength = 5 ∧ req.bodyLen = 3 ∧ ¬ SameBody c req := by
  refine ⟨⟨postLine ++ shortKeyLine ++ helloBody, 49, 5⟩, by decide +kernel,
    { socketId := 1
      remoteIP := 0
      remotePort := 0
      method := 0
      methodLen := 4
      path := 5
      pathLen := 2
      headers := ⟨0, 49, [⟨18, 7, 26, 1⟩, ⟨29, 14, 44, 1⟩]⟩
      body := 49
      bodyLen := 3
      keepAlive := true }, by decide +kernel, rfl, rfl, ?_⟩
  intro h
  exact absurd h.bodyLen (by decide)

theorem onHttpPacket_body_iff_example :
    SameBody ⟨postLine ++ helloBody, 38, 5⟩
      { socketId := 1
        remoteIP := 0
        remotePort := 0
        method := 0
        methodLen := 4
        path := 5
        pathLen := 2
        headers := ⟨0, 38, [⟨18, 14, 33, 1⟩]⟩
        body := 38
        bodyLen := 5
        keepAlive := true } :=
  (onHttpPacket_body_iff (w := 64) (by decide) packetBuffer (fun _ => 0)
    [postLine ++ helloBody] (c := ⟨postLine ++ helloBody, 38, 5⟩) (by decide +kernel)
    postRoutes ⟨1, 0, 0⟩ [] (show onHttpPacket _ _ _ _ _ = .handled () _ by decide +kernel)).mpr
    ⟨⟨18, 14, 33, 1⟩, by decide +kernel, by decide +kernel⟩

end Examples

end Body

end Http
end IocpNetlib
