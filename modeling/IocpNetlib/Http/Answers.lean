import IocpNetlib.Http.Dispatch
import IocpNetlib.Http.Request
import Mathlib.Data.List.TakeWhile

/-!
# Which requests are answered

A request packet is a request line, header fields and a body.  `OnHttpPacket`
on it takes the request line and the head apart as they were put together; what
becomes of the request then depends on whether it has a body and on the length
the dispatcher reads for it.
-/

namespace IocpNetlib
namespace Http

open CString

universe u

/-- The versions a request line may end in. -/
inductive HttpVersion
  | http10
  | http11
deriving DecidableEq, Repr

def HttpVersion.text : HttpVersion → List UInt8
  | .http10 => [72, 84, 84, 80, 47, 49, 46, 48]
  | .http11 => httpVersion

/-- A header as it is written: a key, and all that stands behind the colon. -/
structure WrittenHeader where
  key : List UInt8
  value : List UInt8
deriving DecidableEq, Repr

/-- The line of a header, with its end. -/
def WrittenHeader.text (h : WrittenHeader) : List UInt8 :=
  h.key ++ colonByte :: h.value ++ crlf

/-- A request as its sender means it. -/
structure RequestPacket where
  method : List UInt8
  path : List UInt8
  version : HttpVersion
  headers : List WrittenHeader
  body : List UInt8
deriving DecidableEq, Repr

/-- The request line, without its end. -/
def RequestPacket.requestLine (r : RequestPacket) : List UInt8 :=
  r.method ++ spaceByte :: (r.path ++ spaceByte :: r.version.text)

/-- The head of a request packet, blank line included. -/
def RequestPacket.head (r : RequestPacket) : List UInt8 :=
  r.requestLine ++ crlf ++ r.headers.flatMap WrittenHeader.text ++ crlf

/-- The bytes of a request packet. -/
def RequestPacket.bytes (r : RequestPacket) : List UInt8 :=
  r.head ++ r.body

/-- The value is a number, with blanks and tabs around it. -/
def CarriesLength (value : List UInt8) (n : Nat) : Prop :=
  ∃ before digits behind, value = before ++ digits ++ behind ∧
    (∀ c ∈ before, c = 32 ∨ c = 9) ∧ (∀ c ∈ behind, c = 32 ∨ c = 9) ∧
    digits ≠ [] ∧ (∀ d ∈ digits, isdigit d = true) ∧ decimalFrom 0 digits = n

/-- The key is a front of a name, and not all of it. -/
def ProperFront (key name : List UInt8) : Prop :=
  key <+: name ∧ key ≠ name

/-- A word of the request line. -/
def Word (x : List UInt8) : Prop :=
  Clean x ∧ spaceByte ∉ x

structure WrittenHeader.WellFormed (h : WrittenHeader) : Prop where
  key : Clean h.key
  colon : colonByte ∉ h.key
  value : Clean h.value
  length : ¬ ProperFront h.key contentLengthName
  connection : ¬ ProperFront h.key connectionName

/--
A well-formed request.  The size of a packet is an `int`.
-/
structure RequestPacket.WellFormed (r : RequestPacket) : Prop where
  method : Word r.method
  methodLen : 1 ≤ r.method.length ∧ r.method.length ≤ 16
  path : Word r.path
  pathLen : 1 ≤ r.path.length ∧ r.path.length ≤ 256
  headers : ∀ h ∈ r.headers, h.WellFormed
  length : ∀ h ∈ r.headers, h.key = contentLengthName → CarriesLength h.value r.body.length
  declared : r.body = [] ∨
    ∃ h ∈ r.headers, eqIgnoreCase h.key contentLengthName ∧ CarriesLength h.value r.body.length
  size : r.bytes.length < 2 ^ 31

/-- The field a written header is scanned as: the spaces in front of its value are skipped. -/
def WrittenHeader.field (h : WrittenHeader) : HttpField :=
  { key := h.key
    pad := (h.value.takeWhile (· = spaceByte)).length
    value := h.value.dropWhile (· = spaceByte) }

/-- The same request in the form the scan is about. -/
def RequestPacket.message (r : RequestPacket) : HttpMessage :=
  { requestLine := r.requestLine
    fields := r.headers.map WrittenHeader.field
    body := r.body }

section Rendering

theorem replicate_takeWhile (v : List UInt8) :
    List.replicate (v.takeWhile (· = spaceByte)).length spaceByte =
      v.takeWhile (· = spaceByte) := by
  symm
  rw [List.eq_replicate_iff]
  refine ⟨rfl, fun c hc => ?_⟩
  have hspace := List.mem_takeWhile_imp hc
  exact of_decide_eq_true hspace

theorem WrittenHeader.field_text (h : WrittenHeader) :
    h.field.line.text ++ crlf = h.text := by
  rw [WrittenHeader.text, HttpField.line, WrittenHeader.field, HeaderLine.text]
  simp only
  rw [replicate_takeWhile, List.takeWhile_append_dropWhile]

theorem WrittenHeader.WellFormed.line
    {h : WrittenHeader} (hh : h.WellFormed) : h.field.line.WellFormed := by
  refine ⟨hh.key, hh.colon, ?_, ?_⟩
  · intro c hc
    exact hh.value c ((List.dropWhile_sublist _).mem hc)
  · intro hspace
    have hnot := List.head?_dropWhile_not (fun c => decide (c = spaceByte)) h.value
    have hhead : (h.value.dropWhile fun c => decide (c = spaceByte)).head? = some spaceByte :=
      hspace
    rw [hhead] at hnot
    exact absurd hnot (by decide)

theorem renderLines_headers (hs : List WrittenHeader) :
    renderLines ((hs.map WrittenHeader.field).map HttpField.line) =
      hs.flatMap WrittenHeader.text := by
  induction hs with
  | nil => rfl
  | cons h hs ih =>
      rw [List.map_cons, List.map_cons, renderLines, h.field_text, ih, List.flatMap_cons]

theorem RequestPacket.message_head (r : RequestPacket) : r.message.head = r.head := by
  rw [HttpMessage.head, renderHead, RequestPacket.head, RequestPacket.message]
  simp only
  rw [renderLines_headers]

theorem RequestPacket.WellFormed.requestLine
    {r : RequestPacket} (hr : r.WellFormed) : Clean r.requestLine := by
  have hspace : Clean [spaceByte] := by
    intro c hc
    rw [List.mem_singleton.mp hc]
    decide
  have hversion : Clean r.version.text := by
    cases r.version <;> simp [Clean, HttpVersion.text, httpVersion]
  have heq :
      r.requestLine = r.method ++ ([spaceByte] ++ (r.path ++ ([spaceByte] ++ r.version.text))) :=
    rfl
  rw [heq]
  exact hr.method.1.append (hspace.append (hr.path.1.append (hspace.append hversion)))

/-- The scan of a well-formed request finds its head. -/
theorem RequestPacket.WellFormed.parse
    {r : RequestPacket} (hr : r.WellFormed) (tail : List UInt8) (len : Nat) :
    parseHttpHeaders (r.head ++ tail) len =
      some (some (r.message.headers, r.head.length)) := by
  have hlines : ∀ l ∈ r.message.fields.map HttpField.line, l.WellFormed := by
    intro l hl
    obtain ⟨f, hf, rfl⟩ := List.mem_map.mp hl
    obtain ⟨h, hh, rfl⟩ := List.mem_map.mp hf
    exact (hr.headers h hh).line
  have hparse := parseHttpHeaders_renderHead hr.requestLine hlines tail len
  have hhead : renderHead r.requestLine (r.message.fields.map HttpField.line) = r.head :=
    r.message_head
  rw [hhead] at hparse
  rw [hparse]
  rw [HttpMessage.headers]
  rw [r.message_head]
  rfl

end Rendering

section Scan

variable {r : RequestPacket}

/-- A byte is found behind a front that does not have it. -/
theorem memchr_found
    {ch : UInt8} {x : List UInt8} (h : ch ∉ x) (rest : List UInt8) {n : Nat}
    (hn : x.length < n) :
    memchr ch (x ++ ch :: rest) n = some (some x.length) := by
  obtain ⟨m, rfl⟩ : ∃ m, n = x.length + (m + 1) := ⟨n - x.length - 1, by omega⟩
  rw [memchr_append ch _ x h]
  simp [memchr]

/-- Searching a front for a byte ends at the byte, or at the end of the front. -/
theorem memchr_takeWhile
    (ch : UInt8) (rest x : List UInt8) :
    ∃ q, memchr ch (x ++ rest) x.length = some q ∧
      q.getD x.length = (x.takeWhile (· ≠ ch)).length := by
  induction x with
  | nil => exact ⟨none, by simp [memchr], rfl⟩
  | cons b bs ih =>
      by_cases hb : b = ch
      · exact ⟨some 0, by simp [memchr, hb], by simp [hb]⟩
      · obtain ⟨q, hq, hlen⟩ := ih
        refine ⟨q.map (· + 1), ?_, ?_⟩
        · rw [List.cons_append, List.length_cons, memchr, if_neg hb, hq]
          rfl
        · rw [List.takeWhile_cons, if_pos (by simpa using hb), List.length_cons, List.length_cons,
            ← hlen]
          cases q <;> rfl

/-- Where the headers of a list of fields have their values. -/
theorem fieldsAt_value
    {data tail : List UInt8} {fs : List HttpField} {p : Nat} (h : FieldsAt data p fs tail) :
    ∀ x ∈ headersAt p (fs.map HttpField.line),
      ∃ f ∈ fs, ∃ rest, data.drop x.value = f.value ++ 13 :: 10 :: rest := by
  induction fs generalizing p with
  | nil =>
      intro x hx
      exact absurd hx List.not_mem_nil
  | cons f fs ih =>
      intro x hx
      obtain ⟨hf, hfs⟩ := h.cons
      rw [headersAt_cons] at hx
      rcases List.mem_cons.mp hx with rfl | hx
      · exact ⟨f, List.mem_cons_self, _, hf.value⟩
      · obtain ⟨g, hg, rest, hdrop⟩ := ih hfs x hx
        exact ⟨g, List.mem_cons_of_mem _ hg, rest, hdrop⟩

theorem RequestPacket.requestLine_length (r : RequestPacket) :
    r.requestLine.length = r.method.length + r.path.length + 10 := by
  cases hv : r.version <;>
    simp only [requestLine, hv, HttpVersion.text, httpVersion, List.length_append,
      List.length_cons, List.length_nil] <;> omega

theorem RequestPacket.head_length (r : RequestPacket) :
    r.requestLine.length + 4 ≤ r.head.length := by
  simp only [head, List.length_append, crlf, List.length_cons, List.length_nil]
  omega

/-- The blanks of the request line stand behind the method and behind the path. -/
theorem RequestPacket.WellFormed.blanks
    (hr : r.WellFormed) (tail : List UInt8) (len : Nat) (hlen : r.head.length ≤ len) :
    requestLineBlanks (r.head ++ tail) len =
      some (some (r.method.length, r.method.length + 1 + r.path.length)) := by
  have hline := r.requestLine_length
  have hhead := r.head_length
  have hmethod := hr.methodLen
  have hpath := hr.pathLen
  have hdata :
      r.head ++ tail =
        r.method ++ spaceByte :: (r.path ++ spaceByte ::
          (r.version.text ++ crlf ++ r.headers.flatMap WrittenHeader.text ++ crlf ++ tail)) := by
    simp [RequestPacket.head, RequestPacket.requestLine]
  have hdrop :
      (r.head ++ tail).drop (r.method.length + 1) =
        r.path ++ spaceByte ::
          (r.version.text ++ crlf ++ r.headers.flatMap WrittenHeader.text ++ crlf ++ tail) := by
    rw [hdata, ← List.drop_drop, List.drop_left, List.drop_succ_cons, List.drop_zero]
  have hfirst : memchr spaceByte (r.head ++ tail) len = some (some r.method.length) := by
    rw [hdata]
    exact memchr_found hr.method.2 _ (by omega)
  have hsecond :
      memchr spaceByte ((r.head ++ tail).drop (r.method.length + 1))
        (len - (r.method.length + 1)) = some (some r.path.length) := by
    rw [hdrop]
    exact memchr_found hr.path.2 _ (by omega)
  rw [requestLineBlanks]
  simp only [hfirst, hsecond]
  rw [if_neg (by omega), if_neg (by omega)]

/-- The route a request is for: its method, and its path up to the first `'?'`. -/
def RequestPacket.route (r : RequestPacket) : List UInt8 :=
  r.method ++ 95 :: r.path.takeWhile (· ≠ 63)

/-- `Connection` is looked up and read without leaving the packet. -/
theorem RequestPacket.WellFormed.keepAlive
    (hr : r.WellFormed) (rest : List UInt8) :
    ∃ keepAlive, keepAliveOf (r.bytes ++ rest) r.message.headers.headers
      (r.method.length + 1 + r.path.length) = some keepAlive := by
  have hbytes : r.bytes ++ rest = r.head ++ (r.body ++ rest) := List.append_assoc _ _ _
  have hfind :=
    find_packet (hr.parse r.body r.bytes.length)
      (by rw [List.length_append]; omega) connectionName_ne_zero rest
  rw [keepAliveOf]
  rw [show r.bytes = r.head ++ r.body from rfl, hfind]
  cases hconn :
      r.message.headers.headers.find?
        fun x => decide (x.FrontOf (r.head ++ r.body) connectionName) with
  | none =>
      have hdrop :
          (r.head ++ r.body ++ rest).drop (r.method.length + 1 + r.path.length + 1) =
            r.version.text ++
              (crlf ++ r.headers.flatMap WrittenHeader.text ++ crlf ++ r.body ++ rest) := by
        have hsplit :
            r.head ++ r.body ++ rest =
              (r.method ++ spaceByte :: (r.path ++ [spaceByte])) ++
                (r.version.text ++
                  (crlf ++ r.headers.flatMap WrittenHeader.text ++ crlf ++ r.body ++ rest)) := by
          simp [RequestPacket.head, RequestPacket.requestLine]
        have hlen :
            r.method.length + 1 + r.path.length + 1 =
              (r.method ++ spaceByte :: (r.path ++ [spaceByte])).length := by
          simp only [List.length_append, List.length_cons, List.length_nil]
          omega
        rw [hsplit, hlen, List.drop_left]
      simp only [hdrop]
      cases r.version
      · exact ⟨false, by simp [startsWith, httpVersion, HttpVersion.text]⟩
      · exact ⟨true, by simp [startsWith, httpVersion, HttpVersion.text]⟩
  | some x =>
      have hfields := r.message.fieldsAt (r.body ++ rest)
      rw [r.message_head] at hfields
      obtain ⟨f, -, rest', hdrop⟩ := fieldsAt_value hfields x (List.mem_of_find?_eq_some hconn)
      simp only [List.append_assoc, hdrop]
      exact Option.isSome_iff_exists.mp
        (strnicmpEq_decided (10 :: rest') f.value (keepAliveValue ++ [0]) 10 (by decide)
          (by simp [keepAliveValue, tolower]))

/--
**What becomes of a well-formed request.**  Without a body it is dropped; else
everything depends on the body length the dispatcher reads, and on the routes.
-/
theorem RequestPacket.WellFormed.dispatch
    (hr : r.WellFormed) (w : Nat) (protocolHeader : HttpProtocolHeader) (rest : List UInt8) :
    ∃ keepAlive, ∀ {H : Type u} (mRoutes : List (List UInt8 × H)),
      onHttpPacket w mRoutes protocolHeader (r.bytes ++ rest) r.bytes.length =
        if r.body = [] then .dropped
        else
          match bodyLenOf w (r.bytes ++ rest) r.message.headers.headers with
          | none => .outside
          | some bodyLen =>
              if r.bytes.length < (r.head.length + bodyLen) % 2 ^ w then .dropped
              else
                match mRoutes.lookup r.route with
                | none => .notFound protocolHeader.socketID
                | some handler =>
                    .handled handler
                      { socketId := protocolHeader.socketID
                        remoteIP := protocolHeader.remoteIP
                        remotePort := protocolHeader.remotePort
                        method := 0
                        methodLen := r.method.length
                        path := r.method.length + 1
                        pathLen := r.path.length
                        headers := r.message.headers
                        body := r.head.length
                        bodyLen := bodyLen
                        keepAlive := keepAlive } := by
  obtain ⟨keepAlive, hkeepAlive⟩ := hr.keepAlive rest
  refine ⟨keepAlive, fun mRoutes => ?_⟩
  have hline := r.requestLine_length
  have hhead := r.head_length
  have hmethod := hr.methodLen
  have hpath := hr.pathLen
  have hbytes : r.bytes ++ rest = r.head ++ (r.body ++ rest) := List.append_assoc _ _ _
  have hlen : r.bytes.length = r.head.length + r.body.length := List.length_append
  have hblanks := hr.blanks (r.body ++ rest) r.bytes.length (by omega)
  have hparse := hr.parse (r.body ++ rest) r.bytes.length
  rw [← hbytes] at hblanks hparse
  have hpathLen : r.method.length + 1 + r.path.length - (r.method.length + 1) = r.path.length := by
    omega
  have hdrop :
      (r.bytes ++ rest).drop (r.method.length + 1) =
        r.path ++ spaceByte :: (r.version.text ++ crlf ++
          r.headers.flatMap WrittenHeader.text ++ crlf ++ r.body ++ rest) := by
    have hdata :
        r.bytes ++ rest =
          r.method ++ spaceByte :: (r.path ++ spaceByte :: (r.version.text ++ crlf ++
            r.headers.flatMap WrittenHeader.text ++ crlf ++ r.body ++ rest)) := by
      simp [RequestPacket.bytes, RequestPacket.head, RequestPacket.requestLine]
    rw [hdata, ← List.drop_drop, List.drop_left, List.drop_succ_cons, List.drop_zero]
  have htake : (r.bytes ++ rest).take r.method.length = r.method := by
    simp [RequestPacket.bytes, RequestPacket.head, RequestPacket.requestLine]
  obtain ⟨q, hq, hpure⟩ :=
    memchr_takeWhile 63 (spaceByte :: (r.version.text ++ crlf ++
      r.headers.flatMap WrittenHeader.text ++ crlf ++ r.body ++ rest)) r.path
  rw [← hdrop] at hq
  have hroute :
      routeKey (r.bytes ++ rest) r.method.length (q.getD r.path.length) = r.route := by
    have hfront : r.path.take (r.path.takeWhile (· ≠ 63)).length = r.path.takeWhile (· ≠ 63) :=
      (List.prefix_iff_eq_take.mp (List.takeWhile_prefix _)).symm
    have hle : (r.path.takeWhile (· ≠ 63)).length ≤ r.path.length :=
      List.IsPrefix.length_le (List.takeWhile_prefix _)
    rw [routeKey, RequestPacket.route]
    rw [htake, hdrop, hpure, List.take_append_of_le_length hle, hfront]
  rw [onHttpPacket]
  rw [if_neg (by omega), hblanks]
  simp only [hpathLen]
  rw [if_neg (by omega)]
  simp only [HttpServiceImplementer.parseHttpHeaders, hparse]
  by_cases hbody : r.body = []
  · have hbare : r.bytes.length ≤ r.head.length := by
      have hnil := List.length_eq_zero_iff.mpr hbody
      omega
    rw [if_pos hbody, if_pos (Or.inr hbare)]
  · have hpos : 0 < r.body.length := List.length_pos_iff.mpr hbody
    rw [if_neg hbody, if_neg (by omega)]
    cases hbodyLen : bodyLenOf w (r.bytes ++ rest) r.message.headers.headers with
    | none => simp only
    | some bodyLen =>
        by_cases hsum : r.bytes.length < (r.head.length + bodyLen) % 2 ^ w
        · simp only [if_pos hsum]
        · cases hlookup : mRoutes.lookup r.route with
          | none => simp only [if_neg hsum, hkeepAlive, hq, hroute, hlookup]
          | some handler => simp only [if_neg hsum, hkeepAlive, hq, hroute, hlookup]

end Scan

section Answers

variable {H : Type u} {r : RequestPacket}

/--
The request is answered: by a registered handler, which is given the method, the
path and the body of the request, or by `SendNotFoundResponse`.
-/
def Dispatch.Answers (d : Dispatch H) (mRoutes : List (List UInt8 × H)) (mem : List UInt8)
    (r : RequestPacket) (protocolHeader : HttpProtocolHeader) : Prop :=
  match d with
  | .handled handler req =>
      handler ∈ mRoutes.map Prod.snd ∧
      (mem.drop req.method).take req.methodLen = r.method ∧
      (mem.drop req.path).take req.pathLen = r.path ∧
      (mem.drop req.body).take req.bodyLen = r.body ∧ req.bodyLen = r.body.length
  | .notFound socketID => socketID = protocolHeader.socketID
  | _ => False

theorem lookup_mem_snd {K : Type} [BEq K] {m : List (K × H)} {k : K} {x : H}
    (h : m.lookup k = some x) : x ∈ m.map Prod.snd := by
  induction m with
  | nil => exact absurd h (by simp)
  | cons e m ih =>
      rw [List.lookup_cons] at h
      rw [List.map_cons]
      split at h
      · cases h
        exact List.mem_cons_self
      · exact List.mem_cons_of_mem _ (ih h)

/-- Looking `Content-Length` up in a well-formed request. -/
theorem RequestPacket.WellFormed.bodyLen
    (hr : r.WellFormed) (w : Nat) (rest : List UInt8) :
    bodyLenOf w (r.bytes ++ rest) r.message.headers.headers =
      match dispatchHeader r.bytes with
      | none => some 0
      | some x => (atoi ((r.bytes ++ rest).drop x.value)).map (toSize w) := by
  have hfind :=
    find_dispatchHeader (hr.parse r.body r.bytes.length)
      (by rw [List.length_append]; omega) rest
  have hbytes : r.head ++ r.body = r.bytes := rfl
  rw [hbytes] at hfind
  rw [bodyLenOf]
  rw [hfind]
  cases dispatchHeader r.bytes <;> rfl

/-- The slices a handler is given of a request. -/
theorem RequestPacket.slices (r : RequestPacket) (rest : List UInt8) :
    (r.bytes ++ rest).take r.method.length = r.method ∧
      ((r.bytes ++ rest).drop (r.method.length + 1)).take r.path.length = r.path ∧
        ((r.bytes ++ rest).drop r.head.length).take r.body.length = r.body := by
  have hline :
      r.bytes ++ rest =
        r.method ++ spaceByte :: (r.path ++ (spaceByte :: (r.version.text ++ crlf ++
          r.headers.flatMap WrittenHeader.text ++ crlf ++ r.body ++ rest))) := by
    simp [RequestPacket.bytes, RequestPacket.head, RequestPacket.requestLine]
  have hbody : r.bytes ++ rest = r.head ++ (r.body ++ rest) := List.append_assoc _ _ _
  refine ⟨?_, ?_, ?_⟩
  · rw [hline, List.take_left]
  · rw [hline, ← List.drop_drop, List.drop_left, List.drop_succ_cons, List.drop_zero,
      List.take_left]
  · rw [hbody, List.drop_left, List.take_left]

/-- With the right length, and a body, every table of routes answers. -/
theorem RequestPacket.WellFormed.answers
    (hr : r.WellFormed) {w : Nat} (hw : 32 ≤ w) (protocolHeader : HttpProtocolHeader)
    (rest : List UInt8) (hbody : r.body ≠ [])
    (hlength : DispatchLength r.bytes rest r.body.length) (mRoutes : List (List UInt8 × H)) :
    (onHttpPacket w mRoutes protocolHeader (r.bytes ++ rest) r.bytes.length).Answers
      mRoutes (r.bytes ++ rest) r protocolHeader := by
  obtain ⟨keepAlive, hdispatch⟩ := hr.dispatch w protocolHeader rest
  obtain ⟨x, hx, hatoi⟩ := hlength
  have hsize := hr.size
  have hlen : r.bytes.length = r.head.length + r.body.length := List.length_append
  have hsame : toSize w r.body.length = r.body.length := by
    have hint : (toSize w r.body.length : Int) = r.body.length :=
      (toSize_eq_iff hw (by omega) (by omega)).mpr rfl
    exact_mod_cast hint
  have hbodyLen : bodyLenOf w (r.bytes ++ rest) r.message.headers.headers =
      some r.body.length := by
    rw [hr.bodyLen, hx]
    simp only [hatoi, Option.map_some, hsame]
  have hmod : (r.head.length + r.body.length) % 2 ^ w ≤ r.bytes.length := by
    rw [hlen]
    exact Nat.mod_le _ _
  rw [hdispatch, if_neg hbody, hbodyLen]
  simp only
  rw [if_neg (by omega)]
  obtain ⟨hmethod, hpath, hslice⟩ := r.slices rest
  cases hroute : mRoutes.lookup r.route with
  | none => exact rfl
  | some handler => exact ⟨lookup_mem_snd hroute, hmethod, hpath, hslice, rfl⟩

/-- A table with the request's own route shows whether the length is right. -/
theorem RequestPacket.WellFormed.answered
    (hr : r.WellFormed) {w : Nat} (hw : 32 ≤ w) (protocolHeader : HttpProtocolHeader)
    (rest : List UInt8) (handler : H)
    (h : (onHttpPacket w [(r.route, handler)] protocolHeader (r.bytes ++ rest)
      r.bytes.length).Answers [(r.route, handler)] (r.bytes ++ rest) r protocolHeader) :
    r.body ≠ [] ∧ DispatchLength r.bytes rest r.body.length := by
  obtain ⟨keepAlive, hdispatch⟩ := hr.dispatch w protocolHeader rest
  rw [hdispatch] at h
  by_cases hbody : r.body = []
  · rw [if_pos hbody] at h
    exact absurd h not_false
  · refine ⟨hbody, ?_⟩
    rw [if_neg hbody] at h
    have hpos : 0 < r.body.length := List.length_pos_iff.mpr hbody
    have hsize := hr.size
    have hlen : r.bytes.length = r.head.length + r.body.length := List.length_append
    have hfound : List.lookup r.route [(r.route, handler)] = some handler := by simp
    cases hbodyLen : bodyLenOf w (r.bytes ++ rest) r.message.headers.headers with
    | none =>
        rw [hbodyLen] at h
        exact absurd h not_false
    | some bodyLen =>
        rw [hbodyLen] at h
        simp only [hfound] at h
        split_ifs at h with hsum
        · exact absurd h not_false
        · obtain ⟨-, -, -, -, hsame⟩ := h
          simp only at hsame
          rw [hr.bodyLen, hsame] at hbodyLen
          cases hx : dispatchHeader r.bytes with
          | none =>
              rw [hx] at hbodyLen
              simp only [Option.some.injEq] at hbodyLen
              omega
          | some x =>
              rw [hx] at hbodyLen
              obtain ⟨n, hatoi, hn⟩ := Option.map_eq_some_iff.mp hbodyLen
              have hiff := toSize_eq_iff hw (m := r.body.length) (atoi_range hatoi) (by omega)
              rw [hn] at hiff
              exact ⟨x, hx, by rw [hatoi, hiff.mp rfl]⟩

/--
**When a well-formed request is answered.**  Whatever routes are registered,
`OnHttpPacket` hands the request to one of them, or to `SendNotFoundResponse`,
if and only if it has a body and the first header whose key is a front of
`Content-Length` carries the length of it.
-/
theorem onHttpPacket_answers_iff
    [Nonempty H] {w : Nat} (hw : 32 ≤ w) (hr : r.WellFormed)
    (protocolHeader : HttpProtocolHeader) (rest : List UInt8) :
    (∀ mRoutes : List (List UInt8 × H),
      (onHttpPacket w mRoutes protocolHeader (r.bytes ++ rest) r.bytes.length).Answers
        mRoutes (r.bytes ++ rest) r protocolHeader) ↔
      r.body ≠ [] ∧ DispatchLength r.bytes rest r.body.length := by
  constructor
  · intro h
    obtain ⟨handler⟩ := ‹Nonempty H›
    exact hr.answered hw protocolHeader rest handler (h [(r.route, handler)])
  · rintro ⟨hbody, hlength⟩ mRoutes
    exact hr.answers hw protocolHeader rest hbody hlength mRoutes

end Answers

section WholeKeys

/-- The key is a front of a name, up to case. -/
def FrontKey (key name : List UInt8) : Prop :=
  key.length ≤ name.length ∧ eqIgnoreCase key (name.take key.length)

theorem atoi_blanks
    {before : List UInt8} (h : ∀ c ∈ before, c = 32 ∨ c = 9) (mem : List UInt8) :
    atoi (before ++ mem) = atoi mem := by
  induction before with
  | nil => rfl
  | cons c cs ih =>
      have hspace : isspace c = true := by
        rcases h c List.mem_cons_self with rfl | rfl <;> rfl
      rw [List.cons_append, atoi, if_pos hspace]
      exact ih fun d hd => h d (List.mem_cons_of_mem _ hd)

/-- The spaces that the scan skips are not needed to read a length. -/
theorem CarriesLength.dropSpaces
    {value : List UInt8} {n : Nat} (h : CarriesLength value n) :
    CarriesLength (value.dropWhile (· = spaceByte)) n := by
  obtain ⟨before, digits, behind, rfl, hbefore, hbehind, hne, hdigits, hn⟩ := h
  refine ⟨before.dropWhile (· = spaceByte), digits, behind, ?_,
    fun c hc => hbefore c ((List.dropWhile_sublist _).mem hc), hbehind, hne, hdigits, hn⟩
  rw [List.append_assoc, List.append_assoc, List.dropWhile_append]
  split
  · next hempty =>
      obtain ⟨d, ds, rfl⟩ := List.exists_cons_of_ne_nil hne
      have hd : d ≠ spaceByte := by
        rintro rfl
        exact absurd (hdigits _ List.mem_cons_self) (by decide)
      rw [List.isEmpty_iff.mp hempty, List.cons_append, List.dropWhile_cons,
        if_neg (by simpa using hd)]
      rfl
  · rfl

/-- A length is read as the number it is. -/
theorem CarriesLength.atoi
    {value : List UInt8} {n : Nat} (h : CarriesLength value n) (hn : n < 2 ^ 31)
    (rest : List UInt8) :
    CString.atoi (value ++ 13 :: 10 :: rest) = some (n : Int) := by
  obtain ⟨before, digits, behind, rfl, hbefore, hbehind, hne, hdigits, hvalue⟩ := h
  rw [List.append_assoc, List.append_assoc, atoi_blanks hbefore]
  have hnext : ∃ c cs, behind ++ 13 :: 10 :: rest = c :: cs ∧ isdigit c = false := by
    cases behind with
    | nil => exact ⟨13, _, rfl, rfl⟩
    | cons c cs =>
        refine ⟨c, _, rfl, ?_⟩
        rcases hbehind c List.mem_cons_self with rfl | rfl <;> rfl
  obtain ⟨c, cs, hcs, hc⟩ := hnext
  rw [hcs, atoi_digits hdigits hne hc, hvalue, clampInt_of_lt hn]

/-- `Find` on the fields of a request, where every front of the name carries the length. -/
theorem find_fields
    {data tail name : List UInt8} {n : Nat} (hn : n < 2 ^ 31) (hname : ∀ c ∈ name, c ≠ 0)
    (fs : List HttpField) (p : Nat) (h : FieldsAt data p fs tail)
    (hkeys : ∀ f ∈ fs, ∀ c ∈ f.key, c ≠ 0)
    (hcarries : ∀ f ∈ fs, FrontKey f.key name → CarriesLength f.value n)
    (hex : ∃ f ∈ fs, FrontKey f.key name) :
    ∃ x, find data name (headersAt p (fs.map HttpField.line)) = some (some x) ∧
      atoi (data.drop x.value) = some (n : Int) := by
  induction fs generalizing p with
  | nil =>
      obtain ⟨f, hf, -⟩ := hex
      exact absurd hf List.not_mem_nil
  | cons f fs ih =>
      obtain ⟨hf, hfs⟩ := h.cons
      have hkey :
          strnicmpEq (data.drop (f.headerAt p).key) (name ++ [0]) (f.headerAt p).keyLen =
            some (decide (f.key.length ≤ name.length ∧
              eqIgnoreCase f.key (name.take f.key.length))) := by
        show strnicmpEq (data.drop p) _ f.key.length = _
        rw [hf.key]
        exact strnicmpEq_front _ f.key name (hkeys f List.mem_cons_self) hname
      rw [headersAt_cons, find, hkey]
      by_cases hfront : FrontKey f.key name
      · have hfront' := hfront
        rw [FrontKey] at hfront'
        refine ⟨f.headerAt p, by simp [hfront'], ?_⟩
        show atoi (data.drop (p + f.key.length + 1 + f.pad)) = _
        rw [hf.value]
        exact (hcarries f List.mem_cons_self hfront).atoi hn _
      · have hfront' := hfront
        rw [FrontKey] at hfront'
        simp only [hfront', decide_false]
        refine ih _ hfs (fun g hg => hkeys g (List.mem_cons_of_mem _ hg))
          (fun g hg => hcarries g (List.mem_cons_of_mem _ hg)) ?_
        obtain ⟨g, hg, hgfront⟩ := hex
        rcases List.mem_cons.mp hg with rfl | hg
        · exact absurd hgfront hfront
        · exact ⟨g, hg, hgfront⟩

/--
Where no key is a front of `Content-Length` but the name itself, whatever the
case of its letters, the dispatcher reads the length of the body.
-/
theorem RequestPacket.WellFormed.dispatchLength
    {r : RequestPacket} (hr : r.WellFormed) (rest : List UInt8) (hbody : r.body ≠ [])
    (hfronts : ∀ h ∈ r.headers, FrontKey h.key contentLengthName →
      CarriesLength h.value r.body.length) :
    DispatchLength r.bytes rest r.body.length := by
  have hfields := r.message.fieldsAt (r.body ++ rest)
  have hbytes : r.bytes ++ rest = r.head ++ (r.body ++ rest) := List.append_assoc _ _ _
  rw [r.message_head, ← hbytes] at hfields
  have hsize := hr.size
  have hlen : r.bytes.length = r.head.length + r.body.length := List.length_append
  obtain ⟨x, hfind, hatoi⟩ :=
    find_fields (n := r.body.length) (by omega) contentLengthName_ne_zero _ _ hfields
      (by
        intro f hf c hc
        obtain ⟨h, hh, rfl⟩ := List.mem_map.mp hf
        exact ((hr.headers h hh).key c hc).1)
      (by
        intro f hf hfront
        obtain ⟨h, hh, rfl⟩ := List.mem_map.mp hf
        exact (hfronts h hh hfront).dropSpaces)
      (by
        rcases hr.declared with hempty | ⟨h, hh, hkey, -⟩
        · exact absurd hempty hbody
        · have hkeyLen : h.key.length = contentLengthName.length := by
            simpa using congrArg List.length hkey
          refine ⟨h.field, List.mem_map.mpr ⟨h, hh, rfl⟩, Nat.le_of_eq hkeyLen, ?_⟩
          show eqIgnoreCase h.key (contentLengthName.take h.key.length)
          rw [hkeyLen, List.take_length]
          exact hkey)
  have hdispatch :=
    find_dispatchHeader (hr.parse r.body r.bytes.length)
      (by rw [List.length_append]; omega) rest
  have hsame : r.head ++ r.body = r.bytes := rfl
  rw [hsame] at hdispatch
  have hheaders :
      r.message.headers.headers =
        headersAt (r.message.requestLine.length + 2)
          (r.message.fields.map HttpField.line) := rfl
  rw [hheaders, hfind] at hdispatch
  exact ⟨x, (Option.some.inj hdispatch).symm, hatoi⟩

end WholeKeys

section Examples

/-- `"POST /a HTTP/1.1"` with `"Content-Length: 5"` and `"hello"`. -/
def helloRequest : RequestPacket where
  method := [80, 79, 83, 84]
  path := [47, 97]
  version := .http11
  headers := [⟨contentLengthName, [32, 53]⟩]
  body := [104, 101, 108, 108, 111]

/-- `"GET /a HTTP/1.1"`, with no header and no body. -/
def bareRequest : RequestPacket where
  method := [71, 69, 84]
  path := [47, 97]
  version := .http11
  headers := []
  body := []

theorem helloRequest_wellFormed : helloRequest.WellFormed where
  method := ⟨by simp [helloRequest, Clean], by simp [helloRequest, spaceByte]⟩
  methodLen := by decide
  path := ⟨by simp [helloRequest, Clean], by simp [helloRequest, spaceByte]⟩
  pathLen := by decide
  headers := by
    intro h hh
    rw [List.mem_singleton.mp hh]
    exact
      { key := by simp [Clean, contentLengthName]
        colon := by simp [colonByte, contentLengthName]
        value := by simp [Clean]
        length := fun hfront => hfront.2 rfl
        connection := fun hfront => absurd (List.IsPrefix.length_le hfront.1) (by decide) }
  length := by
    intro h hh _
    rw [List.mem_singleton.mp hh]
    exact ⟨[32], [53], [], rfl, by simp, by simp, by simp, by simp [isdigit], by decide⟩
  declared :=
    Or.inr ⟨_, List.mem_singleton_self _, rfl, [32], [53], [], rfl, by simp, by simp, by simp,
      by simp [isdigit], by decide⟩
  size := by decide

theorem bareRequest_wellFormed : bareRequest.WellFormed where
  method := ⟨by simp [bareRequest, Clean], by simp [bareRequest, spaceByte]⟩
  methodLen := by decide
  path := ⟨by simp [bareRequest, Clean], by simp [bareRequest, spaceByte]⟩
  pathLen := by decide
  headers := fun _ hh => absurd hh List.not_mem_nil
  length := fun _ hh => absurd hh List.not_mem_nil
  declared := Or.inl rfl
  size := by decide

theorem onHttpPacket_answers_iff_example :
    (onHttpPacket 64 postRoutes ⟨1, 0, 0⟩ (helloRequest.bytes ++ [])
      helloRequest.bytes.length).Answers postRoutes (helloRequest.bytes ++ []) helloRequest
        ⟨1, 0, 0⟩ :=
  (onHttpPacket_answers_iff (by decide) helloRequest_wellFormed ⟨1, 0, 0⟩ []).mpr
    ⟨by decide, ⟨18, 14, 34, 1⟩, by decide +kernel, by decide +kernel⟩ postRoutes

/-- A request without a body is dropped, with its route registered. -/
theorem onHttpPacket_drops_bare :
    ¬ ∀ (r : RequestPacket) (mRoutes : List (List UInt8 × Unit))
      (protocolHeader : HttpProtocolHeader) (rest : List UInt8), r.WellFormed →
        (onHttpPacket 64 mRoutes protocolHeader (r.bytes ++ rest) r.bytes.length).Answers
          mRoutes (r.bytes ++ rest) r protocolHeader := by
  intro hclaim
  have hanswers := hclaim bareRequest [(bareRequest.route, ())] ⟨1, 0, 0⟩ []
    bareRequest_wellFormed
  have hdropped :
      onHttpPacket 64 [(bareRequest.route, ())] ⟨1, 0, 0⟩ (bareRequest.bytes ++ [])
        bareRequest.bytes.length = .dropped := by
    decide +kernel
  rw [hdropped] at hanswers
  exact hanswers

end Examples

end Http
end IocpNetlib
