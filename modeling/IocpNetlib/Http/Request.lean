import IocpNetlib.Http.HeaderGrammar
import IocpNetlib.Http.SplitHttpPacket

/-!
# Well-formed requests and what the scan finds in them

A well-formed request announces its body length in at most one
`Content-Length` field.  Scanning a buffer that starts with its head finds the
head and that length, whatever the buffer holds behind the head.
-/

namespace IocpNetlib
namespace Http

open ByteBlock CString

/-- A header field as it is sent: key, colon, spaces, value. -/
structure HttpField where
  key : List UInt8
  pad : Nat
  value : List UInt8
deriving DecidableEq, Repr

/-- The line of a field. -/
def HttpField.line (f : HttpField) : HeaderLine :=
  .field f.key f.pad f.value

/-- The field carries the body length. -/
def HttpField.IsContentLength (f : HttpField) : Prop :=
  eqIgnoreCase f.key contentLengthName

instance (f : HttpField) : Decidable f.IsContentLength :=
  inferInstanceAs (Decidable (eqIgnoreCase f.key contentLengthName))

/-- A request as it is sent. -/
structure HttpMessage where
  requestLine : List UInt8
  fields : List HttpField
  body : List UInt8
deriving DecidableEq, Repr

/-- The head of a request, blank line included. -/
def HttpMessage.head (r : HttpMessage) : List UInt8 :=
  renderHead r.requestLine (r.fields.map HttpField.line)

/-- The bytes of a request. -/
def HttpMessage.bytes (r : HttpMessage) : List UInt8 :=
  r.head ++ r.body

/-- A request a conforming client sends. -/
structure HttpMessage.WellFormed (r : HttpMessage) : Prop where
  requestLine : Clean r.requestLine
  fields : ∀ f ∈ r.fields, f.line.WellFormed
  unique : (r.fields.filter (fun f => decide f.IsContentLength)).length ≤ 1
  value : ∀ f ∈ r.fields, f.IsContentLength →
    f.value ≠ [] ∧ (∀ d ∈ f.value, isdigit d = true) ∧
      decimalFrom 0 f.value = r.body.length
  absent : (∀ f ∈ r.fields, ¬ f.IsContentLength) → r.body = []

section Fields

variable {data : List UInt8}

/-- What follows a field in the block, from its key and from its value. -/
structure FieldAt (data : List UInt8) (p : Nat) (f : HttpField)
    (rest : List UInt8) : Prop where
  key : data.drop p = f.key ++ (colonByte :: (List.replicate f.pad spaceByte ++
    f.value ++ crlf ++ rest))
  value : data.drop (p + f.key.length + 1 + f.pad) = f.value ++ 13 :: 10 :: rest
  next : data.drop (p + f.line.text.length + 2) = rest

theorem fieldAt_of_drop
    {p : Nat} {f : HttpField} {rest : List UInt8}
    (h : data.drop p = f.line.text ++ crlf ++ rest) :
    FieldAt data p f rest where
  key := by
    rw [h]
    simp [HttpField.line, HeaderLine.text]
  value := by
    have hsplit :
        data.drop p =
          (f.key ++ colonByte :: List.replicate f.pad spaceByte) ++
            (f.value ++ 13 :: 10 :: rest) := by
      rw [h]
      simp [HttpField.line, HeaderLine.text, crlf]
    have hlen :
        f.key.length + 1 + f.pad =
          (f.key ++ colonByte :: List.replicate f.pad spaceByte).length := by
      simp only [List.length_append, List.length_cons, List.length_replicate]
      omega
    have hadd : p + f.key.length + 1 + f.pad = p + (f.key.length + 1 + f.pad) := by
      omega
    rw [hadd, ← List.drop_drop, hsplit, hlen, List.drop_left]
  next := by
    have hlen : f.line.text.length + 2 = (f.line.text ++ crlf).length := by
      simp [crlf]
    rw [Nat.add_assoc p, ← List.drop_drop, h, hlen, List.drop_left]

/-- The header a field is read as. -/
def HttpField.headerAt (f : HttpField) (p : Nat) : HttpHeader :=
  { key := p
    keyLen := f.key.length
    value := p + f.key.length + 1 + f.pad
    valueLen := f.value.length }

theorem headersAt_cons (p : Nat) (f : HttpField) (fs : List HttpField) :
    headersAt p ((f :: fs).map HttpField.line) =
      f.headerAt p ::
        headersAt (p + f.line.text.length + 2) (fs.map HttpField.line) := rfl

/-- `HeaderKeyEqual` compares whole keys, up to ASCII case. -/
theorem headerKeyEqual_field
    {p : Nat} {f : HttpField} {rest : List UInt8} (h : FieldAt data p f rest)
    {name : List UInt8} (hname : ∀ c ∈ name, c ≠ 0) :
    headerKeyEqual data (f.headerAt p) name =
      some (decide (eqIgnoreCase f.key name)) := by
  have hkeyLen : (f.headerAt p).keyLen = f.key.length := rfl
  rw [headerKeyEqual]
  rw [hkeyLen]
  by_cases hlen : f.key.length = name.length
  · rw [if_neg (not_not.mpr hlen)]
    show strnicmpEq (data.drop p) (name ++ [0]) name.length = _
    rw [h.key, ← hlen]
    exact strnicmpEq_slices _ _ _ _ hlen hname
  · rw [if_pos hlen]
    have hne : ¬ eqIgnoreCase f.key name := by
      intro heq
      have := congrArg List.length heq
      simp only [List.length_map] at this
      exact hlen this
    simp [hne]

/-- The lines of a list of fields, in front of the blank line. -/
def FieldsAt (data : List UInt8) (p : Nat) (fs : List HttpField)
    (tail : List UInt8) : Prop :=
  data.drop p = renderLines (fs.map HttpField.line) ++ crlf ++ tail

theorem FieldsAt.cons
    {p : Nat} {f : HttpField} {fs : List HttpField} {tail : List UInt8}
    (h : FieldsAt data p (f :: fs) tail) :
    FieldAt data p f (renderLines (fs.map HttpField.line) ++ crlf ++ tail) ∧
    FieldsAt data (p + f.line.text.length + 2) fs tail := by
  have hsplit :
      data.drop p =
        f.line.text ++ crlf ++ (renderLines (fs.map HttpField.line) ++ crlf ++ tail) := by
    rw [h]
    simp [renderLines]
  exact ⟨fieldAt_of_drop hsplit, (fieldAt_of_drop hsplit).next⟩

/-- Without a `Content-Length` field the length is zero. -/
theorem getContentLength_absent
    (tail : List UInt8) (fs : List HttpField) (p : Nat) (h : FieldsAt data p fs tail)
    (hnone : ∀ f ∈ fs, ¬ f.IsContentLength) :
    getContentLength data (headersAt p (fs.map HttpField.line)) = some 0 := by
  induction fs generalizing p with
  | nil => rfl
  | cons f fs ih =>
      obtain ⟨hf, hfs⟩ := h.cons
      have hkey : ¬ eqIgnoreCase f.key contentLengthName := hnone f List.mem_cons_self
      rw [headersAt_cons, getContentLength, headerKeyEqual_field hf contentLengthName_ne_zero]
      simp only [hkey, decide_false]
      exact ih _ hfs (fun g hg => hnone g (List.mem_cons_of_mem _ hg))

/-- The length is the number of the first `Content-Length` field. -/
theorem getContentLength_present
    {n : Nat} (hn : n < 2 ^ 31) (tail : List UInt8)
    (fs : List HttpField) (p : Nat) (h : FieldsAt data p fs tail)
    (hval : ∀ f ∈ fs, f.IsContentLength →
      f.value ≠ [] ∧ (∀ d ∈ f.value, isdigit d = true) ∧ decimalFrom 0 f.value = n)
    (hex : ∃ f ∈ fs, f.IsContentLength) :
    getContentLength data (headersAt p (fs.map HttpField.line)) = some (n : Int) := by
  induction fs generalizing p with
  | nil =>
      obtain ⟨f, hf, -⟩ := hex
      exact absurd hf List.not_mem_nil
  | cons f fs ih =>
      obtain ⟨hf, hfs⟩ := h.cons
      rw [headersAt_cons, getContentLength, headerKeyEqual_field hf contentLengthName_ne_zero]
      by_cases hkey : f.IsContentLength
      · obtain ⟨hne, hdigits, hnum⟩ := hval f List.mem_cons_self hkey
        have hkey' : eqIgnoreCase f.key contentLengthName := hkey
        simp only [hkey', decide_true]
        show atoi (data.drop (p + f.key.length + 1 + f.pad)) = _
        rw [hf.value, atoi_digits hdigits hne (by decide), hnum, clampInt_of_lt hn]
      · have hkey' : ¬ eqIgnoreCase f.key contentLengthName := hkey
        simp only [hkey', decide_false]
        refine ih _ hfs (fun g hg => hval g (List.mem_cons_of_mem _ hg)) ?_
        obtain ⟨g, hg, hgkey⟩ := hex
        rcases List.mem_cons.mp hg with rfl | hg
        · exact absurd hgkey hkey
        · exact ⟨g, hg, hgkey⟩

/-- Looking for `Connection: close` never leaves the head. -/
theorem isConnectionClose_isSome
    (tail : List UInt8) (fs : List HttpField) (p : Nat) (h : FieldsAt data p fs tail) :
    (isConnectionClose data (headersAt p (fs.map HttpField.line))).isSome = true := by
  induction fs generalizing p with
  | nil => rfl
  | cons f fs ih =>
      obtain ⟨hf, hfs⟩ := h.cons
      have hrest := ih _ hfs
      rw [headersAt_cons, isConnectionClose, headerKeyEqual_field hf connectionName_ne_zero]
      by_cases hkey : eqIgnoreCase f.key connectionName
      · simp only [hkey, decide_true]
        have hvalue : (f.headerAt p).value = p + f.key.length + 1 + f.pad := rfl
        have hsome :=
          strnicmpEq_decided (10 :: (renderLines (fs.map HttpField.line) ++ crlf ++ tail))
            f.value (closeValue ++ [0]) 5 (by decide)
            (show ∀ y ∈ closeValue ++ [0], tolower 13 ≠ tolower y by simp [closeValue, tolower])
        rw [hvalue, hf.value]
        generalize strnicmpEq _ _ 5 = o at hsome ⊢
        rcases o with _ | _ | _
        · exact absurd hsome (by simp)
        · exact hrest
        · rfl
      · simp only [hkey, decide_false]
        exact hrest

end Fields

section Scan

variable {r : HttpMessage}

/-- The headers a request's head is read as. -/
def HttpMessage.headers (r : HttpMessage) : HttpHeaders :=
  { raw := 0
    rawLen := r.head.length
    headers := headersAt (r.requestLine.length + 2) (r.fields.map HttpField.line) }

theorem HttpMessage.fieldsAt (r : HttpMessage) (tail : List UInt8) :
    FieldsAt (r.head ++ tail) (r.requestLine.length + 2) r.fields tail := by
  have htwo : r.requestLine.length + 2 = (r.requestLine ++ crlf).length := by
    simp [crlf]
  have hsplit :
      r.head ++ tail =
        (r.requestLine ++ crlf) ++
          (renderLines (r.fields.map HttpField.line) ++ crlf ++ tail) := by
    simp [HttpMessage.head, renderHead]
  rw [FieldsAt]
  rw [hsplit, htwo, List.drop_left]

theorem HttpMessage.WellFormed.parse
    (h : r.WellFormed) (tail : List UInt8) (len : Nat) :
    parseHttpHeaders (r.head ++ tail) len = some (some (r.headers, r.head.length)) := by
  refine parseHttpHeaders_renderHead h.requestLine ?_ tail len
  intro l hl
  obtain ⟨f, hf, rfl⟩ := List.mem_map.mp hl
  exact h.fields f hf

theorem HttpMessage.WellFormed.contentLength
    (h : r.WellFormed) (hsize : r.bytes.length < 2 ^ 31) (tail : List UInt8) :
    getContentLength (r.head ++ tail) r.headers.headers = some (r.body.length : Int) := by
  have hbody : r.body.length < 2 ^ 31 := by
    simp only [HttpMessage.bytes, List.length_append] at hsize
    omega
  by_cases hex : ∃ f ∈ r.fields, f.IsContentLength
  · exact getContentLength_present hbody tail r.fields _ (r.fieldsAt tail) h.value hex
  · have hnone : ∀ f ∈ r.fields, ¬ f.IsContentLength :=
      fun f hf hkey => hex ⟨f, hf, hkey⟩
    have hzero := getContentLength_absent tail r.fields _ (r.fieldsAt tail) hnone
    rw [h.absent hnone]
    exact hzero

theorem HttpMessage.packetSize
    (hsize : r.bytes.length < 2 ^ 31) :
    packetSizeOf r.head.length r.body.length = r.bytes.length := by
  have hlen : r.bytes.length = r.head.length + r.body.length := List.length_append
  rw [packetSizeOf]
  rw [Int.toNat_natCast, ← hlen, toInt32_of_lt hsize]

theorem HttpMessage.head_length_pos (r : HttpMessage) : 4 ≤ r.head.length := by
  simp only [HttpMessage.head, renderHead, crlf, List.length_append, List.length_cons,
    List.length_nil]
  omega

/-- **The scan of a buffer that starts with the head of a request.** -/
theorem HttpMessage.WellFormed.scan
    (p : FramingParam) (h : r.WellFormed)
    (hsize : r.bytes.length ≤ p.mMaxPacketSize) (tail : List UInt8) (n : Nat) :
    scanPacket p (r.head ++ tail) n =
      if n < r.bytes.length then .incomplete
      else .complete r.headers r.head.length r.body.length := by
  have hmax := p.maxPacketSize_le
  have hint : r.bytes.length < 2 ^ 31 := by
    rw [intMax] at hmax
    omega
  have hpos := r.head_length_pos
  have hlen : r.bytes.length = r.head.length + r.body.length := List.length_append
  rw [scanPacket]
  rw [h.parse tail n]
  simp only [h.contentLength hint tail, HttpMessage.packetSize hint]
  rw [if_neg (by omega), if_neg (by omega)]
  by_cases hn : n < r.bytes.length
  · rw [if_pos (by omega), if_pos hn]
  · rw [if_neg (by omega), if_neg hn]

end Scan

end Http
end IocpNetlib
