import IocpNetlib.Http.Dispatch
import IocpNetlib.Http.HeaderGrammar

/-!
# What the scanned headers say

The headers of a rendered head are its fields, with their extents.  A header is
looked up in two ways: `HeaderKeyEqual` compares whole keys, `Find` only as many
bytes as the key has, and so does `IsMethod` with the method.
-/

namespace IocpNetlib
namespace Http

open ByteBlock CString

section Slices

/-- The bytes of the key. -/
def HttpHeader.keyText (data : List UInt8) (h : HttpHeader) : List UInt8 :=
  (data.drop h.key).take h.keyLen

/-- The bytes of the value. -/
def HttpHeader.valueText (data : List UInt8) (h : HttpHeader) : List UInt8 :=
  (data.drop h.value).take h.valueLen

/-- The key and the value of a line that has a colon. -/
def HeaderLine.pair : HeaderLine → Option (List UInt8 × List UInt8)
  | .field key _ value => some (key, value)
  | .bare _ => none

/-- The extents of the fields show their keys and values. -/
theorem headersAt_pairs
    {data tail : List UInt8} (lines : List HeaderLine) (p : Nat)
    (hdata : data.drop p = renderLines lines ++ tail) :
    (headersAt p lines).map (fun h => (h.keyText data, h.valueText data)) =
      lines.filterMap HeaderLine.pair := by
  induction lines generalizing p with
  | nil => rfl
  | cons l ls ih =>
      have hnext : data.drop (p + l.text.length + 2) = renderLines ls ++ tail := by
        have htwo : l.text.length + 2 = (l.text ++ crlf).length := by simp [crlf]
        have hsplit : data.drop p = l.text ++ crlf ++ (renderLines ls ++ tail) := by
          rw [hdata]
          simp [renderLines]
        rw [Nat.add_assoc p, ← List.drop_drop, hsplit, htwo, List.drop_left]
      have hrest := ih _ hnext
      cases l with
      | bare line => exact hrest
      | field key pad value =>
          have hline :
              data.drop p =
                key ++ (colonByte :: List.replicate pad spaceByte ++
                  (value ++ (crlf ++ (renderLines ls ++ tail)))) := by
            rw [hdata]
            simp [renderLines, HeaderLine.text]
          have hvalue :
              data.drop (p + key.length + 1 + pad) =
                value ++ (crlf ++ (renderLines ls ++ tail)) := by
            have hlen : (colonByte :: List.replicate pad spaceByte).length = 1 + pad := by
              simp only [List.length_cons, List.length_replicate]
              omega
            have hsum : p + key.length + 1 + pad = p + (key.length + (1 + pad)) := by omega
            rw [hsum, ← List.drop_drop, hline, ← List.drop_drop, List.drop_left, ← hlen,
              List.drop_left]
          simp only [headersAt, List.map_cons, List.filterMap_cons, HeaderLine.pair, hrest]
          congr 2
          · show (data.drop p).take key.length = key
            rw [hline, List.take_left]
          · show (data.drop (p + key.length + 1 + pad)).take value.length = value
            rw [hvalue, List.take_left]

/--
**Header parsing inverts header rendering.**  Both functions find the end of a
rendered head, and the keys and values of its fields, in order and with their
extents, whatever stands behind the head.
-/
theorem parseHttpHeaders_inverts
    {requestLine : List UInt8} {lines : List HeaderLine}
    (hrequest : Clean requestLine) (hlines : ∀ l ∈ lines, l.WellFormed)
    (tail : List UInt8) (len : Nat) :
    ∃ hs : HttpHeaders,
      parseHttpHeaders (renderHead requestLine lines ++ tail) len =
        some (some (hs, (renderHead requestLine lines).length)) ∧
      HttpServiceImplementer.parseHttpHeaders (renderHead requestLine lines ++ tail) len =
        some (some (hs, (renderHead requestLine lines).length)) ∧
      hs.raw = 0 ∧ hs.rawLen = (renderHead requestLine lines).length ∧
      hs.headers = headersAt (requestLine.length + 2) lines ∧
      hs.headers.map
          (fun h =>
            (h.keyText (renderHead requestLine lines ++ tail),
              h.valueText (renderHead requestLine lines ++ tail))) =
        lines.filterMap HeaderLine.pair := by
  have hparse := parseHttpHeaders_renderHead hrequest hlines tail len
  have hdrop :
      (renderHead requestLine lines ++ tail).drop (requestLine.length + 2) =
        renderLines lines ++ (crlf ++ tail) := by
    have htwo : requestLine.length + 2 = (requestLine ++ crlf).length := by simp [crlf]
    have hsplit :
        renderHead requestLine lines ++ tail =
          requestLine ++ crlf ++ (renderLines lines ++ (crlf ++ tail)) := by
      simp [renderHead]
    rw [hsplit, htwo, List.drop_left]
  exact ⟨_, hparse, hparse, rfl, rfl, rfl, headersAt_pairs lines _ hdrop⟩

/-- A colon in a value, an empty key, an empty value, and a line without a colon. -/
theorem parseHttpHeaders_inverts_example :
    ∃ hs : HttpHeaders,
      parseHttpHeaders
          (renderHead [71] [.field [65] 2 [58], .field [] 0 [], .bare [66]] ++ [13, 10, 0]) 0 =
        some (some (hs, 18)) ∧
      hs.headers = [⟨3, 1, 7, 1⟩, ⟨10, 0, 11, 0⟩] := by
  have hrequest : Clean [71] := by decide
  have hlines : ∀ l ∈ [HeaderLine.field [65] 2 [58], .field [] 0 [], .bare [66]],
      l.WellFormed := by decide
  obtain ⟨hs, hparse, -, -, -, hheaders, -⟩ :=
    parseHttpHeaders_inverts hrequest hlines [13, 10, 0] 0
  exact ⟨hs, hparse, hheaders⟩

end Slices

section Fronts

variable {α : Type} {P Q : α → Bool}

/--
Two searches, one for more than the other, end at the same entry if and only
if the first never meets an entry of its own before the second has ended.
-/
theorem find?_eq_find?_iff
    (hQ : ∀ x, Q x = true → P x = true) (l : List α) :
    l.find? P = l.find? Q ↔
      ∀ pre x post, l = pre ++ x :: post → P x = true → Q x = false →
        ∃ y ∈ pre, Q y = true := by
  induction l with
  | nil => simp
  | cons a as ih =>
      cases hPa : P a with
      | false =>
          have hQa : Q a = false := by
            cases hq : Q a with
            | false => rfl
            | true => exact absurd (hQ a hq) (by simp [hPa])
          rw [List.find?_cons_of_neg (by simp [hPa]), List.find?_cons_of_neg (by simp [hQa]), ih]
          constructor
          · intro h pre x post heq hPx hQx
            cases pre with
            | nil =>
                obtain ⟨rfl, rfl⟩ := List.cons_eq_cons.mp heq
                exact absurd hPx (by simp [hPa])
            | cons b pre =>
                obtain ⟨rfl, htail⟩ := List.cons_eq_cons.mp heq
                obtain ⟨y, hy, hQy⟩ := h pre x post htail hPx hQx
                exact ⟨y, List.mem_cons_of_mem _ hy, hQy⟩
          · intro h pre x post heq hPx hQx
            obtain ⟨y, hy, hQy⟩ := h (a :: pre) x post (by rw [heq]; rfl) hPx hQx
            rcases List.mem_cons.mp hy with rfl | hy
            · exact absurd hQy (by simp [hQa])
            · exact ⟨y, hy, hQy⟩
      | true =>
          rw [List.find?_cons_of_pos hPa]
          cases hQa : Q a with
          | true =>
              rw [List.find?_cons_of_pos hQa]
              refine iff_of_true rfl ?_
              intro pre x post heq hPx hQx
              cases pre with
              | nil =>
                  obtain ⟨rfl, -⟩ := List.cons_eq_cons.mp heq
                  exact absurd hQx (by simp [hQa])
              | cons b pre =>
                  obtain ⟨rfl, -⟩ := List.cons_eq_cons.mp heq
                  exact ⟨a, List.mem_cons_self, hQa⟩
          | false =>
              refine iff_of_false ?_ ?_
              · intro h
                exact absurd (List.find?_some h.symm) (by simp [hQa])
              · intro h
                obtain ⟨y, hy, -⟩ := h [] a as rfl hPa hQa
                exact absurd hy (by simp)

end Fronts

section Lookup

/-- The key of the header is `name`, up to ASCII case. -/
def HttpHeader.Whole (data name : List UInt8) (h : HttpHeader) : Prop :=
  h.keyLen = name.length ∧ eqIgnoreCase (h.keyText data) name

instance (data name : List UInt8) (h : HttpHeader) : Decidable (h.Whole data name) :=
  inferInstanceAs (Decidable (_ ∧ _))

/-- The key of the header is shorter than `name` and a front of it, up to ASCII case. -/
def HttpHeader.ProperFront (data name : List UInt8) (h : HttpHeader) : Prop :=
  h.keyLen < name.length ∧ eqIgnoreCase (h.keyText data) (name.take h.keyLen)

instance (data name : List UInt8) (h : HttpHeader) : Decidable (h.ProperFront data name) :=
  inferInstanceAs (Decidable (_ ∧ _))

/-- The first header whose key is `name`. -/
def findWhole (data name : List UInt8) (hs : List HttpHeader) : Option HttpHeader :=
  hs.find? fun h => decide (h.Whole data name)

/-- The scan with `HeaderKeyEqual`, as in `GetContentLength` and `IsConnectionClose`. -/
def findEqual (data name : List UInt8) : List HttpHeader → Option (Option HttpHeader)
  | [] => some none
  | h :: hs =>
      match headerKeyEqual data h name with
      | none => none
      | some true => some (some h)
      | some false => findEqual data name hs

/-- `GetContentLength` reads the value of the header that scan selects. -/
theorem getContentLength_findEqual (data : List UInt8) (hs : List HttpHeader) :
    getContentLength data hs =
      match findEqual data contentLengthName hs with
      | none => none
      | some none => some 0
      | some (some h) => atoi (data.drop h.value) := by
  induction hs with
  | nil => rfl
  | cons h hs ih =>
      rw [getContentLength, findEqual]
      cases headerKeyEqual data h contentLengthName with
      | none => rfl
      | some b =>
          cases b with
          | true => rfl
          | false => exact ih

/-- `HttpRequest::IsMethod`. -/
def HttpRequest.isMethod (data : List UInt8) (req : HttpRequest) (m : List UInt8) :
    Option Bool :=
  strnicmpEq (data.drop req.method) (m ++ [0]) req.methodLen

/-- The bytes of the method. -/
def HttpRequest.methodText (data : List UInt8) (req : HttpRequest) : List UInt8 :=
  (data.drop req.method).take req.methodLen

variable {data name : List UInt8}

theorem frontOf_iff {h : HttpHeader} :
    h.FrontOf data name ↔ h.Whole data name ∨ h.ProperFront data name := by
  rw [HttpHeader.FrontOf, HttpHeader.Whole, HttpHeader.ProperFront, HttpHeader.keyText]
  constructor
  · rintro ⟨hle, heq⟩
    rcases Nat.lt_or_eq_of_le hle with hlt | hlen
    · exact Or.inr ⟨hlt, heq⟩
    · rw [hlen, List.take_length, ← hlen] at heq
      exact Or.inl ⟨hlen, heq⟩
  · rintro (⟨hlen, heq⟩ | ⟨hlt, heq⟩)
    · refine ⟨Nat.le_of_eq hlen, ?_⟩
      rw [hlen] at heq ⊢
      rw [List.take_length]
      exact heq
    · exact ⟨Nat.le_of_lt hlt, heq⟩

/-- A whole key is compared as a whole. -/
theorem headerKeyEqual_eq
    {h : HttpHeader} (hkey : h.key + h.keyLen ≤ data.length)
    (hname : ∀ c ∈ name, c ≠ 0) :
    headerKeyEqual data h name = some (decide (h.Whole data name)) := by
  rw [headerKeyEqual]
  by_cases hlen : h.keyLen = name.length
  · have htext : (h.keyText data).length = name.length :=
      (length_slice hkey).trans hlen
    have hcmp := strnicmpEq_slices ((data.drop h.key).drop h.keyLen) [0] _ name htext hname
    have hsplit : h.keyText data ++ (data.drop h.key).drop h.keyLen = data.drop h.key :=
      List.take_append_drop _ _
    rw [hsplit, htext] at hcmp
    rw [if_neg (not_not.mpr hlen), hcmp, Option.some_inj, decide_eq_decide]
    exact ⟨fun heq => ⟨hlen, heq⟩, And.right⟩
  · have hnot : ¬ h.Whole data name := fun hwhole => hlen hwhole.1
    rw [if_pos hlen, decide_eq_false hnot]

/-- The scan with `HeaderKeyEqual` selects the first header with the whole name. -/
theorem findEqual_eq
    (hname : ∀ c ∈ name, c ≠ 0)
    (hs : List HttpHeader) (hkeys : ∀ x ∈ hs, x.key + x.keyLen ≤ data.length) :
    findEqual data name hs = some (findWhole data name hs) := by
  induction hs with
  | nil => rfl
  | cons h hs ih =>
      have hh := headerKeyEqual_eq (hkeys h List.mem_cons_self) hname
      have hrest := ih (fun x hx => hkeys x (List.mem_cons_of_mem _ hx))
      rw [findWhole] at hrest ⊢
      rw [findEqual, hh, List.find?_cons]
      by_cases hwhole : h.Whole data name
      · simp only [hwhole, decide_true]
      · simp only [hwhole, decide_false]
        exact hrest

/-- Every key that is a proper front of `name` comes behind a whole one. -/
def FrontsBehind (data name : List UInt8) (hs : List HttpHeader) : Prop :=
  ∀ pre h post, hs = pre ++ h :: post → h.ProperFront data name →
    ∃ x ∈ pre, x.Whole data name

/-- `Find` selects the first header with the whole name unless a front of it is met before. -/
theorem find_whole_iff
    {e : Nat} (hlen : e ≤ data.length) (hzero : ∀ c ∈ data.take e, c ≠ 0)
    (hname : ∀ c ∈ name, c ≠ 0) {hs : List HttpHeader}
    (hkeys : ∀ x ∈ hs, x.key + x.keyLen ≤ e) :
    find data name hs = some (findWhole data name hs) ↔ FrontsBehind data name hs := by
  rw [findWhole, FrontsBehind]
  rw [find_eq hlen hzero hname hs hkeys, Option.some_inj, find?_eq_find?_iff]
  · simp only [decide_eq_true_eq, decide_eq_false_iff_not, frontOf_iff]
    constructor
    · intro h pre x post heq hfront
      refine h pre x post heq (Or.inr hfront) ?_
      rintro ⟨hlen', -⟩
      exact absurd hfront.1 (by omega)
    · intro h pre x post heq hfront hwhole
      exact h pre x post heq (hfront.resolve_left hwhole)
  · intro x hx
    simp only [decide_eq_true_eq, frontOf_iff] at hx ⊢
    exact Or.inl hx

/-- The method is shorter than `m` and a front of it, up to ASCII case. -/
def HttpRequest.MethodFront (data : List UInt8) (req : HttpRequest) (m : List UInt8) : Prop :=
  req.methodLen < m.length ∧ eqIgnoreCase (req.methodText data) (m.take req.methodLen)

/-- The method starts with `m` and a NUL, up to ASCII case. -/
def HttpRequest.MethodNul (data : List UInt8) (req : HttpRequest) (m : List UInt8) : Prop :=
  m.length < req.methodLen ∧
    eqIgnoreCase ((req.methodText data).take (m.length + 1)) (m ++ [0])

/-- `IsMethod` is exact unless the method is a front of `m`, or `m` ends inside it at a NUL. -/
theorem isMethod_whole_iff
    {req : HttpRequest} {m : List UInt8}
    (hreq : req.method + req.methodLen ≤ data.length) (hm : ∀ c ∈ m, c ≠ 0) :
    req.isMethod data m = some (decide (eqIgnoreCase (req.methodText data) m)) ↔
      ¬ req.MethodFront data m ∧ ¬ req.MethodNul data m := by
  have htext : (req.methodText data).length = req.methodLen := length_slice hreq
  have hcmp := strnicmpEq_string ((data.drop req.method).drop req.methodLen)
    (req.methodText data) m hm
  have hsplit :
      req.methodText data ++ (data.drop req.method).drop req.methodLen =
        data.drop req.method := List.take_append_drop _ _
  have hne (h : req.methodLen ≠ m.length) : ¬ eqIgnoreCase (req.methodText data) m := by
    intro heq
    have := congrArg List.length heq
    simp only [List.length_map] at this
    omega
  rw [hsplit, htext] at hcmp
  rw [HttpRequest.isMethod, HttpRequest.MethodFront, HttpRequest.MethodNul]
  rw [hcmp, Option.some_inj, decide_eq_decide]
  rcases Nat.lt_trichotomy req.methodLen m.length with hlt | heq | hgt
  · rw [List.take_of_length_le (by omega), List.take_append_of_le_length (by omega)]
    have hnot : ¬ m.length < req.methodLen := by omega
    simp [hlt, hnot, hne (by omega)]
  · rw [List.take_of_length_le (by omega), List.take_append_of_le_length (by omega), heq,
      List.take_length]
    simp
  · have hall : (m ++ [0]).take req.methodLen = m ++ [0] := by
      apply List.take_of_length_le
      simp only [List.length_append, List.length_cons, List.length_nil]
      omega
    rw [hall]
    have hnot : ¬ req.methodLen < m.length := by omega
    simp [hgt, hnot, hne (by omega)]

/--
**When lookups match whole names.**  The scan with `HeaderKeyEqual` always
selects the first header with the whole name.  `Find` does if and only if every
key that is a proper front of the name comes behind such a header, and
`IsMethod` is exact if and only if the method is no proper front of the name
asked for and does not continue it with a NUL.
-/
theorem lookup_whole_iff
    {len headerSize : Nat} {hs : HttpHeaders}
    (hparse : parseHttpHeaders data len = some (some (hs, headerSize)))
    (hname : ∀ c ∈ name, c ≠ 0) :
    findEqual data name hs.headers = some (findWhole data name hs.headers) ∧
      (find data name hs.headers = some (findWhole data name hs.headers) ↔
        FrontsBehind data name hs.headers) ∧
      ∀ (block : List UInt8) (req : HttpRequest), req.method + req.methodLen ≤ block.length →
        (req.isMethod block name =
            some (decide (eqIgnoreCase (req.methodText block) name)) ↔
          ¬ req.MethodFront block name ∧ ¬ req.MethodNul block name) := by
  obtain ⟨e, -, hlen, hzero, hkeys⟩ := parseHttpHeaders_key hparse
  refine ⟨findEqual_eq hname _ ?_, find_whole_iff (by omega) hzero hname hkeys, ?_⟩
  · intro x hx
    have := hkeys x hx
    omega
  · intro block req hreq
    exact isMethod_whole_iff hreq hname

/-- `"G /a HTTP/1.1\r\nContent:3\r\n"` in front of a head for five bytes. -/
def shortNames : List UInt8 :=
  [71, 32, 47, 97, 32, 72, 84, 84, 80, 47, 49, 46, 49, 13, 10] ++ shortKeyLine ++ helloBody

/-- `"GET"`. -/
def getMethod : List UInt8 := [71, 69, 84]

/-- `Content` is found for `Content-Length`, and `G` counts as `GET`. -/
theorem lookup_front :
    ∃ req : HttpRequest,
      onHttpPacket 64 [([71, 95, 47, 97], ())] ⟨1, 0, 0⟩ shortNames shortNames.length =
          .handled () req ∧
        parseHttpHeaders shortNames shortNames.length = some (some (req.headers, req.body)) ∧
        find shortNames contentLengthName req.headers.headers = some (some ⟨15, 7, 23, 1⟩) ∧
        findWhole shortNames contentLengthName req.headers.headers = some ⟨26, 14, 41, 1⟩ ∧
        findEqual shortNames contentLengthName req.headers.headers =
          some (some ⟨26, 14, 41, 1⟩) ∧
        req.isMethod shortNames getMethod = some true ∧
        ¬ eqIgnoreCase (req.methodText shortNames) getMethod := by
  refine ⟨{ socketId := 1
            remoteIP := 0
            remotePort := 0
            method := 0
            methodLen := 1
            path := 2
            pathLen := 2
            headers := ⟨0, 46, [⟨15, 7, 23, 1⟩, ⟨26, 14, 41, 1⟩]⟩
            body := 46
            bodyLen := 3
            keepAlive := true }, ?_⟩
  decide +kernel

theorem lookup_whole_iff_example :
    find (postLine ++ helloBody) contentLengthName [⟨18, 14, 33, 1⟩] =
      some (findWhole (postLine ++ helloBody) contentLengthName [⟨18, 14, 33, 1⟩]) := by
  have hparse :
      parseHttpHeaders (postLine ++ helloBody) 43 =
        some (some (⟨0, 38, [⟨18, 14, 33, 1⟩]⟩, 38)) := by
    decide +kernel
  refine (lookup_whole_iff hparse contentLengthName_ne_zero).2.1.mpr ?_
  intro pre h post heq hfront
  have hmem : h ∈ [(⟨18, 14, 33, 1⟩ : HttpHeader)] := by
    show h ∈ (⟨0, 38, [⟨18, 14, 33, 1⟩]⟩ : HttpHeaders).headers
    rw [heq]
    exact List.mem_append_right _ List.mem_cons_self
  rw [List.mem_singleton.mp hmem] at hfront
  exact absurd hfront (by decide)

end Lookup

end Http
end IocpNetlib
