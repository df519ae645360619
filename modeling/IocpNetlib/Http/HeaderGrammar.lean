import IocpNetlib.Http.Headers

/-!
# Header scanning inverts header rendering

The head of a message is a request line and header lines, each ended by CRLF,
and a blank line.  A line is a field `key ':' spaces value` or has no colon.
Scanning a rendered head finds its end and exactly its fields, with their
extents, whatever bytes follow.
-/

namespace IocpNetlib
namespace Http

open CString

/-- Bytes that may stand inside a line. -/
def Clean (x : List UInt8) : Prop :=
  ∀ c ∈ x, c ≠ 0 ∧ c ≠ 13 ∧ c ≠ 10

instance (x : List UInt8) : Decidable (Clean x) :=
  List.decidableBAll (fun c => c ≠ 0 ∧ c ≠ 13 ∧ c ≠ 10) x

/-- One line of a message head. -/
inductive HeaderLine
  | field (key : List UInt8) (pad : Nat) (value : List UInt8)
  | bare (line : List UInt8)
deriving DecidableEq, Repr

/-- The bytes of a line. -/
def HeaderLine.text : HeaderLine → List UInt8
  | .field key pad value =>
      key ++ colonByte :: (List.replicate pad spaceByte ++ value)
  | .bare line => line

/-- Lines that a scan can tell apart. -/
def HeaderLine.WellFormed : HeaderLine → Prop
  | .field key _ value =>
      Clean key ∧ colonByte ∉ key ∧ Clean value ∧ value.head? ≠ some spaceByte
  | .bare line => Clean line ∧ colonByte ∉ line ∧ line ≠ []

instance (l : HeaderLine) : Decidable l.WellFormed :=
  match l with
  | .field key _ value =>
      inferInstanceAs
        (Decidable
          (Clean key ∧ colonByte ∉ key ∧ Clean value ∧ value.head? ≠ some spaceByte))
  | .bare line =>
      inferInstanceAs (Decidable (Clean line ∧ colonByte ∉ line ∧ line ≠ []))

/-- Header lines as they are sent. -/
def renderLines : List HeaderLine → List UInt8
  | [] => []
  | l :: ls => l.text ++ crlf ++ renderLines ls

/-- A message head as it is sent. -/
def renderHead (requestLine : List UInt8) (lines : List HeaderLine) : List UInt8 :=
  requestLine ++ crlf ++ renderLines lines ++ crlf

/-- The extents of the fields of lines that start at offset `p`. -/
def headersAt : Nat → List HeaderLine → List HttpHeader
  | _, [] => []
  | p, .bare line :: ls => headersAt (p + line.length + 2) ls
  | p, .field key pad value :: ls =>
      { key := p
        keyLen := key.length
        value := p + key.length + 1 + pad
        valueLen := value.length } ::
      headersAt (p + (HeaderLine.field key pad value).text.length + 2) ls

section Lines

theorem Clean.append {x y : List UInt8} (hx : Clean x) (hy : Clean y) :
    Clean (x ++ y) := by
  intro c hc
  rcases List.mem_append.mp hc with h | h
  · exact hx c h
  · exact hy c h

theorem HeaderLine.WellFormed.clean
    {l : HeaderLine} (h : l.WellFormed) : Clean l.text := by
  cases l with
  | bare line => exact h.1
  | field key pad value =>
      obtain ⟨hkey, _, hvalue, _⟩ := h
      refine hkey.append ?_
      intro c hc
      rcases List.mem_cons.mp hc with rfl | hc
      · decide
      · rcases List.mem_append.mp hc with hc | hc
        · rw [List.eq_of_mem_replicate hc]
          decide
        · exact hvalue c hc

theorem HeaderLine.WellFormed.text_ne_nil
    {l : HeaderLine} (h : l.WellFormed) : l.text ≠ [] := by
  cases l with
  | bare line => exact h.2.2
  | field key pad value => simp [HeaderLine.text]

/-- The end of a clean line is found where it is. -/
theorem strstr_crlf_line {line : List UInt8} (h : Clean line) (rest : List UInt8) :
    strstr crlf (line ++ crlf ++ rest) = some (some line.length) := by
  have hfound : strstr crlf (crlf ++ rest) = some (some 0) := rfl
  rw [List.append_assoc]
  have hskip :=
    strstr_skip 13 [10] (crlf ++ rest) line (fun c hc => ⟨(h c hc).2.1, (h c hc).1⟩)
  have hcrlf : crlf = [13, 10] := rfl
  rw [← hcrlf, hfound] at hskip
  simpa using hskip

/-- A CRLF with a line behind it is no blank line. -/
theorem strstr_blankLine_crlf
    {c : UInt8} (hc : c ≠ 13) (rest : List UInt8) :
    strstr blankLine (crlf ++ c :: rest) =
      (strstr blankLine (c :: rest)).map (Option.map (· + 2)) := by
  have h₁ : startsWith blankLine (13 :: 10 :: c :: rest) = some false := by
    simp [startsWith, blankLine, hc]
  have h₂ : startsWith blankLine (10 :: c :: rest) = some false := by
    simp [startsWith, blankLine]
  show strstr blankLine (13 :: 10 :: c :: rest) = _
  rw [strstr_step h₁ (by decide), strstr_step h₂ (by decide), map_map_add]

theorem strstr_blankLine_clean
    {line : List UInt8} (h : Clean line) (rest : List UInt8) :
    strstr blankLine (line ++ rest) =
      (strstr blankLine rest).map (Option.map (· + line.length)) :=
  strstr_skip 13 [10, 13, 10] rest line (fun c hc => ⟨(h c hc).2.1, (h c hc).1⟩)

/-- The blank line behind header lines is the first one. -/
theorem strstr_blankLine_lines
    (tail : List UInt8) (lines : List HeaderLine) (h : ∀ l ∈ lines, l.WellFormed) :
    strstr blankLine (crlf ++ (renderLines lines ++ crlf ++ tail)) =
      some (some (renderLines lines).length) := by
  induction lines with
  | nil => rfl
  | cons l ls ih =>
      have hl := h l List.mem_cons_self
      have hrest := ih (fun k hk => h k (List.mem_cons_of_mem _ hk))
      obtain ⟨c, cs, htext⟩ := List.exists_cons_of_ne_nil hl.text_ne_nil
      have hc : c ≠ 13 := (hl.clean c (by simp [htext])).2.1
      have hsplit :
          renderLines (l :: ls) ++ crlf ++ tail =
            l.text ++ (crlf ++ (renderLines ls ++ crlf ++ tail)) := by
        simp [renderLines]
      have hlength :
          (renderLines (l :: ls)).length = (renderLines ls).length + (l.text.length + 2) := by
        simp only [renderLines, List.length_append, crlf, List.length_cons, List.length_nil]
        omega
      have hcons :
          crlf ++ (l.text ++ (crlf ++ (renderLines ls ++ crlf ++ tail))) =
            crlf ++ c :: (cs ++ (crlf ++ (renderLines ls ++ crlf ++ tail))) := by
        rw [htext]
        rfl
      rw [hsplit, hcons, strstr_blankLine_crlf hc, ← List.cons_append, ← htext,
        strstr_blankLine_clean hl.clean, hrest, map_map_add, hlength]
      rfl

/-- The colon of a field is found behind its key. -/
theorem memchr_field
    {key : List UInt8} (h : colonByte ∉ key) (value rest : List UInt8) :
    memchr colonByte (key ++ colonByte :: value ++ rest)
        (key ++ colonByte :: value).length =
      some (some key.length) := by
  have hlen : (key ++ colonByte :: value).length = key.length + (value.length + 1) := by
    simp
  have happ := memchr_append colonByte (colonByte :: (value ++ rest)) key h
    (value.length + 1)
  have hhead :
      memchr colonByte (colonByte :: (value ++ rest)) (value.length + 1) =
        some (some 0) := by
    simp [memchr]
  rw [hlen, List.append_assoc, List.cons_append, happ, hhead]
  simp

/-- The padding of a value is skipped, and no more. -/
theorem takeWhile_pad
    (pad : Nat) {value : List UInt8} (h : value.head? ≠ some spaceByte) :
    ((List.replicate pad spaceByte ++ value).takeWhile (· = spaceByte)).length = pad := by
  induction pad with
  | zero =>
      cases value with
      | nil => rfl
      | cons c cs =>
          have hc : c ≠ spaceByte := fun he => h (by simp [he])
          simp [hc]
  | succ n ih =>
      simpa [List.replicate_succ] using ih

end Lines

section Parse

variable {data : List UInt8}

/-- The header read from a field line. -/
theorem headerOfLine_field
    {p : Nat} {key value : List UInt8} {pad : Nat} (rest : List UInt8)
    (hdata : data.drop p = (HeaderLine.field key pad value).text ++ rest)
    (hvalue : value.head? ≠ some spaceByte) :
    headerOfLine data p (p + key.length)
        (p + (HeaderLine.field key pad value).text.length) =
      { key := p
        keyLen := key.length
        value := p + key.length + 1 + pad
        valueLen := value.length } := by
  have htext :
      (HeaderLine.field key pad value).text.length = key.length + 1 + pad + value.length := by
    simp only [HeaderLine.text, List.length_append, List.length_cons, List.length_replicate]
    omega
  have hslice :
      (data.drop (p + key.length + 1)).take
          (p + (HeaderLine.field key pad value).text.length - (p + key.length + 1)) =
        List.replicate pad spaceByte ++ value := by
    have hdrop :
        data.drop (p + key.length + 1) = List.replicate pad spaceByte ++ value ++ rest := by
      rw [Nat.add_assoc p, ← List.drop_drop, hdata]
      simp [HeaderLine.text, List.drop_append]
    have hsize :
        p + (HeaderLine.field key pad value).text.length - (p + key.length + 1) =
          (List.replicate pad spaceByte ++ value).length := by
      rw [htext, List.length_append, List.length_replicate]
      omega
    rw [hdrop, hsize, List.take_left]
  have hskip :
      skipSpaces data (p + key.length + 1)
        (p + (HeaderLine.field key pad value).text.length) = pad := by
    rw [skipSpaces]
    rw [hslice, takeWhile_pad pad hvalue]
  rw [headerOfLine]
  rw [hskip, htext]
  congr 1 <;> omega

/-- The line loop reads exactly the fields of the lines in front of it. -/
theorem parseHeaderLines_render
    (tail : List UInt8) (lines : List HeaderLine) (p : Nat) (h : ∀ l ∈ lines, l.WellFormed)
    (hdata : data.drop p = renderLines lines ++ crlf ++ tail) :
    parseHeaderLines data (p + (renderLines lines).length - 2) p =
      some (headersAt p lines) := by
  induction lines generalizing p with
  | nil =>
      rw [parseHeaderLines, if_neg (by simp [renderLines])]
      rfl
  | cons l ls ih =>
      have hl := h l List.mem_cons_self
      have hpos := List.length_pos_iff.mpr hl.text_ne_nil
      have hlength :
          (renderLines (l :: ls)).length = l.text.length + 2 + (renderLines ls).length := by
        simp only [renderLines, crlf, List.length_append, List.length_cons, List.length_nil]
      have hsplit :
          data.drop p = l.text ++ crlf ++ (renderLines ls ++ crlf ++ tail) := by
        rw [hdata]
        simp [renderLines]
      have hnext : data.drop (p + l.text.length + 2) = renderLines ls ++ crlf ++ tail := by
        rw [Nat.add_assoc p, ← List.drop_drop, hsplit]
        have htwo : l.text.length + 2 = (l.text ++ crlf).length := by simp [crlf]
        rw [htwo, List.drop_left]
      have hend :
          p + (renderLines (l :: ls)).length - 2 =
            (p + l.text.length + 2) + (renderLines ls).length - 2 := by
        omega
      have hrest :=
        ih (p + l.text.length + 2) (fun k hk => h k (List.mem_cons_of_mem _ hk)) hnext
      rw [← hend] at hrest
      rw [parseHeaderLines, if_pos (by omega), hsplit, strstr_crlf_line hl.clean]
      simp only
      cases l with
      | bare line =>
          have hnone :
              memchr colonByte
                  ((HeaderLine.bare line).text ++ crlf ++ (renderLines ls ++ crlf ++ tail))
                  (HeaderLine.bare line).text.length = some none := by
            rw [List.append_assoc]
            exact memchr_none hl.2.1 _
          rw [hnone]
          exact hrest
      | field key pad value =>
          have hcolon :
              memchr colonByte
                  ((HeaderLine.field key pad value).text ++ crlf ++
                    (renderLines ls ++ crlf ++ tail))
                  (HeaderLine.field key pad value).text.length = some (some key.length) := by
            rw [List.append_assoc]
            exact memchr_field hl.2.1 _ _
          rw [hcolon]
          simp only [hrest, Option.map_some, headersAt]
          rw [headerOfLine_field
            (crlf ++ (renderLines ls ++ crlf ++ tail))
            (by rw [hsplit, List.append_assoc]) hl.2.2.2]

end Parse

/-- **Scanning a rendered head finds its end and exactly its fields.** -/
theorem parseHttpHeaders_renderHead
    {requestLine : List UInt8} {lines : List HeaderLine}
    (hrequest : Clean requestLine) (hlines : ∀ l ∈ lines, l.WellFormed)
    (tail : List UInt8) (len : Nat) :
    parseHttpHeaders (renderHead requestLine lines ++ tail) len =
      some (some
        ({ raw := 0
           rawLen := (renderHead requestLine lines).length
           headers := headersAt (requestLine.length + 2) lines },
          (renderHead requestLine lines).length)) := by
  have hdata :
      renderHead requestLine lines ++ tail =
        requestLine ++ (crlf ++ (renderLines lines ++ crlf ++ tail)) := by
    simp [renderHead]
  have hhead :
      (renderHead requestLine lines).length =
        (renderLines lines).length + requestLine.length + 4 := by
    simp only [renderHead, List.length_append, crlf, List.length_cons, List.length_nil]
    omega
  have hend :
      strstr blankLine (renderHead requestLine lines ++ tail) =
        some (some ((renderLines lines).length + requestLine.length)) := by
    rw [hdata, strstr_blankLine_clean hrequest, strstr_blankLine_lines tail lines hlines]
    rfl
  have hfirst :
      strstr crlf (renderHead requestLine lines ++ tail) =
        some (some requestLine.length) := by
    rw [hdata, ← List.append_assoc]
    exact strstr_crlf_line hrequest _
  have hdrop :
      (renderHead requestLine lines ++ tail).drop (requestLine.length + 2) =
        renderLines lines ++ crlf ++ tail := by
    have htwo : requestLine.length + 2 = (requestLine ++ crlf).length := by simp [crlf]
    rw [hdata, ← List.append_assoc, htwo, List.drop_left]
  have hloop :=
    parseHeaderLines_render tail lines (requestLine.length + 2) hlines hdrop
  have hstop :
      requestLine.length + 2 + (renderLines lines).length - 2 =
        (renderLines lines).length + requestLine.length := by
    omega
  rw [hstop] at hloop
  rw [parseHttpHeaders]
  rw [hend, hfirst]
  simp only [hloop, Option.map_some, hhead]

end Http
end IocpNetlib
