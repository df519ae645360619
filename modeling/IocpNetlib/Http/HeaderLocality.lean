import IocpNetlib.Http.Headers

/-!
# The header scan looks at the head only

A scan that finds a head reads no byte behind the blank line, and the keys it
records lie in front of it.  A second scan of the same head therefore finds
the same headers, whatever stands behind the head.
-/

namespace IocpNetlib
namespace Http

open CString

section Locality

variable {data : List UInt8}

theorem drop_take_append
    (rest : List UInt8) {n p : Nat} (hn : p ≤ n) (hp : p ≤ data.length) :
    (data.take n ++ rest).drop p = (data.drop p).take (n - p) ++ rest := by
  have hle : p ≤ (data.take n).length := by
    rw [List.length_take]
    omega
  rw [List.drop_append_of_le_length hle, List.drop_take]

/-- Where the blank line stands, in front of the end of the block. -/
theorem blankLine_le {e : Nat} (h : strstr blankLine data = some (some e)) :
    e + 4 ≤ data.length := by
  have hle := strstr_le h
  simpa [blankLine] using hle

/-- The end of the line that starts at `p` lies at the blank line or before. -/
theorem lineEnd_of_blankLine
    {e p : Nat} (h : strstr blankLine data = some (some e)) (hp : p ≤ e) :
    ∃ i, strstr crlf (data.drop p) = some (some i) ∧ p + i ≤ e := by
  obtain ⟨i, hi, hle⟩ := strstr_front (a := crlf) (b := crlf) (strstr_drop h hp)
  exact ⟨i, hi, by omega⟩

theorem headerOfLine_local
    (rest : List UInt8) {n p colon lineEnd : Nat}
    (hcolon : colon < lineEnd) (hn : lineEnd ≤ n) (hlen : lineEnd ≤ data.length) :
    headerOfLine (data.take n ++ rest) p colon lineEnd =
      headerOfLine data p colon lineEnd := by
  have hslice :
      ((data.take n ++ rest).drop (colon + 1)).take (lineEnd - (colon + 1)) =
        (data.drop (colon + 1)).take (lineEnd - (colon + 1)) := by
    have hle :
        lineEnd - (colon + 1) ≤ ((data.drop (colon + 1)).take (n - (colon + 1))).length := by
      rw [List.length_take, List.length_drop]
      omega
    rw [drop_take_append rest (by omega) (by omega), List.take_append_of_le_length hle,
      List.take_take, Nat.min_eq_left (by omega)]
  have hskip :
      skipSpaces (data.take n ++ rest) (colon + 1) lineEnd =
        skipSpaces data (colon + 1) lineEnd := by
    unfold skipSpaces
    rw [hslice]
  unfold headerOfLine
  rw [hskip]

theorem parseHeaderLines_local
    (rest : List UInt8) {e n : Nat}
    (h : strstr blankLine data = some (some e)) (hn : e + 4 ≤ n) (p : Nat) :
    parseHeaderLines (data.take n ++ rest) e p = parseHeaderLines data e p := by
  have hlen := blankLine_le h
  induction hk : e - p using Nat.strongRecOn generalizing p with
  | ind k ih =>
      rw [parseHeaderLines, parseHeaderLines]
      by_cases hp : p < e
      · rw [if_pos hp, if_pos hp]
        obtain ⟨i, hi, hie⟩ := lineEnd_of_blankLine h (Nat.le_of_lt hp)
        have hile := strstr_le hi
        simp only [crlf, List.length_cons, List.length_nil, List.length_drop] at hile
        have hi' : strstr crlf ((data.take n ++ rest).drop p) = some (some i) := by
          rw [drop_take_append rest (by omega) (by omega)]
          refine strstr_local rest hi ?_ (by omega)
          simp only [crlf, List.length_cons, List.length_nil]
          omega
        have hc :
            memchr colonByte ((data.take n ++ rest).drop p) i =
              memchr colonByte (data.drop p) i := by
          rw [drop_take_append rest (by omega) (by omega)]
          exact memchr_local colonByte rest _ (by omega)
            (by rw [List.length_drop]; omega)
        have hnext := ih (e - (p + i + 2)) (by omega) (p + i + 2) rfl
        rw [hi, hi']
        simp only [hc, hnext]
        cases hcolon : memchr colonByte (data.drop p) i with
        | none => rfl
        | some o =>
            cases o with
            | none => rfl
            | some c =>
                have hlt := memchr_lt hcolon
                have hline :
                    headerOfLine (data.take n ++ rest) p (p + c) (p + i) =
                      headerOfLine data p (p + c) (p + i) :=
                  headerOfLine_local rest (by omega) (by omega) (by omega)
                simp only [hline]
      · rw [if_neg hp, if_neg hp]

/-- **A scan that finds a head does not depend on the bytes behind it.** -/
theorem parseHttpHeaders_local
    (rest : List UInt8) {len headerSize n : Nat} {hs : HttpHeaders}
    (h : parseHttpHeaders data len = some (some (hs, headerSize)))
    (hn : headerSize ≤ n) (len' : Nat) :
    parseHttpHeaders (data.take n ++ rest) len' = some (some (hs, headerSize)) := by
  rw [parseHttpHeaders] at h ⊢
  split at h
  · exact absurd h (by simp)
  · exact absurd h (by simp)
  · next e he =>
      obtain ⟨first, hfirst, hle⟩ := lineEnd_of_blankLine he (Nat.zero_le e)
      rw [List.drop_zero] at hfirst
      rw [hfirst] at h
      simp only at h
      obtain ⟨l, hl, heq⟩ := Option.map_eq_some_iff.mp h
      simp only [Option.some.injEq, Prod.mk.injEq] at heq
      obtain ⟨rfl, rfl⟩ := heq
      have he' : strstr blankLine (data.take n ++ rest) = some (some e) :=
        strstr_local rest he hn (by omega)
      have hfirst' : strstr crlf (data.take n ++ rest) = some (some first) :=
        strstr_local rest hfirst
          (by simp only [crlf, List.length_cons, List.length_nil]; omega) (by omega)
      rw [he', hfirst']
      simp only [parseHeaderLines_local rest he hn, hl, Option.map_some]

/-- The keys of the lines from `p` on lie between `p` and the blank line. -/
theorem parseHeaderLines_key
    {e : Nat} (h : strstr blankLine data = some (some e)) (p : Nat) :
    ∀ hs : List HttpHeader, parseHeaderLines data e p = some hs →
      ∀ x ∈ hs, x.key + x.keyLen ≤ e := by
  induction hk : e - p using Nat.strongRecOn generalizing p with
  | ind k ih =>
      intro hs hparse
      rw [parseHeaderLines] at hparse
      by_cases hp : p < e
      · rw [if_pos hp] at hparse
        obtain ⟨i, hi, hie⟩ := lineEnd_of_blankLine h (Nat.le_of_lt hp)
        have hnext := ih (e - (p + i + 2)) (by omega) (p + i + 2) rfl
        rw [hi] at hparse
        simp only at hparse
        split at hparse
        · exact absurd hparse (by simp)
        · exact hnext _ hparse
        · next c hcolon =>
            have hlt := memchr_lt hcolon
            obtain ⟨l, hl, rfl⟩ := Option.map_eq_some_iff.mp hparse
            rw [List.forall_mem_cons]
            refine ⟨?_, hnext _ hl⟩
            show p + (p + c - p) ≤ e
            omega
      · rw [if_neg hp] at hparse
        simp only [Option.some.injEq] at hparse
        subst hparse
        simp

/-- What is known of the headers a scan finds. -/
theorem parseHttpHeaders_key
    {len headerSize : Nat} {hs : HttpHeaders}
    (h : parseHttpHeaders data len = some (some (hs, headerSize))) :
    ∃ e, headerSize = e + 4 ∧ e + 4 ≤ data.length ∧ (∀ c ∈ data.take e, c ≠ 0) ∧
      ∀ x ∈ hs.headers, x.key + x.keyLen ≤ e := by
  rw [parseHttpHeaders] at h
  split at h
  · exact absurd h (by simp)
  · exact absurd h (by simp)
  · next e he =>
      split at h
      · exact absurd h (by simp)
      · exact absurd h (by simp)
      · obtain ⟨l, hl, heq⟩ := Option.map_eq_some_iff.mp h
        simp only [Option.some.injEq, Prod.mk.injEq] at heq
        obtain ⟨rfl, rfl⟩ := heq
        exact ⟨e, rfl, blankLine_le he, strstr_ne_zero he, parseHeaderLines_key he _ _ hl⟩

/-- A body length is a value of `int`. -/
theorem getContentLength_range
    {n : Int} {hs : List HttpHeader} (h : getContentLength data hs = some n) :
    -2 ^ 31 ≤ n ∧ n ≤ 2 ^ 31 - 1 := by
  induction hs with
  | nil =>
      simp only [getContentLength, Option.some.injEq] at h
      omega
  | cons _ _ ih =>
      rw [getContentLength] at h
      split at h
      · exact absurd h (by simp)
      · exact atoi_range h
      · exact ih h

end Locality

end Http
end IocpNetlib
