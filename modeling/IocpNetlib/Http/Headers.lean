import IocpNetlib.Lib.CString

/-!
# Scanning HTTP headers

The header scan of the splitter (`ParseHttpHeaders`, `GetContentLength`,
`IsConnectionClose`).  `data` is the block the scan starts in; pointers into it
are offsets.  The result `none` is a read behind the end of the block.
-/

namespace IocpNetlib
namespace Http

open CString

/-- `"\r\n"`. -/
def crlf : List UInt8 := [13, 10]

/-- `"\r\n\r\n"`. -/
def blankLine : List UInt8 := [13, 10, 13, 10]

/-- `':'`. -/
def colonByte : UInt8 := 58

/-- `' '`. -/
def spaceByte : UInt8 := 32

/-- `"Content-Length"`. -/
def contentLengthName : List UInt8 :=
  [67, 111, 110, 116, 101, 110, 116, 45, 76, 101, 110, 103, 116, 104]

/-- `"Connection"`. -/
def connectionName : List UInt8 :=
  [67, 111, 110, 110, 101, 99, 116, 105, 111, 110]

theorem contentLengthName_ne_zero : ∀ c ∈ contentLengthName, c ≠ 0 := by
  simp [contentLengthName]

theorem connectionName_ne_zero : ∀ c ∈ connectionName, c ≠ 0 := by
  simp [connectionName]

/-- `"close"`. -/
def closeValue : List UInt8 := [99, 108, 111, 115, 101]

/-- One header; `key` and `value` are offsets into the scanned block. -/
structure HttpHeader where
  key : Nat
  keyLen : Nat
  value : Nat
  valueLen : Nat
deriving DecidableEq, Repr

/-- The headers of one message; `raw` is the offset of its first byte. -/
structure HttpHeaders where
  raw : Nat
  rawLen : Nat
  headers : List HttpHeader
deriving DecidableEq, Repr

/-- `while (v < lineEnd && *v == ' ') ++v;`, as the number of steps. -/
def skipSpaces (data : List UInt8) (v lineEnd : Nat) : Nat :=
  (((data.drop v).take (lineEnd - v)).takeWhile (· = spaceByte)).length

/-- The header of the line from `p` to `lineEnd` whose colon is at `colon`. -/
def headerOfLine (data : List UInt8) (p colon lineEnd : Nat) : HttpHeader :=
  { key := p
    keyLen := colon - p
    value := colon + 1 + skipSpaces data (colon + 1) lineEnd
    valueLen := lineEnd - (colon + 1 + skipSpaces data (colon + 1) lineEnd) }

/-- The loop `while (p < end)` of `ParseHttpHeaders`. -/
def parseHeaderLines (data : List UInt8) (e p : Nat) : Option (List HttpHeader) :=
  if p < e then
    match strstr crlf (data.drop p) with
    | none => none
    | some none => some []
    | some (some i) =>
        match memchr colonByte (data.drop p) i with
        | none => none
        | some none => parseHeaderLines data e (p + i + 2)
        | some (some c) =>
            (parseHeaderLines data e (p + i + 2)).map
              (headerOfLine data p (p + c) (p + i) :: ·)
  else some []
termination_by e - p

/--
`ParseHttpHeaders`: the headers and `headerSize`, or `some none` when it
returns `false`.  The second argument is not used, as in the source.
-/
def parseHttpHeaders (data : List UInt8) (_len : Nat) :
    Option (Option (HttpHeaders × Nat)) :=
  match strstr blankLine data with
  | none => none
  | some none => some none
  | some (some e) =>
      match strstr crlf data with
      | none => none
      | some none => some none
      | some (some first) =>
          (parseHeaderLines data e (first + 2)).map fun hs =>
            some ({ raw := 0, rawLen := e + 4, headers := hs }, e + 4)

/-- The scan does not look at the number of received bytes. -/
theorem parseHttpHeaders_len (data : List UInt8) (len len' : Nat) :
    parseHttpHeaders data len = parseHttpHeaders data len' := rfl

/-- `HeaderKeyEqual`. -/
def headerKeyEqual (data : List UInt8) (h : HttpHeader) (key : List UInt8) :
    Option Bool :=
  if h.keyLen ≠ key.length then some false
  else strnicmpEq (data.drop h.key) (key ++ [0]) key.length

/-- `GetContentLength`. -/
def getContentLength (data : List UInt8) : List HttpHeader → Option Int
  | [] => some 0
  | h :: hs =>
      match headerKeyEqual data h contentLengthName with
      | none => none
      | some true => atoi (data.drop h.value)
      | some false => getContentLength data hs

/-- `IsConnectionClose`. -/
def isConnectionClose (data : List UInt8) : List HttpHeader → Option Bool
  | [] => some false
  | h :: hs =>
      match headerKeyEqual data h connectionName with
      | none => none
      | some false => isConnectionClose data hs
      | some true =>
          match strnicmpEq (data.drop h.value) (closeValue ++ [0]) 5 with
          | none => none
          | some true => some true
          | some false => isConnectionClose data hs

end Http
end IocpNetlib
