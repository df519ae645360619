import Mathlib.Data.List.Basic

/-!
# `TokenPos::ParseNode`

The tokenizer of `CMarkup`, over a document in memory.  It goes through the
document character by character; a lead byte makes the character two bytes long.
The byte behind the document is its terminator.  A result of `none` is a run that
goes past the terminator, which the second byte of a character has hidden.
-/

namespace IocpNetlib
namespace Markup

/-- `x_ISWHITESPACE`: `" \t\n\r"`. -/
def isWhitespace (c : UInt8) : Bool :=
  [9, 10, 13, 32].contains c

/-- `x_ISENDNAME`: `" \t\n\r/>"`. -/
def isEndName (c : UInt8) : Bool :=
  [9, 10, 13, 32, 47, 62].contains c

/-- `x_ISNOTSECONDLASTINVAL`: `" \t\n\r\"\'"`. -/
def isNotSecondLastInVal (c : UInt8) : Bool :=
  [9, 10, 13, 32, 34, 39].contains c

/-- `x_ISDOCTYPESTART`: `"EAN"`. -/
def isDocTypeStart (c : UInt8) : Bool :=
  [65, 69, 78].contains c

/-- The first character of the name of an element. -/
def isStartName (c : UInt8) : Bool :=
  decide (0x60 < c) || (decide (0x40 < c) && decide (c < 0x5b)) || c == 0x5f || c == 0x3a

/-- The node types, with the results of `ParseNode` for an end tag and for a bad node. -/
inductive NodeType
  | bad
  | endTag
  | element
  | text
  | whitespace
  | cdataSection
  | processingInstruction
  | comment
  | documentType
deriving DecidableEq, Repr

/-- The messages of the parser. -/
inductive ResultID
  | unterminatedTagSyntax
  | firstTagSyntax
  | exclamationTagSyntax
  | doctypeTagSyntax
  | commentTagSyntax
  | cdataSectionSyntax
  | loneEndTag
  | unendedStartTag
  | rootHasSibling
  | noRootElement
deriving DecidableEq, Repr

/-- The `type` of a node that is not terminated. -/
inductive ResultType
  | tag
  | documentType
  | startTag
  | endTag
  | cdataSection
  | processingInstruction
  | comment
deriving DecidableEq, Repr

/-- What `x_AddResult` is called with. -/
structure Result where
  pszID : ResultID
  type : Option ResultType
  tagname : Option (List UInt8)
  n : Option Int
  n2 : Option Int
deriving DecidableEq, Repr

def Result.at (pszID : ResultID) (n : Int) : Result where
  pszID := pszID
  type := none
  tagname := none
  n := some n
  n2 := none

/-- `nParseFlags`, a field for each of the `PD_` bits. -/
structure ParseFlags where
  openTag : Bool
  bang : Bool
  dash : Bool
  bracket : Bool
  textOrWs : Bool
  docType : Bool
  inQuoteS : Bool
  inQuoteD : Bool
  equals : Bool
  noQuoteVal : Bool
deriving DecidableEq, Repr

def ParseFlags.none : ParseFlags :=
  ⟨false, false, false, false, false, false, false, false, false, false⟩

/-- `nParseFlags != 0`. -/
def ParseFlags.any (f : ParseFlags) : Bool :=
  f.openTag || f.bang || f.dash || f.bracket || f.textOrWs || f.docType || f.inQuoteS ||
    f.inQuoteD || f.equals || f.noQuoteVal

/-- Inside a quoted attribute value. -/
def ParseFlags.inQuote (f : ParseFlags) : Bool :=
  f.inQuoteS || f.inQuoteD

/--
The variables of `ParseNode`.  `nName` is zero outside a name; `m_nNext`, `m_nL`
and `m_nR` are those of the `TokenPos`.
-/
structure Scan where
  m_nNext : Nat
  nParseFlags : ParseFlags
  pFindEnd : Option (List UInt8)
  nNodeType : NodeType
  nEndLen : Nat
  nName : Nat
  cDminus1 : UInt8
  cDminus2 : UInt8
  m_nL : Int
  m_nR : Int
  empty : Bool
  strMeta : List Result
deriving DecidableEq, Repr

/-- A character ends the node, with `m_nNext` behind it or on it, or it does not. -/
inductive Turn
  | done (m_nNext : Nat) (s : Scan)
  | more (s : Scan)
deriving DecidableEq, Repr

/-- At the start of a node. -/
def Scan.start (m_nNext : Nat) (m_nL m_nR : Int) (strMeta : List Result) : Scan where
  m_nNext := m_nNext
  nParseFlags := ParseFlags.none
  pFindEnd := none
  nNodeType := .bad
  nEndLen := 0
  nName := 0
  cDminus1 := 0
  cDminus2 := 0
  m_nL := m_nL
  m_nR := m_nR
  empty := false
  strMeta := strMeta

/-- `FINDNODETYPE` -/
def Scan.findNodeType (s : Scan) (e : List UInt8) (t : NodeType) : Scan :=
  { s with pFindEnd := some e, nEndLen := e.length, nNodeType := t }

/-- `FINDNODEBAD` -/
def Scan.findNodeBad (s : Scan) (e : ResultID) : Scan :=
  { s with
    pFindEnd := some [62]
    nEndLen := 1
    nNodeType := .bad
    strMeta := s.strMeta ++ [Result.at e s.m_nNext] }

/-- A `'>'` at `pD` is the end that is looked for. -/
def Scan.found (doc : List UInt8) (pD : Nat) (s : Scan) : Bool :=
  if s.nEndLen = 1 then true
  else decide (s.nEndLen < pD) &&
    decide ((doc.drop (pD - s.nEndLen + 1)).take (s.nEndLen - 1) =
      (s.pFindEnd.getD []).take (s.nEndLen - 1))

/-- The tag ends with a `'/'` that is not part of an attribute value without quotes. -/
def Scan.emptyTag (s : Scan) : Bool :=
  decide (s.nEndLen = 1 ∧ s.nNodeType = .element ∧ s.cDminus1 = 47) &&
    (s.cDminus2 == 0 || !s.nParseFlags.noQuoteVal || isNotSecondLastInVal s.cDminus2)

/-- A `'>'` while an end is looked for; inside a document type it ends no node. -/
def Scan.close (doc : List UInt8) (pD : Nat) (s : Scan) : Turn :=
  let s' :=
    { s with
      m_nNext := pD + 1
      pFindEnd := if s.found doc pD then none else s.pFindEnd
      empty := s.empty || s.emptyTag
      nParseFlags := { s.nParseFlags with noQuoteVal := false } }
  if s.found doc pD && !s.nParseFlags.docType then .done (pD + 1) s' else .more s'

/-- The quotes of a tag; a bad node has the bit of an element set, too. -/
def ParseFlags.quoteElement (cD cDminus1 : UInt8) (f : ParseFlags) : ParseFlags :=
  if f.inQuote || f.noQuoteVal then
    if cD = 34 ∧ f.inQuoteD then { f with inQuoteD := false }
    else if cD = 39 ∧ f.inQuoteS then { f with inQuoteS := false }
    else if f.noQuoteVal && isWhitespace cD then { f with noQuoteVal := false }
    else f
  else if cD = 34 ∧ f.equals then { f with inQuoteD := !f.inQuoteD, equals := false }
  else if cD = 39 ∧ f.equals then { f with inQuoteS := !f.inQuoteS, equals := false }
  else if cD = 61 ∧ cDminus1 ≠ 61 ∧ ¬ f.equals then { f with equals := true }
  else if f.equals && !isWhitespace cD then
    { f with noQuoteVal := !f.noQuoteVal, equals := false }
  else f

/-- The quotes of a document type. -/
def ParseFlags.quoteDocType (cD : UInt8) (f : ParseFlags) : ParseFlags :=
  if cD = 34 ∧ ¬ f.inQuoteS then { f with inQuoteD := !f.inQuoteD }
  else if cD = 39 ∧ ¬ f.inQuoteD then { f with inQuoteS := !f.inQuoteS }
  else f

/-- `if ( pFindEnd )` -/
def Scan.findEnd (doc : List UInt8) (pD : Nat) (cD : UInt8) (s : Scan) : Turn :=
  if cD = 62 ∧ ¬ s.nParseFlags.inQuote then s.close doc pD
  else if cD = 60 ∧ (s.nNodeType = .text ∨ s.nNodeType = .bad) then .done pD s
  else if s.nNodeType = .element ∨ s.nNodeType = .bad then
    .more
      { s with
        nParseFlags := s.nParseFlags.quoteElement cD s.cDminus1
        cDminus2 := s.cDminus1
        cDminus1 := cD }
  else if s.nNodeType = .documentType then
    .more { s with nParseFlags := s.nParseFlags.quoteDocType cD }
  else .more s

/-- `else if ( nParseFlags )` -/
def Scan.prefixChar (pD : Nat) (cD : UInt8) (s : Scan) : Turn :=
  let f := s.nParseFlags
  if f.textOrWs then
    if cD = 60 then .done pD { s with nNodeType := .whitespace }
    else if !isWhitespace cD then
      .more ({ s with nParseFlags := { f with textOrWs := false } }.findNodeType [60] .text)
    else .more s
  else if f.openTag then
    let s' := { s with nParseFlags := { f with openTag := false } }
    if isStartName cD then .more { s'.findNodeType [62] .element with nName := pD }
    else if cD = 47 then .more { s'.findNodeType [62] .endTag with nName := pD + 1 }
    else if cD = 33 then .more { s' with nParseFlags := { f with openTag := false, bang := true } }
    else if cD = 63 then
      .more { s'.findNodeType [63, 62] .processingInstruction with nName := pD + 1 }
    else .more (s'.findNodeBad .firstTagSyntax)
  else if f.bang then
    let s' := { s with nParseFlags := { f with bang := false } }
    if cD = 45 then .more { s' with nParseFlags := { f with bang := false, dash := true } }
    else if f.docType then
      if isDocTypeStart cD then .more (s'.findNodeType [62] .documentType)
      else .more (s'.findNodeBad .doctypeTagSyntax)
    else if cD = 91 then
      .more { s' with nParseFlags := { f with bang := false, bracket := true } }
    else if cD = 68 then
      .more { s' with nParseFlags := { f with bang := false, docType := true } }
    else .more (s'.findNodeBad .exclamationTagSyntax)
  else if f.dash then
    let s' := { s with nParseFlags := { f with dash := false } }
    if cD = 45 then .more (s'.findNodeType [45, 45, 62] .comment)
    else .more (s'.findNodeBad .commentTagSyntax)
  else if f.bracket then
    let s' := { s with nParseFlags := { f with bracket := false } }
    if cD = 67 then .more (s'.findNodeType [93, 93, 62] .cdataSection)
    else .more (s'.findNodeBad .cdataSectionSyntax)
  else if f.docType then
    if cD = 60 then .more { s with nParseFlags := { f with openTag := true } }
    else if cD = 62 then .done (pD + 1) { s with nNodeType := .documentType }
    else .more s
  else .more s

/-- The first character of a node. -/
def Scan.firstChar (cD : UInt8) (s : Scan) : Turn :=
  if cD = 60 then .more { s with nParseFlags := { s.nParseFlags with openTag := true } }
  else if isWhitespace cD then
    .more
      { s with
        nNodeType := .whitespace
        nParseFlags := { s.nParseFlags with textOrWs := true } }
  else .more (s.findNodeType [60] .text)

/-- The end of a name. -/
def Scan.endName (pD : Nat) (s : Scan) : Scan :=
  { s with m_nL := s.nName, m_nR := (pD : Int) - 1, nName := 0, cDminus2 := 0, cDminus1 := 0 }

/-- A character behind the name, or of a node without one. -/
def Scan.unnamedChar (doc : List UInt8) (pD : Nat) (cD : UInt8) (s : Scan) : Turn :=
  if s.pFindEnd.isSome then s.findEnd doc pD cD
  else if s.nParseFlags.any then s.prefixChar pD cD
  else s.firstChar cD

/-- One turn of the loop on a character that is not the terminator. -/
def Scan.char (doc : List UInt8) (pD : Nat) (cD : UInt8) (s : Scan) : Turn :=
  if s.nName ≠ 0 then
    if isEndName cD then (s.endName pD).unnamedChar doc pD cD else .more s
  else s.unnamedChar doc pD cD

/-- The `type` of a node that is not terminated. -/
def Scan.resultType (s : Scan) : ResultType :=
  if s.nParseFlags.docType ∨ s.nNodeType = .documentType then .documentType
  else if s.nNodeType = .element then .startTag
  else if s.nNodeType = .endTag then .endTag
  else if s.nNodeType = .cdataSection then .cdataSection
  else if s.nNodeType = .processingInstruction then .processingInstruction
  else if s.nNodeType = .comment then .comment
  else .tag

/-- The terminator inside a node. -/
def Scan.terminate (nStart : Nat) (s : Scan) : Scan :=
  if s.nNodeType = .whitespace ∨ s.nNodeType = .text then s
  else
    { s with
      nNodeType := .bad
      strMeta := s.strMeta ++
        [{ pszID := .unterminatedTagSyntax
           type := some s.resultType
           tagname := none
           n := some nStart
           n2 := none }] }

/-- `TokenPos` and `NodePos` after a call of `ParseNode`. -/
structure Node where
  nNodeType : NodeType
  nStart : Nat
  nLength : Nat
  empty : Bool
  m_nL : Int
  m_nR : Int
  strMeta : List Result
deriving DecidableEq, Repr

/-- `TokenPos::m_nNext` after the node. -/
def Node.next (node : Node) : Nat :=
  node.nStart + node.nLength

def Scan.node (nStart m_nNext : Nat) (s : Scan) : Node where
  nNodeType := s.nNodeType
  nStart := nStart
  nLength := m_nNext - nStart
  empty := s.empty
  m_nL := s.m_nL
  m_nR := s.m_nR
  strMeta := s.strMeta

section Loop

variable (lead : UInt8 → Bool) (doc : List UInt8) (nStart : Nat)

/--
The loop of `ParseNode` from the character at `pD` on; with `trail`, the byte
there is the second one of a character.  `some none` is the end of the document.
-/
def parseNodeLoop : Bool → Nat → Scan → List UInt8 → Option (Option Node)
  | true, _, _, [] => none
  | true, pD, s, _ :: rest => parseNodeLoop false (pD + 1) s rest
  | false, pD, s, [] =>
      some (if pD = nStart then none else some ((s.terminate nStart).node nStart pD))
  | false, pD, s, cD :: rest =>
      if cD = 0 then
        some (if pD = nStart then none else some ((s.terminate nStart).node nStart pD))
      else
        match s.char doc pD cD with
        | .done m_nNext s' => some (some (s'.node nStart m_nNext))
        | .more s' => parseNodeLoop (lead cD) (pD + 1) s' rest

/-- `TokenPos::ParseNode` at `m_nNext`. -/
def parseNode (m_nL m_nR : Int) (strMeta : List Result) : Option (Option Node) :=
  parseNodeLoop lead doc nStart false nStart (Scan.start nStart m_nL m_nR strMeta)
    (doc.drop nStart)

end Loop

end Markup
end IocpNetlib
