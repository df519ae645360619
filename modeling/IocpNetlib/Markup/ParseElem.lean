import IocpNetlib.Markup.Tiling

/-!
# `CMarkup::x_ParseElem`

The parser puts the elements of a document into an array of positions, which are
linked by index: each knows its parent, its first child, and its siblings; the
index `0` stands for the document itself, and for no element.  What the array
holds before does not matter, it is an argument.  Texts of `m_strResult` are the
calls of `x_AddResult`.
-/

namespace IocpNetlib
namespace Markup

/-- `x_ISENDPATHWORD`: `" =/[]"`. -/
def isEndPathWord (c : UInt8) : Bool :=
  [32, 47, 61, 91, 93].contains c

/-- `MNF_FIRST` -/
def mnfFirst : UInt32 := 0x080000

/-- `MNF_NONENDED` -/
def mnfNonEnded : UInt32 := 0x100000

/-- `MNF_ILLDATA` -/
def mnfIllData : UInt32 := 0x200000

/-- `MNF_ILLFORMED` -/
def mnfIllFormed : UInt32 := 0x800000

structure ElemPos where
  nStart : Nat
  nLength : Nat
  nStartTagLen : Nat
  nEndTagLen : Nat
  nFlags : UInt32
  iElemParent : Nat
  iElemChild : Nat
  iElemNext : Nat
  iElemPrev : Nat
deriving DecidableEq, Repr

namespace ElemPos

/-- `StartTagLen` has 22 bits. -/
def setStartTagLen (e : ElemPos) (n : Nat) : ElemPos :=
  { e with nStartTagLen := n % 0x400000 }

/-- `EndTagLen` has 10 bits. -/
def setEndTagLen (e : ElemPos) (n : Nat) : ElemPos :=
  { e with nEndTagLen := n % 0x400 }

/-- `StartContent` -/
def startContent (e : ElemPos) : Nat :=
  e.nStart + e.nStartTagLen

/-- `StartAfter` -/
def startAfter (e : ElemPos) : Nat :=
  e.nStart + e.nLength

/-- `Level` -/
def level (e : ElemPos) : UInt32 :=
  e.nFlags &&& 0xffff

/-- `SetLevel` -/
def setLevel (e : ElemPos) (nLev : UInt32) : ElemPos :=
  { e with nFlags := (e.nFlags &&& 0xffff0000) ||| nLev }

/-- `nFlags |= n` -/
def addFlags (e : ElemPos) (n : UInt32) : ElemPos :=
  { e with nFlags := e.nFlags ||| n }

/-- `ClearVirtualParent` -/
def clear : ElemPos :=
  ⟨0, 0, 0, 0, 0, 0, 0, 0, 0⟩

end ElemPos

/-- The array of positions; `ELEM(i)` is `elems i`. -/
abbrev Elems := Nat → ElemPos

/-- A new `ELEM(i)`. -/
def Elems.set (elems : Elems) (i : Nat) (e : ElemPos) : Elems :=
  fun j => if j = i then e else elems j

/-- An update of `ELEM(i)`. -/
def Elems.modify (elems : Elems) (i : Nat) (f : ElemPos → ElemPos) : Elems :=
  elems.set i (f (elems i))

/-- The variables of `x_ParseElem`; the names of the open elements are the `ElemStack`. -/
structure ParseState where
  elems : Elems
  m_iPosFree : Nat
  iPosRoot : Nat
  iPos : Nat
  iPosParent : Nat
  elemstack : List (List UInt8)
  m_strResult : List Result

/-- `GetTokenText` -/
def Node.token (doc : List UInt8) (node : Node) : List UInt8 :=
  (doc.drop node.m_nL.toNat).take (node.m_nR - node.m_nL + 1).toNat

/-- An upper-case letter for a lower-case one. -/
def upperCase (c : UInt8) : UInt8 :=
  if 97 ≤ c ∧ c ≤ 122 then c - 32 else c

/-- `x_StrNCmp` over the characters of `p1`: whether it finds no difference. -/
def strNCmp (bIgnoreCase : Bool) : Bool → List UInt8 → List UInt8 → Bool
  | _, [], _ => true
  | bNonAsciiFound, c1 :: p1, p2 =>
      let c2 := p2.headD 0
      if c1 ≠ c2 then
        if !bIgnoreCase || bNonAsciiFound || upperCase c1 != upperCase c2 then false
        else strNCmp bIgnoreCase bNonAsciiFound p1 p2.tail
      else strNCmp bIgnoreCase (bNonAsciiFound || decide (127 < c1)) p1 p2.tail

/-- `TokenPos::Match` of the token with a name. -/
def matchName (bIgnoreCase : Bool) (token szName : List UInt8) : Bool :=
  strNCmp bIgnoreCase false token szName &&
    (decide (szName.length ≤ token.length) || isEndPathWord (szName.getD token.length 0))

/-- The links of a new element, behind the last child of its parent. -/
def linkElem (elems : Elems) (iPosParent iPos : Nat) (elem : ElemPos) : Elems :=
  let iPosFirst := (elems iPosParent).iElemChild
  if iPosFirst ≠ 0 then
    let iPosLast := (elems iPosFirst).iElemPrev
    let elems := elems.modify iPosLast fun e => { e with iElemNext := iPos }
    let elems := elems.set iPos { elem with iElemPrev := iPosLast, nFlags := 0 }
    Elems.modify elems iPosFirst fun e => { e with iElemPrev := iPos }
  else
    let elems := elems.modify iPosParent fun e => { e with iElemChild := iPos }
    elems.set iPos { elem with iElemPrev := iPos, nFlags := mnfFirst }

/-- What the start tag says about its element. -/
def ElemPos.startTag (nLev : UInt32) (node : Node) (e : ElemPos) : ElemPos :=
  let e :=
    { e.setLevel nLev with iElemChild := 0, nStart := node.nStart }.setStartTagLen node.nLength
  if node.empty then { e.setEndTagLen 0 with nLength := node.nLength } else e

/-- A start tag. -/
def ParseState.startTag (doc : List UInt8) (nRootDepth : UInt32) (node : Node) (s : ParseState) :
    ParseState :=
  let iPos := s.m_iPosFree
  let elems := linkElem s.elems s.iPosParent iPos
    { s.elems iPos with iElemParent := s.iPosParent, iElemNext := 0 }
  let nLev := nRootDepth + s.elemstack.length.toUInt32
  { s with
    elems := elems.modify iPos (ElemPos.startTag nLev node)
    m_iPosFree := iPos + 1
    iPosRoot := if s.iPosRoot = 0 then iPos else s.iPosRoot
    iPos := if node.empty then s.iPosParent else iPos
    iPosParent := if node.empty then s.iPosParent else iPos
    elemstack := if node.empty then s.elemstack else node.token doc :: s.elemstack }

/-- The search for the start tag of an end tag: `nMatchLevel` and `iPosMatch`. -/
def findMatch (bIgnoreCase : Bool) (elems : Elems) (token : List UInt8) :
    List (List UInt8) → Nat → Nat × Nat
  | [], iPosMatch => (0, iPosMatch)
  | strTagName :: rest, iPosMatch =>
      if matchName bIgnoreCase token strTagName then (rest.length + 1, iPosMatch)
      else findMatch bIgnoreCase elems token rest (elems iPosMatch).iElemParent

/-- The children of an element without an end go behind it; `none` is a loop that does not end. -/
def moveChildren (iPosParent : Nat) : Nat → Nat → Nat → Elems → Option Elems
  | 0, _, _, _ => none
  | fuel + 1, iPos, iPosChild, elems =>
      if iPosChild = 0 then some elems
      else
        let elems := elems.modify iPosChild fun e =>
          { e with iElemParent := iPosParent, iElemPrev := iPos }
        let elems := elems.modify iPos fun e => { e with iElemNext := iPosChild }
        moveChildren iPosParent fuel iPosChild (elems iPosChild).iElemNext elems

/-- The element at `iPos` ends with its start tag, and `MNF_ILLDATA` goes to its parent. -/
def Elems.nonEnded (elems : Elems) (iPos : Nat) : Elems :=
  let pElem := elems iPos
  let elems := elems.modify iPos fun e =>
    { (e.setEndTagLen 0).addFlags mnfNonEnded with iElemChild := 0, nLength := e.nStartTagLen }
  if pElem.nFlags &&& mnfIllData ≠ 0 then
    Elems.modify (Elems.modify elems iPos fun e => { e with nFlags := e.nFlags ^^^ mnfIllData })
      pElem.iElemParent fun e => e.addFlags mnfIllData
  else elems

/-- An element with no end tag. -/
def ParseState.unended (nOffset2 : Int) (s : ParseState) : Option ParseState :=
  let pElem := s.elems s.iPos
  let iPosParent := pElem.iElemParent
  (moveChildren iPosParent (s.m_iPosFree + 1) s.iPos pElem.iElemChild
      (s.elems.nonEnded s.iPos)).map fun elems =>
    { s with
      elems := elems
      iPos := iPosParent
      iPosParent := iPosParent
      elemstack := s.elemstack.tail
      m_strResult := s.m_strResult ++
        [{ pszID := .unendedStartTag
           type := none
           tagname := some (s.elemstack.headD [])
           n := some pElem.nStart
           n2 := some nOffset2 }] }

/-- The elements that are not ended, down to `nMatchLevel`. -/
def unendedLoop (nOffset2 : Int) (nMatchLevel : Nat) : Nat → ParseState → Option ParseState
  | 0, s => some s
  | n + 1, s =>
      if nMatchLevel < s.elemstack.length then
        match s.unended nOffset2 with
        | none => none
        | some s => unendedLoop nOffset2 nMatchLevel n s
      else some s

/-- What precedes the pop of a matched end tag, and the end of the document. -/
def ParseState.closeTo (iVirtualParent nMatchLevel : Nat) (nOffset2 : Int) (s : ParseState) :
    Option ParseState :=
  let s :=
    if nMatchLevel < s.elemstack.length then
      { s with elems := s.elems.modify iVirtualParent fun e => e.addFlags mnfIllFormed }
    else s
  unendedLoop nOffset2 nMatchLevel s.elemstack.length s

/-- `MNF_ILLFORMED` of the virtual parent and `MNF_ILLDATA` of the element. -/
def ParseState.illFormed (iVirtualParent : Nat) (s : ParseState) : ParseState :=
  { s with
    elems := Elems.modify (s.elems.modify iVirtualParent fun e => e.addFlags mnfIllFormed) s.iPos
      fun e => e.addFlags mnfIllData }

/-- An end tag. -/
def ParseState.endTag (bIgnoreCase : Bool) (doc : List UInt8) (iVirtualParent : Nat) (node : Node)
    (s : ParseState) : Option ParseState :=
  let m := findMatch bIgnoreCase s.elems (node.token doc) s.elemstack s.iPos
  if m.1 = 0 then
    let s := s.illFormed iVirtualParent
    some
      { s with
        m_strResult := s.m_strResult ++
          [{ pszID := .loneEndTag
             type := none
             tagname := some (node.token doc)
             n := some node.nStart
             n2 := none }] }
  else
    let s :=
      { s with
        elems := s.elems.modify m.2 fun e =>
          { e with nLength := node.nStart - e.nStart + node.nLength }.setEndTagLen node.nLength }
    (s.closeTo iVirtualParent m.1 (node.m_nL - 1)).map fun s =>
      let iPosParent := (s.elems s.iPos).iElemParent
      { s with iPosParent := iPosParent, iPos := iPosParent, elemstack := s.elemstack.tail }

/-- One turn of the loop on a node. -/
def ParseState.node (bIgnoreCase : Bool) (doc : List UInt8) (iVirtualParent : Nat)
    (nRootDepth : UInt32) (node : Node) (s : ParseState) : Option ParseState :=
  if node.nNodeType = .element then some (s.startTag doc nRootDepth node)
  else if node.nNodeType = .endTag then s.endTag bIgnoreCase doc iVirtualParent node
  else if node.nNodeType = .bad then
    let s := s.illFormed iVirtualParent
    some { s with m_strResult := s.m_strResult ++ node.strMeta }
  else some s

section Loop

variable (lead : UInt8 → Bool) (bIgnoreCase : Bool) (doc : List UInt8)

/-- The loop of `x_ParseElem`, with the `TokenPos` and the `strMeta` of the `NodePos`. -/
def parseElemLoop (iVirtualParent : Nat) (nRootDepth : UInt32) :
    Nat → Nat → Int → Int → List Result → ParseState → Option ParseState
  | 0, _, _, _, _, _ => none
  | fuel + 1, m_nNext, m_nL, m_nR, strMeta, s =>
      match parseNode lead doc m_nNext m_nL m_nR strMeta with
      | none => none
      | some none => s.closeTo iVirtualParent 0 doc.length
      | some (some node) =>
          match s.node bIgnoreCase doc iVirtualParent nRootDepth node with
          | none => none
          | some s =>
              parseElemLoop iVirtualParent nRootDepth fuel node.next node.m_nL node.m_nR
                node.strMeta s

/-- `x_ParseElem` with a new token. -/
def parseElem (elems : Elems) (m_iPosFree iPosParent : Nat) (m_strResult : List Result) :
    Option ParseState :=
  parseElemLoop lead bIgnoreCase doc iPosParent (elems iPosParent).level (doc.length + 1) 0 0 (-1)
    []
    { elems := elems
      m_iPosFree := m_iPosFree
      iPosRoot := 0
      iPos := iPosParent
      iPosParent := iPosParent
      elemstack := []
      m_strResult := m_strResult }

/-- What `x_ParseDoc` does with the root that `x_ParseElem` returns. -/
def ParseState.finish (nDocLen : Nat) (s : ParseState) : Elems × Nat × List Result :=
  let elems := s.elems.modify 0 fun e => { e with nLength := nDocLen }
  if 0 < s.iPosRoot then
    let elems := elems.modify 0 fun e => { e with iElemChild := s.iPosRoot }
    (elems, s.m_iPosFree,
      if (elems s.iPosRoot).iElemNext ≠ 0 then
        s.m_strResult ++ [⟨.rootHasSibling, none, none, none, none⟩]
      else s.m_strResult)
  else (elems, s.m_iPosFree, s.m_strResult ++ [⟨.noRootElement, none, none, none, none⟩])

/-- `x_ParseDoc`: the positions, the first free one, and the results. -/
def parseDoc (elems : Elems) : Option (Elems × Nat × List Result) :=
  let elems := Elems.set elems 0 ElemPos.clear
  if doc.length = 0 then some (elems, 1, [])
  else (parseElem lead bIgnoreCase doc elems 1 0 []).map (ParseState.finish doc.length)

/-- `IsWellFormed`, of a document in memory. -/
def isWellFormed (elems : Elems) : Bool :=
  decide ((elems 0).nFlags &&& mnfIllFormed = 0) && decide ((elems 0).iElemChild ≠ 0) &&
    decide ((elems (elems 0).iElemChild).iElemNext = 0)

end Loop

end Markup
end IocpNetlib
