import IocpNetlib.Markup.WellFormed

/-!
# The tree of a document

Whatever the markup is, `x_ParseElem` ends with a tree of positions that has an
element for each start tag, in the order of the document, and in which elements
lie inside the content of their parents, one behind the other.  An element that
is not ended is cut down to its start tag, and its children come behind it.
-/

namespace IocpNetlib
namespace Markup

open IndexList IndexTree

/-- Where the content of an element ends. -/
def ElemPos.contentEnd (e : ElemPos) : Nat :=
  e.startAfter - e.nEndTagLen

/-- An open element is as long as its start tag so far. -/
def stopOf (elems : Elems) (opened : List Nat) (i : Nat) : Nat :=
  if i ∈ opened then (elems i).startContent else (elems i).startAfter

/-- The content of an open element goes as far as the parser. -/
def limitOf (elems : Elems) (opened : List Nat) (nNext i : Nat) : Nat :=
  if i ∈ opened then nNext else (elems i).contentEnd

/-- The elements that are opened by the start tags among the nodes. -/
def startTags (nodes : List Node) : List Node :=
  nodes.filter fun node => node.nNodeType = .element

/-- The elements are those of the start tags, in their order. -/
structure Tagged (elems : Elems) (m_iPosFree : Nat) (tags : List Node) : Prop where
  free : m_iPosFree = tags.length + 1
  start : ∀ (j : Nat) (node : Node), tags[j]? = some node →
    (elems (j + 1)).nStart = node.nStart ∧ (elems (j + 1)).nStartTagLen = node.nLength % 0x400000

/--
The end of element `i`, whose start tag is `tag`: an empty-element tag, an end
tag among the nodes, or its start tag, without children, where it is not ended.
-/
inductive Ended (elems : Elems) (kids : Nat → List Nat) (nodes : List Node) (i : Nat)
    (tag : Node) : Prop
  | emptyTag (hempty : tag.empty = true) (hlength : (elems i).nLength = tag.nLength)
      (hkids : kids i = [])
  | endTag {node : Node} (hnode : node ∈ nodes) (htype : node.nNodeType = .endTag)
      (hafter : (elems i).startAfter = node.next)
      (hend : (elems i).nEndTagLen = node.nLength % 0x400)
  | unended (hlength : (elems i).nLength = (elems i).nStartTagLen)
      (hend : (elems i).nEndTagLen = 0) (hkids : kids i = [])

/-- What holds in the parser in front of the node at `nNext`, with the nodes so far. -/
structure ParseState.Nested (s : ParseState) (kids : Nat → List Nat) (outer : List Nat)
    (nNext : Nat) (seen : List Node) : Prop where
  linked : s.Linked kids outer
  nested : ∀ i < s.m_iPosFree,
    Ordered (fun k => (s.elems k).nStart) (stopOf s.elems (s.iPos :: outer))
      (s.elems i).startContent (kids i) (limitOf s.elems (s.iPos :: outer) nNext i)
  root : (s.elems 0).nStart = 0 ∧ (s.elems 0).nStartTagLen = 0 ∧ (s.elems 0).nEndTagLen = 0
  tagged : Tagged s.elems s.m_iPosFree (startTags seen)
  ended : ∀ (j : Nat) (tag : Node), (startTags seen)[j]? = some tag →
    j + 1 ∉ s.iPos :: outer → Ended s.elems kids seen (j + 1) tag

section Extent

theorem nStart_of_extent {e e' : ElemPos} (h : e.extent = e'.extent) : e.nStart = e'.nStart :=
  congrArg (fun x => x.1) h

theorem nLength_of_extent {e e' : ElemPos} (h : e.extent = e'.extent) : e.nLength = e'.nLength :=
  congrArg (fun x => x.2.1) h

theorem nStartTagLen_of_extent {e e' : ElemPos} (h : e.extent = e'.extent) :
    e.nStartTagLen = e'.nStartTagLen :=
  congrArg (fun x => x.2.2.1) h

theorem nEndTagLen_of_extent {e e' : ElemPos} (h : e.extent = e'.extent) :
    e.nEndTagLen = e'.nEndTagLen :=
  congrArg (fun x => x.2.2.2) h

theorem startContent_of_extent {e e' : ElemPos} (h : e.extent = e'.extent) :
    e.startContent = e'.startContent := by
  rw [ElemPos.startContent, ElemPos.startContent, nStart_of_extent h, nStartTagLen_of_extent h]

theorem startAfter_of_extent {e e' : ElemPos} (h : e.extent = e'.extent) :
    e.startAfter = e'.startAfter := by
  rw [ElemPos.startAfter, ElemPos.startAfter, nStart_of_extent h, nLength_of_extent h]

theorem contentEnd_of_extent {e e' : ElemPos} (h : e.extent = e'.extent) :
    e.contentEnd = e'.contentEnd := by
  rw [ElemPos.contentEnd, ElemPos.contentEnd, startAfter_of_extent h, nEndTagLen_of_extent h]

theorem Ended.congr {elems elems' : Elems} {kids kids' : Nat → List Nat} {nodes nodes' : List Node}
    {i : Nat} {tag : Node} (h : Ended elems kids nodes i tag)
    (hextent : (elems' i).extent = (elems i).extent) (hkids : kids' i = kids i)
    (hnodes : ∀ node ∈ nodes, node ∈ nodes') : Ended elems' kids' nodes' i tag := by
  cases h with
  | emptyTag hempty hlength hnone =>
      exact .emptyTag hempty ((nLength_of_extent hextent).trans hlength) (hkids.trans hnone)
  | endTag hnode htype hafter hend =>
      exact .endTag (hnodes _ hnode) htype ((startAfter_of_extent hextent).trans hafter)
        ((nEndTagLen_of_extent hextent).trans hend)
  | unended hlength hend hnone =>
      refine .unended ?_ ((nEndTagLen_of_extent hextent).trans hend) (hkids.trans hnone)
      rw [nLength_of_extent hextent, nStartTagLen_of_extent hextent, hlength]

theorem startTags_append (nodes nodes' : List Node) :
    startTags (nodes ++ nodes') = startTags nodes ++ startTags nodes' :=
  List.filter_append nodes nodes'

theorem startTags_of_element {node : Node} (h : node.nNodeType = .element) :
    startTags [node] = [node] := by
  rw [startTags, List.filter_singleton, decide_eq_true h]
  rfl

theorem startTags_of_ne {node : Node} (h : node.nNodeType ≠ .element) :
    startTags [node] = [] := by
  rw [startTags, List.filter_singleton, decide_eq_false h]
  rfl

variable {elems elems' : Elems} {opened opened' : List Nat} {nNext nNext' j : Nat}

theorem stopOf_congr (hmem : j ∈ opened' ↔ j ∈ opened)
    (hextent : (elems' j).extent = (elems j).extent) :
    stopOf elems' opened' j = stopOf elems opened j := by
  rw [stopOf, stopOf, startContent_of_extent hextent, startAfter_of_extent hextent]
  exact if_congr hmem rfl rfl

theorem limitOf_le (hmem : j ∈ opened' ↔ j ∈ opened)
    (hextent : (elems' j).extent = (elems j).extent) (hle : nNext ≤ nNext') :
    limitOf elems opened nNext j ≤ limitOf elems' opened' nNext' j := by
  rw [limitOf, limitOf, contentEnd_of_extent hextent, if_congr hmem rfl rfl]
  split_ifs
  · exact hle
  · exact Nat.le_refl _

end Extent

section Step

variable {s s' : ParseState} {kids : Nat → List Nat} {outer : List Nat} {nNext nNext' p : Nat}
  {seen : List Node} {doc : List UInt8} {nRootDepth : UInt32} {node : Node} {bIgnoreCase : Bool}

theorem ParseState.Nested.mono (h : s.Nested kids outer nNext seen) (hle : nNext ≤ nNext') :
    s.Nested kids outer nNext' seen := by
  refine ⟨h.linked, fun i hi => (h.nested i hi).mono ?_, h.root, h.tagged, h.ended⟩
  exact limitOf_le Iff.rfl rfl hle

/-- A node that is no start tag. -/
theorem ParseState.Nested.see
    (h : s.Nested kids outer nNext seen) (hnode : node.nNodeType ≠ .element) :
    s.Nested kids outer nNext (seen ++ [node]) := by
  have htags : startTags (seen ++ [node]) = startTags seen := by
    rw [startTags_append, startTags_of_ne hnode, List.append_nil]
  refine ⟨h.linked, h.nested, h.root, htags.symm ▸ h.tagged, fun j tag hj hopen => ?_⟩
  rw [htags] at hj
  exact (h.ended j tag hj hopen).congr rfl rfl fun _ hmem => List.mem_append_left _ hmem

/-- The length of an open element does not matter. -/
theorem ParseState.Nested.congr {elems' : Elems}
    (h : s.Nested kids outer nNext seen) (htree : elems'.tree = s.elems.tree)
    (hstart : ∀ j, (elems' j).nStart = (s.elems j).nStart ∧
      (elems' j).nStartTagLen = (s.elems j).nStartTagLen)
    (hclosed : ∀ j, j ∉ s.iPos :: outer → (elems' j).nLength = (s.elems j).nLength ∧
      (elems' j).nEndTagLen = (s.elems j).nEndTagLen)
    (hroot : (elems' 0).nEndTagLen = 0) :
    ParseState.Nested { s with elems := elems' } kids outer nNext seen := by
  have hcontent (j : Nat) : (elems' j).startContent = (s.elems j).startContent := by
    rw [ElemPos.startContent, (hstart j).1, (hstart j).2]
    rfl
  have hafter (j : Nat) (hj : j ∉ s.iPos :: outer) :
      (elems' j).startAfter = (s.elems j).startAfter := by
    rw [ElemPos.startAfter, (hstart j).1, (hclosed j hj).1]
    rfl
  have hstop : stopOf elems' (s.iPos :: outer) = stopOf s.elems (s.iPos :: outer) := by
    funext j
    rw [stopOf, stopOf]
    split_ifs with hj
    · exact hcontent j
    · exact hafter j hj
  have hlimit (j : Nat) : limitOf elems' (s.iPos :: outer) nNext j =
      limitOf s.elems (s.iPos :: outer) nNext j := by
    rw [limitOf, limitOf]
    split_ifs with hj
    · rfl
    · rw [ElemPos.contentEnd, hafter j hj, (hclosed j hj).2]
      rfl
  refine ⟨h.linked.congr htree, fun i hi => ?_, ⟨?_, ?_, hroot⟩, ⟨h.tagged.free,
    fun j node hj => ?_⟩, fun j tag hj hopen => ?_⟩
  · dsimp only
    rw [hstop, hlimit, hcontent]
    exact (h.nested i hi).congr (fun k _ => (hstart k).1) fun k _ => rfl
  · exact (hstart 0).1.trans h.root.1
  · exact (hstart 0).2.trans h.root.2.1
  · obtain ⟨hnStart, hlen⟩ := h.tagged.start j node hj
    exact ⟨(hstart _).1.trans hnStart, (hstart _).2.trans hlen⟩
  · have hextent : (elems' (j + 1)).extent = (s.elems (j + 1)).extent := by
      rw [ElemPos.extent, ElemPos.extent, (hstart _).1, (hstart _).2, (hclosed _ hopen).1,
        (hclosed _ hopen).2]
    exact (h.ended j tag hj hopen).congr hextent rfl fun _ hmem => hmem

/-- What a start tag leaves as it is, and the place of its element. -/
theorem ParseState.Linked.startTag_extent
    (h : s.Linked kids outer) (doc : List UInt8) (nRootDepth : UInt32) (node : Node) :
    Placed ((s.startTag doc nRootDepth node).elems s.m_iPosFree) node ∧
      ∀ j < s.m_iPosFree,
        ((s.startTag doc nRootDepth node).elems j).extent = (s.elems j).extent := by
  obtain ⟨-, hplaced, hkept⟩ := startTag_added doc nRootDepth node h.child_ne_free
  exact ⟨hplaced, fun j hj => (hkept j (Nat.ne_of_lt hj)).1⟩

theorem Tagged.add {elems elems' : Elems} {free : Nat} {tags : List Node}
    (h : Tagged elems free tags) (hplaced : Placed (elems' free) node)
    (hextent : ∀ j < free, (elems' j).extent = (elems j).extent) :
    Tagged elems' (free + 1) (tags ++ [node]) := by
  have hfree := h.free
  refine ⟨?_, fun j other hj => ?_⟩
  · rw [List.length_append, hfree]
    rfl
  · by_cases hlt : j < tags.length
    · rw [List.getElem?_append_left hlt] at hj
      have hsame := hextent (j + 1) (by omega)
      rw [nStart_of_extent hsame, nStartTagLen_of_extent hsame]
      exact h.start j other hj
    · have hlen := (List.getElem?_eq_some_iff.mp hj).1
      rw [List.length_append, List.length_singleton] at hlen
      obtain rfl : j = tags.length := by omega
      rw [List.getElem?_concat_length, Option.some_inj] at hj
      rw [← hfree, ← hj]
      exact ⟨hplaced.nStart, hplaced.nStartTagLen⟩

/-- The element of a start tag comes behind its siblings. -/
theorem ParseState.Nested.startTag
    (h : s.Nested kids outer node.nStart seen) (hknown : s.Known kids (s.iPos :: outer))
    (hnode : node.nNodeType = .element) (doc : List UInt8) (nRootDepth : UInt32) :
    (s.startTag doc nRootDepth node).Nested (addKid kids s.iPos s.m_iPosFree)
      (if node.empty then outer else s.iPos :: outer) node.next (seen ++ [node]) := by
  have hlinked := (h.linked.startTag hknown doc nRootDepth node).1
  obtain ⟨hplaced, hextent⟩ := h.linked.startTag_extent doc nRootDepth node
  have hlt := h.linked.path.lt
  have hfree : 0 < s.m_iPosFree := Nat.lt_of_le_of_lt (Nat.zero_le _) hlt
  have hnew : s.m_iPosFree ∉ s.iPos :: outer := fun hmem =>
    Nat.lt_irrefl _ (h.linked.lt_of_mem hmem)
  have hopened : ((s.startTag doc nRootDepth node).iPos ::
      if node.empty then outer else s.iPos :: outer) =
        if node.empty then s.iPos :: outer else s.m_iPosFree :: s.iPos :: outer := by
    rw [startTag_iPos h.linked.iPosParent]
    split_ifs <;> rfl
  have hnext : node.next = node.nStart + node.nLength := rfl
  have hmod : node.nLength % 0x400000 ≤ node.nLength := Nat.mod_le _ _
  have hsucc : (s.startTag doc nRootDepth node).m_iPosFree = s.m_iPosFree + 1 := rfl
  generalize s.startTag doc nRootDepth node = s₁ at hplaced hextent hopened hlinked hsucc ⊢
  have hmem (j : Nat) (hj : j < s.m_iPosFree) :
      (j ∈ if node.empty then s.iPos :: outer else s.m_iPosFree :: s.iPos :: outer) ↔
        j ∈ s.iPos :: outer := by
    split_ifs
    · rfl
    · rw [List.mem_cons, or_iff_right (Nat.ne_of_lt hj)]
  have hstop (j : Nat) (hj : j < s.m_iPosFree) :
      stopOf s₁.elems (if node.empty then s.iPos :: outer else s.m_iPosFree :: s.iPos :: outer) j =
        stopOf s.elems (s.iPos :: outer) j :=
    stopOf_congr (hmem j hj) (hextent j hj)
  have hplace : stopOf s₁.elems
        (if node.empty then s.iPos :: outer else s.m_iPosFree :: s.iPos :: outer) s.m_iPosFree ≤
          node.next ∧
      (s₁.elems s.m_iPosFree).startContent ≤ limitOf s₁.elems
        (if node.empty then s.iPos :: outer else s.m_iPosFree :: s.iPos :: outer) node.next
          s.m_iPosFree := by
    have hstart := hplaced.nStart
    have hlen := hplaced.nStartTagLen
    rw [stopOf, limitOf, ElemPos.contentEnd, ElemPos.startContent, ElemPos.startAfter]
    by_cases hempty : node.empty = true
    · obtain ⟨hnLength, hend⟩ := hplaced.empty hempty
      rw [if_pos hempty, if_neg hnew, if_neg hnew]
      omega
    · rw [if_neg hempty, if_pos List.mem_cons_self, if_pos List.mem_cons_self]
      omega
  have htags : startTags (seen ++ [node]) = startTags seen ++ [node] := by
    rw [startTags_append, startTags_of_element hnode]
  refine ⟨hlinked, fun i hi => ?_, ?_, ?_, fun j tag hj hopen => ?_⟩
  · rw [hopened]
    rw [hsucc] at hi
    by_cases hif : i = s.m_iPosFree
    · rw [hif, addKid_self]
      exact hplace.2
    · have hold : i < s.m_iPosFree := by omega
      have hkids := (h.nested i hold).congr
        (fun k hk => nStart_of_extent (hextent k (h.linked.tree.below i hold k hk).2.2))
        fun k hk => hstop k (h.linked.tree.below i hold k hk).2.2
      rw [startContent_of_extent (hextent i hold)]
      by_cases hip : i = s.iPos
      · have hopen : s.iPos ∈ s.iPos :: outer := List.mem_cons_self
        rw [hip, limitOf, if_pos hopen] at hkids
        rw [hip, addKid_parent (Nat.ne_of_lt hlt), limitOf, if_pos ((hmem _ hlt).mpr hopen)]
        exact hkids.concat (Nat.le_of_eq hplaced.nStart.symm) hplace.1
      · rw [addKid_of_ne hif hip]
        exact hkids.mono (limitOf_le (hmem i hold) (hextent i hold) (Nat.le_add_right _ _))
  · have hsame := hextent 0 hfree
    rw [nStart_of_extent hsame, nStartTagLen_of_extent hsame, nEndTagLen_of_extent hsame]
    exact h.root
  · rw [hsucc, htags]
    exact h.tagged.add hplaced hextent
  · have htagged := h.tagged.free
    rw [hopened] at hopen
    rw [htags] at hj
    by_cases hlast : j < (startTags seen).length
    · have hold : j + 1 < s.m_iPosFree := by omega
      have hclosed := fun hmem' => hopen ((hmem _ hold).mpr hmem')
      rw [List.getElem?_append_left hlast] at hj
      refine (h.ended j tag hj hclosed).congr (hextent _ hold) ?_
        fun _ hmem' => List.mem_append_left _ hmem'
      exact addKid_of_ne (Nat.ne_of_lt hold) fun heq => hclosed (heq ▸ List.mem_cons_self)
    · have hlen := (List.getElem?_eq_some_iff.mp hj).1
      rw [List.length_append, List.length_singleton] at hlen
      obtain rfl : j = (startTags seen).length := by omega
      rw [List.getElem?_concat_length, Option.some_inj] at hj
      rw [← htagged] at hopen ⊢
      rw [← hj]
      -- An element that is not empty is open.
      have hempty : node.empty = true := by
        by_contra hne
        rw [if_neg hne] at hopen
        exact hopen List.mem_cons_self
      exact .emptyTag hempty (hplaced.empty hempty).1 addKid_self

/-- An element that is not ended is as long as its start tag, and its children come behind it. -/
theorem ParseState.Nested.flatten
    (h : s.Nested kids (p :: outer) nNext seen)
    (hlinked : s'.Linked (moveKids kids p s.iPos) outer)
    (hextent : ∀ j, (s'.elems j).extent =
      if j = s.iPos then
        ((s.elems s.iPos).nStart, (s.elems s.iPos).nStartTagLen, (s.elems s.iPos).nStartTagLen, 0)
      else (s.elems j).extent)
    (hfree : s'.m_iPosFree = s.m_iPosFree) (hpos : s'.iPos = p) :
    s'.Nested (moveKids kids p s.iPos) outer nNext seen := by
  obtain ⟨-, hlt, he, hlast, hrest⟩ := h.linked.path
  have hp : p < s.m_iPosFree := hrest.lt
  have hself : s.iPos ∉ p :: outer := fun hmem =>
    Nat.lt_irrefl _ (h.linked.path.lt_of_mem hmem)
  have hended : (s'.elems s.iPos).extent =
      ((s.elems s.iPos).nStart, (s.elems s.iPos).nStartTagLen,
        (s.elems s.iPos).nStartTagLen, 0) := (hextent _).trans (if_pos rfl)
  have hother (j : Nat) (hj : j ≠ s.iPos) : (s'.elems j).extent = (s.elems j).extent :=
    (hextent j).trans (if_neg hj)
  have hstart (j : Nat) : (s'.elems j).nStart = (s.elems j).nStart ∧
      (s'.elems j).nStartTagLen = (s.elems j).nStartTagLen := by
    by_cases hj : j = s.iPos
    · rw [hj]
      exact ⟨congrArg (fun x => x.1) hended, congrArg (fun x => x.2.2.1) hended⟩
    · exact ⟨nStart_of_extent (hother j hj), nStartTagLen_of_extent (hother j hj)⟩
  have hcontent (j : Nat) : (s'.elems j).startContent = (s.elems j).startContent := by
    rw [ElemPos.startContent, ElemPos.startContent, (hstart j).1, (hstart j).2]
  have hafter : (s'.elems s.iPos).startAfter = (s.elems s.iPos).startContent := by
    have hlen : (s'.elems s.iPos).nLength = (s.elems s.iPos).nStartTagLen :=
      congrArg (fun x => x.2.1) hended
    rw [ElemPos.startAfter, (hstart _).1, hlen, ElemPos.startContent]
  have hend : (s'.elems s.iPos).nEndTagLen = 0 := congrArg (fun x => x.2.2.2) hended
  have hmem (j : Nat) (hj : j ≠ s.iPos) : j ∈ s.iPos :: p :: outer ↔ j ∈ p :: outer := by
    rw [List.mem_cons, or_iff_right hj]
  have hstop : stopOf s'.elems (p :: outer) = stopOf s.elems (s.iPos :: p :: outer) := by
    funext j
    by_cases hj : j = s.iPos
    · rw [hj, stopOf, stopOf, if_neg hself, if_pos List.mem_cons_self]
      exact hafter
    · exact stopOf_congr (hmem j hj).symm (hother j hj)
  have hkids (i : Nat) (hi : i < s.m_iPosFree) := (h.nested i hi).congr
    (fun k _ => (hstart k).1) fun k _ => rfl
  refine ⟨hlinked, fun i hi => ?_, ?_, ⟨?_, fun j node hj => ?_⟩, fun j tag hj hopen => ?_⟩
  · rw [hfree] at hi
    rw [hpos, hstop, hcontent]
    by_cases hie : i = s.iPos
    · rw [hie, moveKids_self, limitOf, if_neg hself, ElemPos.contentEnd, hend, hafter]
      exact Nat.le_refl _
    · by_cases hip : i = p
      · have hmoved : Ordered (fun k => (s'.elems k).nStart)
            (stopOf s.elems (s.iPos :: p :: outer))
            (stopOf s.elems (s.iPos :: p :: outer) s.iPos) (kids s.iPos)
            (limitOf s'.elems (p :: outer) nNext p) := by
          have hinner := hkids s.iPos he
          rw [limitOf, if_pos List.mem_cons_self] at hinner
          rw [limitOf, if_pos List.mem_cons_self, stopOf, if_pos List.mem_cons_self]
          exact hinner
        rw [hip, moveKids_parent (Nat.ne_of_lt hlt)]
        exact (hkids p hp).append hlast hmoved
      · rw [moveKids_of_ne hie hip]
        exact (hkids i hi).mono (limitOf_le (hmem i hie).symm (hother i hie) (Nat.le_refl _))
  · have hzero : 0 ≠ s.iPos := by omega
    rw [(hstart 0).1, (hstart 0).2, nEndTagLen_of_extent (hother 0 hzero)]
    exact h.root
  · rw [hfree]
    exact h.tagged.free
  · rw [(hstart _).1, (hstart _).2]
    exact h.tagged.start j node hj
  · rw [hpos] at hopen
    by_cases hie : j + 1 = s.iPos
    · rw [hie]
      refine .unended ?_ (congrArg (fun x => x.2.2.2) hended) moveKids_self
      exact (congrArg (fun x => x.2.1) hended).trans (hstart _).2.symm
    · have hclosed := fun hmem' => hopen ((hmem _ hie).mp hmem')
      refine (h.ended j tag hj hclosed).congr (hother _ hie) ?_ fun _ hmem' => hmem'
      exact moveKids_of_ne hie fun heq => hopen (heq ▸ List.mem_cons_self)

/-- The innermost element is closed, and ends with the end tag `node`. -/
theorem ParseState.Nested.pop
    (h : s.Nested kids (p :: outer) node.nStart seen) (hnode : node.nNodeType = .endTag)
    (hafter : (s.elems s.iPos).startAfter = node.next)
    (hend : (s.elems s.iPos).nEndTagLen = node.nLength % 0x400) :
    ParseState.Nested
      { s with
        iPosParent := (s.elems s.iPos).iElemParent
        iPos := (s.elems s.iPos).iElemParent
        elemstack := s.elemstack.tail } kids outer node.next (seen ++ [node]) := by
  have hnext : node.next = node.nStart + node.nLength := rfl
  have hle : node.nStart ≤ node.next := by omega
  have hcontent : node.nStart ≤ (s.elems s.iPos).contentEnd := by
    have hmod : node.nLength % 0x400 ≤ node.nLength := Nat.mod_le _ _
    rw [ElemPos.contentEnd, hafter, hend]
    omega
  have hnot : node.nNodeType ≠ .element := by
    rw [hnode]
    decide
  have htags : startTags (seen ++ [node]) = startTags seen := by
    rw [startTags_append, startTags_of_ne hnot, List.append_nil]
  have hlinked := h.linked.pop
  obtain ⟨hparent, hlt, he, hlast, hrest⟩ := h.linked.path
  have hp : p < s.m_iPosFree := hrest.lt
  have htree := h.linked.tree
  have hiPos : (s.elems s.iPos).iElemParent = p := hparent
  rw [hiPos] at hlinked ⊢
  have hself : s.iPos ∉ p :: outer := fun hmem =>
    Nat.lt_irrefl _ (h.linked.path.lt_of_mem hmem)
  have hmem (j : Nat) (hj : j ≠ s.iPos) : j ∈ s.iPos :: p :: outer ↔ j ∈ p :: outer := by
    rw [List.mem_cons, or_iff_right hj]
  have hstop (j : Nat) (hj : j ≠ s.iPos) :
      stopOf s.elems (p :: outer) j = stopOf s.elems (s.iPos :: p :: outer) j :=
    stopOf_congr (hmem j hj).symm rfl
  have hclosed : stopOf s.elems (p :: outer) s.iPos = node.next := by
    rw [stopOf, if_neg hself, hafter]
  refine ⟨hlinked, fun i hi => ?_, h.root, htags.symm ▸ h.tagged, fun j tag hj hopen => ?_⟩
  · dsimp only
    have hkids := h.nested i hi
    by_cases hip : i = p
    · rw [hip] at hkids ⊢
      rw [limitOf, if_pos List.mem_cons_self]
      exact hkids.close hlast (htree.nodup hp) (fun j _ hj => hstop j hj) (Nat.le_of_eq hclosed)
    · have hkept := hkids.congr (fun k _ => rfl) fun k hk => hstop k fun heq =>
        hip (htree.parent_unique hi hp (heq ▸ hk) (List.mem_of_getLast? hlast))
      refine hkept.mono ?_
      by_cases hie : i = s.iPos
      · rw [hie, limitOf, limitOf, if_pos List.mem_cons_self, if_neg hself]
        exact hcontent
      · exact limitOf_le (hmem i hie).symm rfl hle
  · dsimp only at hopen ⊢
    rw [htags] at hj
    by_cases hie : j + 1 = s.iPos
    · rw [hie]
      exact .endTag (List.mem_append_right _ List.mem_cons_self) hnode hafter hend
    · have hbefore := h.ended j tag hj fun hmem' => hopen ((hmem _ hie).mp hmem')
      exact hbefore.congr rfl rfl fun _ hmem' => List.mem_append_left _ hmem'

theorem extent_addFlags (elems : Elems) (i : Nat) (n : UInt32) (j : Nat) :
    (elems.modify i (fun e => e.addFlags n) j).extent = (elems j).extent := by
  rw [Elems.modify_apply]
  split_ifs with hj
  · rw [hj]
    rfl
  · rfl

/-- The flags do not matter. -/
theorem ParseState.Nested.addFlags
    (h : s.Nested kids outer nNext seen) (i : Nat) (n : UInt32) :
    ParseState.Nested { s with elems := s.elems.modify i fun e => e.addFlags n } kids outer nNext
      seen := by
  have hextent := extent_addFlags s.elems i n
  refine h.congr (tree_modify fun _ => rfl) (fun j => ⟨?_, ?_⟩) (fun j _ => ⟨?_, ?_⟩) ?_
  · exact nStart_of_extent (hextent j)
  · exact nStartTagLen_of_extent (hextent j)
  · exact nLength_of_extent (hextent j)
  · exact nEndTagLen_of_extent (hextent j)
  · exact (nEndTagLen_of_extent (hextent 0)).trans h.root.2.2

theorem ParseState.Known.addFlags {l : List Nat}
    (h : s.Known kids l) (i : Nat) (n : UInt32) :
    ParseState.Known { s with elems := s.elems.modify i fun e => e.addFlags n } kids l :=
  h.congr (tree_modify fun _ => rfl)

/-- Nor do the texts that are reported. -/
theorem ParseState.Nested.report
    (h : s.Nested kids outer nNext seen) (m_strResult : List Result) :
    ParseState.Nested { s with m_strResult := m_strResult } kids outer nNext seen :=
  ⟨⟨h.linked.tree, h.linked.path, h.linked.iPosParent, h.linked.height, h.linked.iPosRoot⟩,
    h.nested, h.root, h.tagged, h.ended⟩

theorem ParseState.Nested.illFormed (h : s.Nested kids outer nNext seen) :
    (s.illFormed 0).Nested kids outer nNext seen :=
  (h.addFlags 0 mnfIllFormed).addFlags s.iPos mnfIllData

theorem ParseState.Known.illFormed {l : List Nat} (h : s.Known kids l) :
    (s.illFormed 0).Known kids l :=
  (h.addFlags 0 mnfIllFormed).addFlags s.iPos mnfIllData

/-- The elements above `nMatchLevel` are closed without an end. -/
theorem unendedLoop_nested {nMatchLevel k : Nat} (nOffset2 : Int)
    (h : s.Nested kids outer nNext seen) (hknown : s.Known kids outer)
    (hlevel : nMatchLevel ≤ outer.length) (hk : outer.length ≤ nMatchLevel + k) :
    ∃ s' kids' outer', unendedLoop nOffset2 nMatchLevel k s = some s' ∧
      s'.Nested kids' outer' nNext seen ∧ s'.Known kids' outer' ∧
      s'.iPos :: outer' = (s.iPos :: outer).drop (outer.length - nMatchLevel) ∧
      ∀ j ∈ s'.iPos :: outer', (s'.elems j).extent = (s.elems j).extent := by
  induction k generalizing s kids outer with
  | zero =>
      have hlen : outer.length - nMatchLevel = 0 := by omega
      refine ⟨s, kids, outer, rfl, h, hknown, ?_, fun j _ => rfl⟩
      rw [hlen, List.drop_zero]
  | succ k ih =>
      rw [unendedLoop, h.linked.height]
      by_cases hlt : nMatchLevel < outer.length
      · rw [if_pos hlt]
        cases outer with
        | nil => exact absurd hlt (Nat.not_lt_zero _)
        | cons p outer =>
            rw [List.length_cons] at hlt hk
            obtain ⟨s₁, hunended, hflat, hextent, hfree, hroot, hpos, hparent, hstack⟩ :=
              unended_flattened h.linked nOffset2
            obtain ⟨hlinked₁, hknown₁⟩ := h.linked.flatten hflat hfree hroot hpos hparent hstack
              fun i hi => hknown i (List.mem_cons_of_mem _ hi)
            have hnested₁ := h.flatten hlinked₁ hextent hfree hpos
            obtain ⟨s', kids', outer', hloop, hnested', hknown', hdrop, hkept⟩ :=
              ih hnested₁ hknown₁ (by omega) (by omega)
            rw [hunended]
            refine ⟨s', kids', outer', hloop, hnested', hknown', ?_, fun j hj => ?_⟩
            · rw [hdrop, hpos, List.length_cons, Nat.succ_sub (by omega), List.drop_succ_cons]
            · have hmem : j ∈ p :: outer := by
                rw [hdrop, hpos] at hj
                exact List.mem_of_mem_drop hj
              have hne : j ≠ s.iPos := Nat.ne_of_lt (h.linked.path.lt_of_mem hmem)
              rw [hkept j hj, hextent, if_neg hne]
      · have hlen : outer.length - nMatchLevel = 0 := by omega
        rw [if_neg hlt]
        refine ⟨s, kids, outer, rfl, h, hknown, ?_, fun j _ => rfl⟩
        rw [hlen, List.drop_zero]

theorem closeTo_nested {nMatchLevel : Nat} (nOffset2 : Int)
    (h : s.Nested kids outer nNext seen) (hknown : s.Known kids outer)
    (hlevel : nMatchLevel ≤ outer.length) :
    ∃ s' kids' outer', s.closeTo 0 nMatchLevel nOffset2 = some s' ∧
      s'.Nested kids' outer' nNext seen ∧ s'.Known kids' outer' ∧
      s'.iPos :: outer' = (s.iPos :: outer).drop (outer.length - nMatchLevel) ∧
      ∀ j ∈ s'.iPos :: outer', (s'.elems j).extent = (s.elems j).extent := by
  have hk : outer.length ≤ nMatchLevel + s.elemstack.length := by
    rw [h.linked.height]
    omega
  rw [ParseState.closeTo]
  split_ifs with hlt
  · obtain ⟨s', kids', outer', hloop, hnested, hknown', hdrop, hkept⟩ :=
      unendedLoop_nested nOffset2 (h.addFlags 0 mnfIllFormed) (hknown.addFlags 0 mnfIllFormed)
        hlevel hk
    exact ⟨s', kids', outer', hloop, hnested, hknown', hdrop,
      fun j hj => (hkept j hj).trans (extent_addFlags ..)⟩
  · exact unendedLoop_nested nOffset2 h hknown hlevel hk

/-- The element that is found is the one of `nMatchLevel`. -/
theorem findMatch_head? {token : List UInt8} {stack : List (List UInt8)} {elems : Elems}
    {free iPosMatch : Nat}
    (hpath : Path elems.tree free kids iPosMatch outer) (hlen : stack.length = outer.length)
    (hne : (findMatch bIgnoreCase elems token stack iPosMatch).1 ≠ 0) :
    ((iPosMatch :: outer).drop (outer.length -
        (findMatch bIgnoreCase elems token stack iPosMatch).1)).head? =
      some (findMatch bIgnoreCase elems token stack iPosMatch).2 := by
  induction stack generalizing outer iPosMatch with
  | nil => exact absurd rfl hne
  | cons a stack ih =>
      cases outer with
      | nil => cases hlen
      | cons p outer =>
          obtain ⟨hparent, -, -, -, hrest⟩ := hpath
          rw [List.length_cons, List.length_cons, Nat.succ_inj] at hlen
          rw [findMatch] at hne ⊢
          split_ifs at hne ⊢ with hmatch
          · rw [List.length_cons, hlen, Nat.sub_self]
            rfl
          · have hparent' : (elems iPosMatch).iElemParent = p := hparent
            rw [hparent'] at hne ⊢
            have hle : (findMatch bIgnoreCase elems token stack p).1 ≤ stack.length :=
              findMatch_le
            rw [List.length_cons, Nat.succ_sub (hlen ▸ hle), List.drop_succ_cons]
            exact ih hrest hlen hne

/-- An open element starts in front of the parser. -/
theorem ParseState.Nested.nStart_le {m : Nat}
    (h : s.Nested kids outer nNext seen) (hm : m ∈ s.iPos :: outer) :
    (s.elems m).nStart ≤ nNext := by
  have hordered := h.nested m (h.linked.lt_of_mem hm)
  rw [limitOf, if_pos hm] at hordered
  have hle := hordered.le fun k _ => by
    rw [stopOf]
    split_ifs
    · exact Nat.le_add_right _ _
    · exact Nat.le_add_right _ _
  exact Nat.le_trans (Nat.le_add_right _ _) hle

/-- The element of an end tag is given its length while it is still open. -/
theorem ParseState.Nested.setEnd {m : Nat}
    (h : s.Nested kids outer nNext seen) (hm : m ∈ s.iPos :: outer) (hne : m ≠ 0)
    (node : Node) :
    ParseState.Nested
      { s with
        elems := s.elems.modify m fun e =>
          { e with nLength := node.nStart - e.nStart + node.nLength }.setEndTagLen node.nLength }
      kids outer nNext seen := by
  refine h.congr (tree_modify fun _ => rfl) (fun j => ?_) (fun j hj => ?_) ?_
  · rw [Elems.modify_apply]
    split_ifs with hj
    · rw [hj]
      exact ⟨rfl, rfl⟩
    · exact ⟨rfl, rfl⟩
  · have hjm : j ≠ m := fun heq => hj (heq ▸ hm)
    rw [Elems.modify_apply, if_neg hjm]
    exact ⟨rfl, rfl⟩
  · rw [Elems.modify_apply, if_neg hne.symm]
    exact h.root.2.2

/-- An end tag. -/
theorem ParseState.Nested.endTag
    (h : s.Nested kids outer node.nStart seen) (hknown : s.Known kids (s.iPos :: outer))
    (hnode : node.nNodeType = .endTag) (bIgnoreCase : Bool) (doc : List UInt8) :
    ∃ s' kids' outer', s.endTag bIgnoreCase doc 0 node = some s' ∧
      s'.Nested kids' outer' node.next (seen ++ [node]) ∧ s'.Known kids' (s'.iPos :: outer') := by
  have hnext : node.next = node.nStart + node.nLength := rfl
  have hnot : node.nNodeType ≠ .element := by
    rw [hnode]
    decide
  rw [ParseState.endTag]
  dsimp only
  by_cases hm : (findMatch bIgnoreCase s.elems (node.token doc) s.elemstack s.iPos).1 = 0
  · rw [if_pos hm]
    have hle : node.nStart ≤ node.next := by omega
    exact ⟨_, kids, outer, rfl, ((h.see hnot).mono hle).illFormed.report _, hknown.illFormed⟩
  · have hle : (findMatch bIgnoreCase s.elems (node.token doc) s.elemstack s.iPos).1 ≤
        s.elemstack.length := findMatch_le
    have hhead := findMatch_head? h.linked.path h.linked.height hm
    rw [if_neg hm]
    rw [h.linked.height] at hle
    generalize findMatch bIgnoreCase s.elems (node.token doc) s.elemstack s.iPos = found at *
    obtain ⟨nMatchLevel, m⟩ := found
    dsimp only at *
    obtain ⟨rest, hdrop⟩ := List.head?_eq_some_iff.mp hhead
    have hlen := congrArg List.length hdrop
    rw [List.length_drop, List.length_cons, List.length_cons] at hlen
    have hmem : m ∈ s.iPos :: outer := List.mem_of_mem_drop (hdrop ▸ List.mem_cons_self)
    have hstart := h.nStart_le hmem
    cases rest with
    | nil =>
        rw [List.length_nil] at hlen
        omega
    | cons p rest =>
        have hpm : p < m := (h.linked.path.drop hdrop).2.1
        have hne : m ≠ 0 := by omega
        obtain ⟨s₂, kids₂, outer₂, hclose, hnested, hknown₂, hdrop₂, hkept⟩ :=
          closeTo_nested (node.m_nL - 1) (h.setEnd hmem hne node)
            (ParseState.Known.congr (fun i hi => hknown i (List.mem_cons_of_mem _ hi))
              (tree_modify fun _ => rfl)) hle
        rw [hclose]
        obtain ⟨hpos, rfl⟩ := List.cons.inj (hdrop₂.trans hdrop)
        have hextent := hkept s₂.iPos List.mem_cons_self
        dsimp only at hextent
        rw [hpos, Elems.modify_apply, if_pos rfl, ← hpos] at hextent
        have hnStart : (s₂.elems s₂.iPos).nStart = (s.elems m).nStart :=
          (nStart_of_extent hextent).trans (hpos ▸ rfl)
        have hnLength : (s₂.elems s₂.iPos).nLength =
            node.nStart - (s.elems m).nStart + node.nLength :=
          (nLength_of_extent hextent).trans (hpos ▸ rfl)
        have hend : (s₂.elems s₂.iPos).nEndTagLen = node.nLength % 0x400 :=
          nEndTagLen_of_extent hextent
        have hafter : (s₂.elems s₂.iPos).startAfter = node.next := by
          rw [ElemPos.startAfter, hnStart, hnLength, hnext]
          omega
        have hparent : (s₂.elems s₂.iPos).iElemParent = p := hnested.linked.path.1
        refine ⟨_, kids₂, rest, rfl, hnested.pop hnode hafter hend, fun i hi => ?_⟩
        dsimp only at hi
        rw [hparent] at hi
        exact hknown₂ i hi

/-- One turn of the loop. -/
theorem ParseState.Nested.turn
    (h : s.Nested kids outer node.nStart seen) (hknown : s.Known kids (s.iPos :: outer))
    (bIgnoreCase : Bool) (doc : List UInt8) (nRootDepth : UInt32) :
    ∃ s' kids' outer', s.node bIgnoreCase doc 0 nRootDepth node = some s' ∧
      s'.Nested kids' outer' node.next (seen ++ [node]) ∧
      s'.Known kids' (s'.iPos :: outer') := by
  have hle : node.nStart ≤ node.next := Nat.le_add_right _ _
  by_cases helem : node.nNodeType = .element
  · rw [ParseState.node, if_pos helem]
    exact ⟨_, _, _, rfl, h.startTag hknown helem doc nRootDepth,
      (h.linked.startTag hknown doc nRootDepth node).2⟩
  · have hsee := (h.see helem).mono hle
    rw [ParseState.node, if_neg helem]
    split_ifs with hend hbad
    · exact h.endTag hknown hend bIgnoreCase doc
    · exact ⟨_, kids, outer, rfl, hsee.illFormed.report _, hknown.illFormed⟩
    · exact ⟨s, kids, outer, rfl, hsee, hknown⟩

/-- The loop over the nodes. -/
theorem ParseState.Nested.turns {nodes : List Node}
    (h : s.Nested kids outer nNext seen) (hknown : s.Known kids (s.iPos :: outer))
    (hadj : Adjacent nNext nodes nNext') (bIgnoreCase : Bool) (doc : List UInt8)
    (nRootDepth : UInt32) :
    ∃ s' kids' outer', s.turns bIgnoreCase doc 0 nRootDepth nodes = some s' ∧
      s'.Nested kids' outer' nNext' (seen ++ nodes) ∧
      s'.Known kids' (s'.iPos :: outer') := by
  induction nodes generalizing s kids outer nNext seen with
  | nil =>
      obtain rfl : nNext = nNext' := hadj
      refine ⟨s, kids, outer, rfl, ?_, hknown⟩
      rw [List.append_nil]
      exact h
  | cons node nodes ih =>
      obtain ⟨rfl, -, hrest⟩ := hadj
      obtain ⟨s₁, kids₁, outer₁, hnode, h₁, hknown₁⟩ := h.turn hknown bIgnoreCase doc nRootDepth
      obtain ⟨s', kids', outer', hturns, h', hknown'⟩ := ih h₁ hknown₁ hrest
      rw [ParseState.turns, hnode, Option.bind_some, List.append_cons]
      exact ⟨s', kids', outer', hturns, h', hknown'⟩

end Step

section Document

variable {lead : UInt8 → Bool} {bIgnoreCase : Bool} {doc : List UInt8} {kids : Nat → List Nat}
  {s : ParseState} {nodes : List Node}

/--
The positions of a document: a tree with an element for each start tag, where the
children of an element lie inside its content, one behind the other.  An element
that is not ended is cut down to its start tag and has no children.
-/
structure PosTree (elems : Elems) (m_iPosFree nDocLen : Nat) (nodes : List Node)
    (kids : Nat → List Nat) : Prop where
  tree : Tree elems.tree m_iPosFree kids
  tagged : Tagged elems m_iPosFree (startTags nodes)
  ended : ∀ (j : Nat) (tag : Node), (startTags nodes)[j]? = some tag →
    Ended elems kids nodes (j + 1) tag
  nested : ∀ i < m_iPosFree,
    Ordered (fun k => (elems k).nStart) (fun k => (elems k).startAfter)
      (elems i).startContent (kids i) (elems i).contentEnd
  root : (elems 0).startContent = 0 ∧ (elems 0).contentEnd = nDocLen

theorem finish_place (nDocLen j : Nat) :
    ((s.finish nDocLen).1 j).iElemParent = (s.elems j).iElemParent ∧
      ((s.finish nDocLen).1 j).iElemPrev = (s.elems j).iElemPrev ∧
      ((s.finish nDocLen).1 j).extent =
        if j = 0 then
          ((s.elems 0).nStart, nDocLen, (s.elems 0).nStartTagLen, (s.elems 0).nEndTagLen)
        else (s.elems j).extent := by
  rw [ParseState.finish, ElemPos.extent, ElemPos.extent]
  by_cases hroot : 0 < s.iPosRoot
  · rw [if_pos hroot]
    grind [Elems.modify_apply]
  · rw [if_neg hroot]
    grind [Elems.modify_apply]

theorem finish_tree (h : s.Linked kids []) (nDocLen : Nat) :
    (s.finish nDocLen).1.tree = s.elems.tree := by
  rw [Elems.tree, Elems.tree, Links.mk.injEq]
  refine ⟨funext fun j => ?_, funext fun j => ?_, funext fun j => ?_, funext fun j => ?_⟩
  · exact (finish_place nDocLen j).1
  · rw [(finish_apply nDocLen j).2.2]
    split_ifs with hj
    · rw [hj.1]
      exact h.iPosRoot
    · rfl
  · exact (finish_apply nDocLen j).2.1
  · exact (finish_place nDocLen j).2.1

/-- `x_ParseDoc` makes the virtual parent as long as the document. -/
theorem ParseState.Nested.finish {nDocLen : Nat}
    (h : s.Nested kids [] nDocLen nodes) :
    PosTree (s.finish nDocLen).1 (s.finish nDocLen).2.1 nDocLen nodes kids := by
  have hfree : (s.finish nDocLen).2.1 = s.m_iPosFree := by
    rw [ParseState.finish]
    split_ifs <;> rfl
  have htree := finish_tree h.linked nDocLen
  have hextent (j : Nat) := (finish_place (s := s) nDocLen j).2.2
  rw [hfree]
  generalize (s.finish nDocLen).1 = elems at htree hextent ⊢
  have hzero : s.iPos = 0 := h.linked.path.1
  have hother (j : Nat) (hj : j ≠ 0) : (elems j).extent = (s.elems j).extent :=
    (hextent j).trans (if_neg hj)
  have hroot : (elems 0).extent = (0, nDocLen, 0, 0) := by
    rw [hextent, if_pos rfl, h.root.1, h.root.2.1, h.root.2.2]
  have hnStart : (elems 0).nStart = 0 := congrArg (fun x => x.1) hroot
  have hnLength : (elems 0).nLength = nDocLen := congrArg (fun x => x.2.1) hroot
  have hnStartTagLen : (elems 0).nStartTagLen = 0 := congrArg (fun x => x.2.2.1) hroot
  have hnEndTagLen : (elems 0).nEndTagLen = 0 := congrArg (fun x => x.2.2.2) hroot
  have hstart (j : Nat) : (elems j).nStart = (s.elems j).nStart ∧
      (elems j).nStartTagLen = (s.elems j).nStartTagLen := by
    by_cases hj : j = 0
    · rw [hj, hnStart, hnStartTagLen, h.root.1, h.root.2.1]
      exact ⟨rfl, rfl⟩
    · exact ⟨nStart_of_extent (hother j hj), nStartTagLen_of_extent (hother j hj)⟩
  have hcontent (j : Nat) : (elems j).startContent = (s.elems j).startContent := by
    rw [ElemPos.startContent, ElemPos.startContent, (hstart j).1, (hstart j).2]
  have hend : (elems 0).contentEnd = nDocLen := by
    rw [ElemPos.contentEnd, ElemPos.startAfter, hnStart, hnLength, hnEndTagLen]
    omega
  have hmem (j : Nat) : j ∈ [s.iPos] ↔ j = 0 := by
    rw [hzero, List.mem_singleton]
  refine ⟨htree ▸ h.linked.tree, ⟨h.tagged.free, fun j node hj => ?_⟩, fun j tag hj => ?_,
    fun i hi => ?_, ?_, hend⟩
  · rw [(hstart _).1, (hstart _).2]
    exact h.tagged.start j node hj
  · have hne : j + 1 ≠ 0 := Nat.succ_ne_zero j
    exact (h.ended j tag hj fun hj' => hne ((hmem _).mp hj')).congr (hother _ hne) rfl
      fun _ hnode => hnode
  · have hlimit : limitOf s.elems [s.iPos] nDocLen i = (elems i).contentEnd := by
      rw [limitOf]
      by_cases hi0 : i = 0
      · rw [if_pos ((hmem i).mpr hi0), hi0, hend]
      · rw [if_neg fun he => hi0 ((hmem i).mp he), contentEnd_of_extent (hother i hi0)]
    rw [hcontent, ← hlimit]
    refine (h.nested i hi).congr (fun k _ => (hstart k).1) fun k hk => ?_
    have hk0 : k ≠ 0 := by
      have hik := (h.linked.tree.below i hi k hk).2.1
      omega
    rw [stopOf, if_neg fun he => hk0 ((hmem k).mp he)]
    exact startAfter_of_extent (hother k hk0)
  · rw [ElemPos.startContent, hnStart, hnStartTagLen]

/-- In front of the first node. -/
theorem nested_start (elems : Elems) :
    ParseState.Nested
      { elems := Elems.set elems 0 ElemPos.clear
        m_iPosFree := 1
        iPosRoot := 0
        iPos := 0
        iPosParent := 0
        elemstack := []
        m_strResult := [] } (fun _ => []) [] 0 [] := by
  refine ⟨linked_start elems [], fun i hi => ?_, ⟨rfl, rfl, rfl⟩, ⟨rfl, fun j node hj => ?_⟩,
    fun j tag hj => ?_⟩
  · rw [Nat.lt_one_iff.mp hi]
    exact Nat.le_refl _
  · cases hj
  · cases hj

/--
For every document of whole characters `x_ParseDoc` comes back, whatever its
markup is: the positions are a tree with an element for each start tag, and each
element ends with an end tag of the document, or with its start tag.
-/
theorem parseDoc_tree
    (hlead : LeadBytes lead) (hzero : (0 : UInt8) ∉ doc) (hwhole : whole lead false doc = true)
    (bIgnoreCase : Bool) (elems : Elems) :
    ∃ nodes elems' m_iPosFree m_strResult kids, nodesOf lead doc = some nodes ∧
      parseDoc lead bIgnoreCase doc elems = some (elems', m_iPosFree, m_strResult) ∧
      PosTree elems' m_iPosFree doc.length nodes kids := by
  obtain ⟨nodes, hnodes, hadj, -⟩ := nodesOf_tile hlead hzero hwhole
  obtain ⟨s₁, kids₁, outer₁, hturns, hnested₁, hknown₁⟩ :=
    (nested_start elems).turns (fun i _ n hn => by cases hn) hadj bIgnoreCase doc
      (Elems.set elems 0 ElemPos.clear 0).level
  obtain ⟨s₂, kids₂, outer₂, hclose, hnested₂, -, hdrop, -⟩ :=
    closeTo_nested doc.length hnested₁ (fun i hi => hknown₁ i (List.mem_cons_of_mem _ hi))
      (Nat.zero_le _)
  have hlen := congrArg List.length hdrop
  rw [List.length_drop, List.length_cons, List.length_cons] at hlen
  obtain rfl : outer₂ = [] := List.length_eq_zero_iff.mp (by omega)
  refine ⟨nodes, ?_⟩
  rw [parseDoc]
  by_cases hempty : doc.length = 0
  · obtain rfl : doc = [] := List.length_eq_zero_iff.mp hempty
    have hnone : nodesOf lead [] = some [] := rfl
    rw [hnone, Option.some_inj] at hnodes
    have hstart := nested_start elems
    rw [if_pos hempty, ← hnodes]
    refine ⟨_, _, _, fun _ => [], hnone, rfl, hstart.linked.tree, hstart.tagged,
      fun j tag hj => ?_, fun i hi => ?_, rfl, rfl⟩
    · cases hj
    · rw [Nat.lt_one_iff.mp hi]
      exact Nat.le_refl _
  · have hparse := hnodes
    rw [nodesOf] at hparse
    rw [if_neg hempty, parseElem, parseElemLoop_eq, hparse, Option.bind_some, hturns,
      Option.bind_some, hclose]
    exact ⟨_, _, _, kids₂, hnodes, rfl, hnested₂.finish⟩

end Document

section Examples

/-- `<r><a><b/></r>`, with an element that is not ended. -/
def unendedDoc : List UInt8 :=
  [60, 114, 62, 60, 97, 62, 60, 98, 47, 62, 60, 47, 114, 62]

theorem parseDoc_tree_example :
    ∃ nodes elems' m_iPosFree m_strResult kids, nodesOf leadHigh unendedDoc = some nodes ∧
      parseDoc leadHigh false unendedDoc (fun _ => ElemPos.clear) =
        some (elems', m_iPosFree, m_strResult) ∧
      PosTree elems' m_iPosFree 14 nodes kids :=
  parseDoc_tree leadBytes_leadHigh (by decide) (by decide) false fun _ => ElemPos.clear

end Examples

end Markup
end IocpNetlib
