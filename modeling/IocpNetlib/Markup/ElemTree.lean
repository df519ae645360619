import IocpNetlib.Lib.IndexTree
import IocpNetlib.Markup.ParseElem

/-!
# The tree of positions

What `x_ParseElem` does to the links of the array, operation by operation.
-/

namespace IocpNetlib
namespace Markup

open IndexList IndexTree

/-- The links of the array. -/
def Elems.tree (elems : Elems) : Links where
  parent j := (elems j).iElemParent
  child j := (elems j).iElemChild
  next j := (elems j).iElemNext
  prev j := (elems j).iElemPrev

theorem Elems.set_apply (elems : Elems) (i : Nat) (e : ElemPos) (j : Nat) :
    elems.set i e j = if j = i then e else elems j :=
  rfl

theorem Elems.modify_apply (elems : Elems) (i : Nat) (f : ElemPos → ElemPos) (j : Nat) :
    elems.modify i f j = if j = i then f (elems i) else elems j :=
  rfl

section StartTag

variable {doc : List UInt8} {nRootDepth : UInt32} {node : Node} {s : ParseState}

/-- The place of an element in the document. -/
def ElemPos.extent (e : ElemPos) : Nat × Nat × Nat × Nat :=
  (e.nStart, e.nLength, e.nStartTagLen, e.nEndTagLen)

/-- The element `i` is `elem`, and is linked behind the last child of `iPosParent`. -/
structure Appended (elems elems' : Elems) (iPosParent i : Nat) (elem : ElemPos) : Prop where
  parent : ∀ j, (elems' j).iElemParent = if j = i then elem.iElemParent else (elems j).iElemParent
  child : ∀ j, (elems' j).iElemChild =
    if j = i then elem.iElemChild
    else if (elems iPosParent).iElemChild = 0 ∧ j = iPosParent then i
    else (elems j).iElemChild
  next : ∀ j, (elems' j).iElemNext =
    if j = i then elem.iElemNext
    else if (elems iPosParent).iElemChild ≠ 0 ∧
        j = (elems (elems iPosParent).iElemChild).iElemPrev then i
    else (elems j).iElemNext
  prev : ∀ j, (elems' j).iElemPrev =
    if j = i then
      if (elems iPosParent).iElemChild = 0 then i
      else (elems (elems iPosParent).iElemChild).iElemPrev
    else if (elems iPosParent).iElemChild ≠ 0 ∧ j = (elems iPosParent).iElemChild then i
    else (elems j).iElemPrev
  extent : ∀ j, (elems' j).extent = if j = i then elem.extent else (elems j).extent
  nFlags : ∀ j, j ≠ i → (elems' j).nFlags = (elems j).nFlags

theorem linkElem_appended
    {elems : Elems} {iPosParent i : Nat} (elem : ElemPos)
    (hfirst : (elems iPosParent).iElemChild ≠ i) :
    Appended elems (linkElem elems iPosParent i elem) iPosParent i elem := by
  constructor
  all_goals
    intro j
    simp only [linkElem, ElemPos.extent]
    grind [Elems.set_apply, Elems.modify_apply]

/-- The element is changed, but not its links to others. -/
theorem Appended.modify
    {elems elems' : Elems} {iPosParent i : Nat} {elem : ElemPos} {f : ElemPos → ElemPos}
    (h : Appended elems elems' iPosParent i elem)
    (hf : (f (elems' i)).iElemPrev = (elems' i).iElemPrev) :
    Appended elems (elems'.modify i f) iPosParent i (f (elems' i)) := by
  refine ⟨fun j => ?_, fun j => ?_, fun j => ?_, fun j => ?_, fun j => ?_, fun j hj => ?_⟩
  · grind [Elems.modify_apply, h.parent j]
  · grind [Elems.modify_apply, h.child j]
  · grind [Elems.modify_apply, h.next j]
  · grind [Elems.modify_apply, h.prev j]
  · grind [Elems.modify_apply, h.extent j]
  · rw [Elems.modify_apply, if_neg hj]
    exact h.nFlags j hj

/-- The place of the element of a start tag. -/
structure Placed (e : ElemPos) (node : Node) : Prop where
  nStart : e.nStart = node.nStart
  nStartTagLen : e.nStartTagLen = node.nLength % 0x400000
  empty : node.empty = true → e.nLength = node.nLength ∧ e.nEndTagLen = 0

theorem placed_startTag (node : Node) (nLev : UInt32) (e : ElemPos) :
    Placed (e.startTag nLev node) node := by
  rw [ElemPos.startTag]
  dsimp only
  split_ifs with hempty
  · exact ⟨rfl, rfl, fun _ => ⟨rfl, rfl⟩⟩
  · exact ⟨rfl, rfl, fun h => absurd h hempty⟩

theorem links_startTag (node : Node) (nLev : UInt32) (e : ElemPos) :
    (e.startTag nLev node).iElemParent = e.iElemParent ∧
      (e.startTag nLev node).iElemChild = 0 ∧
      (e.startTag nLev node).iElemNext = e.iElemNext ∧
      (e.startTag nLev node).iElemPrev = e.iElemPrev := by
  rw [ElemPos.startTag]
  dsimp only
  split_ifs <;> exact ⟨rfl, rfl, rfl, rfl⟩

/-- A start tag adds an element without children. -/
theorem startTag_added (doc : List UInt8) (nRootDepth : UInt32) (node : Node)
    (hfirst : (s.elems s.iPosParent).iElemChild ≠ s.m_iPosFree) :
    Added s.elems.tree (s.startTag doc nRootDepth node).elems.tree s.iPosParent s.m_iPosFree ∧
      Placed ((s.startTag doc nRootDepth node).elems s.m_iPosFree) node ∧
      ∀ j, j ≠ s.m_iPosFree →
        ((s.startTag doc nRootDepth node).elems j).extent = (s.elems j).extent ∧
          ((s.startTag doc nRootDepth node).elems j).nFlags = (s.elems j).nFlags := by
  have happended := linkElem_appended
    { s.elems s.m_iPosFree with iElemParent := s.iPosParent, iElemNext := 0 } hfirst
  have hlinks := links_startTag node (nRootDepth + s.elemstack.length.toUInt32)
    (linkElem s.elems s.iPosParent s.m_iPosFree
      { s.elems s.m_iPosFree with iElemParent := s.iPosParent, iElemNext := 0 } s.m_iPosFree)
  obtain ⟨hparent, hchild, hnext, hprev⟩ := hlinks
  have hmodify := happended.modify hprev
  refine ⟨⟨fun j => ?_, fun j => ?_, fun j => ?_, hmodify.prev⟩, ?_, fun j hj => ⟨?_, ?_⟩⟩
  · refine (hmodify.parent j).trans (if_congr Iff.rfl ?_ rfl)
    exact hparent.trans ((happended.parent _).trans (if_pos rfl))
  · exact (hmodify.child j).trans (if_congr Iff.rfl hchild rfl)
  · refine (hmodify.next j).trans (if_congr Iff.rfl ?_ rfl)
    exact hnext.trans ((happended.next _).trans (if_pos rfl))
  · rw [ParseState.startTag]
    dsimp only
    rw [Elems.modify_apply, if_pos rfl]
    exact placed_startTag _ _ _
  · exact (hmodify.extent j).trans (if_neg hj)
  · exact hmodify.nFlags j hj

end StartTag

section MoveChildren

variable {elems : Elems} {iPosParent p c fuel : Nat} {l : List Nat}

/-- The elements `l` are moved to the parent `iPosParent`, behind the element `p`. -/
structure Moved (elems elems' : Elems) (iPosParent p : Nat) (l : List Nat) : Prop where
  parent : ∀ j, (elems' j).iElemParent = if j ∈ l then iPosParent else (elems j).iElemParent
  child : ∀ j, (elems' j).iElemChild = (elems j).iElemChild
  next : ∀ j, (elems' j).iElemNext =
    if j = p then l.headD (elems p).iElemNext else (elems j).iElemNext
  prev : ∀ j, j ∉ l → (elems' j).iElemPrev = (elems j).iElemPrev
  extent : ∀ j, (elems' j).extent = (elems j).extent
  nFlags : ∀ j, (elems' j).nFlags = (elems j).nFlags

/-- One turn of the loop. -/
theorem moveChild_moved (elems : Elems) (iPosParent : Nat) (hp : p ≠ c) :
    Moved elems
      (Elems.modify
        (elems.modify c fun e => { e with iElemParent := iPosParent, iElemPrev := p }) p
        fun e => { e with iElemNext := c })
      iPosParent p [c] := by
  refine ⟨fun j => ?_, fun j => ?_, fun j => ?_, fun j hj => ?_, fun j => ?_, fun j => ?_⟩
  · simp only [List.mem_singleton]
    grind [Elems.modify_apply]
  · grind [Elems.modify_apply]
  · rw [List.headD_cons]
    grind [Elems.modify_apply]
  · rw [List.mem_singleton] at hj
    grind [Elems.modify_apply]
  · rw [ElemPos.extent, ElemPos.extent]
    grind [Elems.modify_apply]
  · grind [Elems.modify_apply]

theorem moveChildren_moved (iPosParent : Nat)
    (h : Chain (elems.tree.next) c l) (hp : p ∉ l) (hnodup : l.Nodup) (hfuel : l.length < fuel) :
    ∃ elems', moveChildren iPosParent fuel p c elems = some elems' ∧
      Moved elems elems' iPosParent p l := by
  induction l generalizing elems p c fuel with
  | nil =>
      obtain ⟨fuel, rfl⟩ := Nat.exists_eq_add_of_lt hfuel
      obtain rfl : c = 0 := h
      refine ⟨elems, ?_, ⟨by simp, by simp, fun j => ?_, by simp, by simp, by simp⟩⟩
      · rw [moveChildren, if_pos rfl]
      · split_ifs with hj
        · rw [hj]
          rfl
        · rfl
  | cons a l ih =>
      obtain ⟨rfl, ha, hl⟩ := h
      obtain ⟨hnot, hnodup⟩ := List.nodup_cons.mp hnodup
      rw [List.mem_cons, not_or] at hp
      cases fuel with
      | zero => exact absurd hfuel (Nat.not_lt_zero _)
      | succ fuel =>
          rw [moveChildren, if_neg ha]
          dsimp only
          have hmove := moveChild_moved elems iPosParent hp.1
          generalize Elems.modify (elems.modify c _) p _ = elems₂ at hmove ⊢
          have hchain : Chain (elems₂.tree.next) (elems₂ c).iElemNext l := by
            rw [hmove.next, if_neg (Ne.symm hp.1)]
            refine hl.congr fun j hj => (hmove.next j).trans (if_neg ?_)
            exact fun he => hp.2 (he ▸ hj)
          obtain ⟨elems', heq, hmoved⟩ :=
            ih hchain hnot hnodup (Nat.lt_of_succ_lt_succ hfuel)
          have hhead : l.headD (elems₂ c).iElemNext = (elems c).iElemNext := by
            rw [hmove.next, if_neg (Ne.symm hp.1)]
            cases l with
            | nil => rfl
            | cons b l => exact hl.1.symm
          refine ⟨elems', heq, ⟨fun j => ?_, fun j => ?_, fun j => ?_, fun j hj => ?_,
            fun j => ?_, fun j => ?_⟩⟩
          · grind [hmoved.parent j, hmove.parent j]
          · rw [hmoved.child, hmove.child]
          · grind [hmoved.next j, hmove.next j]
          · grind [hmoved.prev j, hmove.prev j]
          · rw [hmoved.extent, hmove.extent]
          · rw [hmoved.nFlags, hmove.nFlags]

end MoveChildren

section Linked

variable {s s' : ParseState} {kids : Nat → List Nat} {outer : List Nat} {p : Nat}

/-- The elements so far are a tree, and those from `iPos` to the virtual parent are open. -/
structure ParseState.Linked (s : ParseState) (kids : Nat → List Nat) (outer : List Nat) : Prop where
  tree : Tree s.elems.tree s.m_iPosFree kids
  path : Path s.elems.tree s.m_iPosFree kids s.iPos outer
  iPosParent : s.iPosParent = s.iPos
  height : s.elemstack.length = outer.length
  iPosRoot : s.iPosRoot = (s.elems 0).iElemChild

/-- The first children of the open elements `l` know the last ones. -/
def ParseState.Known (s : ParseState) (kids : Nat → List Nat) (l : List Nat) : Prop :=
  ∀ i ∈ l, LastKnown s.elems.tree kids i

theorem ParseState.Linked.lt_of_mem (h : s.Linked kids outer) {i : Nat}
    (hi : i ∈ s.iPos :: outer) : i < s.m_iPosFree := by
  have hlt := h.path.lt
  rcases List.mem_cons.mp hi with rfl | hi
  · exact hlt
  · exact Nat.lt_trans (h.path.lt_of_mem hi) hlt

/-- `x_ParseElem` is called with an empty tree. -/
theorem linked_start (elems : Elems) (m_strResult : List Result) :
    ParseState.Linked
      { elems := Elems.set elems 0 ElemPos.clear
        m_iPosFree := 1
        iPosRoot := 0
        iPos := 0
        iPosParent := 0
        elemstack := []
        m_strResult := m_strResult } (fun _ => []) [] :=
  ⟨tree_root rfl, ⟨rfl, Nat.one_pos⟩, rfl, rfl, rfl⟩

theorem ParseState.Linked.child_ne_free (h : s.Linked kids outer) :
    (s.elems s.iPosParent).iElemChild ≠ s.m_iPosFree := by
  have hlt := h.path.lt
  rw [h.iPosParent]
  intro heq
  have hchild : s.elems.tree.child s.iPos ≠ 0 :=
    ne_of_eq_of_ne heq (Nat.ne_of_gt (Nat.lt_of_le_of_lt (Nat.zero_le _) hlt))
  have hmem := (h.tree.below _ hlt _ (h.tree.child_mem hlt hchild)).2.2
  exact Nat.lt_irrefl _ (heq ▸ hmem)

theorem startTag_iPos (h : s.iPosParent = s.iPos) (doc : List UInt8) (nRootDepth : UInt32)
    (node : Node) :
    (s.startTag doc nRootDepth node).iPos = if node.empty then s.iPos else s.m_iPosFree := by
  rw [ParseState.startTag, h]

theorem ParseState.Linked.startTag
    (h : s.Linked kids outer) (hknown : s.Known kids (s.iPos :: outer)) (doc : List UInt8)
    (nRootDepth : UInt32) (node : Node) :
    (s.startTag doc nRootDepth node).Linked (addKid kids s.iPos s.m_iPosFree)
        (if node.empty then outer else s.iPos :: outer) ∧
      (s.startTag doc nRootDepth node).Known (addKid kids s.iPos s.m_iPosFree)
        ((s.startTag doc nRootDepth node).iPos ::
          if node.empty then outer else s.iPos :: outer) := by
  have hlt := h.path.lt
  have hadded := (startTag_added doc nRootDepth node h.child_ne_free).1
  rw [h.iPosParent] at hadded
  have htree := h.tree.add hlt (hknown _ List.mem_cons_self) hadded
  have hroot : (s.startTag doc nRootDepth node).iPosRoot =
      ((s.startTag doc nRootDepth node).elems 0).iElemChild := by
    have hchild : ((s.startTag doc nRootDepth node).elems 0).iElemChild = _ := hadded.child 0
    have hempty : (s.elems 0).iElemChild = 0 → s.iPos = 0 := fun he =>
      h.path.eq_zero ((h.tree.child_eq_zero_iff (by omega)).mp he)
    rw [hchild, ParseState.startTag]
    dsimp only
    rw [h.iPosRoot, if_neg (by omega : ¬ 0 = s.m_iPosFree)]
    by_cases hzero : (s.elems 0).iElemChild = 0
    · have htop := hempty hzero
      have hchild' : s.elems.tree.child s.iPos = 0 := htop ▸ hzero
      rw [if_pos hzero, if_pos ⟨hchild', htop.symm⟩]
    · rw [if_neg hzero, if_neg]
      · rfl
      · rintro ⟨hchild', htop⟩
        exact hzero (htop ▸ hchild')
  have hlast (i : Nat) (hi : i < s.m_iPosFree + 1)
      (hmem : i ≠ s.m_iPosFree → i ∈ s.iPos :: outer) :
      LastKnown (s.startTag doc nRootDepth node).elems.tree
        (addKid kids s.iPos s.m_iPosFree) i :=
    LastKnown.add (fun hne => hknown i (hmem hne)) h.tree hlt hadded hi
  cases hempty : node.empty with
  | true =>
      have hpos : (s.startTag doc nRootDepth node).iPos = s.iPos := by
        rw [startTag_iPos h.iPosParent, hempty]
        rfl
      refine ⟨⟨htree, ?_, rfl, ?_, hroot⟩, fun i hi => ?_⟩
      · rw [hpos]
        exact h.path.add hadded
      · rw [ParseState.startTag, hempty]
        exact h.height
      · rw [hpos] at hi
        exact hlast i (Nat.lt_succ_of_lt (h.lt_of_mem hi)) fun _ => hi
  | false =>
      have hpos : (s.startTag doc nRootDepth node).iPos = s.m_iPosFree := by
        rw [startTag_iPos h.iPosParent, hempty]
        rfl
      refine ⟨⟨htree, ?_, rfl, ?_, hroot⟩, fun i hi => ?_⟩
      · rw [hpos]
        exact h.path.open hadded
      · rw [ParseState.startTag, hempty]
        exact congrArg Nat.succ h.height
      · rw [hpos] at hi
        rcases List.mem_cons.mp hi with rfl | hi
        · exact hlast _ (Nat.lt_succ_self _) fun hne => absurd rfl hne
        · exact hlast i (Nat.lt_succ_of_lt (h.lt_of_mem hi)) fun _ => hi

theorem nonEnded_apply (elems : Elems) (i j : Nat) :
    (elems.nonEnded i j).iElemParent = (elems j).iElemParent ∧
      (elems.nonEnded i j).iElemChild = (if j = i then 0 else (elems j).iElemChild) ∧
      (elems.nonEnded i j).iElemNext = (elems j).iElemNext ∧
      (elems.nonEnded i j).iElemPrev = (elems j).iElemPrev ∧
      (elems.nonEnded i j).extent =
        if j = i then ((elems i).nStart, (elems i).nStartTagLen, (elems i).nStartTagLen, 0)
        else (elems j).extent := by
  rw [Elems.nonEnded]
  simp only [ElemPos.extent]
  split_ifs <;>
    grind [Elems.modify_apply, ElemPos.addFlags, ElemPos.setEndTagLen]

/-- An element that is not ended gives its children to its parent. -/
theorem unended_flattened (h : s.Linked kids (p :: outer)) (nOffset2 : Int) :
    ∃ s', s.unended nOffset2 = some s' ∧
      Flattened s.elems.tree s'.elems.tree p s.iPos (kids s.iPos) ∧
      (∀ j, (s'.elems j).extent =
        if j = s.iPos then
          ((s.elems s.iPos).nStart, (s.elems s.iPos).nStartTagLen,
            (s.elems s.iPos).nStartTagLen, 0)
        else (s.elems j).extent) ∧
      s'.m_iPosFree = s.m_iPosFree ∧ s'.iPosRoot = s.iPosRoot ∧ s'.iPos = p ∧
      s'.iPosParent = p ∧ s'.elemstack = s.elemstack.tail := by
  have hlt := h.path.lt
  have hp : (s.elems s.iPos).iElemParent = p := h.path.1
  have hended := nonEnded_apply s.elems s.iPos
  have hchain : Chain (s.elems.nonEnded s.iPos).tree.next (s.elems s.iPos).iElemChild
      (kids s.iPos) := (h.tree.chain _ hlt).congr fun j _ => (hended j).2.2.1
  have hself : s.iPos ∉ kids s.iPos := fun hmem =>
    Nat.lt_irrefl _ (h.tree.below _ hlt _ hmem).2.1
  obtain ⟨elems', heq, hmoved⟩ := moveChildren_moved p hchain hself
    (h.tree.nodup hlt) (Nat.lt_succ_of_le (h.tree.length_le hlt))
  rw [ParseState.unended, hp, heq]
  refine ⟨_, rfl, ⟨fun j => ?_, fun j => ?_, fun j => ?_, fun j hj => ?_⟩, fun j => ?_, rfl, rfl,
    rfl, rfl, rfl⟩
  · exact (hmoved.parent j).trans (if_congr Iff.rfl rfl (hended j).1)
  · exact (hmoved.child j).trans (hended j).2.1
  · refine (hmoved.next j).trans (if_congr Iff.rfl ?_ (hended j).2.2.1)
    rw [(hended s.iPos).2.2.1]
    rfl
  · exact (hmoved.prev j hj).trans (hended j).2.2.2.1
  · exact (hmoved.extent j).trans (hended j).2.2.2.2

/-- Its parent is now the innermost open element, and may not know its last child. -/
theorem ParseState.Linked.flatten
    (h : s.Linked kids (p :: outer))
    (hflat : Flattened s.elems.tree s'.elems.tree p s.iPos (kids s.iPos))
    (hfree : s'.m_iPosFree = s.m_iPosFree) (hroot : s'.iPosRoot = s.iPosRoot)
    (hpos : s'.iPos = p) (hparent : s'.iPosParent = p)
    (hstack : s'.elemstack = s.elemstack.tail) (hknown : s.Known kids outer) :
    s'.Linked (moveKids kids p s.iPos) outer ∧ s'.Known (moveKids kids p s.iPos) outer := by
  have hlt := h.path.lt
  obtain ⟨-, hps, -, -, hrest⟩ := h.path
  refine ⟨⟨?_, ?_, by rw [hparent, hpos], ?_, ?_⟩, fun i hi => ?_⟩
  · rw [hfree]
    exact h.tree.flatten h.path hflat
  · rw [hfree, hpos]
    exact h.path.flatten h.tree hflat
  · rw [hstack, List.length_tail, h.height]
    rfl
  · have hchild : (s'.elems 0).iElemChild = _ := hflat.child 0
    rw [hroot, h.iPosRoot, hchild, if_neg (by omega)]
    rfl
  · have hip := hrest.lt_of_mem hi
    exact (hknown i hi).flatten h.tree (by omega) hlt (by omega) (Nat.ne_of_lt hip) hflat

/-- Only the links matter. -/
theorem ParseState.Linked.congr {elems' : Elems}
    (h : s.Linked kids outer) (htree : elems'.tree = s.elems.tree) :
    ParseState.Linked { s with elems := elems' } kids outer := by
  refine ⟨?_, ?_, h.iPosParent, h.height, ?_⟩
  · exact htree.symm ▸ h.tree
  · exact htree.symm ▸ h.path
  · exact h.iPosRoot.trans (congrFun (congrArg Links.child htree.symm) 0)

theorem ParseState.Known.congr {elems' : Elems} {l : List Nat}
    (h : s.Known kids l) (htree : elems'.tree = s.elems.tree) :
    ParseState.Known { s with elems := elems' } kids l :=
  fun i hi => htree.symm ▸ h i hi

/-- The links of an element. -/
def ElemPos.links (e : ElemPos) : Nat × Nat × Nat × Nat :=
  (e.iElemParent, e.iElemChild, e.iElemNext, e.iElemPrev)

theorem tree_modify {elems : Elems} {i : Nat} {f : ElemPos → ElemPos}
    (hf : ∀ e, (f e).links = e.links) : (elems.modify i f).tree = elems.tree := by
  have hlinks (j : Nat) : (elems.modify i f j).links = (elems j).links := by
    rw [Elems.modify_apply]
    split_ifs with hj
    · rw [hf, hj]
    · rfl
  rw [Elems.tree, Elems.tree, Links.mk.injEq]
  refine ⟨funext fun j => ?_, funext fun j => ?_, funext fun j => ?_, funext fun j => ?_⟩
  · exact congrArg (fun l => l.1) (hlinks j)
  · exact congrArg (fun l => l.2.1) (hlinks j)
  · exact congrArg (fun l => l.2.2.1) (hlinks j)
  · exact congrArg (fun l => l.2.2.2) (hlinks j)

/-- The innermost element is closed. -/
theorem ParseState.Linked.pop (h : s.Linked kids (p :: outer)) :
    ParseState.Linked
      { s with
        iPosParent := (s.elems s.iPos).iElemParent
        iPos := (s.elems s.iPos).iElemParent
        elemstack := s.elemstack.tail } kids outer := by
  have hp : (s.elems s.iPos).iElemParent = p := h.path.1
  refine ⟨h.tree, ?_, rfl, ?_, h.iPosRoot⟩
  · dsimp only
    rw [hp]
    exact h.path.2.2.2.2
  · dsimp only
    rw [List.length_tail, h.height]
    rfl

end Linked

end Markup
end IocpNetlib
