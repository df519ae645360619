import IocpNetlib.Lib.Nesting
import IocpNetlib.Markup.ElemTree
import Mathlib.Data.Nat.Bitwise

/-!
# Well-formed documents

`x_ParseDoc` says whether a document is well formed: `MNF_ILLFORMED` of the
virtual parent is not set, and the document has one outermost element.  By
`isWellFormed_iff` this is so exactly if the nodes of the document are well
nested, with one element at the outermost level.
-/

namespace IocpNetlib
namespace Markup

open IndexList IndexTree Nesting

/-- What a node is for the nesting. -/
def Node.symbol (doc : List UInt8) (node : Node) : Symbol (List UInt8) :=
  if node.nNodeType = .element then
    if node.empty then .leaf else .opening (node.token doc)
  else if node.nNodeType = .endTag then .closing (node.token doc)
  else if node.nNodeType = .bad then .bad
  else .text

section IllFormed

/-- `MNF_ILLFORMED` is set. -/
def ElemPos.illFormed (e : ElemPos) : Prop :=
  e.nFlags &&& mnfIllFormed ≠ 0

theorem and_illFormed_ne_zero_iff {n : UInt32} :
    n &&& mnfIllFormed ≠ 0 ↔ n.toNat.testBit 23 = true := by
  have hbit : mnfIllFormed.toNat = 2 ^ 23 := rfl
  rw [Ne, ← UInt32.toNat_inj, UInt32.toNat_and, hbit, Nat.and_two_pow]
  cases n.toNat.testBit 23 <;> decide

theorem ElemPos.illFormed.addFlags {e : ElemPos} (h : e.illFormed) (n : UInt32) :
    (e.addFlags n).illFormed := by
  rw [ElemPos.illFormed, and_illFormed_ne_zero_iff] at h ⊢
  rw [ElemPos.addFlags, UInt32.toNat_or, Nat.testBit_or, h, Bool.true_or]

theorem illFormed_addFlags (e : ElemPos) : (e.addFlags mnfIllFormed).illFormed := by
  have hbit : mnfIllFormed.toNat.testBit 23 = true := by decide
  rw [ElemPos.illFormed, and_illFormed_ne_zero_iff]
  rw [ElemPos.addFlags, UInt32.toNat_or, Nat.testBit_or, hbit, Bool.or_true]

/-- `MNF_ILLDATA` is another bit. -/
theorem illFormed_xor_illData {n : UInt32} (h : n &&& mnfIllFormed ≠ 0) :
    (n ^^^ mnfIllData) &&& mnfIllFormed ≠ 0 := by
  have hbit : mnfIllData.toNat.testBit 23 = false := by decide
  rw [and_illFormed_ne_zero_iff] at h ⊢
  rw [UInt32.toNat_xor, Nat.testBit_xor, h, hbit, Bool.xor_false]

end IllFormed

section Kept

variable {elems elems' : Elems} {bIgnoreCase : Bool} {doc : List UInt8} {nRootDepth : UInt32}
  {node : Node} {s s' : ParseState} {nOffset2 : Int} {nMatchLevel : Nat}

/-- The virtual parent `0` is ill formed; a new element is another one. -/
structure ParseState.Ill (s : ParseState) : Prop where
  flag : (s.elems 0).illFormed
  m_iPosFree : s.m_iPosFree ≠ 0

theorem illFormed_modify {i : Nat} {f : ElemPos → ElemPos}
    (h : (elems 0).illFormed) (hf : ∀ e : ElemPos, e.illFormed → (f e).illFormed) :
    (elems.modify i f 0).illFormed := by
  rw [Elems.modify_apply]
  split_ifs with hi
  · exact hf _ (hi ▸ h)
  · exact h

theorem linkElem_nFlags {iPosParent i j : Nat} {elem : ElemPos} (hj : j ≠ i) :
    (linkElem elems iPosParent i elem j).nFlags = (elems j).nFlags := by
  rw [linkElem]
  grind [Elems.set_apply, Elems.modify_apply]

theorem startTag_nFlags {j : Nat} (hj : j ≠ s.m_iPosFree) :
    ((s.startTag doc nRootDepth node).elems j).nFlags = (s.elems j).nFlags := by
  rw [ParseState.startTag]
  dsimp only
  rw [Elems.modify_apply, if_neg hj, linkElem_nFlags hj]

theorem ParseState.Ill.startTag (h : s.Ill) : (s.startTag doc nRootDepth node).Ill := by
  refine ⟨?_, Nat.succ_ne_zero _⟩
  rw [ElemPos.illFormed, startTag_nFlags h.m_iPosFree.symm]
  exact h.flag

theorem moveChildren_nFlags {iPosParent fuel i c : Nat}
    (h : moveChildren iPosParent fuel i c elems = some elems') (j : Nat) :
    (elems' j).nFlags = (elems j).nFlags := by
  induction fuel generalizing i c elems with
  | zero => cases h
  | succ fuel ih =>
      rw [moveChildren] at h
      split_ifs at h with hc
      · cases h
        rfl
      · rw [ih h]
        grind [Elems.modify_apply]

theorem illFormed_nonEnded (h : (elems 0).illFormed) (i : Nat) :
    (elems.nonEnded i 0).illFormed := by
  rw [Elems.nonEnded]
  dsimp only
  split_ifs
  · refine illFormed_modify (illFormed_modify (illFormed_modify h ?_) ?_) fun e he => he.addFlags _
    · exact fun e he => he.addFlags _
    · exact fun e he => illFormed_xor_illData he
  · exact illFormed_modify h fun e he => he.addFlags _

theorem ParseState.Ill.unended (h : s.Ill) (heq : s.unended nOffset2 = some s') : s'.Ill := by
  rw [ParseState.unended] at heq
  obtain ⟨elems, hmove, rfl⟩ := Option.map_eq_some_iff.mp heq
  refine ⟨?_, h.m_iPosFree⟩
  rw [ElemPos.illFormed, moveChildren_nFlags hmove]
  exact illFormed_nonEnded h.flag s.iPos

theorem ParseState.Ill.unendedLoop {n : Nat}
    (h : s.Ill) (heq : Markup.unendedLoop nOffset2 nMatchLevel n s = some s') : s'.Ill := by
  induction n generalizing s with
  | zero =>
      cases heq
      exact h
  | succ n ih =>
      rw [Markup.unendedLoop] at heq
      split_ifs at heq with hlt
      · cases hstep : s.unended nOffset2 with
        | none => rw [hstep] at heq; cases heq
        | some s₁ =>
            rw [hstep] at heq
            exact ih (h.unended hstep) heq
      · cases heq
        exact h

theorem ParseState.Ill.closeTo
    (h : s.Ill) (heq : s.closeTo 0 nMatchLevel nOffset2 = some s') : s'.Ill := by
  rw [ParseState.closeTo] at heq
  refine ParseState.Ill.unendedLoop ?_ heq
  split_ifs
  · exact ⟨illFormed_modify h.flag fun e he => he.addFlags _, h.m_iPosFree⟩
  · exact h

/-- An element that is not ended makes the document ill formed. -/
theorem ill_closeTo
    (hfree : s.m_iPosFree ≠ 0) (hlt : nMatchLevel < s.elemstack.length)
    (heq : s.closeTo 0 nMatchLevel nOffset2 = some s') : s'.Ill := by
  rw [ParseState.closeTo, if_pos hlt] at heq
  dsimp only at heq
  refine ParseState.Ill.unendedLoop ?_ heq
  refine ⟨?_, hfree⟩
  dsimp only
  rw [Elems.modify_apply, if_pos rfl]
  exact illFormed_addFlags _

theorem ill_illFormed (hfree : s.m_iPosFree ≠ 0) : (s.illFormed 0).Ill := by
  refine ⟨illFormed_modify ?_ fun e he => he.addFlags _, hfree⟩
  rw [Elems.modify_apply, if_pos rfl]
  exact illFormed_addFlags _

theorem ParseState.Ill.pop {iPos iPosParent : Nat} {elemstack : List (List UInt8)} (h : s.Ill) :
    ParseState.Ill { s with iPosParent := iPosParent, iPos := iPos, elemstack := elemstack } :=
  ⟨h.flag, h.m_iPosFree⟩

theorem ParseState.Ill.endTag
    (h : s.Ill) (heq : s.endTag bIgnoreCase doc 0 node = some s') : s'.Ill := by
  rw [ParseState.endTag] at heq
  dsimp only at heq
  split_ifs at heq with hm
  · cases heq
    exact ⟨(ill_illFormed h.m_iPosFree).flag, h.m_iPosFree⟩
  · obtain ⟨s₁, hclose, rfl⟩ := Option.map_eq_some_iff.mp heq
    refine ParseState.Ill.pop (ParseState.Ill.closeTo ⟨?_, ?_⟩ hclose)
    · exact illFormed_modify h.flag fun e he => he
    · exact h.m_iPosFree

theorem ParseState.Ill.turn (h : s.Ill) (heq : s.node bIgnoreCase doc 0 nRootDepth node = some s') :
    s'.Ill := by
  rw [ParseState.node] at heq
  split_ifs at heq with helem hend hbad
  · cases heq
    exact h.startTag
  · exact h.endTag heq
  · cases heq
    exact ⟨(ill_illFormed h.m_iPosFree).flag, h.m_iPosFree⟩
  · cases heq
    exact h

end Kept

section Sound

variable {elems : Elems} {bIgnoreCase : Bool} {doc : List UInt8} {nRootDepth : UInt32}
  {node : Node} {s s' : ParseState} {kids : Nat → List Nat} {outer : List Nat}
  {stack : List (List UInt8)} {n : Nat}

/-- What holds in the parser as long as the document is well formed. -/
structure ParseState.SoundAt (s : ParseState) (kids : Nat → List Nat) (outer : List Nat)
    (stack : List (List UInt8)) (n : Nat) : Prop where
  linked : s.Linked kids outer
  known : s.Known kids (s.iPos :: outer)
  elemstack : s.elemstack = stack
  flag : ¬ (s.elems 0).illFormed
  count : (kids 0).length = n

/-- The names of the open elements, and the number of outermost elements. -/
def ParseState.Sound (s : ParseState) (stack : List (List UInt8)) (n : Nat) : Prop :=
  ∃ kids outer, s.SoundAt kids outer stack n

theorem ParseState.Sound.elemstack (h : s.Sound stack n) : s.elemstack = stack := by
  obtain ⟨kids, outer, h⟩ := h
  exact h.elemstack

theorem ParseState.Sound.free_pos (h : s.Sound stack n) : 0 < s.m_iPosFree := by
  obtain ⟨kids, outer, h⟩ := h
  exact Nat.lt_of_le_of_lt (Nat.zero_le _) h.linked.path.lt

theorem ParseState.SoundAt.stack_eq_nil_iff (h : s.SoundAt kids outer stack n) :
    stack = [] ↔ outer = [] := by
  rw [← List.length_eq_zero_iff, ← h.elemstack, h.linked.height, List.length_eq_zero_iff]

/-- A start tag opens its element, and counts if nothing else is open. -/
theorem ParseState.Sound.startTag
    (h : s.Sound stack n) (doc : List UInt8) (nRootDepth : UInt32) (node : Node) :
    (s.startTag doc nRootDepth node).Sound
      (if node.empty then stack else node.token doc :: stack)
      (if stack = [] then n + 1 else n) := by
  have hfree : 0 ≠ s.m_iPosFree := Nat.ne_of_lt h.free_pos
  obtain ⟨kids, outer, h⟩ := h
  obtain ⟨hlinked, hknown⟩ := h.linked.startTag h.known doc nRootDepth node
  refine ⟨_, _, hlinked, hknown, ?_, ?_, ?_⟩
  · rw [← h.elemstack]
    rfl
  · rw [ElemPos.illFormed, startTag_nFlags hfree]
    exact h.flag
  · have hpath := h.linked.path
    cases outer with
    | nil =>
        rw [if_pos (h.stack_eq_nil_iff.mpr rfl), hpath.1, addKid_parent hfree, List.length_append,
          h.count]
        rfl
    | cons p outer =>
        have hpos : 0 ≠ s.iPos := Nat.ne_of_lt (Nat.lt_of_le_of_lt (Nat.zero_le _) hpath.2.1)
        rw [if_neg fun he => List.cons_ne_nil _ _ (h.stack_eq_nil_iff.mp he),
          addKid_of_ne hfree hpos]
        exact h.count

theorem findMatch_le {token : List UInt8} {iPosMatch : Nat} :
    (findMatch bIgnoreCase elems token stack iPosMatch).1 ≤ stack.length := by
  induction stack generalizing iPosMatch with
  | nil => exact Nat.le_refl _
  | cons a stack ih =>
      rw [findMatch]
      split_ifs
      · exact Nat.le_refl _
      · exact Nat.le_succ_of_le ih

theorem unendedLoop_of_le {nMatchLevel k : Nat} {nOffset2 : Int}
    (h : s.elemstack.length ≤ nMatchLevel) : unendedLoop nOffset2 nMatchLevel k s = some s := by
  cases k with
  | zero => rfl
  | succ k => rw [unendedLoop, if_neg (Nat.not_lt_of_le h)]

theorem closeTo_of_le {iVirtualParent nMatchLevel : Nat} {nOffset2 : Int}
    (h : s.elemstack.length ≤ nMatchLevel) :
    s.closeTo iVirtualParent nMatchLevel nOffset2 = some s := by
  rw [ParseState.closeTo, if_neg (Nat.not_lt_of_le h)]
  exact unendedLoop_of_le h

/-- The places of the elements do not matter. -/
theorem ParseState.SoundAt.congr {elems' : Elems}
    (h : s.SoundAt kids outer stack n) (htree : elems'.tree = s.elems.tree)
    (hflags : (elems' 0).nFlags = (s.elems 0).nFlags) :
    ParseState.SoundAt { s with elems := elems' } kids outer stack n := by
  refine ⟨h.linked.congr htree, h.known.congr htree, h.elemstack, ?_, h.count⟩
  rw [ElemPos.illFormed, hflags]
  exact h.flag

/-- The innermost element is closed. -/
theorem ParseState.SoundAt.pop {a : List UInt8} {p : Nat}
    (h : s.SoundAt kids (p :: outer) (a :: stack) n) :
    ParseState.SoundAt
      { s with
        iPosParent := (s.elems s.iPos).iElemParent
        iPos := (s.elems s.iPos).iElemParent
        elemstack := s.elemstack.tail } kids outer stack n := by
  have hp : (s.elems s.iPos).iElemParent = p := h.linked.path.1
  refine ⟨h.linked.pop, fun i hi => ?_, ?_, h.flag, h.count⟩
  · dsimp only at hi
    rw [hp] at hi
    exact h.known i (List.mem_cons_of_mem _ hi)
  · rw [h.elemstack]
    rfl

/-- The end tag of the innermost element. -/
theorem ParseState.Sound.endTag {a : List UInt8}
    (h : s.Sound (a :: stack) n) (hmatch : matchName bIgnoreCase (node.token doc) a = true) :
    ∃ s', s.endTag bIgnoreCase doc 0 node = some s' ∧ s'.Sound stack n := by
  obtain ⟨kids, outer, h⟩ := h
  have hfind : findMatch bIgnoreCase s.elems (node.token doc) s.elemstack s.iPos =
      (s.elemstack.length, s.iPos) := by
    rw [h.elemstack, findMatch, if_pos hmatch]
    rfl
  have hne : s.elemstack.length ≠ 0 := by
    rw [h.elemstack]
    exact Nat.succ_ne_zero _
  rw [ParseState.endTag, hfind]
  dsimp only
  rw [if_neg hne, closeTo_of_le]
  · cases outer with
    | nil => exact absurd h.linked.height hne
    | cons p outer =>
        refine ⟨_, rfl, kids, outer, (h.congr ?_ ?_).pop⟩
        · exact tree_modify fun e => rfl
        · rw [Elems.modify_apply]
          split_ifs with hi
          · rw [hi]
            rfl
          · rfl
  · exact Nat.le_refl _

/-- An end tag that is not the one of the innermost element. -/
theorem ParseState.Sound.ill_endTag
    (h : s.Sound stack n)
    (hmatch : ∀ a ∈ stack.head?, matchName bIgnoreCase (node.token doc) a = false)
    (heq : s.endTag bIgnoreCase doc 0 node = some s') : s'.Ill := by
  have hfree : s.m_iPosFree ≠ 0 := Nat.ne_of_gt h.free_pos
  rw [ParseState.endTag] at heq
  dsimp only at heq
  split_ifs at heq with hm
  · cases heq
    exact ⟨(ill_illFormed hfree).flag, hfree⟩
  · obtain ⟨s₁, hclose, rfl⟩ := Option.map_eq_some_iff.mp heq
    refine ParseState.Ill.pop (ill_closeTo ?_ ?_ hclose)
    · exact hfree
    · dsimp only
      rw [h.elemstack]
      cases stack with
      | nil => exact absurd (by rw [h.elemstack]; rfl) hm
      | cons a stack =>
          rw [findMatch, hmatch a rfl, if_neg Bool.false_ne_true]
          exact Nat.lt_succ_of_le findMatch_le

/-- A node that the nesting allows. -/
theorem ParseState.Sound.turn {stack' : List (List UInt8)} {n' : Nat}
    (h : s.Sound stack n) (nRootDepth : UInt32)
    (hstep : step (matchName bIgnoreCase) (node.symbol doc) (stack, n) = some (stack', n')) :
    ∃ s', s.node bIgnoreCase doc 0 nRootDepth node = some s' ∧ s'.Sound stack' n' := by
  rw [Node.symbol] at hstep
  rw [ParseState.node]
  split_ifs at hstep ⊢ with helem hempty hend hbad
  · have hopen := h.startTag doc nRootDepth node
    rw [if_pos hempty] at hopen
    cases hstep
    exact ⟨_, rfl, hopen⟩
  · have hopen := h.startTag doc nRootDepth node
    rw [if_neg hempty] at hopen
    cases hstep
    exact ⟨_, rfl, hopen⟩
  · cases stack with
    | nil => cases hstep
    | cons a stack =>
        rw [step] at hstep
        split_ifs at hstep with hmatch
        cases hstep
        exact h.endTag hmatch
  · cases hstep
  · cases hstep
    exact ⟨_, rfl, h⟩

/-- A node that the nesting does not allow. -/
theorem ParseState.Sound.ill_turn
    (h : s.Sound stack n)
    (hstep : step (matchName bIgnoreCase) (node.symbol doc) (stack, n) = none)
    (heq : s.node bIgnoreCase doc 0 nRootDepth node = some s') : s'.Ill := by
  have hfree : s.m_iPosFree ≠ 0 := Nat.ne_of_gt h.free_pos
  rw [Node.symbol] at hstep
  rw [ParseState.node] at heq
  split_ifs at hstep heq with helem hempty hend hbad
  · cases hstep
  · cases hstep
  · refine h.ill_endTag (fun a ha => ?_) heq
    cases stack with
    | nil => cases ha
    | cons b stack =>
        cases ha
        rw [step] at hstep
        split_ifs at hstep with hmatch
        exact Bool.eq_false_of_not_eq_true hmatch
  · cases heq
    exact ⟨(ill_illFormed hfree).flag, hfree⟩
  · cases hstep

end Sound

section Nodes

variable {bIgnoreCase : Bool} {doc : List UInt8} {nRootDepth : UInt32} {nodes : List Node}
  {s s' : ParseState} {stack stack' : List (List UInt8)} {n n' : Nat}

/-- The loop of `x_ParseElem` over the nodes of the document. -/
def ParseState.turns (bIgnoreCase : Bool) (doc : List UInt8) (iVirtualParent : Nat)
    (nRootDepth : UInt32) : List Node → ParseState → Option ParseState
  | [], s => some s
  | node :: nodes, s =>
      (s.node bIgnoreCase doc iVirtualParent nRootDepth node).bind
        (ParseState.turns bIgnoreCase doc iVirtualParent nRootDepth nodes)

theorem parseElemLoop_eq {lead : UInt8 → Bool} {iVirtualParent fuel m_nNext : Nat}
    {m_nL m_nR : Int} {strMeta : List Result} :
    parseElemLoop lead bIgnoreCase doc iVirtualParent nRootDepth fuel m_nNext m_nL m_nR strMeta s =
      (parseNodes lead doc fuel m_nNext m_nL m_nR strMeta).bind fun nodes =>
        (s.turns bIgnoreCase doc iVirtualParent nRootDepth nodes).bind
          (ParseState.closeTo iVirtualParent 0 doc.length) := by
  induction fuel generalizing m_nNext m_nL m_nR strMeta s with
  | zero => rfl
  | succ fuel ih =>
      rw [parseElemLoop, parseNodes]
      cases parseNode lead doc m_nNext m_nL m_nR strMeta with
      | none => rfl
      | some found =>
          cases found with
          | none => rfl
          | some node =>
              dsimp only
              rw [Option.bind_map]
              cases hnode : s.node bIgnoreCase doc iVirtualParent nRootDepth node with
              | none =>
                  simp only [Function.comp_def, ParseState.turns, hnode, Option.bind_none,
                    Option.bind_fun_none]
              | some s₁ =>
                  simp only [Function.comp_def, ParseState.turns, hnode, Option.bind_some]
                  exact ih

theorem ParseState.Ill.turns
    (h : s.Ill) (heq : s.turns bIgnoreCase doc 0 nRootDepth nodes = some s') : s'.Ill := by
  induction nodes generalizing s with
  | nil =>
      cases heq
      exact h
  | cons node nodes ih =>
      obtain ⟨s₁, hnode, hrest⟩ := Option.bind_eq_some_iff.mp heq
      exact ih (h.turn hnode) hrest

/-- Nodes that are nested. -/
theorem ParseState.Sound.turns
    (h : s.Sound stack n) (nRootDepth : UInt32)
    (hrun : run (matchName bIgnoreCase) (nodes.map (Node.symbol doc)) (stack, n) =
      some (stack', n')) :
    ∃ s', s.turns bIgnoreCase doc 0 nRootDepth nodes = some s' ∧ s'.Sound stack' n' := by
  induction nodes generalizing s stack n with
  | nil =>
      cases hrun
      exact ⟨s, rfl, h⟩
  | cons node nodes ih =>
      obtain ⟨⟨stack₁, n₁⟩, hstep, hrest⟩ := Option.bind_eq_some_iff.mp hrun
      obtain ⟨s₁, hnode, h₁⟩ := h.turn nRootDepth hstep
      rw [ParseState.turns, hnode]
      exact ih h₁ hrest

/-- Nodes that are not. -/
theorem ParseState.Sound.ill_turns
    (h : s.Sound stack n)
    (hrun : run (matchName bIgnoreCase) (nodes.map (Node.symbol doc)) (stack, n) = none)
    (heq : s.turns bIgnoreCase doc 0 nRootDepth nodes = some s') : s'.Ill := by
  induction nodes generalizing s stack n with
  | nil => cases hrun
  | cons node nodes ih =>
      obtain ⟨s₁, hnode, hrest⟩ := Option.bind_eq_some_iff.mp heq
      rw [List.map_cons, run] at hrun
      cases hstep : step (matchName bIgnoreCase) (node.symbol doc) (stack, n) with
      | none => exact (h.ill_turn hstep hnode).turns hrest
      | some next =>
          obtain ⟨s₂, hnode', h₂⟩ := h.turn nRootDepth hstep
          rw [hnode'] at hnode
          cases hnode
          rw [hstep] at hrun
          exact ih h₂ hrun hrest

end Nodes

section Document

variable {lead : UInt8 → Bool} {bIgnoreCase : Bool} {doc : List UInt8} {elems : Elems}
  {s : ParseState} {n : Nat}

/-- The positions with which `x_ParseDoc` ends. -/
theorem finish_apply (nDocLen j : Nat) :
    ((s.finish nDocLen).1 j).nFlags = (s.elems j).nFlags ∧
      ((s.finish nDocLen).1 j).iElemNext = (s.elems j).iElemNext ∧
      ((s.finish nDocLen).1 j).iElemChild =
        if j = 0 ∧ 0 < s.iPosRoot then s.iPosRoot else (s.elems j).iElemChild := by
  rw [ParseState.finish]
  by_cases hroot : 0 < s.iPosRoot
  · rw [if_pos hroot]
    grind [Elems.modify_apply]
  · rw [if_neg hroot]
    grind [Elems.modify_apply]

theorem ParseState.Ill.finish (h : s.Ill) (nDocLen : Nat) :
    isWellFormed (s.finish nDocLen).1 = false := by
  have hill : ¬ ((s.finish nDocLen).1 0).nFlags &&& mnfIllFormed = 0 := by
    rw [(finish_apply nDocLen 0).1]
    exact h.flag
  rw [isWellFormed, decide_eq_false hill, Bool.false_and, Bool.false_and]

/-- Without errors only the number of outermost elements matters. -/
theorem ParseState.Sound.finish (h : s.Sound [] n) (nDocLen : Nat) :
    isWellFormed (s.finish nDocLen).1 = true ↔ n = 1 := by
  have hfree := h.free_pos
  obtain ⟨kids, outer, h⟩ := h
  obtain ⟨hflags, -, hchild⟩ := finish_apply (s := s) nDocLen 0
  have hflag : (s.elems 0).nFlags &&& mnfIllFormed = 0 := not_not.mp h.flag
  have hroot : ((s.finish nDocLen).1 0).iElemChild = (s.elems 0).iElemChild := by
    rw [hchild, h.linked.iPosRoot, ite_self]
  have hone := (h.linked.tree.chain 0 hfree).length_eq_one_iff
  rw [isWellFormed, hflags, hflag, hroot, (finish_apply nDocLen _).2.1, decide_eq_true rfl,
    Bool.true_and, Bool.and_eq_true, decide_eq_true_eq, decide_eq_true_eq, ← h.count]
  exact hone.symm

/-- `x_ParseElem` is called with nothing open. -/
theorem sound_start (elems : Elems) (m_strResult : List Result) :
    ParseState.Sound
      { elems := Elems.set elems 0 ElemPos.clear
        m_iPosFree := 1
        iPosRoot := 0
        iPos := 0
        iPosParent := 0
        elemstack := []
        m_strResult := m_strResult } [] 0 := by
  have hflag : ¬ ElemPos.clear.illFormed := fun h => h rfl
  refine ⟨_, _, linked_start elems m_strResult, fun i _ n hn => ?_, rfl, hflag, rfl⟩
  cases hn

/-- The loop over the nodes, and the end of the document. -/
theorem wellFormed_nodes_iff
    (h : s.Sound [] 0) (bIgnoreCase : Bool) (doc : List UInt8) (nRootDepth : UInt32)
    (nodes : List Node) :
    (∃ s', (s.turns bIgnoreCase doc 0 nRootDepth nodes).bind
          (ParseState.closeTo 0 0 doc.length) = some s' ∧
        isWellFormed (s'.finish doc.length).1 = true) ↔
      Content (matchName bIgnoreCase) 1 (nodes.map (Node.symbol doc)) := by
  rw [← run_eq_some_iff]
  cases hrun : run (matchName bIgnoreCase) (nodes.map (Node.symbol doc)) ([], 0) with
  | none =>
      refine iff_of_false ?_ fun he => by cases he
      rintro ⟨s', heq, hwell⟩
      obtain ⟨s₁, hturns, hclose⟩ := Option.bind_eq_some_iff.mp heq
      have hill := ((h.ill_turns hrun hturns).closeTo hclose).finish doc.length
      exact Bool.false_ne_true (hill ▸ hwell)
  | some reached =>
      obtain ⟨stack, n⟩ := reached
      obtain ⟨s₁, hturns, hsound⟩ := h.turns nRootDepth hrun
      rw [hturns, Option.bind_some]
      cases stack with
      | nil =>
          have hlen : s₁.elemstack.length ≤ 0 := by
            rw [hsound.elemstack]
            exact Nat.le_refl _
          rw [closeTo_of_le hlen]
          constructor
          · rintro ⟨s', heq, hwell⟩
            cases heq
            rw [(hsound.finish doc.length).mp hwell]
          · intro he
            cases he
            exact ⟨s₁, rfl, (hsound.finish doc.length).mpr rfl⟩
      | cons a stack =>
          refine iff_of_false ?_ fun he => by cases he
          rintro ⟨s', hclose, hwell⟩
          have hlt : 0 < s₁.elemstack.length := by
            rw [hsound.elemstack]
            exact Nat.succ_pos _
          have hill := ill_closeTo (Nat.ne_of_gt hsound.free_pos) hlt hclose
          exact Bool.false_ne_true (hill.finish doc.length ▸ hwell)

/--
`x_ParseDoc` says that a document is well formed exactly if its nodes are well
nested and one element is at the outermost level.
-/
theorem isWellFormed_iff :
    (∃ (elems' : Elems) (m_iPosFree : Nat) (m_strResult : List Result),
        parseDoc lead bIgnoreCase doc elems = some (elems', m_iPosFree, m_strResult) ∧
          isWellFormed elems' = true) ↔
      ∃ nodes, nodesOf lead doc = some nodes ∧
        Content (matchName bIgnoreCase) 1 (nodes.map (Node.symbol doc)) := by
  rw [parseDoc]
  by_cases hlen : doc.length = 0
  · rw [if_pos hlen]
    obtain rfl : doc = [] := List.length_eq_zero_iff.mp hlen
    have hnodes : nodesOf lead [] = some [] := rfl
    have hwell : isWellFormed (Elems.set elems 0 ElemPos.clear) = false := by
      simp [isWellFormed, Elems.set_apply, ElemPos.clear]
    refine iff_of_false ?_ ?_
    · rintro ⟨elems', m_iPosFree, m_strResult, heq, hwell'⟩
      cases heq
      exact Bool.false_ne_true (hwell ▸ hwell')
    · rintro ⟨nodes, heq, hcontent⟩
      rw [hnodes] at heq
      cases heq
      cases hcontent
  · rw [if_neg hlen, parseElem, parseElemLoop_eq, nodesOf]
    cases parseNodes lead doc (doc.length + 1) 0 0 (-1) [] with
    | none =>
        refine iff_of_false ?_ ?_
        · rintro ⟨elems', m_iPosFree, m_strResult, heq, -⟩
          cases heq
        · rintro ⟨nodes, heq, -⟩
          cases heq
    | some nodes =>
        have hiff := wellFormed_nodes_iff (sound_start elems []) bIgnoreCase doc
          (Elems.set elems 0 ElemPos.clear 0).level nodes
        rw [Option.bind_some]
        constructor
        · rintro ⟨elems', m_iPosFree, m_strResult, heq, hwell⟩
          obtain ⟨s', hs', hfinish⟩ := Option.map_eq_some_iff.mp heq
          refine ⟨nodes, rfl, hiff.mp ⟨s', hs', ?_⟩⟩
          rw [hfinish]
          exact hwell
        · rintro ⟨nodes', heq, hcontent⟩
          cases heq
          obtain ⟨s', hs', hwell⟩ := hiff.mpr hcontent
          rw [hs']
          exact ⟨_, _, _, rfl, hwell⟩

end Document

end Markup
end IocpNetlib
