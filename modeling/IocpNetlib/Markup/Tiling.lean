import IocpNetlib.Markup.ParseNode

/-!
# The nodes of a document

One call of `ParseNode` after the other takes a document apart.  For a document
of whole characters this ends, and the nodes put together are the document; for
any other one it goes past the terminator.
-/

namespace IocpNetlib
namespace Markup

variable (lead : UInt8 → Bool)

/-- The bytes are whole characters; with `trail`, the first byte ends one. -/
def whole : Bool → List UInt8 → Bool
  | trail, [] => !trail
  | true, _ :: rest => whole false rest
  | false, c :: rest => whole (lead c) rest

/-- The lead bytes of a double-byte character set are not ASCII. -/
def LeadBytes : Prop :=
  ∀ c : UInt8, c < 128 → lead c = false

/-- `ParseNode` again and again, as `x_ParseElem` calls it. -/
def parseNodes (doc : List UInt8) :
    Nat → Nat → Int → Int → List Result → Option (List Node)
  | 0, _, _, _, _ => none
  | fuel + 1, m_nNext, m_nL, m_nR, strMeta =>
      match parseNode lead doc m_nNext m_nL m_nR strMeta with
      | none => none
      | some none => some []
      | some (some node) =>
          (parseNodes doc fuel node.next node.m_nL node.m_nR node.strMeta).map (node :: ·)

/-- The nodes of a document, from its start to its end. -/
def nodesOf (doc : List UInt8) : Option (List Node) :=
  parseNodes lead doc (doc.length + 1) 0 0 (-1) []

/-- The text of a node. -/
def Node.textIn (doc : List UInt8) (node : Node) : List UInt8 :=
  (doc.drop node.nStart).take node.nLength

/-- Each node starts where the one in front of it ends. -/
def Adjacent : Nat → List Node → Nat → Prop
  | p, [], q => p = q
  | p, node :: nodes, q => node.nStart = p ∧ 0 < node.nLength ∧ Adjacent node.next nodes q

variable {lead} {doc : List UInt8}

section Step

variable {pD n : Nat} {cD : UInt8} {s s' : Scan}

/-- At the start of a node nothing has been found out. -/
structure Scan.Fresh (s : Scan) : Prop where
  pFindEnd : s.pFindEnd = none
  nParseFlags : s.nParseFlags = ParseFlags.none
  nName : s.nName = 0

theorem Scan.close_done (h : s.close doc pD = .done n s') : n = pD + 1 := by
  rw [Scan.close] at h
  dsimp only at h
  by_cases hend : (s.found doc pD && !s.nParseFlags.docType) = true
  · rw [if_pos hend] at h
    injection h with h
    exact h.symm
  · rw [if_neg hend] at h
    cases h

/-- A node ends behind a `'>'`, or in front of a `'<'` that is not its first character. -/
theorem Scan.unnamedChar_done (h : s.unnamedChar doc pD cD = .done n s') :
    (n = pD + 1 ∧ cD = 62) ∨ (n = pD ∧ ¬ s.Fresh) := by
  rw [Scan.unnamedChar] at h
  split_ifs at h with hfind hflags
  · have hfresh : ¬ s.Fresh := by
      intro hf
      rw [hf.pFindEnd] at hfind
      exact absurd hfind (by decide)
    rw [Scan.findEnd] at h
    split_ifs at h with hgt hlt
    · exact Or.inl ⟨Scan.close_done h, hgt.1⟩
    · injection h with h
      exact Or.inr ⟨h.symm, hfresh⟩
  · have hfresh : ¬ s.Fresh := by
      intro hf
      rw [hf.nParseFlags] at hflags
      exact absurd hflags (by decide)
    rw [Scan.prefixChar] at h
    dsimp only at h
    split_ifs at h with h₁ h₂ h₃ h₄ h₅ h₆ h₇ h₈ h₉
    all_goals first
      | (injection h with h; exact Or.inr ⟨h.symm, hfresh⟩)
      | (injection h with h; exact Or.inl ⟨h.symm, by assumption⟩)
  · rw [Scan.firstChar] at h
    split_ifs at h

theorem Scan.char_done (h : s.char doc pD cD = .done n s') :
    (n = pD + 1 ∧ cD = 62) ∨ (n = pD ∧ ¬ s.Fresh) := by
  rw [Scan.char] at h
  split_ifs at h with hname hend
  · have hfresh : ¬ s.Fresh := fun hf => hname hf.nName
    rcases Scan.unnamedChar_done h with hgt | ⟨hn, -⟩
    · exact Or.inl hgt
    · exact Or.inr ⟨hn, hfresh⟩
  · exact Scan.unnamedChar_done h

end Step

section Loop

variable {nStart : Nat}

/-- The node found is not empty, and ends inside the document, between two characters. -/
structure Node.Piece (lead : UInt8 → Bool) (doc : List UInt8) (nStart : Nat) (node : Node) :
    Prop where
  nStart_eq : node.nStart = nStart
  length_pos : 0 < node.nLength
  next_le : node.next ≤ doc.length
  whole : Markup.whole lead false (doc.drop node.next) = Markup.whole lead false (doc.drop nStart)

theorem Scan.node_next {n : Nat} (s : Scan) (hlt : nStart < n) :
    (s.node nStart n).next = n ∧ 0 < (s.node nStart n).nLength := by
  rw [Node.next, Scan.node]
  dsimp only
  omega

theorem drop_succ_of_drop {pD : Nat} {c : UInt8} {rest : List UInt8}
    (h : doc.drop pD = c :: rest) : doc.drop (pD + 1) = rest ∧ pD + 1 ≤ doc.length := by
  constructor
  · rw [← List.drop_drop, h]
    rfl
  · have hlen := congrArg List.length h
    rw [List.length_drop, List.length_cons] at hlen
    omega

/--
The loop goes past the terminator, comes to it at once, or finds a node and
stops in front of the rest of the characters.
-/
theorem parseNodeLoop_spec
    (hlead : LeadBytes lead) {t : Bool} {pD : Nat} {s : Scan} {rest : List UInt8}
    (hrest : doc.drop pD = rest) (hle : nStart ≤ pD) (hpD : pD ≤ doc.length)
    (hzero : (0 : UInt8) ∉ rest) (hfresh : pD = nStart → s.Fresh ∧ t = false) :
    (whole lead t rest = false ∧ parseNodeLoop lead doc nStart t pD s rest = none) ∨
      (rest = [] ∧ pD = nStart ∧
        parseNodeLoop lead doc nStart t pD s rest = some none) ∨
      ∃ (s' : Scan) (n : Nat), nStart < n ∧ n ≤ doc.length ∧
        whole lead false (doc.drop n) = whole lead t rest ∧
        parseNodeLoop lead doc nStart t pD s rest = some (some (s'.node nStart n)) := by
  induction rest generalizing t pD s with
  | nil =>
      cases t with
      | true => exact Or.inl ⟨rfl, rfl⟩
      | false =>
          rw [parseNodeLoop]
          by_cases hstart : pD = nStart
          · rw [if_pos hstart]
            exact Or.inr (Or.inl ⟨rfl, hstart, rfl⟩)
          · rw [if_neg hstart]
            exact Or.inr (Or.inr ⟨_, pD, by omega, hpD, by rw [hrest], rfl⟩)
  | cons cD rest ih =>
      obtain ⟨hdrop, hlen⟩ := drop_succ_of_drop hrest
      have hz := List.not_mem_of_not_mem_cons hzero
      have hnext : pD + 1 = nStart → False := fun he => by omega
      cases t with
      | true =>
          rw [parseNodeLoop, whole]
          have hrec := ih (t := false) (s := s) hdrop (by omega) hlen hz
            fun he => (hnext he).elim
          rcases hrec with hpast | ⟨-, he, -⟩ | hnode
          · exact Or.inl hpast
          · exact (hnext he).elim
          · exact Or.inr (Or.inr hnode)
      | false =>
          have hcD : cD ≠ 0 := fun he => hzero (he ▸ List.mem_cons_self)
          rw [parseNodeLoop, if_neg hcD]
          cases hturn : s.char doc pD cD with
          | done m_nNext s' =>
              refine Or.inr (Or.inr ⟨s', m_nNext, ?_⟩)
              rcases Scan.char_done hturn with ⟨rfl, rfl⟩ | ⟨rfl, hnot⟩
              · have hgt : lead 62 = false := hlead 62 (by decide)
                refine ⟨by omega, hlen, ?_, rfl⟩
                rw [hdrop, whole, hgt]
              · have hne : m_nNext ≠ nStart := fun he => hnot (hfresh he).1
                exact ⟨by omega, hpD, by rw [hrest], rfl⟩
          | more s' =>
              have hrec := ih (t := lead cD) (s := s') hdrop (by omega) hlen hz
                fun he => (hnext he).elim
              rw [whole]
              rcases hrec with hpast | ⟨-, he, -⟩ | hnode
              · exact Or.inl hpast
              · exact (hnext he).elim
              · exact Or.inr (Or.inr hnode)

end Loop

section Document

variable {m_nNext fuel : Nat} (m_nL m_nR : Int) (strMeta : List Result)

theorem fresh_start :
    (Scan.start m_nNext m_nL m_nR strMeta).Fresh :=
  ⟨rfl, rfl, rfl⟩

/-- One call of `ParseNode`: past the terminator, the end of the document, or a node. -/
theorem parseNode_spec
    (hlead : LeadBytes lead) (hzero : (0 : UInt8) ∉ doc) (hle : m_nNext ≤ doc.length) :
    (whole lead false (doc.drop m_nNext) = false ∧
        parseNode lead doc m_nNext m_nL m_nR strMeta = none) ∨
      (m_nNext = doc.length ∧ parseNode lead doc m_nNext m_nL m_nR strMeta = some none) ∨
      ∃ node, node.Piece lead doc m_nNext ∧
        parseNode lead doc m_nNext m_nL m_nR strMeta = some (some node) := by
  have hspec := parseNodeLoop_spec hlead (t := false)
    (s := Scan.start m_nNext m_nL m_nR strMeta) rfl (Nat.le_refl _) hle
    (fun h => hzero (List.mem_of_mem_drop h)) fun _ => ⟨fresh_start .., rfl⟩
  rcases hspec with hpast | ⟨hnil, -, heq⟩ | ⟨s', n, hlt, hn, hwhole, heq⟩
  · exact Or.inl hpast
  · have hlen := List.drop_eq_nil_iff.mp hnil
    exact Or.inr (Or.inl ⟨by omega, heq⟩)
  · obtain ⟨hnext, hpos⟩ := s'.node_next hlt
    refine Or.inr (Or.inr ⟨_, ⟨rfl, hpos, ?_, ?_⟩, heq⟩)
    · rw [hnext]
      exact hn
    · rw [hnext]
      exact hwhole

theorem parseNodes_spec
    (hlead : LeadBytes lead) (hzero : (0 : UInt8) ∉ doc) (hle : m_nNext ≤ doc.length)
    (hfuel : doc.length - m_nNext < fuel) :
    (whole lead false (doc.drop m_nNext) = false ∧
        parseNodes lead doc fuel m_nNext m_nL m_nR strMeta = none) ∨
      (whole lead false (doc.drop m_nNext) = true ∧
        ∃ nodes, parseNodes lead doc fuel m_nNext m_nL m_nR strMeta = some nodes ∧
          Adjacent m_nNext nodes doc.length) := by
  induction fuel generalizing m_nNext m_nL m_nR strMeta with
  | zero => exact absurd hfuel (Nat.not_lt_zero _)
  | succ fuel ih =>
      rw [parseNodes]
      rcases parseNode_spec m_nL m_nR strMeta hlead hzero hle with
        ⟨hwhole, heq⟩ | ⟨hend, heq⟩ | ⟨node, hpiece, heq⟩
      · rw [heq]
        exact Or.inl ⟨hwhole, rfl⟩
      · rw [heq]
        refine Or.inr ⟨?_, [], rfl, hend⟩
        rw [hend, List.drop_length]
        rfl
      · have hnext_le := hpiece.next_le
        have hlt : m_nNext < node.next := by
          have hpos := hpiece.length_pos
          rw [Node.next, hpiece.nStart_eq]
          omega
        rw [heq, ← hpiece.whole]
        dsimp only
        rcases ih node.m_nL node.m_nR node.strMeta hnext_le (by omega) with
          ⟨hwhole, hnone⟩ | ⟨hwhole, nodes, hnodes, hadj⟩
        · rw [hnone]
          exact Or.inl ⟨hwhole, rfl⟩
        · rw [hnodes]
          exact Or.inr ⟨hwhole, node :: nodes, rfl, hpiece.nStart_eq, hpiece.length_pos, hadj⟩

theorem Adjacent.le {p q : Nat} {nodes : List Node} (h : Adjacent p nodes q) : p ≤ q := by
  induction nodes generalizing p with
  | nil => exact Nat.le_of_eq h
  | cons node nodes ih =>
      obtain ⟨rfl, hpos, hrest⟩ := h
      exact Nat.le_trans (Nat.le_add_right _ _) (ih hrest)

/-- Adjacent nodes put together. -/
theorem Adjacent.flatMap_textIn {p q : Nat} {nodes : List Node} (h : Adjacent p nodes q) :
    nodes.flatMap (Node.textIn doc) = (doc.drop p).take (q - p) := by
  induction nodes generalizing p with
  | nil =>
      obtain rfl : p = q := h
      simp
  | cons node nodes ih =>
      obtain ⟨rfl, hpos, hrest⟩ := h
      have hle : node.next ≤ q := hrest.le
      rw [Node.next] at hle
      have hsum : q - node.nStart = node.nLength + (q - node.next) := by
        rw [Node.next]
        omega
      rw [List.flatMap_cons, ih hrest, hsum, List.take_add, Node.textIn, List.drop_drop, Node.next]

/-- A document of whole characters is cut into pieces. -/
theorem nodesOf_tile
    (hlead : LeadBytes lead) (hzero : (0 : UInt8) ∉ doc) (hwhole : whole lead false doc = true) :
    ∃ nodes, nodesOf lead doc = some nodes ∧ Adjacent 0 nodes doc.length ∧
      nodes.flatMap (Node.textIn doc) = doc := by
  have hfuel : doc.length - 0 < doc.length + 1 := Nat.lt_succ_self _
  rcases parseNodes_spec 0 (-1) [] hlead hzero (Nat.zero_le _) hfuel with
    ⟨hcut, -⟩ | ⟨-, nodes, hnodes, hadj⟩
  · rw [List.drop_zero, hwhole] at hcut
    cases hcut
  · refine ⟨nodes, hnodes, hadj, ?_⟩
    rw [hadj.flatMap_textIn]
    simp

/-- In any other document the tokenizer goes past the terminator. -/
theorem nodesOf_eq_none
    (hlead : LeadBytes lead) (hzero : (0 : UInt8) ∉ doc) (hcut : whole lead false doc = false) :
    nodesOf lead doc = none := by
  have hfuel : doc.length - 0 < doc.length + 1 := Nat.lt_succ_self _
  rcases parseNodes_spec 0 (-1) [] hlead hzero (Nat.zero_le _) hfuel with
    ⟨-, hnone⟩ | ⟨hwhole, -⟩
  · exact hnone
  · rw [List.drop_zero, hcut] at hwhole
    cases hwhole

/--
Taking a document apart ends inside of it exactly if it consists of whole
characters; the nodes are then the document cut into pieces.  Otherwise it goes
past the terminator.
-/
theorem nodes_tile_iff
    (hlead : LeadBytes lead) (hzero : (0 : UInt8) ∉ doc) :
    ((nodesOf lead doc).isSome = true ↔ whole lead false doc = true) ∧
      (∀ nodes, nodesOf lead doc = some nodes →
        Adjacent 0 nodes doc.length ∧ nodes.flatMap (Node.textIn doc) = doc) ∧
      (whole lead false doc = false → nodesOf lead doc = none) := by
  cases hwhole : whole lead false doc with
  | false =>
      have hnone := nodesOf_eq_none hlead hzero hwhole
      rw [hnone]
      refine ⟨by simp, fun nodes h => ?_, fun _ => rfl⟩
      cases h
  | true =>
      obtain ⟨nodes, hnodes, hadj, htext⟩ := nodesOf_tile hlead hzero hwhole
      rw [hnodes]
      refine ⟨by simp, fun nodes' h => ?_, fun h => by cases h⟩
      cases h
      exact ⟨hadj, htext⟩

end Document

section Examples

/-- Lead bytes from `0x81` on. -/
def leadHigh (c : UInt8) : Bool :=
  decide (0x81 ≤ c)

theorem leadBytes_leadHigh : LeadBytes leadHigh := by
  intro c hc
  refine decide_eq_false fun hle => ?_
  have hlt : (0x81 : UInt8) < 128 := UInt8.lt_of_le_of_lt hle hc
  exact absurd hlt (by decide)

/-- `<a>`, a double-byte character whose second byte is a `'>'`, and `</a>`; and one cut off. -/
theorem nodes_tile_example :
    (nodesOf leadHigh [60, 97, 62, 0x81, 62, 60, 47, 97, 62]).isSome = true ∧
      nodesOf leadHigh [60, 97, 62, 0x81] = none :=
  ⟨(nodes_tile_iff leadBytes_leadHigh (by decide)).1.mpr (by decide),
    (nodes_tile_iff leadBytes_leadHigh (by decide)).2.2 (by decide)⟩

end Examples

end Markup
end IocpNetlib
