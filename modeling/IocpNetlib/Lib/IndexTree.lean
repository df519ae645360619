import IocpNetlib.Lib.IndexList

/-!
# Trees that are linked by index

Each element of an array knows the index of its parent, its first child and its
next sibling; a first child also knows the last one.  The indices are in the order
in which the elements were added.  Two operations keep such a tree: a new element
becomes the last child of an open one, and the children of an open element that is
closed without having any go behind it.
-/

namespace IocpNetlib
namespace IndexTree

open IndexList

/-- The four arrays. -/
structure Links where
  parent : Nat → Nat
  child : Nat → Nat
  next : Nat → Nat
  prev : Nat → Nat

/-- The elements below `free` are a tree with the root `0`, and `kids i` are the children of `i`. -/
structure Tree (t : Links) (free : Nat) (kids : Nat → List Nat) : Prop where
  chain : ∀ i < free, Chain t.next (t.child i) (kids i)
  below : ∀ i < free, ∀ j ∈ kids i, t.parent j = i ∧ i < j ∧ j < free
  parent_lt : ∀ j, 0 < j → j < free → t.parent j < j
  mem : ∀ j, 0 < j → j < free → j ∈ kids (t.parent j)
  sorted : ∀ i < free, (kids i).Pairwise (· < ·)

/-- The open elements from the innermost one to the root; each one is the last child. -/
def Path (t : Links) (free : Nat) (kids : Nat → List Nat) : Nat → List Nat → Prop
  | e, [] => e = 0 ∧ 0 < free
  | e, p :: outer =>
      t.parent e = p ∧ p < e ∧ e < free ∧ (kids p).getLast? = some e ∧ Path t free kids p outer

/-- The first child of `i` knows the last one. -/
def LastKnown (t : Links) (kids : Nat → List Nat) (i : Nat) : Prop :=
  ∀ n, (kids i).getLast? = some n → t.prev (t.child i) = n

/-- The element `i` is added behind the last child of `p`. -/
structure Added (t t' : Links) (p i : Nat) : Prop where
  parent : ∀ j, t'.parent j = if j = i then p else t.parent j
  child : ∀ j, t'.child j =
    if j = i then 0 else if t.child p = 0 ∧ j = p then i else t.child j
  next : ∀ j, t'.next j =
    if j = i then 0 else if t.child p ≠ 0 ∧ j = t.prev (t.child p) then i else t.next j
  prev : ∀ j, t'.prev j =
    if j = i then if t.child p = 0 then i else t.prev (t.child p)
    else if t.child p ≠ 0 ∧ j = t.child p then i
    else t.prev j

/-- The children `l` of the element `e` are moved behind it. -/
structure Flattened (t t' : Links) (p e : Nat) (l : List Nat) : Prop where
  parent : ∀ j, t'.parent j = if j ∈ l then p else t.parent j
  child : ∀ j, t'.child j = if j = e then 0 else t.child j
  next : ∀ j, t'.next j = if j = e then l.headD (t.next e) else t.next j
  prev : ∀ j, j ∉ l → t'.prev j = t.prev j

/-- The children after an addition. -/
def addKid (kids : Nat → List Nat) (p i : Nat) : Nat → List Nat :=
  fun j => if j = i then [] else if j = p then kids p ++ [i] else kids j

/-- The children after a move. -/
def moveKids (kids : Nat → List Nat) (p e : Nat) : Nat → List Nat :=
  fun j => if j = e then [] else if j = p then kids p ++ kids e else kids j

variable {t t' : Links} {free p e i j n : Nat} {kids : Nat → List Nat} {outer : List Nat}

section Ordered

variable {start stop start' stop' : Nat → Nat} {lo hi hi' k : Nat} {l m : List Nat}

/-- The elements lie one behind the other between `lo` and `hi`. -/
def Ordered (start stop : Nat → Nat) : Nat → List Nat → Nat → Prop
  | lo, [], hi => lo ≤ hi
  | lo, k :: l, hi => lo ≤ start k ∧ Ordered start stop (stop k) l hi

theorem Ordered.mono (h : Ordered start stop lo l hi) (hle : hi ≤ hi') :
    Ordered start stop lo l hi' := by
  induction l generalizing lo with
  | nil => exact Nat.le_trans h hle
  | cons k l ih => exact ⟨h.1, ih h.2⟩

theorem Ordered.congr (h : Ordered start stop lo l hi)
    (hstart : ∀ k ∈ l, start' k = start k) (hstop : ∀ k ∈ l, stop' k = stop k) :
    Ordered start' stop' lo l hi := by
  induction l generalizing lo with
  | nil => exact h
  | cons k l ih =>
      refine ⟨?_, ?_⟩
      · rw [hstart k List.mem_cons_self]
        exact h.1
      · rw [hstop k List.mem_cons_self]
        exact ih h.2 (fun j hj => hstart j (List.mem_cons_of_mem _ hj))
          fun j hj => hstop j (List.mem_cons_of_mem _ hj)

theorem Ordered.le (h : Ordered start stop lo l hi) (hle : ∀ k ∈ l, start k ≤ stop k) :
    lo ≤ hi := by
  induction l generalizing lo with
  | nil => exact h
  | cons k l ih =>
      have hk := hle k List.mem_cons_self
      have hrest := ih h.2 fun j hj => hle j (List.mem_cons_of_mem _ hj)
      exact Nat.le_trans h.1 (Nat.le_trans hk hrest)

/-- One more element behind the others. -/
theorem Ordered.concat (h : Ordered start stop lo l hi)
    (hstart : hi ≤ start k) (hstop : stop k ≤ hi') : Ordered start stop lo (l ++ [k]) hi' := by
  induction l generalizing lo with
  | nil => exact ⟨Nat.le_trans h hstart, hstop⟩
  | cons j l ih => exact ⟨h.1, ih h.2⟩

/-- More elements behind the last one. -/
theorem Ordered.append (h : Ordered start stop lo l hi) (hlast : l.getLast? = some k)
    (hm : Ordered start stop (stop k) m hi') : Ordered start stop lo (l ++ m) hi' := by
  induction l generalizing lo with
  | nil => cases hlast
  | cons j l ih =>
      refine ⟨h.1, ?_⟩
      cases l with
      | nil =>
          rw [List.getLast?_singleton, Option.some_inj] at hlast
          exact hlast ▸ hm
      | cons b l => exact ih h.2 (by rwa [List.getLast?_cons_cons] at hlast)

/-- The last element gets another end. -/
theorem Ordered.close (h : Ordered start stop lo l hi) (hlast : l.getLast? = some k)
    (hnodup : l.Nodup) (hsame : ∀ j ∈ l, j ≠ k → stop' j = stop j) (hstop : stop' k ≤ hi') :
    Ordered start stop' lo l hi' := by
  induction l generalizing lo with
  | nil => cases hlast
  | cons j l ih =>
      refine ⟨h.1, ?_⟩
      cases l with
      | nil =>
          rw [List.getLast?_singleton, Option.some_inj] at hlast
          exact hlast ▸ hstop
      | cons b l =>
          rw [List.getLast?_cons_cons] at hlast
          have hne : j ≠ k := fun he =>
            (List.nodup_cons.mp hnodup).1 (he ▸ List.mem_of_getLast? hlast)
          rw [hsame j List.mem_cons_self hne]
          exact ih h.2 hlast (List.nodup_cons.mp hnodup).2
            fun i hi => hsame i (List.mem_cons_of_mem _ hi)

end Ordered

section Tree

/-- The root alone. -/
theorem tree_root (h : t.child 0 = 0) : Tree t 1 fun _ => [] := by
  refine ⟨fun i hi => ?_, fun i _ j hj => absurd hj List.not_mem_nil, fun j hpos hj => ?_,
    fun j hpos hj => ?_, fun _ _ => List.Pairwise.nil⟩
  · rw [Nat.lt_one_iff.mp hi]
    exact h
  · omega
  · omega

theorem Tree.nodup (h : Tree t free kids) (hi : i < free) : (kids i).Nodup :=
  (h.sorted i hi).imp fun hlt => Nat.ne_of_lt hlt

theorem Tree.length_le (h : Tree t free kids) (hi : i < free) :
    (kids i).length ≤ free := by
  have hsub : kids i ⊆ List.range free := fun j hj =>
    List.mem_range.mpr (h.below i hi j hj).2.2
  have hle := (h.nodup hi).length_le_of_subset hsub
  rwa [List.length_range] at hle

/-- Two elements have no child in common. -/
theorem Tree.parent_unique (h : Tree t free kids)
    (hi : i < free) (hp : p < free) (hmem : j ∈ kids i) (hmem' : j ∈ kids p) : i = p :=
  (h.below i hi j hmem).1.symm.trans (h.below p hp j hmem').1

theorem Tree.child_eq_zero_iff (h : Tree t free kids) (hi : i < free) :
    t.child i = 0 ↔ kids i = [] :=
  (h.chain i hi).eq_zero_iff

theorem Tree.child_mem (h : Tree t free kids) (hi : i < free) (hchild : t.child i ≠ 0) :
    t.child i ∈ kids i :=
  List.mem_of_mem_head? (Option.mem_def.mpr ((h.chain i hi).head? hchild))

/-- No child comes behind the last one. -/
theorem Tree.le_getLast (h : Tree t free kids) (hi : i < free)
    (hlast : (kids i).getLast? = some n) (hmem : j ∈ kids i) : j ≤ n := by
  have hsorted := h.sorted i hi
  obtain ⟨front, hfront⟩ := List.getLast?_eq_some_iff.mp hlast
  rw [hfront] at hsorted hmem
  rcases List.mem_append.mp hmem with hmem | hmem
  · exact Nat.le_of_lt ((List.pairwise_append.mp hsorted).2.2 j hmem n (List.mem_singleton.mpr rfl))
  · exact Nat.le_of_eq (List.mem_singleton.mp hmem)

theorem Path.lt (h : Path t free kids e outer) : e < free := by
  cases outer with
  | nil =>
      obtain ⟨rfl, hfree⟩ := h
      exact hfree
  | cons p outer => exact h.2.2.1

/-- Nothing but the root is open in an empty tree. -/
theorem Path.eq_zero (h : Path t free kids e outer) (hkids : kids 0 = []) : e = 0 := by
  induction outer generalizing e with
  | nil => exact h.1
  | cons p outer ih =>
      obtain ⟨-, -, -, hlast, hrest⟩ := h
      rw [ih hrest, hkids] at hlast
      cases hlast

/-- Only what lies on the path matters. -/
theorem Path.congr {free' : Nat} {kids' : Nat → List Nat}
    (h : Path t free kids e outer) (hfree : free ≤ free')
    (hparent : ∀ j ≤ e, j ≠ 0 → t'.parent j = t.parent j) (hkids : ∀ j < e, kids' j = kids j) :
    Path t' free' kids' e outer := by
  induction outer generalizing e with
  | nil => exact ⟨h.1, Nat.lt_of_lt_of_le h.2 hfree⟩
  | cons p outer ih =>
      obtain ⟨hp, hlt, he, hlast, hrest⟩ := h
      refine ⟨?_, hlt, Nat.lt_of_lt_of_le he hfree, ?_, ih hrest ?_ ?_⟩
      · rw [hparent e (Nat.le_refl _) (Nat.ne_of_gt (Nat.lt_of_le_of_lt (Nat.zero_le _) hlt)), hp]
      · rw [hkids p hlt]
        exact hlast
      · exact fun j hj => hparent j (Nat.le_trans hj (Nat.le_of_lt hlt))
      · exact fun j hj => hkids j (Nat.lt_trans hj hlt)

/-- From any of the open elements on, the rest is a path, too. -/
theorem Path.drop {m k : Nat} {rest : List Nat}
    (h : Path t free kids e outer) (hdrop : (e :: outer).drop k = m :: rest) :
    Path t free kids m rest := by
  induction k generalizing e outer with
  | zero =>
      cases hdrop
      exact h
  | succ k ih =>
      rw [List.drop_succ_cons] at hdrop
      cases outer with
      | nil =>
          rw [List.drop_nil] at hdrop
          cases hdrop
      | cons p outer => exact ih h.2.2.2.2 hdrop

/-- What is further out has a smaller index. -/
theorem Path.lt_of_mem (h : Path t free kids e outer) (hmem : i ∈ outer) : i < e := by
  induction outer generalizing e with
  | nil => exact absurd hmem List.not_mem_nil
  | cons p outer ih =>
      obtain ⟨-, hlt, -, -, hrest⟩ := h
      rcases List.mem_cons.mp hmem with rfl | hmem
      · exact hlt
      · exact Nat.lt_trans (ih hrest hmem) hlt

end Tree

section Add

theorem addKid_self : addKid kids p i i = [] :=
  if_pos rfl

theorem addKid_parent (hp : p ≠ i) : addKid kids p i p = kids p ++ [i] := by
  rw [addKid, if_neg hp, if_pos rfl]

theorem addKid_of_ne (hi : j ≠ i) (hp : j ≠ p) : addKid kids p i j = kids j := by
  rw [addKid, if_neg hi, if_neg hp]

theorem mem_addKid (hmem : n ∈ kids j) (hj : j ≠ i) : n ∈ addKid kids p i j := by
  by_cases hp : j = p
  · rw [hp, addKid_parent (hp ▸ hj)]
    exact List.mem_append_left _ (hp ▸ hmem)
  · rwa [addKid_of_ne hj hp]

/-- An addition keeps the tree. -/
theorem Tree.add
    (h : Tree t free kids) (hp : p < free) (hknown : LastKnown t kids p)
    (hadd : Added t t' p free) : Tree t' (free + 1) (addKid kids p free) := by
  have hchildp := h.child_eq_zero_iff hp
  have hfree : free ≠ 0 := fun he => Nat.not_lt_zero p (he ▸ hp)
  -- The siblings of an old element: only the last child of `p` has a new one.
  have hkeep (i : Nat) (hi : i < free) (j : Nat) (hj : j ∈ kids i)
      (hnot : i = p → (kids p).getLast? ≠ some j) : t'.next j = t.next j := by
    have hlt := (h.below i hi j hj).2.2
    rw [hadd.next, if_neg (Nat.ne_of_lt hlt), if_neg]
    rintro ⟨hchild, rfl⟩
    have hne : kids p ≠ [] := fun he => hchild (hchildp.mpr he)
    have hlast := List.getLast?_eq_some_getLast hne
    have hprev := hknown _ hlast
    rw [hprev] at hj hnot
    have hip := h.parent_unique hi hp hj (List.getLast_mem hne)
    exact hnot hip hlast
  refine ⟨fun i hi => ?_, fun i hi j hj => ?_, fun j hpos hj => ?_, fun j hpos hj => ?_,
    fun i hi => ?_⟩
  · by_cases hnew : i = free
    · rw [hnew, addKid_self, hadd.child, if_pos rfl]
      exact rfl
    · by_cases hip : i = p
      · have hlast (j : Nat) (hj : (kids p).getLast? = some j) : t'.next j = free := by
          have hmem := List.mem_of_getLast? hj
          have hchild : t.child p ≠ 0 := fun he => List.ne_nil_of_mem hmem (hchildp.mp he)
          rw [hadd.next, if_neg (Nat.ne_of_lt (h.below p hp j hmem).2.2),
            if_pos ⟨hchild, (hknown j hj).symm⟩]
        have hfirst : t'.child p = if kids p = [] then free else t.child p := by
          rw [hadd.child, if_neg (Nat.ne_of_lt hp)]
          exact if_congr ((and_iff_left rfl).trans hchildp) rfl rfl
        have hsingle : Chain t'.next free [free] :=
          ⟨rfl, hfree, (hadd.next free).trans (if_pos rfl)⟩
        rw [hip, addKid_parent (Nat.ne_of_lt hp), hfirst]
        exact (h.chain p hp).join hsingle (h.nodup hp)
          (fun j hj hnot => hkeep p hp j hj fun _ => hnot) hlast
      · have hold : i < free := by omega
        rw [addKid_of_ne hnew hip, hadd.child, if_neg hnew, if_neg fun he => hip he.2]
        exact (h.chain i hold).congr fun j hj => hkeep i hold j hj fun he => absurd he hip
  · by_cases hnew : i = free
    · rw [hnew, addKid_self] at hj
      exact absurd hj List.not_mem_nil
    · have hold : i < free := by omega
      have hcases : j ∈ kids i ∨ i = p ∧ j = free := by
        by_cases hip : i = p
        · rw [hip, addKid_parent (Nat.ne_of_lt hp)] at hj
          rcases List.mem_append.mp hj with hj | hj
          · exact Or.inl (hip ▸ hj)
          · exact Or.inr ⟨hip, List.mem_singleton.mp hj⟩
        · rw [addKid_of_ne hnew hip] at hj
          exact Or.inl hj
      rw [hadd.parent]
      rcases hcases with hmem | ⟨rfl, rfl⟩
      · obtain ⟨hparent, hij, hlt⟩ := h.below i hold j hmem
        rw [if_neg (Nat.ne_of_lt hlt)]
        exact ⟨hparent, hij, by omega⟩
      · rw [if_pos rfl]
        exact ⟨rfl, hp, Nat.lt_succ_self _⟩
  · rw [hadd.parent]
    split_ifs with heq
    · rw [heq]
      exact hp
    · exact h.parent_lt j hpos (by omega)
  · rw [hadd.parent]
    split_ifs with heq
    · rw [addKid_parent (Nat.ne_of_lt hp), heq]
      exact List.mem_append_right _ (List.mem_singleton.mpr rfl)
    · have hlt : j < free := by omega
      have hparent := h.parent_lt j hpos hlt
      exact mem_addKid (h.mem j hpos hlt) (by omega)
  · by_cases hnew : i = free
    · rw [hnew, addKid_self]
      exact List.Pairwise.nil
    · have hold : i < free := by omega
      by_cases hip : i = p
      · rw [hip, addKid_parent (Nat.ne_of_lt hp)]
        refine List.pairwise_append.mpr ⟨h.sorted p hp, List.pairwise_singleton _ _, ?_⟩
        intro j hj k hk
        rw [List.mem_singleton.mp hk]
        exact (h.below p hp j hj).2.2
      · rw [addKid_of_ne hnew hip]
        exact h.sorted i hold

/-- The open elements stay open, whatever is added to the innermost one. -/
theorem Path.add (h : Path t free kids e outer) (hadd : Added t t' e free) :
    Path t' (free + 1) (addKid kids e free) e outer := by
  have hlt := h.lt
  refine h.congr (Nat.le_succ _) (fun j hj _ => ?_) fun j hj => ?_
  · rw [hadd.parent, if_neg (by omega)]
  · exact addKid_of_ne (by omega) (Nat.ne_of_lt hj)

/-- The new element can be opened. -/
theorem Path.open (h : Path t free kids e outer) (hadd : Added t t' e free) :
    Path t' (free + 1) (addKid kids e free) free (e :: outer) := by
  have hlt := h.lt
  refine ⟨?_, hlt, Nat.lt_succ_self _, ?_, h.add hadd⟩
  · rw [hadd.parent, if_pos rfl]
  · rw [addKid_parent (Nat.ne_of_lt hlt), List.getLast?_concat]

theorem LastKnown.add
    (hknown : i ≠ free → LastKnown t kids i) (h : Tree t free kids) (hp : p < free)
    (hadd : Added t t' p free) (hi : i < free + 1) : LastKnown t' (addKid kids p free) i := by
  intro n hn
  by_cases hnew : i = free
  · rw [hnew, addKid_self] at hn
    cases hn
  · have hold : i < free := by omega
    have hfirst : t.child i ≠ 0 → t.child i ≠ free := fun hchild =>
      Nat.ne_of_lt (h.below i hold _ (h.child_mem hold hchild)).2.2
    rw [hadd.child, if_neg hnew]
    by_cases hip : i = p
    · rw [hip, addKid_parent (Nat.ne_of_lt hp), List.getLast?_concat] at hn
      cases hn
      rw [hadd.prev]
      subst hip
      grind
    · rw [addKid_of_ne hnew hip] at hn
      have hmem := List.mem_of_getLast? hn
      have hchild : t.child i ≠ 0 := fun he =>
        List.ne_nil_of_mem hmem ((h.child_eq_zero_iff hold).mp he)
      have hne : t.child p ≠ 0 → t.child i ≠ t.child p := by
        intro hchild' he
        exact hip (h.parent_unique hold hp (h.child_mem hold hchild)
          (he ▸ h.child_mem hp hchild'))
      rw [if_neg fun he => hip he.2, hadd.prev, if_neg (hfirst hchild),
        if_neg fun he => hne he.1 he.2]
      exact hknown hnew n hn

end Add

section Flatten

theorem moveKids_self : moveKids kids p e e = [] :=
  if_pos rfl

theorem moveKids_parent (hp : p ≠ e) : moveKids kids p e p = kids p ++ kids e := by
  rw [moveKids, if_neg hp, if_pos rfl]

theorem moveKids_of_ne (he : j ≠ e) (hp : j ≠ p) : moveKids kids p e j = kids j := by
  rw [moveKids, if_neg he, if_neg hp]

theorem mem_moveKids (hmem : n ∈ kids j) (hj : j ≠ e) : n ∈ moveKids kids p e j := by
  by_cases hp : j = p
  · rw [hp, moveKids_parent (hp ▸ hj)]
    exact List.mem_append_left _ (hp ▸ hmem)
  · rwa [moveKids_of_ne hj hp]

/-- To move the children of a last child behind it keeps the tree. -/
theorem Tree.flatten
    (h : Tree t free kids) (hpath : Path t free kids e (p :: outer))
    (hflat : Flattened t t' p e (kids e)) : Tree t' free (moveKids kids p e) := by
  obtain ⟨hparent, hlt, he, hlast, hrest⟩ := hpath
  have hp : p < free := hrest.lt
  have hne : p ≠ e := Nat.ne_of_lt hlt
  have hmem : e ∈ kids p := List.mem_of_getLast? hlast
  have hnext : t.next e = 0 := (h.chain p hp).next_getLast hlast
  have hkeep (i : Nat) (hi : i < free) (j : Nat) (hj : j ∈ kids i) (hje : j ≠ e) :
      t'.next j = t.next j := by
    rw [hflat.next, if_neg hje]
  refine ⟨fun i hi => ?_, fun i hi j hj => ?_, fun j hpos hj => ?_, fun j hpos hj => ?_,
    fun i hi => ?_⟩
  · by_cases hie : i = e
    · rw [hie, moveKids_self, hflat.child, if_pos rfl]
      exact rfl
    · rw [hflat.child, if_neg hie]
      by_cases hip : i = p
      · have hinner : Chain t'.next (t.child e) (kids e) :=
          (h.chain e he).congr fun j hj =>
            hkeep e he j hj (Nat.ne_of_gt (h.below e he j hj).2.1)
        have hjoin := (h.chain p hp).join hinner (h.nodup hp)
          (fun j hj hnot => hkeep p hp j hj fun heq => hnot (heq ▸ hlast)) fun j hj => by
            obtain rfl : e = j := Option.some_inj.mp (hlast.symm.trans hj)
            rw [hflat.next, if_pos rfl, hnext]
            exact (h.chain e he).headD
        rw [if_neg (List.ne_nil_of_mem hmem)] at hjoin
        rw [hip, moveKids_parent hne]
        exact hjoin
      · rw [moveKids_of_ne hie hip]
        exact (h.chain i hi).congr fun j hj => hkeep i hi j hj fun heq =>
          hip (h.parent_unique hi hp (heq ▸ hj) hmem)
  · rw [hflat.parent]
    by_cases hie : i = e
    · rw [hie, moveKids_self] at hj
      exact absurd hj List.not_mem_nil
    · by_cases hip : i = p
      · rw [hip, moveKids_parent hne] at hj
        rcases List.mem_append.mp hj with hj | hj
        · obtain ⟨hparent', hij, hjf⟩ := h.below p hp j hj
          rw [hparent', hip, ite_self]
          exact ⟨rfl, hij, hjf⟩
        · obtain ⟨-, hij, hjf⟩ := h.below e he j hj
          rw [if_pos hj, hip]
          exact ⟨rfl, Nat.lt_trans hlt hij, hjf⟩
      · rw [moveKids_of_ne hie hip] at hj
        rw [if_neg fun hj' => hie (h.parent_unique hi he hj hj')]
        exact h.below i hi j hj
  · rw [hflat.parent]
    split_ifs with hmove
    · exact Nat.lt_trans hlt (h.below e he j hmove).2.1
    · exact h.parent_lt j hpos hj
  · rw [hflat.parent]
    split_ifs with hmove
    · rw [moveKids_parent hne]
      exact List.mem_append_right _ hmove
    · have hmem' := h.mem j hpos hj
      exact mem_moveKids hmem' fun heq => hmove (heq ▸ hmem')
  · by_cases hie : i = e
    · rw [hie, moveKids_self]
      exact List.Pairwise.nil
    · by_cases hip : i = p
      · rw [hip, moveKids_parent hne]
        refine List.pairwise_append.mpr ⟨h.sorted p hp, h.sorted e he, fun j hj k hk => ?_⟩
        exact Nat.lt_of_le_of_lt (h.le_getLast hp hlast hj) (h.below e he k hk).2.1
      · rw [moveKids_of_ne hie hip]
        exact h.sorted i hi

/-- What is further out stays open. -/
theorem Path.flatten
    (hpath : Path t free kids e (p :: outer)) (h : Tree t free kids)
    (hflat : Flattened t t' p e (kids e)) : Path t' free (moveKids kids p e) p outer := by
  obtain ⟨-, hlt, he, -, hrest⟩ := hpath
  refine hrest.congr (Nat.le_refl _) (fun j hj _ => ?_) fun j hj => ?_
  · rw [hflat.parent, if_neg]
    intro hmem
    have hej := (h.below e he j hmem).2.1
    omega
  · exact moveKids_of_ne (by omega) (Nat.ne_of_lt hj)

theorem LastKnown.flatten
    (hknown : LastKnown t kids i) (h : Tree t free kids) (hi : i < free) (he : e < free)
    (hie : i ≠ e) (hip : i ≠ p) (hflat : Flattened t t' p e (kids e)) :
    LastKnown t' (moveKids kids p e) i := by
  intro n hn
  rw [moveKids_of_ne hie hip] at hn
  have hchild : t.child i ≠ 0 := fun heq =>
    List.ne_nil_of_mem (List.mem_of_getLast? hn) ((h.child_eq_zero_iff hi).mp heq)
  rw [hflat.child, if_neg hie, hflat.prev]
  · exact hknown n hn
  · exact fun hmem => hie (h.parent_unique hi he (h.child_mem hi hchild) hmem)

end Flatten

end IndexTree
end IocpNetlib
