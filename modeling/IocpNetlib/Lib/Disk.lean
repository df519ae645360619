import IocpNetlib.Lib.Stdio
import Mathlib.Data.List.Nodup
import Mathlib.Logic.Function.Basic

/-!
# Files with their contents

What the file functions leave behind.  `Spread` is about texts that each lie in
several files of their own, the ones that were moved away and the one that is
written: a text can be begun, its file can be moved away, and a line can be
added to it, and the other files stay as they are.
-/

namespace IocpNetlib
namespace Stdio

/-- The contents of the files that are there. -/
abbrev Disk := Text → Option Text

namespace Disk

/-- An open for writing: the file is there, and empty. -/
def truncate (d : Disk) (path : Text) : Disk :=
  Function.update d path (some [])

/-- `rename` -/
def rename (d : Disk) (old new : Text) : Disk :=
  Function.update (Function.update d new (d old)) old none

/-- A text behind what the file holds. -/
def append (d : Disk) (path text : Text) : Disk :=
  Function.update d path ((d path).map (· ++ text))

/-- The contents of several files, one behind the other. -/
def contents (d : Disk) (paths : List Text) : Text :=
  paths.flatMap fun path => (d path).getD []

variable {d d' : Disk} {path old new text p : Text} {paths : List Text}

@[simp] theorem truncate_self : d.truncate path path = some [] :=
  Function.update_self ..

theorem truncate_of_ne (h : p ≠ path) : d.truncate path p = d p :=
  Function.update_of_ne h ..

theorem append_self : d.append path text path = (d path).map (· ++ text) :=
  Function.update_self ..

theorem append_of_ne (h : p ≠ path) : d.append path text p = d p :=
  Function.update_of_ne h ..

theorem rename_of_ne (hold : p ≠ old) (hnew : p ≠ new) : d.rename old new p = d p := by
  rw [rename, Function.update_of_ne hold, Function.update_of_ne hnew]

theorem rename_new (h : new ≠ old) : d.rename old new new = d old := by
  rw [rename, Function.update_of_ne h, Function.update_self]

@[simp] theorem contents_nil : d.contents [] = [] :=
  rfl

theorem contents_concat : d.contents (paths ++ [path]) = d.contents paths ++ (d path).getD [] := by
  rw [contents, List.flatMap_append, List.flatMap_singleton]
  rfl

theorem contents_congr (h : ∀ p ∈ paths, d' p = d p) : d'.contents paths = d.contents paths := by
  induction paths with
  | nil => rfl
  | cons q paths ih =>
      have htail := ih fun p hp => h p (List.mem_cons_of_mem q hp)
      rw [contents, List.flatMap_cons, h q List.mem_cons_self]
      exact congrArg _ htail

/-- A line goes to the last file. -/
theorem contents_append
    (hfresh : path ∉ paths) (hthere : d path ≠ none) :
    (d.append path text).contents (paths ++ [path]) = d.contents (paths ++ [path]) ++ text := by
  obtain ⟨content, hcontent⟩ := Option.ne_none_iff_exists'.mp hthere
  have hrest : (d.append path text).contents paths = d.contents paths :=
    contents_congr fun p hp => append_of_ne fun he => hfresh (he ▸ hp)
  rw [contents_concat, contents_concat, hrest, append_self, hcontent]
  exact (List.append_assoc ..).symm

/-- The last file is moved to a new place, and an empty one takes its own. -/
theorem contents_rotate
    (hold : old ∉ paths) (hnew : new ∉ paths) (hne : new ≠ old) :
    ((d.rename old new).truncate old).contents (paths ++ [new] ++ [old]) =
      d.contents (paths ++ [old]) := by
  have hrest : ((d.rename old new).truncate old).contents paths = d.contents paths := by
    refine contents_congr fun p hp => ?_
    have hpold : p ≠ old := fun he => hold (he ▸ hp)
    have hpnew : p ≠ new := fun he => hnew (he ▸ hp)
    rw [truncate_of_ne hpold, rename_of_ne hpold hpnew]
  rw [contents_concat, contents_concat, contents_concat, hrest, truncate_self,
    truncate_of_ne hne, rename_new hne]
  exact List.append_nil _

section Spread

universe u

variable {K : Type u}

/--
Each text lies in files of its own, the old ones and the current one behind
them; the other files are the ones of `disk₀`.
-/
structure Spread (disk₀ disk : Disk) (active : K → Prop) (old : K → List Text)
    (current text : K → Text) : Prop where
  content : ∀ {k}, active k → disk.contents (old k ++ [current k]) = text k
  present : ∀ {k}, active k → ∀ p ∈ old k ++ [current k], disk p ≠ none ∧ disk₀ p = none
  nodup : ∀ {k}, active k → (old k ++ [current k]).Nodup
  disjoint : ∀ {k k'}, active k → active k' → k ≠ k' →
    (old k ++ [current k]).Disjoint (old k' ++ [current k'])
  others : ∀ p, (∀ k, active k → p ∉ old k ++ [current k]) → disk p = disk₀ p

variable {disk₀ disk : Disk} {active active' : K → Prop} {old : K → List Text}
variable {current text text' : K → Text} {k : K}

/-- A path that is free belongs to no text, and was free before. -/
theorem Spread.free (h : Spread disk₀ disk active old current text) (hnew : disk new = none) :
    (∀ k, active k → new ∉ old k ++ [current k]) ∧ disk₀ new = none := by
  have hfree : ∀ k, active k → new ∉ old k ++ [current k] :=
    fun k hk hp => (h.present hk new hp).1 hnew
  exact ⟨hfree, (h.others new hfree).symm.trans hnew⟩

theorem Spread.current_notMem
    (h : Spread disk₀ disk active old current text) (hk : active k) : current k ∉ old k := by
  have hpair := List.nodup_append.mp (h.nodup hk)
  exact fun hp => hpair.2.2 _ hp _ (List.mem_singleton_self _) rfl

/-- A text is begun in a file that is not there. -/
theorem Spread.begin
    (h : Spread disk₀ disk active old current text)
    (hold : old k = []) (hfree : disk (current k) = none)
    (hactive : ∀ k', active' k' ↔ active k' ∨ k' = k)
    (htext : ∀ k', active k' → text' k' = text k') (hempty : text' k = []) :
    Spread disk₀ (disk.truncate (current k)) active' old current text' := by
  obtain ⟨hnone, hbefore⟩ := h.free hfree
  have hpaths : old k ++ [current k] = [current k] := by
    rw [hold]
    rfl
  have hkeep {k'} (hk' : active k') :
      ∀ p ∈ old k' ++ [current k'], disk.truncate (current k) p = disk p :=
    fun p hp => truncate_of_ne fun he => hnone k' hk' (he ▸ hp)
  refine ⟨fun {k'} hk' => ?_, fun {k'} hk' => ?_, fun {k'} hk' => ?_,
    fun {k₁ k₂} hk₁ hk₂ hne => ?_, fun p hp => ?_⟩
  · rcases (hactive k').mp hk' with hk' | rfl
    · rw [contents_congr (hkeep hk'), h.content hk', htext k' hk']
    · rw [hpaths, hempty, contents, List.flatMap_singleton, truncate_self]
      rfl
  · rcases (hactive k').mp hk' with hk' | rfl
    · intro p hp
      rw [hkeep hk' p hp]
      exact h.present hk' p hp
    · intro p hp
      rw [hpaths, List.mem_singleton] at hp
      subst hp
      rw [truncate_self]
      exact ⟨Option.some_ne_none _, hbefore⟩
  · rcases (hactive k').mp hk' with hk' | rfl
    · exact h.nodup hk'
    · rw [hpaths]
      exact List.nodup_singleton _
  · rcases (hactive k₁).mp hk₁ with hk₁ | rfl
    · rcases (hactive k₂).mp hk₂ with hk₂ | rfl
      · exact h.disjoint hk₁ hk₂ hne
      · rw [hpaths, List.disjoint_singleton]
        exact hnone k₁ hk₁
    · rcases (hactive k₂).mp hk₂ with hk₂ | rfl
      · rw [hpaths, List.singleton_disjoint]
        exact hnone k₂ hk₂
      · exact absurd rfl hne
  · have hne : p ≠ current k := by
      rintro rfl
      exact hp k ((hactive k).mpr (Or.inr rfl)) (by rw [hpaths]; exact List.mem_singleton_self _)
    rw [truncate_of_ne hne]
    exact h.others p fun k' hk' => hp k' ((hactive k').mpr (Or.inl hk'))

/-- A line is added to a text. -/
theorem Spread.append [DecidableEq K]
    (h : Spread disk₀ disk active old current text) (hk : active k) (line : Text) :
    Spread disk₀ (disk.append (current k) line) active old current
      (Function.update text k (text k ++ line)) := by
  have hlast : current k ∈ old k ++ [current k] :=
    List.mem_append_right _ (List.mem_singleton_self _)
  have hsome := (h.present hk _ hlast).1
  refine ⟨fun {k'} hk' => ?_, fun {k'} hk' p hp => ?_, h.nodup, h.disjoint, fun p hp => ?_⟩
  · by_cases hkk : k' = k
    · subst hkk
      rw [contents_append (h.current_notMem hk) hsome, h.content hk, Function.update_self]
    · rw [Function.update_of_ne hkk, ← h.content hk']
      refine contents_congr fun p hp => append_of_ne ?_
      rintro rfl
      exact h.disjoint hk' hk hkk hp hlast
  · refine ⟨?_, (h.present hk' p hp).2⟩
    by_cases hpc : p = current k
    · subst hpc
      rw [append_self]
      simpa using hsome
    · rw [append_of_ne hpc]
      exact (h.present hk' p hp).1
  · have hpc : p ≠ current k := by
      rintro rfl
      exact hp k hk hlast
    rw [append_of_ne hpc]
    exact h.others p hp

/-- The current file of a text is moved to a free path, and an empty one takes its place. -/
theorem Spread.rotate [DecidableEq K]
    (h : Spread disk₀ disk active old current text) (hk : active k) (hfree : disk new = none) :
    Spread disk₀ ((disk.rename (current k) new).truncate (current k)) active
      (Function.update old k (old k ++ [new])) current text := by
  obtain ⟨hnone, hbefore⟩ := h.free hfree
  have hlast : current k ∈ old k ++ [current k] :=
    List.mem_append_right _ (List.mem_singleton_self _)
  have hne : new ≠ current k := fun he => hnone k hk (he ▸ hlast)
  have hkeep {p : Text} (hpc : p ≠ current k) (hpn : p ≠ new) :
      (disk.rename (current k) new).truncate (current k) p = disk p := by
    rw [truncate_of_ne hpc, rename_of_ne hpc hpn]
  have hpaths {k'} (hkk : k' ≠ k) :
      Function.update old k (old k ++ [new]) k' = old k' :=
    Function.update_of_ne hkk ..
  have hmem {p : Text} :
      p ∈ Function.update old k (old k ++ [new]) k ++ [current k] ↔
        p = new ∨ p ∈ old k ++ [current k] := by
    rw [Function.update_self]
    simp only [List.mem_append, List.mem_singleton]
    tauto
  have hthere {k'} (hk' : active k') (p : Text) (hp : p ∈ old k' ++ [current k']) :
      (disk.rename (current k) new).truncate (current k) p ≠ none := by
    by_cases hpc : p = current k
    · rw [hpc, truncate_self]
      exact Option.some_ne_none _
    · rw [hkeep hpc fun he => hnone k' hk' (he ▸ hp)]
      exact (h.present hk' p hp).1
  refine ⟨fun {k'} hk' => ?_, fun {k'} hk' p hp => ?_, fun {k'} hk' => ?_,
    fun {k₁ k₂} hk₁ hk₂ hkk p hp hp' => ?_, fun p hp => ?_⟩
  · by_cases hkk : k' = k
    · subst hkk
      have hnew : new ∉ old k' := fun hp => hnone k' hk (List.mem_append_left _ hp)
      rw [Function.update_self, contents_rotate (h.current_notMem hk) hnew hne, h.content hk]
    · rw [hpaths hkk, ← h.content hk']
      refine contents_congr fun p hp => hkeep ?_ ?_
      · rintro rfl
        exact h.disjoint hk' hk hkk hp hlast
      · rintro rfl
        exact hnone k' hk' hp
  · by_cases hkk : k' = k
    · subst hkk
      rcases hmem.mp hp with rfl | hp
      · refine ⟨?_, hbefore⟩
        rw [truncate_of_ne hne, rename_new hne]
        exact (h.present hk _ hlast).1
      · exact ⟨hthere hk p hp, (h.present hk p hp).2⟩
    · rw [hpaths hkk] at hp
      exact ⟨hthere hk' p hp, (h.present hk' p hp).2⟩
  · by_cases hkk : k' = k
    · subst hkk
      rw [Function.update_self, List.append_assoc]
      refine List.nodup_middle.mpr (List.nodup_cons.mpr ⟨hnone k' hk, h.nodup hk⟩)
    · rw [hpaths hkk]
      exact h.nodup hk'
  · by_cases hk₁k : k₁ = k
    · subst hk₁k
      rw [hpaths hkk.symm] at hp'
      rcases hmem.mp hp with rfl | hp
      · exact hnone k₂ hk₂ hp'
      · exact h.disjoint hk₁ hk₂ hkk hp hp'
    · rw [hpaths hk₁k] at hp
      by_cases hk₂k : k₂ = k
      · subst hk₂k
        rcases hmem.mp hp' with rfl | hp'
        · exact hnone k₁ hk₁ hp
        · exact h.disjoint hk₁ hk₂ hkk hp hp'
      · rw [hpaths hk₂k] at hp'
        exact h.disjoint hk₁ hk₂ hkk hp hp'
  · have hpk := mt hmem.mpr (hp k hk)
    rw [not_or] at hpk
    have hpc : p ≠ current k := fun he => hpk.2 (he ▸ hlast)
    rw [hkeep hpc hpk.1]
    refine h.others p fun k' hk' => ?_
    by_cases hkk : k' = k
    · exact hkk ▸ hpk.2
    · exact hpaths hkk ▸ hp k' hk'

end Spread

end Disk

end Stdio
end IocpNetlib
