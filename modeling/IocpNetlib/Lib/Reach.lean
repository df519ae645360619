import Mathlib.Algebra.Group.Int.Defs
import Mathlib.Algebra.Group.Nat.Defs
import Mathlib.Data.List.Basic

/-!
# Guarded reachability

A transition system is a partial step function.  `Reach` collects the states of
the runs all of whose steps meet a condition on the state before the step; an
invariant that such steps preserve holds in all of them.
-/

namespace IocpNetlib
namespace Reachability

universe u v

variable {σ : Type u} {α : Type v}

/-- The states of the runs from `init` whose steps all meet `G`. -/
inductive Reach (step : σ → α → Option σ) (G : σ → α → Prop) (init : σ) : σ → Prop
  | start : Reach step G init init
  | next {s s' : σ} {a : α} :
      Reach step G init s → G s a → step s a = some s' → Reach step G init s'

variable {step : σ → α → Option σ} {G : σ → α → Prop} {init : σ}

/-- What holds at the start and is kept by every step of the runs holds in every run. -/
theorem Reach.invariant
    {I : σ → Prop}
    (hstart : I init)
    (hstep : ∀ {s s' : σ} {a : α}, I s → G s a → step s a = some s' → I s')
    {s : σ} (h : Reach step G init s) :
    I s := by
  induction h with
  | start => exact hstart
  | next _ hG hs ih => exact hstep ih hG hs

/-- A weaker condition has more runs. -/
theorem Reach.mono
    {G' : σ → α → Prop}
    (hG : ∀ {s : σ} {a : α}, G s a → G' s a)
    {s : σ} (h : Reach step G init s) :
    Reach step G' init s := by
  induction h with
  | start => exact .start
  | next _ hg hs ih => exact .next ih (hG hg) hs

/-- A run that goes on where another one ends. -/
theorem Reach.trans
    {s s' : σ} (h : Reach step G init s) (h' : Reach step G s s') :
    Reach step G init s' := by
  induction h' with
  | start => exact h
  | next _ hG hs ih => exact .next ih hG hs

/-- A run of one step. -/
theorem Reach.single
    {s s' : σ} {a : α} (hG : G s a) (hs : step s a = some s') :
    Reach step G s s' :=
  .next .start hG hs

section Ghost

universe w

variable {γ : Type w}

/-- The same system with a record beside its state, which only notes what the steps do. -/
def withGhost (step : σ → α → Option σ) (note : σ → α → γ → γ) (x : σ × γ) (a : α) :
    Option (σ × γ) :=
  (step x.1 a).map fun s' => (s', note x.1 a x.2)

variable {note : σ → α → γ → γ}

theorem withGhost_eq_some {x x' : σ × γ} {a : α} (h : withGhost step note x a = some x') :
    step x.1 a = some x'.1 ∧ x'.2 = note x.1 a x.2 := by
  obtain ⟨s', hs, rfl⟩ := Option.map_eq_some_iff.mp h
  exact ⟨hs, rfl⟩

/-- A run with a record is a run. -/
theorem Reach.forget
    {H : σ × γ → α → Prop} (hH : ∀ {x : σ × γ} {a : α}, H x a → G x.1 a)
    {x₀ x : σ × γ} (h : Reach (withGhost step note) H x₀ x) :
    Reach step G x₀.1 x.1 := by
  induction h with
  | start => exact .start
  | next _ hstep hs ih => exact .next ih (hH hstep) (withGhost_eq_some hs).1

/-- Every run has a record. -/
theorem Reach.remember
    {s : σ} (h : Reach step G init s) (g : γ) :
    ∃ g', Reach (withGhost step note) (fun x a => G x.1 a) (init, g) (s, g') := by
  induction h with
  | start => exact ⟨g, .start⟩
  | @next s s' a _ hG hs ih =>
      obtain ⟨g', hrun⟩ := ih
      refine ⟨note s a g', .next hrun hG ?_⟩
      rw [withGhost]
      rw [hs]
      rfl

end Ghost

section Runs

variable (step) (G) [∀ s a, Decidable (G s a)]

/-- The state after a list of steps that all meet `G`. -/
def runAll (s : σ) : List α → Option σ
  | [] => some s
  | a :: as =>
      if G s a then
        match step s a with
        | none => none
        | some s' => runAll s' as
      else none

variable {step} {G}

theorem reach_of_runAll {as : List α} {s s' : σ}
    (h : Reach step G init s) (hrun : runAll step G s as = some s') : Reach step G init s' := by
  induction as generalizing s with
  | nil =>
      simp only [runAll, Option.some.injEq] at hrun
      exact hrun ▸ h
  | cons a as ih =>
      rw [runAll] at hrun
      split_ifs at hrun with hG
      split at hrun
      · exact absurd hrun (by simp)
      · next hs => exact ih (.next h hG hs) hrun

/-- A run that can be evaluated, and what can be read off its last state. -/
theorem exists_reach_of_runAll
    {as : List α} {p : σ → Bool} (h : (runAll step G init as).any p = true) :
    ∃ s, Reach step G init s ∧ p s = true := by
  obtain ⟨s, hs, hp⟩ := (Option.any_eq_true _ _).mp h
  exact ⟨s, reach_of_runAll .start hs, hp⟩

end Runs

section Whole

variable (step) (G)

/-- A whole list of steps. -/
def run (s : σ) : List α → Option σ
  | [] => some s
  | a :: as =>
      match step s a with
      | none => none
      | some s' => run s' as

/-- All steps of a run meet a condition, as far as the run goes. -/
def AllMeet (s : σ) : List α → Prop
  | [] => True
  | a :: as => G s a ∧ ∀ s', step s a = some s' → AllMeet s' as

variable {step} {G}

/--
Where a step that meets the condition keeps an invariant, one that does not
leaves damage behind, and damage stays, the runs that go through to an
undamaged end are those whose steps all meet the condition.
-/
theorem run_ends_iff
    {I damaged : σ → Prop} {p : σ → Prop}
    (hkeep : ∀ {s : σ} {a : α}, I s → G s a → ∃ s', step s a = some s' ∧ I s')
    (hbreak : ∀ {s s' : σ} {a : α}, I s → ¬ G s a → step s a = some s' → damaged s')
    (hstay : ∀ {s s' : σ} {a : α}, damaged s → step s a = some s' → damaged s')
    (hgood : ∀ {s : σ}, I s → p s) (hbad : ∀ {s : σ}, damaged s → ¬ p s)
    (as : List α) :
    ∀ {s : σ}, I s → ((∃ s', run step s as = some s' ∧ p s') ↔ AllMeet step G s as) := by
  have hlost : ∀ (as : List α) {s s' : σ},
      damaged s → run step s as = some s' → damaged s' := by
    intro as
    induction as with
    | nil =>
        intro s s' hd hrun
        cases hrun
        exact hd
    | cons a as ih =>
        intro s s' hd hrun
        rw [run] at hrun
        cases hs : step s a with
        | none => simp [hs] at hrun
        | some s₁ =>
            rw [hs] at hrun
            exact ih (hstay hd hs) hrun
  induction as with
  | nil =>
      intro s hI
      exact iff_of_true ⟨s, rfl, hgood hI⟩ trivial
  | cons a as ih =>
      intro s hI
      rw [AllMeet]
      constructor
      · rintro ⟨s', hrun, hp⟩
        rw [run] at hrun
        cases hs : step s a with
        | none => simp [hs] at hrun
        | some s₁ =>
            rw [hs] at hrun
            have hG : G s a := by
              by_contra hG
              exact hbad (hlost as (hbreak hI hG hs) hrun) hp
            obtain ⟨s₂, hs₂, hI₂⟩ := hkeep hI hG
            rw [hs] at hs₂
            cases hs₂
            refine ⟨hG, fun s₃ hs₃ => ?_⟩
            cases hs₃
            exact (ih hI₂).mp ⟨s', hrun, hp⟩
      · rintro ⟨hG, hall⟩
        obtain ⟨s₁, hs, hI₁⟩ := hkeep hI hG
        obtain ⟨s', hrun, hp⟩ := (ih hI₁).mpr (hall s₁ hs)
        refine ⟨s', ?_, hp⟩
        rw [run, hs]
        exact hrun

end Whole

end Reachability
end IocpNetlib
