import Mathlib.Tactic.Cases

/-!
# Nested symbols

A word of symbols that open and close something, and the stack that checks it.
The grammar `Content` says what a well-nested word is; `run_eq_some_iff` says that
the stack accepts exactly these, and counts what stands at the outermost level.
-/

namespace IocpNetlib
namespace Nesting

variable {α : Type}

/-- A `leaf` is opened and closed at once; a `bad` symbol can stand nowhere. -/
inductive Symbol (α : Type)
  | opening (a : α)
  | closing (b : α)
  | leaf
  | text
  | bad

variable (closes : α → α → Bool)

/-- A word with `n` elements at its outermost level. -/
inductive Content : Nat → List (Symbol α) → Prop
  | nil : Content 0 []
  | text {n w} : Content n w → Content n (.text :: w)
  | leaf {n w} : Content n w → Content (n + 1) (.leaf :: w)
  | element {n k a b inner w} :
      closes b a = true → Content k inner → Content n w →
        Content (n + 1) (.opening a :: (inner ++ .closing b :: w))

/-- What is open, innermost first, and the number of elements at the outermost level. -/
abbrev Stack (α : Type) : Type :=
  List α × Nat

/-- One symbol. -/
def step : Symbol α → Stack α → Option (Stack α)
  | .opening a, (stack, n) => some (a :: stack, if stack = [] then n + 1 else n)
  | .closing b, (a :: stack, n) => if closes b a = true then some (stack, n) else none
  | .closing _, ([], _) => none
  | .leaf, (stack, n) => some (stack, if stack = [] then n + 1 else n)
  | .text, s => some s
  | .bad, _ => none

/-- One symbol after the other. -/
def run : List (Symbol α) → Stack α → Option (Stack α)
  | [], s => some s
  | c :: w, s => (step closes c s).bind (run w)

/-- What can still follow: everything open is closed in turn, then `n` elements. -/
def Rest : List α → Nat → List (Symbol α) → Prop
  | [], n, w => Content closes n w
  | a :: stack, n, w =>
      ∃ k inner b w', Content closes k inner ∧ closes b a = true ∧ Rest stack n w' ∧
        w = inner ++ .closing b :: w'

variable {closes} {stack : List α} {n : Nat} {w : List (Symbol α)} {a b : α}

section Rest

theorem rest_text_iff : Rest closes stack n (.text :: w) ↔ Rest closes stack n w := by
  cases stack with
  | nil =>
      constructor
      · intro h
        cases h with
        | text h => exact h
      · exact Content.text
  | cons c stack =>
      constructor
      · rintro ⟨k, inner, b, w', hinner, hb, hrest, hw⟩
        cases hinner with
        | nil => cases hw
        | text hinner => exact ⟨_, _, b, w', hinner, hb, hrest, (List.cons.inj hw).2⟩
        | leaf hinner => cases hw
        | element => cases hw
      · rintro ⟨k, inner, b, w', hinner, hb, hrest, rfl⟩
        exact ⟨k, _, b, w', hinner.text, hb, hrest, rfl⟩

theorem not_rest_bad : ¬ Rest closes stack n (.bad :: w) := by
  cases stack with
  | nil =>
      intro h
      cases h
  | cons c stack =>
      rintro ⟨k, inner, b, w', hinner, hb, hrest, hw⟩
      cases hinner <;> cases hw

theorem rest_nil_iff : Rest closes stack n [] ↔ stack = [] ∧ n = 0 := by
  cases stack with
  | nil =>
      constructor
      · intro h
        cases h
        exact ⟨rfl, rfl⟩
      · rintro ⟨-, rfl⟩
        exact Content.nil
  | cons c stack =>
      constructor
      · rintro ⟨k, inner, b, w', -, -, -, hw⟩
        exact absurd hw (by simp)
      · rintro ⟨h, -⟩
        cases h

/-- A closing symbol closes what is innermost. -/
theorem rest_closing_iff :
    Rest closes (a :: stack) n (.closing b :: w) ↔
      closes b a = true ∧ Rest closes stack n w := by
  constructor
  · rintro ⟨k, inner, b', w', hinner, hb, hrest, hw⟩
    cases hinner with
    | nil =>
        cases hw
        exact ⟨hb, hrest⟩
    | text => cases hw
    | leaf => cases hw
    | element => cases hw
  · rintro ⟨hb, hrest⟩
    exact ⟨0, [], b, w, Content.nil, hb, hrest, rfl⟩

theorem not_content_closing : ¬ Content closes n (.closing b :: w) := by
  intro h
  cases h

theorem rest_cons_leaf_iff :
    Rest closes (a :: stack) n (.leaf :: w) ↔ Rest closes (a :: stack) n w := by
  constructor
  · rintro ⟨k, inner, b, w', hinner, hb, hrest, hw⟩
    cases hinner with
    | nil => cases hw
    | text hinner => cases hw
    | leaf hinner => exact ⟨_, _, b, w', hinner, hb, hrest, (List.cons.inj hw).2⟩
    | element => cases hw
  · rintro ⟨k, inner, b, w', hinner, hb, hrest, rfl⟩
    exact ⟨k + 1, _, b, w', hinner.leaf, hb, hrest, rfl⟩

theorem content_leaf_iff :
    Content closes n (.leaf :: w) ↔ ∃ k, n = k + 1 ∧ Content closes k w := by
  constructor
  · intro h
    cases h with
    | leaf h => exact ⟨_, rfl, h⟩
  · rintro ⟨k, rfl, h⟩
    exact h.leaf

theorem content_opening_iff :
    Content closes n (.opening a :: w) ↔ ∃ k, n = k + 1 ∧ Rest closes [a] k w := by
  constructor
  · intro h
    cases h with
    | element hb hinner h => exact ⟨_, rfl, _, _, _, _, hinner, hb, h, rfl⟩
  · rintro ⟨k, rfl, k', inner, b, w', hinner, hb, hrest, rfl⟩
    exact Content.element hb hinner hrest

/-- Something more is open inside of what is open already. -/
theorem rest_cons_opening_iff {c : α} :
    Rest closes (a :: stack) n (.opening c :: w) ↔ Rest closes (c :: a :: stack) n w := by
  constructor
  · rintro ⟨k, inner, b, w', hinner, hb, hrest, hw⟩
    cases hinner with
    | nil => cases hw
    | text => cases hw
    | leaf => cases hw
    | element hc hin hout =>
        injection hw with hsym hw
        cases hsym
        refine ⟨_, _, _, _, hin, hc, ⟨_, _, b, w', hout, hb, hrest, rfl⟩, ?_⟩
        exact hw.trans (List.append_assoc ..)
  · rintro ⟨k, inner, b, w', hin, hc, ⟨k', inner', b', w'', hout, hb, hrest, rfl⟩, rfl⟩
    refine ⟨_, _, b', w'', Content.element hc hin hout, hb, hrest, ?_⟩
    rw [List.cons_append, List.append_assoc, List.cons_append]

end Rest

/-- The stack accepts exactly what can follow, and counts its elements. -/
theorem run_eq_some_iff_rest {m k : Nat} :
    run closes w (stack, m) = some ([], k) ↔ ∃ n, k = m + n ∧ Rest closes stack n w := by
  induction w generalizing stack m with
  | nil =>
      rw [run, Option.some_inj, Prod.mk.injEq]
      constructor
      · rintro ⟨hstack, rfl⟩
        exact ⟨0, rfl, rest_nil_iff.mpr ⟨hstack, rfl⟩⟩
      · rintro ⟨n, rfl, h⟩
        obtain ⟨hstack, rfl⟩ := rest_nil_iff.mp h
        exact ⟨hstack, rfl⟩
  | cons c w ih =>
      rw [run]
      cases c with
      | text => exact ih.trans (exists_congr fun n => and_congr_right fun _ => rest_text_iff.symm)
      | bad => exact iff_of_false (fun h => by cases h) fun ⟨n, _, h⟩ => not_rest_bad h
      | opening a =>
          cases stack with
          | nil =>
              rw [step, if_pos rfl, Option.bind_some, ih]
              constructor
              · rintro ⟨n, rfl, h⟩
                exact ⟨n + 1, by omega, content_opening_iff.mpr ⟨n, rfl, h⟩⟩
              · rintro ⟨n, rfl, h⟩
                obtain ⟨j, rfl, hj⟩ := content_opening_iff.mp h
                exact ⟨j, by omega, hj⟩
          | cons c stack =>
              rw [step, if_neg (List.cons_ne_nil _ _), Option.bind_some, ih]
              exact exists_congr fun n => and_congr_right fun _ => rest_cons_opening_iff.symm
      | leaf =>
          cases stack with
          | nil =>
              rw [step, if_pos rfl, Option.bind_some, ih]
              constructor
              · rintro ⟨n, rfl, h⟩
                exact ⟨n + 1, by omega, content_leaf_iff.mpr ⟨n, rfl, h⟩⟩
              · rintro ⟨n, rfl, h⟩
                obtain ⟨j, rfl, hj⟩ := content_leaf_iff.mp h
                exact ⟨j, by omega, hj⟩
          | cons c stack =>
              rw [step, if_neg (List.cons_ne_nil _ _), Option.bind_some, ih]
              exact exists_congr fun n => and_congr_right fun _ => rest_cons_leaf_iff.symm
      | closing b =>
          cases stack with
          | nil =>
              exact iff_of_false (fun h => by cases h) fun ⟨n, _, h⟩ => not_content_closing h
          | cons a stack =>
              rw [step]
              by_cases hb : closes b a = true
              · rw [if_pos hb, Option.bind_some, ih]
                exact exists_congr fun n => and_congr_right fun _ =>
                  (rest_closing_iff.trans (and_iff_right hb)).symm
              · rw [if_neg hb]
                exact iff_of_false (fun h => by cases h)
                  fun ⟨n, _, h⟩ => hb (rest_closing_iff.mp h).1

/-- The stack accepts exactly the well-nested words. -/
theorem run_eq_some_iff :
    run closes w ([], 0) = some ([], n) ↔ Content closes n w := by
  rw [run_eq_some_iff_rest]
  constructor
  · rintro ⟨k, rfl, h⟩
    rwa [Nat.zero_add]
  · intro h
    exact ⟨n, (Nat.zero_add n).symm, h⟩

end Nesting
end IocpNetlib
