import Mathlib.Data.List.Basic

/-!
# Transfers in several rounds

A loop moves a number of units.  Each round is given what has been moved so far;
it fails with a result, or moves some of the rest.  `transfer_spec` is the rule
for such loops: an invariant that the rounds keep holds at the end, and the loop
ends with everything moved or with the first round that fails.  As every round
moves something, there are at most as many rounds as units.
-/

namespace IocpNetlib
namespace Transfer

universe u

variable {σ : Type u}

/-- `while (total < len)`, with fuel for the rounds. -/
def transfer (round : Nat → Nat → σ → Except Int (Nat × σ)) (len : Nat) :
    (fuel i total : Nat) → σ → Option (Int × σ)
  | 0, _, _, _ => none
  | fuel + 1, i, total, s =>
      if total < len then
        match round i total s with
        | .error ret => some (ret, s)
        | .ok (n, s') => transfer round len fuel (i + 1) (total + n) s'
      else some (total, s)

/-- The rule for a transfer: `P` is the invariant, by the rounds that were run. -/
theorem transfer_spec
    (round : Nat → Nat → σ → Except Int (Nat × σ)) {len : Nat}
    {P : Nat → Nat → σ → Prop}
    (hmove : ∀ {i total n : Nat} {s s' : σ},
      total < len → P i total s → round i total s = .ok (n, s') →
        0 < n ∧ total + n ≤ len ∧ P (i + 1) (total + n) s') :
    ∀ (fuel i : Nat) {total : Nat} {s : σ}, total ≤ len → P i total s → len - total < fuel →
      ∃ ret s' i' total', transfer round len fuel i total s = some (ret, s') ∧
        P i' total' s' ∧
        (total' = len ∧ ret = len ∨ total' < len ∧ round i' total' s' = .error ret) := by
  intro fuel
  induction fuel with
  | zero =>
      intro i total s hle hP hfuel
      omega
  | succ fuel ih =>
      intro i total s hle hP hfuel
      rw [transfer]
      by_cases hmore : total < len
      · rw [if_pos hmore]
        cases hround : round i total s with
        | error ret => exact ⟨ret, s, i, total, rfl, hP, Or.inr ⟨hmore, hround⟩⟩
        | ok moved =>
            obtain ⟨n, s'⟩ := moved
            obtain ⟨hpos, hroom, hP'⟩ := hmove hmore hP hround
            exact ih (i + 1) hroom hP' (by omega)
      · have hdone : total = len := Nat.le_antisymm hle (Nat.not_lt.mp hmore)
        rw [if_neg hmore]
        exact ⟨total, s, i, total, rfl, hP, Or.inl ⟨hdone, by rw [hdone]⟩⟩

end Transfer
end IocpNetlib
