import Mathlib.Algebra.Group.Int.Defs
import Mathlib.Algebra.Group.Nat.Defs
import Mathlib.Data.Nat.Basic
import Mathlib.Tactic.Common

/-!
# Clocks of finitely many bits

A counter of `w` bits shows the true time modulo `2 ^ w`.  Two readings can only
be subtracted within one turn of the counter.  `elapsed_guarded_iff` says what
the test `last < now ∧ span < now - last` finds out about the true times when
it is made on the readings.
-/

namespace IocpNetlib
namespace TickClock

/-- What a counter of `w` bits shows at the time `t`. -/
def reading (w t : Nat) : Nat := t % 2 ^ w

/-- How often it has gone back to zero by then. -/
def turn (w t : Nat) : Nat := t / 2 ^ w

variable {w t now last : Nat}

theorem time_eq (w t : Nat) : t = turn w t * 2 ^ w + reading w t := by
  rw [turn, reading, Nat.mul_comm]
  exact (Nat.div_add_mod t (2 ^ w)).symm

/-- Within one turn the readings are as far apart as the times. -/
theorem sub_of_turn_eq (h : turn w last = turn w now) :
    last + reading w now = now + reading w last := by
  have hnow := time_eq w now
  have hlast := time_eq w last
  rw [h] at hlast
  omega

/-- Once the counter has wrapped, and is not a whole turn ahead, its reading is smaller. -/
theorem reading_lt_of_turn_lt
    (h : turn w last < turn w now) (hidle : now < last + 2 ^ w) :
    reading w now < reading w last := by
  have hnow := time_eq w now
  have hlast := time_eq w last
  have hstep : turn w last * 2 ^ w + 2 ^ w ≤ turn w now * 2 ^ w := by
    rw [← Nat.succ_mul]
    exact Nat.mul_le_mul_right _ h
  omega

/--
The guarded test on two readings holds when the times lie in one turn and are
more than `span` apart, or when the later reading was taken in an earlier turn.
-/
theorem elapsed_guarded_iff (span : Nat) (hidle : now < last + 2 ^ w) :
    (reading w last < reading w now ∧ span < reading w now - reading w last) ↔
      (turn w last = turn w now ∧ last + span < now) ∨
        (turn w now < turn w last ∧ reading w last + span < reading w now) := by
  rcases lt_trichotomy (turn w last) (turn w now) with h | h | h
  · have hlt := reading_lt_of_turn_lt h hidle
    omega
  · have hsub := sub_of_turn_eq h
    omega
  · omega

end TickClock
end IocpNetlib
