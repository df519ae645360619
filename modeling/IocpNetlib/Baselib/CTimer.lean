import IocpNetlib.Lib.Reach
import IocpNetlib.Service.IdleClock

/-!
# `CTimer`

A timer remembers the tick it was set or last fired at, and fires when
`GetMsInterval` finds the timeout to be over.  In the 32-bit build the tick
counter goes around, and `GetMsInterval` then counts one millisecond less than
`TickDiff` of `SuperSocket`.  `timers_exact_iff` says at which polls that shows.
-/

namespace IocpNetlib
namespace Timing

open Reachability Service TickClock

/-- `TickDiff`, on two `unsigned long` values. -/
def tickDiff (now old : Nat) : Nat :=
  if old ≤ now then now - old else (0xFFFFFFFF - old + now + 1) % 2 ^ 32

structure CTimer where
  m_nMillTimeout : Nat
  m_nLastMillTime : Nat
deriving DecidableEq, Repr

/-- The interval `IsTimed` computes: a difference of 64 bits, or `GetMsInterval`. -/
def interval (b : Build) (now last : Nat) : Nat :=
  match b with
  | .tick64 => (2 ^ 64 - last + now) % 2 ^ 64
  | .tick32 => getMsInterval now last

/-- `SetTimer`, at a tick. -/
def CTimer.setTimer (now nMillTimeout : Nat) : CTimer where
  m_nMillTimeout := nMillTimeout
  m_nLastMillTime := now

/-- `IsTimed`, at a tick. -/
def CTimer.isTimed (b : Build) (c : CTimer) (now : Nat) : Bool × CTimer :=
  if c.m_nMillTimeout ≤ interval b now c.m_nLastMillTime then
    (true, { c with m_nLastMillTime := now })
  else (false, c)

/-- What is done with a timer, at a true time. -/
inductive Event
  | setTimer (nMillTimeout t : Nat)
  | poll (t : Nat)

/-- A timer, and the time of the last event. -/
structure Clocked where
  timer : CTimer
  time : Nat

/-- The time does not go back. -/
def step (b : Build) (s : Clocked) : Event → Option Clocked
  | .setTimer nMillTimeout t =>
      if s.time ≤ t then some ⟨CTimer.setTimer (b.getTickCount t) nMillTimeout, t⟩ else none
  | .poll t =>
      if s.time ≤ t then some ⟨(s.timer.isTimed b (b.getTickCount t)).2, t⟩ else none

/-- The true time of the last `SetTimer` or of the last poll that returned true. -/
def note (b : Build) (s : Clocked) (e : Event) (since : Nat) : Nat :=
  match e with
  | .setTimer _ t => t
  | .poll t => if (s.timer.isTimed b (b.getTickCount t)).1 then t else since

/-- Right after `SetTimer`. -/
def started (b : Build) (nMillTimeout t : Nat) : Clocked × Nat :=
  (⟨CTimer.setTimer (b.getTickCount t) nMillTimeout, t⟩, t)

/--
The timeout is over, and the counter does not show it: it has gone around often
enough, or it has gone around and the timeout ends at this very millisecond.
-/
def Missed (timeout since t : Nat) : Prop :=
  since + timeout ≤ t ∧
    ((t - since) % 2 ^ 32 < timeout ∨
      (t - since) % 2 ^ 32 = timeout ∧ reading 32 t < reading 32 since)

section Runs

variable {b : Build} {s s' : Clocked} {since : Nat}

/-- The timer holds the tick of the last time it was set or fired. -/
structure Holds (b : Build) (x : Clocked × Nat) : Prop where
  last : x.1.timer.m_nLastMillTime = b.getTickCount x.2
  past : x.2 ≤ x.1.time

theorem holds_started (b : Build) (nMillTimeout t : Nat) : Holds b (started b nMillTimeout t) :=
  ⟨rfl, le_rfl⟩

theorem holds_step {e : Event} (h : Holds b (s, since)) (hs : step b s e = some s') :
    Holds b (s', note b s e since) := by
  cases e with
  | setTimer nMillTimeout t =>
      rw [step] at hs
      split_ifs at hs
      cases hs
      exact ⟨rfl, le_rfl⟩
  | poll t =>
      rw [step] at hs
      split_ifs at hs with ht
      cases hs
      rw [note, CTimer.isTimed]
      by_cases hfire :
          s.timer.m_nMillTimeout ≤ interval b (b.getTickCount t) s.timer.m_nLastMillTime
      · rw [if_pos hfire]
        exact ⟨rfl, le_rfl⟩
      · rw [if_neg hfire]
        exact ⟨h.last, Nat.le_trans h.past ht⟩

theorem holds_of_reach {nMillTimeout t₀ : Nat} {x : Clocked × Nat}
    (h : Reach (withGhost (step b) (note b)) (fun _ _ => True) (started b nMillTimeout t₀) x) :
    Holds b x :=
  h.invariant (I := Holds b) (holds_started b nMillTimeout t₀) fun {y y' e} hy _ hs => by
    obtain ⟨hs₁, hs₂⟩ := withGhost_eq_some hs
    have hstep := holds_step hy hs₁
    rw [← hs₂] at hstep
    exact hstep

theorem isTimed_iff {c : CTimer} {now : Nat} :
    (c.isTimed b now).1 = true ↔ c.m_nMillTimeout ≤ interval b now c.m_nLastMillTime := by
  rw [CTimer.isTimed]
  split_ifs with h
  · exact iff_of_true rfl h
  · exact iff_of_false (by simp) h

/-- Two ticks of 32 bits are as far apart as the times, but for whole turns and one more. -/
theorem interval_tick32 {t : Nat} (h : since ≤ t) :
    interval .tick32 (Build.tick32.getTickCount t) (Build.tick32.getTickCount since) =
      if reading 32 t < reading 32 since then (t - since) % 2 ^ 32 - 1
      else (t - since) % 2 ^ 32 := by
  have htick (u : Nat) : Build.tick32.getTickCount u = u % 2 ^ 32 := rfl
  have hread (u : Nat) : reading 32 u = u % 2 ^ 32 := rfl
  rw [interval, getMsInterval, htick, htick, hread, hread]
  split_ifs
  · omega
  · omega

end Runs

/--
In every run of the 32-bit build a poll is true exactly if the timeout is over,
but for the polls that miss it; and `GetMsInterval` is the difference of the
ticks, and that of `TickDiff`, exactly for ticks in order.
-/
theorem timers_exact_iff
    {nMillTimeout t₀ : Nat} {x : Clocked × Nat}
    (hrun : Reach (withGhost (step .tick32) (note .tick32)) (fun _ _ => True)
      (started .tick32 nMillTimeout t₀) x)
    {t : Nat} (ht : x.1.time ≤ t)
    {now last : Nat} (hnow : now < 2 ^ 32) (hlast : last < 2 ^ 32) :
    (((x.1.timer.isTimed .tick32 (Build.tick32.getTickCount t)).1 = true ↔
          x.2 + x.1.timer.m_nMillTimeout ≤ t) ↔
        ¬ Missed x.1.timer.m_nMillTimeout x.2 t) ∧
      ((getMsInterval now last : Int) = ((now : Int) - last) % 2 ^ 32 ∧
          getMsInterval now last = tickDiff now last ↔
        last ≤ now) := by
  constructor
  · have h := holds_of_reach hrun
    have hle : x.2 ≤ t := Nat.le_trans h.past ht
    rw [isTimed_iff, h.last, interval_tick32 hle, Missed]
    by_cases hwrap : reading 32 t < reading 32 x.2
    · -- the times differ, and not by whole turns
      have hpos : 0 < (t - x.2) % 2 ^ 32 := by
        rw [reading, reading] at hwrap
        omega
      rw [if_pos hwrap]
      omega
    · rw [if_neg hwrap]
      omega
  · rw [getMsInterval, tickDiff]
    split_ifs <;> omega

/-- Set one millisecond before the counter goes around, and polled two milliseconds later. -/
theorem timers_exact_iff_wrap :
    ((((started .tick32 2 (2 ^ 32 - 1)).1.timer.isTimed .tick32
          (Build.tick32.getTickCount (2 ^ 32 + 1))).1 = true ↔ 2 ^ 32 - 1 + 2 ≤ 2 ^ 32 + 1) ↔
        ¬ Missed 2 (2 ^ 32 - 1) (2 ^ 32 + 1)) ∧
      ((getMsInterval 1 (2 ^ 32 - 1) : Int) = (1 - (2 ^ 32 - 1)) % 2 ^ 32 ∧
          getMsInterval 1 (2 ^ 32 - 1) = tickDiff 1 (2 ^ 32 - 1) ↔ 2 ^ 32 - 1 ≤ 1) :=
  timers_exact_iff (x := started .tick32 2 (2 ^ 32 - 1)) .start (by decide) (by decide) (by decide)

/-- That poll is false. -/
theorem timer_misses :
    ¬ ∀ (nMillTimeout t₀ : Nat) (x : Clocked × Nat),
      Reach (withGhost (step .tick32) (note .tick32)) (fun _ _ => True)
        (started .tick32 nMillTimeout t₀) x →
      ∀ t, x.1.time ≤ t → t < x.2 + 2 ^ 32 →
        ((x.1.timer.isTimed .tick32 (Build.tick32.getTickCount t)).1 = true ↔
          x.2 + x.1.timer.m_nMillTimeout ≤ t) := by
  intro h
  have hpoll := h 2 (2 ^ 32 - 1) _ .start (2 ^ 32 + 1) (by decide) (by decide)
  exact absurd (hpoll.mpr (by decide)) (by decide)

/-- The 64-bit build misses nothing within a turn of its counter. -/
theorem isTimed_tick64
    {nMillTimeout t₀ : Nat} {x : Clocked × Nat}
    (hrun : Reach (withGhost (step .tick64) (note .tick64)) (fun _ _ => True)
      (started .tick64 nMillTimeout t₀) x)
    {t : Nat} (ht : x.1.time ≤ t) (hturn : t < x.2 + 2 ^ 64) :
    (x.1.timer.isTimed .tick64 (Build.tick64.getTickCount t)).1 = true ↔
      x.2 + x.1.timer.m_nMillTimeout ≤ t := by
  have h := holds_of_reach hrun
  have hle : x.2 ≤ t := Nat.le_trans h.past ht
  rw [isTimed_iff, h.last]
  simp only [interval, Build.getTickCount, Build.tickBits, reading]
  omega

end Timing
end IocpNetlib
