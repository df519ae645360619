import IocpNetlib.Lib.ByteBlock
import IocpNetlib.Lib.TickClock

/-!
# How long a client has been idle

`TcpService::checkStatus` compares two readings of the tick counter with the
product of `mClientTimeoutSec` and 1000.  Which counter it is, and in which type
the product is taken, depends on the version of Windows the code is built for.
`idle_exact_iff` says for which times the comparison tells the truth.
-/

namespace IocpNetlib
namespace Service

open TickClock ByteBlock

/-- The two builds: `_WIN32_WINNT >= 0x0600` has `GetTickCount64`, an older one `GetTickCount`. -/
inductive Build
  | tick64
  | tick32
deriving DecidableEq, Repr

/-- The width of the tick counter. -/
def Build.tickBits : Build → Nat
  | .tick64 => 64
  | .tick32 => 32

/-- `GetTickCount64` or `GetTickCount`, at the time `t` in milliseconds. -/
def Build.getTickCount (b : Build) (t : Nat) : Nat :=
  reading b.tickBits t

/-- `GetMsInterval`, on two `DWORD` values. -/
def getMsInterval (dwNow dwLast : Nat) : Nat :=
  if dwNow < dwLast then 0xFFFFFFFF - dwLast + dwNow
  else dwNow - dwLast

/--
What `checkStatus` compares the interval with.  The 64-bit build takes the
product as an `int` and converts it to `unsigned long long`, the 32-bit build
takes it as an `unsigned int`.
-/
def Build.timeoutSpan : Build → Int → Nat
  | .tick64, mClientTimeoutSec =>
      (toInt32 ((mClientTimeoutSec * 1000) % 2 ^ 32).toNat % 2 ^ 64).toNat
  | .tick32, mClientTimeoutSec => ((mClientTimeoutSec * 1000) % 2 ^ 32).toNat

/-- The test of `checkStatus` on the tick it has read and the client's `mLastTickTime`. -/
def Build.idle (b : Build) (mClientTimeoutSec : Int) (now mLastTickTime : Nat) : Bool :=
  match b with
  | .tick64 =>
      decide (mLastTickTime < now) &&
        decide (Build.tick64.timeoutSpan mClientTimeoutSec < now - mLastTickTime)
  | .tick32 =>
      decide (mLastTickTime < now) &&
        decide (Build.tick32.timeoutSpan mClientTimeoutSec < getMsInterval now mLastTickTime)

variable {b : Build} {T : Int} {now last : Nat}

/-- Behind its guard `checkStatus` only reaches the branch of `GetMsInterval` that does not wrap. -/
theorem idle_iff (b : Build) (T : Int) (now last : Nat) :
    b.idle T now last = true ↔ last < now ∧ b.timeoutSpan T < now - last := by
  cases b with
  | tick64 => rw [Build.idle, Bool.and_eq_true, decide_eq_true_eq, decide_eq_true_eq]
  | tick32 =>
      rw [Build.idle, Bool.and_eq_true, decide_eq_true_eq, decide_eq_true_eq]
      refine and_congr_right fun h => ?_
      rw [getMsInterval, if_neg (by omega)]

/-- Up to this number of seconds the product does not overflow. -/
def Build.maxTimeoutSec : Build → Int
  | .tick64 => 2147483
  | .tick32 => 4294967

theorem timeoutSpan_eq (h0 : 0 ≤ T) (hT : T ≤ b.maxTimeoutSec) :
    (b.timeoutSpan T : Int) = T * 1000 := by
  obtain ⟨n, hn⟩ := Int.eq_ofNat_of_zero_le (show 0 ≤ T * 1000 by omega)
  cases b with
  | tick64 =>
      rw [Build.maxTimeoutSec] at hT
      have hlt : n < 2 ^ 31 := by omega
      have hwide : (n : Int) % 2 ^ 64 = n := Int.emod_eq_of_lt (by omega) (by omega)
      have hmod : (n : Int) % 2 ^ 32 = n := Int.emod_eq_of_lt (by omega) (by omega)
      rw [Build.timeoutSpan, hn, hmod, Int.toNat_natCast, toInt32_of_lt hlt, hwide,
        Int.toNat_natCast]
  | tick32 =>
      rw [Build.maxTimeoutSec] at hT
      have hmod : (n : Int) % 2 ^ 32 = n := Int.emod_eq_of_lt (by omega) (by omega)
      rw [Build.timeoutSpan, hn, hmod, Int.toNat_natCast]

/--
The times for which the test tells the truth: the counter has not wrapped
between them, and the truncated product lies on the same side of the time in
between as the product itself; or it has wrapped, and the client is not idle; or
the client was heard of after the tick was read, in a later turn.
-/
def Build.Accurate (b : Build) (T : Int) (now last : Nat) : Prop :=
  (turn b.tickBits last = turn b.tickBits now ∧
      (last + b.timeoutSpan T < now ↔ (last : Int) + T * 1000 < now)) ∨
    (turn b.tickBits last < turn b.tickBits now ∧ (now : Int) ≤ last + T * 1000) ∨
    (turn b.tickBits now < turn b.tickBits last ∧
      b.getTickCount now ≤ b.getTickCount last + b.timeoutSpan T)

/-- A clock that has not wrapped, and a product that does not overflow. -/
theorem accurate_of_small
    (h0 : 0 ≤ T) (hT : T ≤ b.maxTimeoutSec) (hturn : turn b.tickBits last = turn b.tickBits now) :
    b.Accurate T now last := by
  have hspan := timeoutSpan_eq h0 hT
  refine Or.inl ⟨hturn, ?_⟩
  omega

/-- `checkStatus` finds a client idle exactly if it is, for these times and no others. -/
theorem idle_exact_iff
    (h0 : 0 ≤ T) (hidle : now < last + 2 ^ b.tickBits) :
    ((b.idle T (b.getTickCount now) (b.getTickCount last) = true ↔
        (last : Int) + T * 1000 < now)) ↔
      b.Accurate T now last := by
  have hguard := elapsed_guarded_iff (b.timeoutSpan T) hidle
  rw [idle_iff, Build.getTickCount, Build.getTickCount, hguard, Build.Accurate,
    Build.getTickCount, Build.getTickCount]
  rcases lt_trichotomy (turn b.tickBits last) (turn b.tickBits now) with h | h | h
  · omega
  · omega
  · -- the client was heard of after the tick was read, so it is not idle
    have hle : now ≤ last := by
      by_contra hlt
      exact absurd (Nat.div_le_div_right (c := 2 ^ b.tickBits) (by omega : last ≤ now))
        (Nat.not_le_of_lt h)
    omega

end Service
end IocpNetlib
