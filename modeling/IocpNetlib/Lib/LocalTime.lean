import IocpNetlib.Lib.CFormat

/-!
# Broken-down time

`struct tm` as `localtime_s` fills it, and the stamp
`"%04d_%02d_%02d_%02d_%02d_%02d"` that is printed from it.
-/

namespace IocpNetlib
namespace LocalTime

open CFormat

/-- `struct tm`, within the bounds `localtime_s` keeps: the last year it knows is 3000. -/
structure Tm where
  tm_year : Nat
  tm_mon : Nat
  tm_mday : Nat
  tm_hour : Nat
  tm_min : Nat
  tm_sec : Nat
  year_le : tm_year + 1900 ≤ 3001
  mon_lt : tm_mon < 12
  mday_le : tm_mday ≤ 31
  hour_lt : tm_hour < 24
  min_lt : tm_min < 60
  sec_le : tm_sec ≤ 60

/-- `"%04d_%02d_%02d_%02d_%02d_%02d"` -/
def Tm.stamp (t : Tm) : List UInt8 :=
  zeroPadded 4 (t.tm_year + 1900) ++ 95 :: zeroPadded 2 (t.tm_mon + 1) ++
    95 :: zeroPadded 2 t.tm_mday ++ 95 :: zeroPadded 2 t.tm_hour ++
    95 :: zeroPadded 2 t.tm_min ++ 95 :: zeroPadded 2 t.tm_sec

/-- The first second of a year. -/
def newYear (tm_year : Nat) (h : tm_year + 1900 ≤ 3001) : Tm where
  tm_year := tm_year
  tm_mon := 0
  tm_mday := 1
  tm_hour := 0
  tm_min := 0
  tm_sec := 0
  year_le := h
  mon_lt := by decide
  mday_le := by decide
  hour_lt := by decide
  min_lt := by decide
  sec_le := by decide

/-- Every stamp has 19 characters. -/
theorem length_stamp (t : Tm) : t.stamp.length = 19 := by
  have hyear : (zeroPadded 4 (t.tm_year + 1900)).length = 4 := by
    have hle := t.year_le
    exact length_zeroPadded (by decide) (by omega)
  have htwo {n : Nat} (h : n < 100) : (zeroPadded 2 n).length = 2 :=
    length_zeroPadded (by decide) h
  have hmon : (zeroPadded 2 (t.tm_mon + 1)).length = 2 := htwo (by have := t.mon_lt; omega)
  have hmday : (zeroPadded 2 t.tm_mday).length = 2 := htwo (by have := t.mday_le; omega)
  have hhour : (zeroPadded 2 t.tm_hour).length = 2 := htwo (by have := t.hour_lt; omega)
  have hmin : (zeroPadded 2 t.tm_min).length = 2 := htwo (by have := t.min_lt; omega)
  have hsec : (zeroPadded 2 t.tm_sec).length = 2 := htwo (by have := t.sec_le; omega)
  simp only [Tm.stamp, List.length_append, List.length_cons]
  omega

theorem zero_notMem_stamp (t : Tm) : (0 : UInt8) ∉ t.stamp := by
  simp [Tm.stamp, zero_notMem_zeroPadded]

end LocalTime
end IocpNetlib
