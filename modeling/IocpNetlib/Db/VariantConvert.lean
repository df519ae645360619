import IocpNetlib.Lib.MachineInt
import Mathlib.Algebra.Order.Field.Rat
import Mathlib.RingTheory.Coprime.Lemmas

/-!
# From a variant to an integer

`VariantToT` for the integer types.  Each function converts the types of its own
width and hands the others to the next narrower one of the same sign, so a value
goes through the type of its own width with the sign of the target.
`converted_iff` says for which values that loses nothing.
-/

namespace IocpNetlib
namespace Db

open MachineInt

/-- `DECIMAL`: a sign byte, a scale, and an unsigned value of 96 bits. -/
structure Decimal where
  scale : UInt8
  sign : UInt8
  Hi32 : UInt32
  Lo64 : UInt64
  scale_le : scale ≤ 28
  sign_eq : sign = 0 ∨ sign = 128
deriving DecidableEq

/-- `_variant_t`, as far as the integer conversions tell its types apart. -/
inductive Variant
  | VT_BOOL (boolVal : Int16)
  | VT_I1 (cVal : Int8)
  | VT_UI1 (bVal : UInt8)
  | VT_I2 (iVal : Int16)
  | VT_UI2 (uiVal : UInt16)
  | VT_I4 (lVal : Int32)
  | VT_UI4 (ulVal : UInt32)
  | VT_INT (intVal : Int32)
  | VT_UINT (uintVal : UInt32)
  | VT_I8 (llVal : Int64)
  | VT_UI8 (ullVal : UInt64)
  | VT_DECIMAL (decVal : Decimal)
  | other
deriving DecidableEq

section Conversions

variable (signed : Bool)

/-- `char` or `unsigned char`, and the wider types of the same sign. -/
def byteType : IntType := ⟨7, signed⟩
def shortType : IntType := ⟨15, signed⟩
def intType : IntType := ⟨31, signed⟩
def longLongType : IntType := ⟨63, signed⟩

/-- `VariantToT<char>` and `VariantToT<unsigned char>`: the value stored, if it returns true. -/
def variantToByte : Variant → Option Int
  | .VT_BOOL boolVal => some ((byteType signed).cast boolVal.toInt)
  | .VT_I1 cVal => some ((byteType signed).cast cVal.toInt)
  | .VT_UI1 bVal => some ((byteType signed).cast bVal.toNat)
  | _ => none

/-- `VariantToT<short>` and `VariantToT<unsigned short>`. -/
def variantToShort : Variant → Option Int
  | .VT_I2 iVal => some ((shortType signed).cast iVal.toInt)
  | .VT_UI2 uiVal => some ((shortType signed).cast uiVal.toNat)
  | value => (variantToByte signed value).map (shortType signed).cast

/-- `VariantToT<int>` and `VariantToT<unsigned int>`. -/
def variantToInt : Variant → Option Int
  | .VT_I4 lVal => some ((intType signed).cast lVal.toInt)
  | .VT_INT intVal => some ((intType signed).cast intVal.toInt)
  | .VT_UI4 ulVal => some ((intType signed).cast ulVal.toNat)
  | .VT_UINT uintVal => some ((intType signed).cast uintVal.toNat)
  | value => (variantToShort signed value).map (intType signed).cast

/-- `(value.decVal.sign == 128) ? -1 : 1`, an `int`. -/
def Decimal.factor (d : Decimal) : Int :=
  if d.sign = 128 then -1 else 1

/--
`VariantToT<long long>` and `VariantToT<unsigned long long>`.  The factor is
converted to the type of `tValue`; a product that overflows goes around.
-/
def variantToLongLong : Variant → Option Int
  | .VT_I8 llVal => some ((longLongType signed).cast llVal.toInt)
  | .VT_UI8 ullVal => some ((longLongType signed).cast ullVal.toNat)
  | .VT_DECIMAL decVal =>
      some ((longLongType signed).cast
        ((longLongType signed).cast decVal.Lo64.toNat *
          (longLongType signed).cast decVal.factor))
  | value => (variantToInt signed value).map (longLongType signed).cast

end Conversions

/-- The integer types; `long` has 32 bits. -/
inductive Target
  | char
  | unsignedChar
  | short
  | unsignedShort
  | int
  | unsignedInt
  | long
  | unsignedLong
  | longLong
  | unsignedLongLong
deriving DecidableEq, Repr

def Target.type : Target → IntType
  | .char => byteType true
  | .unsignedChar => byteType false
  | .short => shortType true
  | .unsignedShort => shortType false
  | .int => intType true
  | .unsignedInt => intType false
  | .long => intType true
  | .unsignedLong => intType false
  | .longLong => longLongType true
  | .unsignedLongLong => longLongType false

/-- `VariantToT<T>`; that of `long` is that of `int`. -/
def variantToT : Target → Variant → Option Int
  | .char => variantToByte true
  | .unsignedChar => variantToByte false
  | .short => variantToShort true
  | .unsignedShort => variantToShort false
  | .int => variantToInt true
  | .unsignedInt => variantToInt false
  | .long => variantToInt true
  | .unsignedLong => variantToInt false
  | .longLong => variantToLongLong true
  | .unsignedLongLong => variantToLongLong false

/-- The digits of a `DECIMAL`, without sign and scale. -/
def Decimal.mantissa (d : Decimal) : Nat :=
  d.Hi32.toNat * 2 ^ 64 + d.Lo64.toNat

/-- The value of a `DECIMAL`. -/
def Decimal.value (d : Decimal) : ℚ :=
  (d.factor * d.mantissa : Int) / 10 ^ d.scale.toNat

/-- A value with the integer type it comes in. -/
structure TypedInt where
  type : IntType
  val : Int
  inRange : type.InRange val

section Values

theorem inRange_of_signed {bits : Nat} {n : Int} (hle : -2 ^ bits ≤ n) (hlt : n < 2 ^ bits) :
    IntType.InRange ⟨bits, true⟩ n :=
  ⟨hle, hlt⟩

theorem inRange_of_unsigned {bits n : Nat} (h : n < 2 ^ (bits + 1)) :
    IntType.InRange ⟨bits, false⟩ n := by
  have hcast : (n : Int) < 2 ^ (bits + 1) := by exact_mod_cast h
  rw [Int.pow_succ, Int.mul_comm] at hcast
  exact (IntType.inRange_unsigned rfl).mpr ⟨Int.natCast_nonneg n, hcast⟩

/-- The integer a variant holds, but for booleans and decimals. -/
def Variant.integer : Variant → Option TypedInt
  | .VT_I1 cVal => some ⟨byteType true, cVal.toInt, inRange_of_signed cVal.le_toInt cVal.toInt_lt⟩
  | .VT_UI1 bVal => some ⟨byteType false, bVal.toNat, inRange_of_unsigned bVal.toNat_lt⟩
  | .VT_I2 iVal => some ⟨shortType true, iVal.toInt, inRange_of_signed iVal.le_toInt iVal.toInt_lt⟩
  | .VT_UI2 uiVal => some ⟨shortType false, uiVal.toNat, inRange_of_unsigned uiVal.toNat_lt⟩
  | .VT_I4 lVal => some ⟨intType true, lVal.toInt, inRange_of_signed lVal.le_toInt lVal.toInt_lt⟩
  | .VT_INT intVal =>
      some ⟨intType true, intVal.toInt, inRange_of_signed intVal.le_toInt intVal.toInt_lt⟩
  | .VT_UI4 ulVal => some ⟨intType false, ulVal.toNat, inRange_of_unsigned ulVal.toNat_lt⟩
  | .VT_UINT uintVal => some ⟨intType false, uintVal.toNat, inRange_of_unsigned uintVal.toNat_lt⟩
  | .VT_I8 llVal =>
      some ⟨longLongType true, llVal.toInt, inRange_of_signed llVal.le_toInt llVal.toInt_lt⟩
  | .VT_UI8 ullVal =>
      some ⟨longLongType false, ullVal.toNat, inRange_of_unsigned ullVal.toNat_lt⟩
  | _ => none

/-- The number a variant stands for. -/
def Variant.value : Variant → Option ℚ
  | .VT_DECIMAL decVal => some decVal.value
  | v => v.integer.map fun i => (i.val : ℚ)

end Values

section Chain

variable {signed : Bool} {v : Variant} {i : TypedInt}

/-- An integer goes through the type of its width with the sign of the target. -/
theorem variantToByte_integer (signed : Bool) (h : v.integer = some i) :
    variantToByte signed v =
      if i.type.bits ≤ 7 then some (IntType.cast ⟨i.type.bits, signed⟩ i.val) else none := by
  cases v <;> cases h <;> rfl

/-- What a narrower function returns is only widened. -/
theorem map_cast {o : Option Int} {bits narrow wide : Nat} {n : Int}
    (ho : o = if bits ≤ narrow then some (IntType.cast ⟨bits, signed⟩ n) else none)
    (hle : narrow ≤ wide) :
    o.map (IntType.cast ⟨wide, signed⟩) =
      if bits ≤ narrow then some (IntType.cast ⟨bits, signed⟩ n) else none := by
  rw [ho]
  split_ifs with hbits
  · have hsame :=
      IntType.cast_cast (t := ⟨bits, signed⟩) (u := ⟨wide, signed⟩) n (hbits.trans hle) rfl
    rw [Option.map_some, hsame]
  · rfl

theorem variantToShort_integer (signed : Bool) (h : v.integer = some i) :
    variantToShort signed v =
      if i.type.bits ≤ 15 then some (IntType.cast ⟨i.type.bits, signed⟩ i.val) else none := by
  have hmap := map_cast (variantToByte_integer signed h) (show 7 ≤ 15 by decide)
  cases v <;> cases h
  case VT_I2 | VT_UI2 => rfl
  all_goals exact hmap

theorem variantToInt_integer (signed : Bool) (h : v.integer = some i) :
    variantToInt signed v =
      if i.type.bits ≤ 31 then some (IntType.cast ⟨i.type.bits, signed⟩ i.val) else none := by
  have hmap := map_cast (variantToShort_integer signed h) (show 15 ≤ 31 by decide)
  cases v <;> cases h
  case VT_I4 | VT_INT | VT_UI4 | VT_UINT => rfl
  all_goals exact hmap

theorem variantToLongLong_integer (signed : Bool) (h : v.integer = some i) :
    variantToLongLong signed v =
      if i.type.bits ≤ 63 then some (IntType.cast ⟨i.type.bits, signed⟩ i.val) else none := by
  have hmap := map_cast (variantToInt_integer signed h) (show 31 ≤ 63 by decide)
  cases v <;> cases h
  case VT_I8 | VT_UI8 => rfl
  all_goals exact hmap

/-- `VariantToT` succeeds on the integers that are not wider than the target. -/
theorem variantToT_integer (t : Target) (h : v.integer = some i) :
    variantToT t v =
      if i.type.bits ≤ t.type.bits then some (IntType.cast ⟨i.type.bits, t.type.signed⟩ i.val)
      else none := by
  cases t with
  | char | unsignedChar => exact variantToByte_integer _ h
  | short | unsignedShort => exact variantToShort_integer _ h
  | int | unsignedInt | long | unsignedLong => exact variantToInt_integer _ h
  | longLong | unsignedLongLong => exact variantToLongLong_integer _ h

/-- Only the widest functions know decimals. -/
theorem variantToT_decimal (t : Target) (d : Decimal) :
    variantToT t (.VT_DECIMAL d) =
      if t.type.bits = 63 then
        some (t.type.cast (t.type.cast d.Lo64.toNat * t.type.cast d.factor))
      else none := by
  cases t <;> rfl

end Chain

/-- What `VariantToT` stores is the value of the variant, if the target can represent it. -/
def Exact (t : Target) (v : Variant) : Prop :=
  ∀ x n : Int, variantToT t v = some x → v.value = some (n : ℚ) → t.type.InRange n → x = n

/--
The values that survive: for a signed target, a narrower unsigned one has its
top bit clear; a decimal has no scale, or is zero, or is no integer of the
target.
-/
def Lossless (t : Target) (v : Variant) : Prop :=
  (∀ i, v.integer = some i → t.type.signed = true → i.type.signed = false →
      i.type.bits < t.type.bits → i.val < 2 ^ i.type.bits) ∧
    ∀ d, v = .VT_DECIMAL d → t.type.bits = 63 →
      d.scale = 0 ∨ d.mantissa = 0 ∨ ∀ n : Int, d.value = n → ¬ t.type.InRange n

section Integers

variable {t : IntType} {i : TypedInt}

/--
Within the width of the target, the type of a value's own width with the sign of
the target represents what the target does, but for the top half of an unsigned
type.
-/
theorem level_iff (hle : i.type.bits ≤ t.bits) :
    (t.InRange i.val → IntType.InRange ⟨i.type.bits, t.signed⟩ i.val) ↔
      (t.signed = true → i.type.signed = false → i.type.bits < t.bits →
        i.val < 2 ^ i.type.bits) := by
  obtain ⟨⟨bits, signed⟩, n, hn⟩ := i
  cases ht : t.signed with
  | true =>
      cases signed with
      | true => exact iff_of_true (fun _ => hn) fun _ h => absurd h (by simp)
      | false =>
          have hnonneg := ((IntType.inRange_unsigned rfl).mp hn).1
          have hpos := IntType.half_pos ⟨bits, true⟩
          constructor
          · intro h _ _ hlt
            have hwide : t.InRange n := hn.widen_signed rfl ht hlt
            exact ((IntType.inRange_signed rfl).mp (h hwide)).2
          · intro h hin
            rw [IntType.inRange_signed rfl]
            refine ⟨by simp only at hpos ⊢; omega, ?_⟩
            rcases Nat.lt_or_ge bits t.bits with hlt | hge
            · exact h rfl rfl hlt
            · have hsame : t.bits = bits := Nat.le_antisymm hge hle
              rw [IntType.inRange_signed ht, hsame] at hin
              exact hin.2
  | false =>
      refine iff_of_true (fun hin => ?_) fun h => absurd h (by simp)
      have hnonneg := ((IntType.inRange_unsigned ht).mp hin).1
      rw [IntType.inRange_unsigned rfl]
      cases signed with
      | true =>
          have hlt := ((IntType.inRange_signed rfl).mp hn).2
          have hpos := IntType.half_pos ⟨bits, true⟩
          exact ⟨hnonneg, by simp only at hlt hpos hnonneg ⊢; omega⟩
      | false => exact (IntType.inRange_unsigned rfl).mp hn

end Integers

section Decimals

variable {t : IntType} {d : Decimal} {n : Int}

/-- The digits against the value. -/
theorem value_eq_iff : d.value = n ↔ d.factor * d.mantissa = n * 10 ^ d.scale.toNat := by
  have hpow : (10 : ℚ) ^ d.scale.toNat ≠ 0 := pow_ne_zero _ (by decide)
  rw [Decimal.value, div_eq_iff hpow]
  constructor
  · intro h
    exact_mod_cast h
  · intro h
    exact_mod_cast h

/-- What is stored for a decimal differs from its digits by a multiple of the size. -/
theorem dvd_stored_sub (ht : t.bits = 63) :
    (2 ^ 64 : Int) ∣
      t.cast (t.cast d.Lo64.toNat * t.cast d.factor) - d.factor * d.mantissa := by
  have hsize : (t.size : Int) = 2 ^ 64 := by
    rw [IntType.size_eq, ht]
    decide
  have hprod := t.dvd_cast_sub (t.cast d.Lo64.toNat * t.cast d.factor)
  have hlo := t.dvd_cast_sub d.Lo64.toNat
  have hfactor := t.dvd_cast_sub d.factor
  rw [hsize] at hprod hlo hfactor
  have hhi : (2 ^ 64 : Int) ∣ (d.Lo64.toNat - d.mantissa : Int) := by
    refine ⟨-d.Hi32.toNat, ?_⟩
    rw [Decimal.mantissa]
    push_cast
    ring
  have hsplit :
      t.cast (t.cast d.Lo64.toNat * t.cast d.factor) - d.factor * d.mantissa =
        (t.cast (t.cast d.Lo64.toNat * t.cast d.factor) -
            t.cast d.Lo64.toNat * t.cast d.factor) +
          (t.cast d.Lo64.toNat - d.Lo64.toNat) * t.cast d.factor +
          d.Lo64.toNat * (t.cast d.factor - d.factor) +
          d.factor * (d.Lo64.toNat - d.mantissa) := by
    ring
  rw [hsplit]
  exact ((hprod.add (hlo.mul_right _)).add (hfactor.mul_left _)).add (hhi.mul_left _)

theorem factor_ne_zero (d : Decimal) : d.factor ≠ 0 := by
  rw [Decimal.factor]
  split_ifs <;> decide

/-- With a scale the digits of a number differ from the number itself. -/
theorem dvd_of_scaled {s : Nat} (hs : s ≠ 0) (h : (2 ^ 64 : Int) ∣ n - n * 10 ^ s) :
    (2 ^ 64 : Int) ∣ n := by
  have hcop : IsCoprime (2 ^ 64 : Int) (1 - 10 ^ s) := by
    refine IsCoprime.pow_left ?_
    obtain ⟨k, rfl⟩ := Nat.exists_eq_succ_of_ne_zero hs
    exact ⟨5 * 10 ^ k, 1, by rw [pow_succ]; ring⟩
  refine hcop.dvd_of_dvd_mul_right ?_
  have hfactor : n * (1 - 10 ^ s) = n - n * 10 ^ s := by ring
  rw [hfactor]
  exact h

/-- A decimal is stored exactly without a scale, and zero always is. -/
theorem decimal_stored_iff (ht : t.bits = 63) (hvalue : d.value = n) (hin : t.InRange n) :
    t.cast (t.cast d.Lo64.toNat * t.cast d.factor) = n ↔ d.scale = 0 ∨ d.mantissa = 0 := by
  have hsize : (t.size : Int) = 2 ^ 64 := by
    rw [IntType.size_eq, ht]
    decide
  have hdvd := dvd_stored_sub (d := d) ht
  have hdigits := value_eq_iff.mp hvalue
  have hrange := t.inRange_cast (t.cast d.Lo64.toNat * t.cast d.factor)
  have hzero : t.InRange 0 := by
    have hpos := t.half_pos
    cases hs : t.signed with
    | true =>
        rw [IntType.inRange_signed hs]
        omega
    | false =>
        rw [IntType.inRange_unsigned hs]
        omega
  rw [hdigits] at hdvd
  constructor
  · intro hstored
    rw [hstored] at hdvd
    by_cases hscale : d.scale = 0
    · exact Or.inl hscale
    · right
      have hs : d.scale.toNat ≠ 0 := fun h => hscale (UInt8.toNat_inj.mp h)
      have hn : n = 0 := by
        refine IntType.eq_of_dvd_sub hin hzero ?_
        rw [hsize, sub_zero]
        exact dvd_of_scaled hs hdvd
      rw [hn, zero_mul] at hdigits
      exact_mod_cast (mul_eq_zero.mp hdigits).resolve_left (factor_ne_zero d)
  · rintro (hscale | hmantissa)
    · refine IntType.eq_of_dvd_sub hrange hin ?_
      rw [hscale] at hdvd
      simpa [hsize] using hdvd
    · have hn : n = 0 := by
        rw [hmantissa, Nat.cast_zero, mul_zero] at hdigits
        exact (mul_eq_zero.mp hdigits.symm).resolve_right (pow_ne_zero _ (by decide))
      refine IntType.eq_of_dvd_sub hrange hin ?_
      rw [hn, zero_mul] at hdvd
      rw [hn, hsize]
      exact hdvd

end Decimals

theorem value_integer {v : Variant} {i : TypedInt} (h : v.integer = some i) :
    v.value = some (i.val : ℚ) := by
  cases v <;> cases h <;> rfl

/-- `VariantToT` stores the value of a variant exactly if nothing is lost on the way. -/
theorem converted_iff (t : Target) (v : Variant) : Exact t v ↔ Lossless t v := by
  cases hv : v.integer with
  | some i =>
      have hdecimal : ∀ d, v ≠ .VT_DECIMAL d := by
        rintro d rfl
        exact absurd hv (by simp [Variant.integer])
      have hvalue : ∀ n : Int, v.value = some (n : ℚ) ↔ i.val = n := by
        intro n
        rw [value_integer hv, Option.some_inj]
        exact Int.cast_inj
      rw [Exact, Lossless, variantToT_integer t hv]
      simp only [hvalue, hv, Option.some.injEq, forall_eq', hdecimal, false_implies, implies_true,
        and_true]
      by_cases hle : i.type.bits ≤ t.type.bits
      · have hself := IntType.cast_eq_self_iff (t := ⟨i.type.bits, t.type.signed⟩) (n := i.val)
        rw [← level_iff hle, if_pos hle, ← hself]
        constructor
        · exact fun h hin => h _ _ rfl rfl hin
        · rintro h x n hx rfl hin
          rw [← Option.some_inj.mp hx]
          exact h hin
      · rw [if_neg hle]
        refine iff_of_true (fun x _ hx => absurd hx (by simp)) fun _ _ hlt => ?_
        exact absurd hlt.le hle
  | none =>
      rw [Exact, Lossless]
      cases v with
      | VT_DECIMAL d =>
          rw [variantToT_decimal]
          by_cases ht : t.type.bits = 63
          · rw [if_pos ht]
            constructor
            · refine fun h => ⟨fun i hi => absurd hi (by simp [Variant.integer]), ?_⟩
              rintro _ ⟨⟩ -
              by_cases hall : ∀ n : Int, d.value = n → ¬ t.type.InRange n
              · exact Or.inr (Or.inr hall)
              · simp only [not_forall, not_not] at hall
                obtain ⟨n, hn, hin⟩ := hall
                have hstored := h _ n rfl (congrArg some hn) hin
                rcases (decimal_stored_iff ht hn hin).mp hstored with hs | hm
                · exact Or.inl hs
                · exact Or.inr (Or.inl hm)
            · rintro ⟨-, h⟩ x n hx hn hin
              have hvalue : d.value = n := Option.some_inj.mp hn
              rw [← Option.some_inj.mp hx]
              rcases h d rfl ht with hs | hm | hnone
              · exact (decimal_stored_iff ht hvalue hin).mpr (Or.inl hs)
              · exact (decimal_stored_iff ht hvalue hin).mpr (Or.inr hm)
              · exact absurd hin (hnone n hvalue)
          · rw [if_neg ht]
            refine iff_of_true (fun x _ hx => absurd hx (by simp)) ⟨fun i hi => ?_, ?_⟩
            · exact absurd hi (by simp [Variant.integer])
            · exact fun _ _ h => absurd h ht
      | VT_BOOL | other =>
          refine iff_of_true (fun _ _ _ hn => absurd hn (by simp [Variant.value, Variant.integer]))
            ⟨fun i hi => ?_, fun _ hd => absurd hd (by simp)⟩
          exact absurd hi (by simp [Variant.integer])
      | _ => exact absurd hv (by simp [Variant.integer])

/-- The byte 200 becomes the `short` -56. -/
theorem byte_200_converted : ¬ ∀ (t : Target) (v : Variant), Exact t v := by
  intro h
  have hstored := h .short (.VT_UI1 200) (-56) 200 (by decide) rfl (by decide)
  exact absurd hstored (by decide)

end Db
end IocpNetlib
