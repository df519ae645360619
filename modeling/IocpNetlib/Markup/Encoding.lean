import IocpNetlib.Lib.BitField
import Mathlib.Data.List.Basic

/-!
# `CMarkup`: UTF-8 and UTF-16

The conversions between the two forms go character by character: one is decoded,
and encoded in the other form.  A `nUChar` of `-1` is `none`.  A string in front
of its terminator is the list of its units.
-/

namespace IocpNetlib
namespace Markup

open BitField

/-- `CMarkup::EncodeCharUTF8`. -/
def encodeCharUTF8 (nUChar : Nat) : List UInt8 :=
  if nUChar < 0x80 then [nUChar.toUInt8]
  else if nUChar < 0x800 then
    [(((nUChar &&& 0x7c0) >>> 6) ||| 0xc0).toUInt8, ((nUChar &&& 0x3f) ||| 0x80).toUInt8]
  else if nUChar < 0x10000 then
    [(((nUChar &&& 0xf000) >>> 12) ||| 0xe0).toUInt8,
      (((nUChar &&& 0xfc0) >>> 6) ||| 0x80).toUInt8, ((nUChar &&& 0x3f) ||| 0x80).toUInt8]
  else
    [(((nUChar &&& 0x1c0000) >>> 18) ||| 0xf0).toUInt8,
      (((nUChar &&& 0x3f000) >>> 12) ||| 0x80).toUInt8,
      (((nUChar &&& 0xfc0) >>> 6) ||| 0x80).toUInt8, ((nUChar &&& 0x3f) ||| 0x80).toUInt8]

/-- `CMarkup::EncodeCharUTF16`. -/
def encodeCharUTF16 (nUChar : Nat) : List UInt16 :=
  if nUChar < 0x10000 then [nUChar.toUInt16]
  else
    [((((nUChar - 0x10000) >>> 10) &&& 0x3ff) ||| 0xd800).toUInt16,
      (((nUChar - 0x10000) &&& 0x3ff) ||| 0xdc00).toUInt16]

/-- The loop of `DecodeCharUTF8` over the bytes behind the first one. -/
def decodeExtraChars (nUChar : Nat) : Nat → List UInt8 → Option Nat × List UInt8
  | 0, bs => (some nUChar, bs)
  | _ + 1, [] => (none, [])
  | nExtraChars + 1, b :: bs =>
      if b.toNat &&& 0x80 = 0 then (none, b :: bs)
      else decodeExtraChars ((nUChar <<< 6) ||| (b.toNat &&& 0x3f)) nExtraChars bs

/-- `CMarkup::DecodeCharUTF8` at the byte `b`: the character, and what is behind it. -/
def decodeCharUTF8 (b : UInt8) (bs : List UInt8) : Option Nat × List UInt8 :=
  if b.toNat &&& 0x80 = 0 then (some b.toNat, bs)
  else if b.toNat &&& 0x20 = 0 then decodeExtraChars (b.toNat &&& 0x1f) 1 bs
  else if b.toNat &&& 0x10 = 0 then decodeExtraChars (b.toNat &&& 0x0f) 2 bs
  else if b.toNat &&& 0x08 = 0 then decodeExtraChars (b.toNat &&& 0x07) 3 bs
  else (none, bs)

/-- `CMarkup::DecodeCharUTF16` at the unit `u`. -/
def decodeCharUTF16 (u : UInt16) (us : List UInt16) : Option Nat × List UInt16 :=
  if u.toNat &&& 0xf800 = 0xd800 then
    match us with
    | [] => (none, [])
    | w2 :: us =>
        (some ((((u.toNat &&& 0x3ff) <<< 10) ||| (w2.toNat &&& 0x3ff)) + 0x10000), us)
  else (some u.toNat, us)

theorem decodeExtraChars_length (n nExtraChars : Nat) (bs : List UInt8) :
    (decodeExtraChars n nExtraChars bs).2.length ≤ bs.length := by
  induction nExtraChars generalizing n bs with
  | zero => exact Nat.le_refl _
  | succ k ih =>
      cases bs with
      | nil => exact Nat.le_refl _
      | cons b bs =>
          rw [decodeExtraChars]
          split_ifs
          · exact Nat.le_refl _
          · exact Nat.le_succ_of_le (ih _ bs)

theorem decodeCharUTF8_length (b : UInt8) (bs : List UInt8) :
    (decodeCharUTF8 b bs).2.length ≤ bs.length := by
  rw [decodeCharUTF8]
  split_ifs
  · exact Nat.le_refl _
  · exact decodeExtraChars_length _ _ _
  · exact decodeExtraChars_length _ _ _
  · exact decodeExtraChars_length _ _ _
  · exact Nat.le_refl _

theorem decodeCharUTF16_length (u : UInt16) (us : List UInt16) :
    (decodeCharUTF16 u us).2.length ≤ us.length := by
  cases us with
  | nil =>
      rw [decodeCharUTF16.eq_def]
      split_ifs <;> exact Nat.le_refl _
  | cons w2 us =>
      rw [decodeCharUTF16.eq_def]
      split_ifs
      · exact Nat.le_succ _
      · exact Nat.le_refl _

/-- `'?'`. -/
def questionMark : Nat := 63

/-- The characters of a UTF-16 string, as `UTF16To8` takes them off. -/
def charsUTF16 : List UInt16 → List Nat
  | [] => []
  | u :: us =>
      (decodeCharUTF16 u us).1.getD questionMark :: charsUTF16 (decodeCharUTF16 u us).2
termination_by us => us.length
decreasing_by
  have := decodeCharUTF16_length u us
  rw [List.length_cons]
  omega

/--
The loop of `CMarkup::UTF16To8` into a buffer of `nUTF8Count` bytes, of which
`nUTF8Len` are written: the bytes it writes, and whether it came to the end.
-/
def utf16To8Loop (nUTF8Count nUTF8Len : Nat) : List Nat → List UInt8 × Bool
  | [] => ([], true)
  | nUChar :: cs =>
      if nUTF8Len + 4 > nUTF8Count ∧
          nUTF8Len + (encodeCharUTF8 nUChar).length > nUTF8Count then ([], false)
      else
        (encodeCharUTF8 nUChar ++
            (utf16To8Loop nUTF8Count (nUTF8Len + (encodeCharUTF8 nUChar).length) cs).1,
          (utf16To8Loop nUTF8Count (nUTF8Len + (encodeCharUTF8 nUChar).length) cs).2)

/--
`CMarkup::UTF16To8`: the bytes written, the terminator included where there is
room for it, and what is returned.
-/
def utf16To8 (ws : List UInt16) (nUTF8Count : Nat) : List UInt8 × Nat :=
  let r := utf16To8Loop nUTF8Count 0 (charsUTF16 ws)
  (if r.2 ∧ r.1.length < nUTF8Count then r.1 ++ [0] else r.1, r.1.length)

/-- `UTF16To8` without a buffer: the number of bytes required. -/
def utf16To8Size (ws : List UInt16) : Nat :=
  (charsUTF16 ws).foldl (fun nUTF8Len nUChar => nUTF8Len + (encodeCharUTF8 nUChar).length) 0

/--
The loop of `CMarkup::UTF8To16` up to the terminator or the end of the bytes:
the units, whether it met the terminator, and how many bytes are left.
-/
def utf8To16Loop : List UInt8 → List UInt16 × Bool × Nat
  | [] => ([], false, 0)
  | b :: bs =>
      if (decodeCharUTF8 b bs).1 = some 0 then ([], true, (decodeCharUTF8 b bs).2.length)
      else
        (encodeCharUTF16 ((decodeCharUTF8 b bs).1.getD questionMark) ++
            (utf8To16Loop (decodeCharUTF8 b bs).2).1,
          (utf8To16Loop (decodeCharUTF8 b bs).2).2)
termination_by bs => bs.length
decreasing_by
  all_goals
    have := decodeCharUTF8_length b bs
    rw [List.length_cons]
    omega

/-- `CMarkup::UTF8To16` of at most `nUTF8Count` bytes: the units written, and what is returned. -/
def utf8To16 (bs : List UInt8) (nUTF8Count : Nat) : List UInt16 × Nat :=
  let r := utf8To16Loop (bs.take nUTF8Count)
  (if r.2.1 then r.1 ++ [0] else r.1, (bs.take nUTF8Count).length - r.2.2)

/--
`CMarkup::DetectUTF8` of a text that is not `NULL`: what it returns, `*pnNonASCII` and
`*bErrorAtEnd`.
-/
def detectUTF8 : List UInt8 → Bool × Nat × Bool
  | [] => (true, 0, false)
  | b :: bs =>
      if b = 0 then (true, 0, false)
      else if b.toNat &&& 0x80 = 0 then detectUTF8 bs
      else if (decodeCharUTF8 b bs).1 = none then (false, 1, (decodeCharUTF8 b bs).2.isEmpty)
      else
        ((detectUTF8 (decodeCharUTF8 b bs).2).1, (detectUTF8 (decodeCharUTF8 b bs).2).2.1 + 1,
          (detectUTF8 (decodeCharUTF8 b bs).2).2.2)
termination_by bs => bs.length
decreasing_by
  · rw [List.length_cons]
    omega
  all_goals
    have := decodeCharUTF8_length b bs
    rw [List.length_cons]
    omega

section Characters

/-- A character that UTF-16 and UTF-8 encode alike: no surrogate, and not the terminator. -/
def IsCharacter (c : Nat) : Prop :=
  0 < c ∧ c < 0x110000 ∧ ¬ (0xd800 ≤ c ∧ c < 0xe000)

instance (c : Nat) : Decidable (IsCharacter c) :=
  inferInstanceAs (Decidable (_ ∧ _ ∧ ¬ _))

theorem toNat_toUInt8 {n : Nat} (h : n < 256) : n.toUInt8.toNat = n := by
  simp only [Nat.toUInt8_eq, UInt8.toNat_ofNat']
  omega

theorem toNat_toUInt16 {n : Nat} (h : n < 65536) : n.toUInt16.toNat = n := by
  simp only [Nat.toUInt16_eq, UInt16.toNat_ofNat']
  omega

/-- The bytes of a character by its quotients and remainders. -/
theorem encodeCharUTF8_eq (c : Nat) (h : c < 0x200000) :
    (encodeCharUTF8 c).map UInt8.toNat =
      if c < 0x80 then [c]
      else if c < 0x800 then [c / 64 + 0xc0, c % 64 + 0x80]
      else if c < 0x10000 then [c / 4096 + 0xe0, c / 64 % 64 + 0x80, c % 64 + 0x80]
      else [c / 262144 + 0xf0, c / 4096 % 64 + 0x80, c / 64 % 64 + 0x80, c % 64 + 0x80] := by
  have h0 : c &&& 0x3f = c % 64 := Nat.and_two_pow_sub_one_eq_mod c 6
  have h6 : (c &&& 0xfc0) >>> 6 = c / 64 % 64 := and_mask_shift c 6 6
  have h6' : (c &&& 0x7c0) >>> 6 = c / 64 % 32 := and_mask_shift c 6 5
  have h12 : (c &&& 0xf000) >>> 12 = c / 4096 % 16 := and_mask_shift c 12 4
  have h12' : (c &&& 0x3f000) >>> 12 = c / 4096 % 64 := and_mask_shift c 12 6
  have h18 : (c &&& 0x1c0000) >>> 18 = c / 262144 % 8 := and_mask_shift c 18 3
  have hcont (n : Nat) (hn : n < 64) : n ||| 0x80 = n + 0x80 := by
    have h : n ||| 0x80 = 2 * 2 ^ 6 + n := or_field 2 6 hn
    omega
  have hlead2 (n : Nat) (hn : n < 32) : n ||| 0xc0 = n + 0xc0 := by
    have h : n ||| 0xc0 = 6 * 2 ^ 5 + n := or_field 6 5 hn
    omega
  have hlead3 (n : Nat) (hn : n < 16) : n ||| 0xe0 = n + 0xe0 := by
    have h : n ||| 0xe0 = 14 * 2 ^ 4 + n := or_field 14 4 hn
    omega
  have hlead4 (n : Nat) (hn : n < 8) : n ||| 0xf0 = n + 0xf0 := by
    have h : n ||| 0xf0 = 30 * 2 ^ 3 + n := or_field 30 3 hn
    omega
  rw [encodeCharUTF8]
  rw [h0, h6, h6', h12, h12', h18, hlead2 _ (by omega), hcont _ (by omega), hlead3 _ (by omega),
    hcont _ (by omega), hlead4 _ (by omega), hcont _ (by omega)]
  split_ifs
  · simp only [List.map_cons, List.map_nil, toNat_toUInt8 (show c < 256 by omega)]
  · simp only [List.map_cons, List.map_nil]
    rw [toNat_toUInt8 (by omega), toNat_toUInt8 (by omega)]
    congr 1
    omega
  · simp only [List.map_cons, List.map_nil]
    rw [toNat_toUInt8 (by omega), toNat_toUInt8 (by omega), toNat_toUInt8 (by omega)]
    congr 1
    omega
  · simp only [List.map_cons, List.map_nil]
    rw [toNat_toUInt8 (by omega), toNat_toUInt8 (by omega), toNat_toUInt8 (by omega),
      toNat_toUInt8 (by omega)]
    congr 1
    omega

/-- A byte behind the first one. -/
theorem decodeExtraChars_cons
    (n k : Nat) {b : UInt8} {v : Nat} (hb : b.toNat = v + 0x80) (hv : v < 64) (bs : List UInt8) :
    decodeExtraChars n (k + 1) (b :: bs) = decodeExtraChars (n * 64 + v) k bs := by
  have hset : ¬ b.toNat &&& 0x80 = 0 := by
    have h := and_bit_eq_zero_iff b.toNat 7
    rw [show (1 * 2 ^ 7 : Nat) = 0x80 from rfl] at h
    rw [h]
    omega
  have hlow : b.toNat &&& 0x3f = v := by
    have h : b.toNat &&& 0x3f = b.toNat % 64 := Nat.and_two_pow_sub_one_eq_mod b.toNat 6
    omega
  have hpush : n <<< 6 ||| v = n * 64 + v := shift_or n 6 hv
  rw [decodeExtraChars, if_neg hset, hlow, hpush]

/-- What the first byte says. -/
theorem decodeCharUTF8_eq (b : UInt8) (bs : List UInt8) :
    decodeCharUTF8 b bs =
      if b.toNat < 128 then (some b.toNat, bs)
      else if b.toNat / 32 % 2 = 0 then decodeExtraChars (b.toNat % 32) 1 bs
      else if b.toNat / 16 % 2 = 0 then decodeExtraChars (b.toNat % 16) 2 bs
      else if b.toNat / 8 % 2 = 0 then decodeExtraChars (b.toNat % 8) 3 bs
      else (none, bs) := by
  have h7 : b.toNat &&& 0x80 = 0 ↔ b.toNat / 128 % 2 = 0 := and_bit_eq_zero_iff b.toNat 7
  have h5 : b.toNat &&& 0x20 = 0 ↔ b.toNat / 32 % 2 = 0 := and_bit_eq_zero_iff b.toNat 5
  have h4 : b.toNat &&& 0x10 = 0 ↔ b.toNat / 16 % 2 = 0 := and_bit_eq_zero_iff b.toNat 4
  have h3 : b.toNat &&& 0x08 = 0 ↔ b.toNat / 8 % 2 = 0 := and_bit_eq_zero_iff b.toNat 3
  have m5 : b.toNat &&& 0x1f = b.toNat % 32 := Nat.and_two_pow_sub_one_eq_mod b.toNat 5
  have m4 : b.toNat &&& 0x0f = b.toNat % 16 := Nat.and_two_pow_sub_one_eq_mod b.toNat 4
  have m3 : b.toNat &&& 0x07 = b.toNat % 8 := Nat.and_two_pow_sub_one_eq_mod b.toNat 3
  have hlt : b.toNat / 128 % 2 = 0 ↔ b.toNat < 128 := by
    have := b.toNat_lt
    omega
  rw [decodeCharUTF8]
  simp only [h7, h5, h4, h3, m5, m4, m3, hlt]

/-- What the bytes of a character say to the decoder, all of them or the first ones. -/
structure Spells (c : Nat) (b : UInt8) (bs : List UInt8) : Prop where
  whole : ∀ rest, decodeCharUTF8 b (bs ++ rest) = (some c, rest)
  cut : ∀ k, k < bs.length → decodeCharUTF8 b (bs.take k) = (none, [])
  ascii : b.toNat < 128 ↔ c < 128
  first : 0 < c → b ≠ 0

theorem exists_encodeCharUTF8 (c : Nat) (h : c < 0x200000) :
    ∃ b bs, encodeCharUTF8 c = b :: bs ∧ Spells c b bs := by
  have heq := encodeCharUTF8_eq c h
  have hzero {b : UInt8} {n : Nat} (hb : b.toNat = n) (hn : 0 < n) : b ≠ 0 := by
    rintro rfl
    exact Nat.ne_of_gt hn hb.symm
  split_ifs at heq with h1 h2 h3
  · obtain ⟨b, bs, hbs, hb, htail⟩ := List.map_eq_cons_iff.mp heq
    rw [List.map_eq_nil_iff] at htail
    subst htail
    refine ⟨b, [], hbs, ?_, ?_, by omega, fun hpos => hzero hb hpos⟩
    · intro rest
      rw [decodeCharUTF8_eq, if_pos (by omega), hb, List.nil_append]
    · intro k hk
      exact absurd hk (Nat.not_lt_zero k)
  · obtain ⟨b, bs, hbs, hb, htail⟩ := List.map_eq_cons_iff.mp heq
    obtain ⟨b1, bs1, rfl, hb1, htail⟩ := List.map_eq_cons_iff.mp htail
    rw [List.map_eq_nil_iff] at htail
    subst htail
    have hfirst (bs : List UInt8) :
        decodeCharUTF8 b bs = decodeExtraChars (b.toNat % 32) 1 bs := by
      rw [decodeCharUTF8_eq, if_neg (by omega), if_pos (by omega)]
    refine ⟨b, [b1], hbs, ?_, ?_, by omega, fun _ => hzero hb (by omega)⟩
    · intro rest
      rw [hfirst, List.cons_append, List.nil_append, decodeExtraChars_cons _ _ hb1 (by omega),
        decodeExtraChars]
      congr 2
      omega
    · intro k hk
      obtain rfl : k = 0 := by simpa using hk
      rw [hfirst, List.take_zero, decodeExtraChars]
  · obtain ⟨b, bs, hbs, hb, htail⟩ := List.map_eq_cons_iff.mp heq
    obtain ⟨b1, bs1, rfl, hb1, htail⟩ := List.map_eq_cons_iff.mp htail
    obtain ⟨b2, bs2, rfl, hb2, htail⟩ := List.map_eq_cons_iff.mp htail
    rw [List.map_eq_nil_iff] at htail
    subst htail
    have hfirst (bs : List UInt8) :
        decodeCharUTF8 b bs = decodeExtraChars (b.toNat % 16) 2 bs := by
      rw [decodeCharUTF8_eq, if_neg (by omega), if_neg (by omega), if_pos (by omega)]
    refine ⟨b, [b1, b2], hbs, ?_, ?_, by omega, fun _ => hzero hb (by omega)⟩
    · intro rest
      rw [hfirst, List.cons_append, List.cons_append, List.nil_append,
        decodeExtraChars_cons _ _ hb1 (by omega), decodeExtraChars_cons _ _ hb2 (by omega),
        decodeExtraChars]
      congr 2
      omega
    · intro k hk
      have hk : k = 0 ∨ k = 1 := by
        simp only [List.length_cons, List.length_nil] at hk
        omega
      rcases hk with rfl | rfl
      · rw [hfirst, List.take_zero, decodeExtraChars]
      · rw [hfirst, List.take_succ_cons, List.take_zero,
          decodeExtraChars_cons _ _ hb1 (by omega), decodeExtraChars]
  · obtain ⟨b, bs, hbs, hb, htail⟩ := List.map_eq_cons_iff.mp heq
    obtain ⟨b1, bs1, rfl, hb1, htail⟩ := List.map_eq_cons_iff.mp htail
    obtain ⟨b2, bs2, rfl, hb2, htail⟩ := List.map_eq_cons_iff.mp htail
    obtain ⟨b3, bs3, rfl, hb3, htail⟩ := List.map_eq_cons_iff.mp htail
    rw [List.map_eq_nil_iff] at htail
    subst htail
    have hfirst (bs : List UInt8) :
        decodeCharUTF8 b bs = decodeExtraChars (b.toNat % 8) 3 bs := by
      rw [decodeCharUTF8_eq, if_neg (by omega), if_neg (by omega), if_neg (by omega),
        if_pos (by omega)]
    refine ⟨b, [b1, b2, b3], hbs, ?_, ?_, by omega, fun _ => hzero hb (by omega)⟩
    · intro rest
      rw [hfirst, List.cons_append, List.cons_append, List.cons_append, List.nil_append,
        decodeExtraChars_cons _ _ hb1 (by omega), decodeExtraChars_cons _ _ hb2 (by omega),
        decodeExtraChars_cons _ _ hb3 (by omega), decodeExtraChars]
      congr 2
      omega
    · intro k hk
      have hk : k = 0 ∨ k = 1 ∨ k = 2 := by
        simp only [List.length_cons, List.length_nil] at hk
        omega
      rcases hk with rfl | rfl | rfl
      · rw [hfirst, List.take_zero, decodeExtraChars]
      · rw [hfirst, List.take_succ_cons, List.take_zero,
          decodeExtraChars_cons _ _ hb1 (by omega), decodeExtraChars]
      · rw [hfirst, List.take_succ_cons, List.take_succ_cons, List.take_zero,
          decodeExtraChars_cons _ _ hb1 (by omega), decodeExtraChars_cons _ _ hb2 (by omega),
          decodeExtraChars]

theorem toNat_encodeCharUTF16 (c : Nat) (h : c < 0x110000) :
    (encodeCharUTF16 c).map UInt16.toNat =
      if c < 0x10000 then [c]
      else [(c - 0x10000) / 1024 + 0xd800, (c - 0x10000) % 1024 + 0xdc00] := by
  have h10 : (c - 0x10000) >>> 10 = (c - 0x10000) / 1024 :=
    Nat.shiftRight_eq_div_pow (c - 0x10000) 10
  have hmask (n : Nat) : n &&& 0x3ff = n % 1024 := Nat.and_two_pow_sub_one_eq_mod n 10
  have hhigh (n : Nat) (hn : n < 1024) : n ||| 0xd800 = n + 0xd800 := by
    have h : n ||| 0xd800 = 54 * 2 ^ 10 + n := or_field 54 10 hn
    omega
  have hlow (n : Nat) (hn : n < 1024) : n ||| 0xdc00 = n + 0xdc00 := by
    have h : n ||| 0xdc00 = 55 * 2 ^ 10 + n := or_field 55 10 hn
    omega
  rw [encodeCharUTF16, h10, hmask, hmask, hhigh _ (by omega), hlow _ (by omega)]
  split_ifs
  · simp only [List.map_cons, List.map_nil]
    rw [toNat_toUInt16 (by omega)]
  · simp only [List.map_cons, List.map_nil]
    rw [toNat_toUInt16 (by omega), toNat_toUInt16 (by omega)]
    congr 1
    omega

/-- A half of a surrogate pair. -/
def IsSurrogate (u : UInt16) : Prop :=
  0xd800 ≤ u.toNat ∧ u.toNat < 0xe000

instance (u : UInt16) : Decidable (IsSurrogate u) :=
  inferInstanceAs (Decidable (_ ∧ _))

theorem isSurrogate_iff (u : UInt16) : u.toNat &&& 0xf800 = 0xd800 ↔ IsSurrogate u := by
  have hmask : u.toNat &&& 0xf800 = u.toNat / 2048 % 32 * 2048 := and_mask u.toNat 11 5
  have := u.toNat_lt
  rw [hmask, IsSurrogate]
  omega

theorem decodeCharUTF16_unit
    {u : UInt16} (hu : ¬ IsSurrogate u) (us : List UInt16) :
    decodeCharUTF16 u us = (some u.toNat, us) := by
  rw [decodeCharUTF16.eq_def]
  exact if_neg fun h => hu ((isSurrogate_iff u).mp h)

theorem decodeCharUTF16_pair
    {u : UInt16} (hu : IsSurrogate u) (w2 : UInt16) (us : List UInt16) :
    decodeCharUTF16 u (w2 :: us) =
      (some (u.toNat % 1024 * 1024 + w2.toNat % 1024 + 0x10000), us) := by
  have hlow (n : Nat) : n &&& 0x3ff = n % 1024 := Nat.and_two_pow_sub_one_eq_mod n 10
  have hpush : (u.toNat % 1024) <<< 10 ||| w2.toNat % 1024 =
      u.toNat % 1024 * 1024 + w2.toNat % 1024 :=
    shift_or _ 10 (show w2.toNat % 1024 < 2 ^ 10 from Nat.mod_lt _ (by decide))
  rw [decodeCharUTF16.eq_def]
  simp only [if_pos ((isSurrogate_iff u).mpr hu), hlow, hpush]

theorem decodeCharUTF16_end
    {u : UInt16} (hu : IsSurrogate u) : decodeCharUTF16 u [] = (none, []) := by
  rw [decodeCharUTF16.eq_def]
  exact if_pos ((isSurrogate_iff u).mpr hu)

end Characters

section Strings

/-- UTF-16: units that are no surrogates, and pairs of a high one and a low one. -/
inductive IsUTF16 : List UInt16 → Prop
  | nil : IsUTF16 []
  | unit {u : UInt16} {us : List UInt16} :
      u ≠ 0 → ¬ IsSurrogate u → IsUTF16 us → IsUTF16 (u :: us)
  | pair {u w2 : UInt16} {us : List UInt16} :
      0xd800 ≤ u.toNat → u.toNat < 0xdc00 → 0xdc00 ≤ w2.toNat → w2.toNat < 0xe000 →
      IsUTF16 us → IsUTF16 (u :: w2 :: us)

/-- The characters of a string in UTF-8. -/
def encodeUTF8 (cs : List Nat) : List UInt8 := cs.flatMap encodeCharUTF8

/-- The characters of a string in UTF-16. -/
def encodeUTF16 (cs : List Nat) : List UInt16 := cs.flatMap encodeCharUTF16

theorem encodeUTF8_cons (c : Nat) (cs : List Nat) :
    encodeUTF8 (c :: cs) = encodeCharUTF8 c ++ encodeUTF8 cs :=
  List.flatMap_cons

theorem encodeUTF16_cons (c : Nat) (cs : List Nat) :
    encodeUTF16 (c :: cs) = encodeCharUTF16 c ++ encodeUTF16 cs :=
  List.flatMap_cons

theorem charsUTF16_cons (u : UInt16) (us : List UInt16) :
    charsUTF16 (u :: us) =
      (decodeCharUTF16 u us).1.getD questionMark :: charsUTF16 (decodeCharUTF16 u us).2 := by
  rw [charsUTF16]

theorem charsUTF16_unit {u : UInt16} (hu : ¬ IsSurrogate u) (us : List UInt16) :
    charsUTF16 (u :: us) = u.toNat :: charsUTF16 us := by
  rw [charsUTF16_cons, decodeCharUTF16_unit hu]
  rfl

theorem charsUTF16_pair {u : UInt16} (hu : IsSurrogate u) (w2 : UInt16) (us : List UInt16) :
    charsUTF16 (u :: w2 :: us) =
      (u.toNat % 1024 * 1024 + w2.toNat % 1024 + 0x10000) :: charsUTF16 us := by
  rw [charsUTF16_cons, decodeCharUTF16_pair hu]
  rfl

theorem charsUTF16_end {u : UInt16} (hu : IsSurrogate u) :
    charsUTF16 [u] = [questionMark] := by
  rw [charsUTF16_cons, decodeCharUTF16_end hu, charsUTF16]
  rfl

/-- What is taken off a string are characters, whatever units it has. -/
theorem charsUTF16_isCharacter (ws : List UInt16) (h : 0 ∉ ws) :
    ∀ c ∈ charsUTF16 ws, IsCharacter c := by
  induction hn : ws.length using Nat.strongRecOn generalizing ws with
  | ind n ih =>
      cases ws with
      | nil =>
          intro c hc
          rw [charsUTF16] at hc
          exact absurd hc List.not_mem_nil
      | cons u us =>
          have hu0 : u ≠ 0 := fun h0 => h (h0 ▸ List.mem_cons_self)
          have hus : 0 ∉ us := fun h0 => h (List.mem_cons_of_mem u h0)
          rw [List.length_cons] at hn
          by_cases hu : IsSurrogate u
          · cases us with
            | nil =>
                intro c hc
                rw [charsUTF16_end hu, List.mem_singleton] at hc
                subst hc
                decide
            | cons w2 us =>
                rw [List.length_cons] at hn
                intro c hc
                rw [charsUTF16_pair hu] at hc
                rcases List.mem_cons.mp hc with rfl | hc
                · have hlt := Nat.mod_lt u.toNat (show 0 < 1024 by decide)
                  have hlt2 := Nat.mod_lt w2.toNat (show 0 < 1024 by decide)
                  refine ⟨?_, ?_, ?_⟩ <;> omega
                · exact ih us.length (by omega) us
                    (fun h0 => hus (List.mem_cons_of_mem w2 h0)) rfl c hc
          · intro c hc
            rw [charsUTF16_unit hu] at hc
            rcases List.mem_cons.mp hc with rfl | hc
            · have hlt := u.toNat_lt
              have hpos : 0 < u.toNat := by
                refine Nat.pos_of_ne_zero fun h0 => hu0 (UInt16.toNat_inj.mp h0)
              exact ⟨hpos, by omega, hu⟩
            · exact ih us.length (by omega) us hus rfl c hc

/-- A character of its own in UTF-16. -/
theorem isUTF16_encodeChar
    {c : Nat} (hc : IsCharacter c) {us : List UInt16} (hus : IsUTF16 us) :
    IsUTF16 (encodeCharUTF16 c ++ us) := by
  obtain ⟨hpos, hlt, hns⟩ := hc
  have heq := toNat_encodeCharUTF16 c hlt
  split_ifs at heq with hsmall
  · obtain ⟨u, t, hut, hu, htail⟩ := List.map_eq_cons_iff.mp heq
    rw [List.map_eq_nil_iff] at htail
    rw [hut, htail]
    refine .unit (fun h0 => ?_) (fun hs => hns (hu ▸ hs)) hus
    rw [h0] at hu
    exact Nat.ne_of_gt hpos hu.symm
  · obtain ⟨u, t, hut, hu, htail⟩ := List.map_eq_cons_iff.mp heq
    obtain ⟨w2, t2, rfl, hw2, htail⟩ := List.map_eq_cons_iff.mp htail
    rw [List.map_eq_nil_iff] at htail
    rw [hut, htail]
    exact .pair (by omega) (by omega) (by omega) (by omega) hus

theorem isUTF16_encode
    {cs : List Nat} (hcs : ∀ c ∈ cs, IsCharacter c) : IsUTF16 (encodeUTF16 cs) := by
  induction cs with
  | nil => exact .nil
  | cons c cs ih =>
      rw [encodeUTF16_cons]
      exact isUTF16_encodeChar (hcs c List.mem_cons_self)
        (ih fun c' hc' => hcs c' (List.mem_cons_of_mem c hc'))

/-- The characters of UTF-16 are what was encoded. -/
theorem encodeUTF16_chars {ws : List UInt16} (h : IsUTF16 ws) :
    encodeUTF16 (charsUTF16 ws) = ws := by
  induction h with
  | nil =>
      rw [charsUTF16]
      rfl
  | @unit u us hu0 hu hus ih =>
      rw [charsUTF16_unit hu, encodeUTF16_cons, ih]
      have hlt := u.toNat_lt
      rw [encodeCharUTF16, if_pos (by omega), Nat.toUInt16_eq, UInt16.ofNat_toNat]
      rfl
  | @pair u w2 us h1 h2 h3 h4 hus ih =>
      have hu : IsSurrogate u := ⟨h1, by omega⟩
      rw [charsUTF16_pair hu, encodeUTF16_cons, ih]
      have hmod : u.toNat % 1024 = u.toNat - 0xd800 := by omega
      have hmod2 : w2.toNat % 1024 = w2.toNat - 0xdc00 := by omega
      have heq := toNat_encodeCharUTF16 (u.toNat % 1024 * 1024 + w2.toNat % 1024 + 0x10000)
        (by omega)
      rw [if_neg (by omega)] at heq
      obtain ⟨a, t, hat, ha, htail⟩ := List.map_eq_cons_iff.mp heq
      obtain ⟨b, t2, rfl, hb, htail⟩ := List.map_eq_cons_iff.mp htail
      rw [List.map_eq_nil_iff] at htail
      rw [hat, htail]
      have hau : a = u := UInt16.toNat_inj.mp (by omega)
      have hbw : b = w2 := UInt16.toNat_inj.mp (by omega)
      rw [hau, hbw]
      rfl

/-- The characters are found again in the bytes. -/
theorem utf8To16Loop_encode
    {cs : List Nat} (hcs : ∀ c ∈ cs, IsCharacter c) (rest : List UInt8) :
    utf8To16Loop (encodeUTF8 cs ++ 0 :: rest) = (encodeUTF16 cs, true, rest.length) := by
  induction cs with
  | nil =>
      have hdec : decodeCharUTF8 0 rest = (some 0, rest) := by
        rw [decodeCharUTF8_eq]
        rfl
      rw [show encodeUTF8 [] ++ 0 :: rest = 0 :: rest from rfl, utf8To16Loop, hdec]
      rfl
  | cons c cs ih =>
      obtain ⟨hpos, hlt, -⟩ := hcs c List.mem_cons_self
      obtain ⟨b, bs, hb, hdec⟩ := exists_encodeCharUTF8 c (by omega)
      have ih := ih fun c' hc' => hcs c' (List.mem_cons_of_mem c hc')
      rw [encodeUTF8_cons, hb, encodeUTF16_cons, List.cons_append, List.cons_append,
        List.append_assoc, utf8To16Loop, hdec.whole, ih]
      have hne : ¬ some c = some 0 := fun h => Nat.ne_of_gt hpos (Option.some.inj h)
      rw [if_neg hne]
      rfl

theorem utf16To8Size_eq (ws : List UInt16) :
    utf16To8Size ws = (encodeUTF8 (charsUTF16 ws)).length := by
  have hfold (cs : List Nat) (n : Nat) :
      cs.foldl (fun nUTF8Len nUChar => nUTF8Len + (encodeCharUTF8 nUChar).length) n =
        n + (encodeUTF8 cs).length := by
    induction cs generalizing n with
    | nil => rfl
    | cons c cs ih =>
        rw [List.foldl_cons, ih, encodeUTF8_cons, List.length_append, Nat.add_assoc]
  rw [utf16To8Size, hfold, Nat.zero_add]

theorem encodeCharUTF8_length (c : Nat) : (encodeCharUTF8 c).length ≤ 4 := by
  rw [encodeCharUTF8]
  split_ifs <;> simp

/-- The test of the loop only looks at the exact length where it may matter. -/
theorem utf16To8Loop_cons (nUTF8Count nUTF8Len c : Nat) (cs : List Nat) :
    utf16To8Loop nUTF8Count nUTF8Len (c :: cs) =
      if nUTF8Len + (encodeCharUTF8 c).length > nUTF8Count then ([], false)
      else
        (encodeCharUTF8 c ++
            (utf16To8Loop nUTF8Count (nUTF8Len + (encodeCharUTF8 c).length) cs).1,
          (utf16To8Loop nUTF8Count (nUTF8Len + (encodeCharUTF8 c).length) cs).2) := by
  have hle := encodeCharUTF8_length c
  rw [utf16To8Loop]
  by_cases h : nUTF8Len + (encodeCharUTF8 c).length > nUTF8Count
  · rw [if_pos ⟨by omega, h⟩, if_pos h]
  · rw [if_neg fun hc => h hc.2, if_neg h]

/-- The loop with room for all characters. -/
theorem utf16To8Loop_all
    (nUTF8Count nUTF8Len : Nat) (cs : List Nat)
    (h : nUTF8Len + (encodeUTF8 cs).length ≤ nUTF8Count) :
    utf16To8Loop nUTF8Count nUTF8Len cs = (encodeUTF8 cs, true) := by
  induction cs generalizing nUTF8Len with
  | nil => rfl
  | cons c cs ih =>
      rw [encodeUTF8_cons, List.length_append] at h
      rw [utf16To8Loop_cons, if_neg (by omega), ih _ (by omega), encodeUTF8_cons]

/-- `UTF16To8` with room for the terminator. -/
theorem utf16To8_eq (ws : List UInt16) {nUTF8Count : Nat} (h : utf16To8Size ws < nUTF8Count) :
    utf16To8 ws nUTF8Count = (encodeUTF8 (charsUTF16 ws) ++ [0], utf16To8Size ws) := by
  rw [utf16To8Size_eq] at h ⊢
  rw [utf16To8, utf16To8Loop_all _ _ _ (by omega)]
  simp only [true_and, if_pos h]

/--
A string that goes through `UTF16To8` and back through `UTF8To16` is the same again exactly when
it is UTF-16.
-/
theorem utf8To16_utf16To8_iff
    (ws : List UInt16) (h0 : 0 ∉ ws)
    {nUTF8Count nUTF8Back : Nat} (hroom : utf16To8Size ws < nUTF8Count)
    (hback : utf16To8Size ws < nUTF8Back) :
    utf8To16 (utf16To8 ws nUTF8Count).1 nUTF8Back = (ws ++ [0], utf16To8Size ws + 1) ↔
      IsUTF16 ws := by
  have hchars := charsUTF16_isCharacter ws h0
  have hsize := utf16To8Size_eq ws
  have hall : ((encodeUTF8 (charsUTF16 ws) ++ [0]).take nUTF8Back) =
      encodeUTF8 (charsUTF16 ws) ++ [0] := by
    refine List.take_of_length_le ?_
    rw [List.length_append, List.length_singleton]
    omega
  rw [utf16To8_eq ws hroom, utf8To16, hall, utf8To16Loop_encode hchars]
  simp only [if_true, List.length_append, List.length_nil, List.length_singleton, Nat.sub_zero,
    Prod.mk.injEq, List.append_cancel_right_eq, ← hsize, and_true]
  constructor
  · intro heq
    rw [← heq]
    exact isUTF16_encode hchars
  · exact encodeUTF16_chars

section Examples

/-- `A`, and a pair. -/
theorem utf8To16_utf16To8_example :
    utf8To16 (utf16To8 [0x41, 0xd83d, 0xde00] 8).1 8 = ([0x41, 0xd83d, 0xde00] ++ [0], 5 + 1) := by
  have hchars : charsUTF16 [0x41, 0xd83d, 0xde00] = [0x41, 0x1f600] := by
    rw [charsUTF16_unit (by decide), charsUTF16_pair (by decide), charsUTF16]
    rfl
  have hsize : utf16To8Size [0x41, 0xd83d, 0xde00] = 5 := by
    rw [utf16To8Size_eq, hchars]
    rfl
  rw [← hsize]
  refine (utf8To16_utf16To8_iff _ (by decide) ?_ ?_).mpr ?_
  · rw [hsize]
    decide
  · rw [hsize]
    decide
  · exact .unit (by decide) (by decide) (.pair (by decide) (by decide) (by decide) (by decide) .nil)

end Examples

end Strings

section Bounds

/--
`UTF16To8` with a buffer of any size: it writes the characters of the longest front that fits, in
full, and the terminator if it came to the end and has room for it.
-/
theorem utf16To8_front (ws : List UInt16) (nUTF8Count : Nat) :
    ∃ front rest, charsUTF16 ws = front ++ rest ∧
      utf16To8 ws nUTF8Count =
        (encodeUTF8 front ++
            (if rest = [] ∧ (encodeUTF8 front).length < nUTF8Count then [0] else []),
          (encodeUTF8 front).length) ∧
      (encodeUTF8 front).length ≤ nUTF8Count ∧
      ∀ c cs, rest = c :: cs → nUTF8Count < (encodeUTF8 (front ++ [c])).length := by
  have hloop (cs : List Nat) (n : Nat) (hn : n ≤ nUTF8Count) :
      ∃ front rest, cs = front ++ rest ∧
        utf16To8Loop nUTF8Count n cs = (encodeUTF8 front, decide (rest = [])) ∧
        n + (encodeUTF8 front).length ≤ nUTF8Count ∧
        ∀ c t, rest = c :: t → nUTF8Count < n + (encodeUTF8 (front ++ [c])).length := by
    induction cs generalizing n with
    | nil => exact ⟨[], [], rfl, rfl, hn, fun c t h => absurd h (List.cons_ne_nil c t).symm⟩
    | cons c cs ih =>
        rw [utf16To8Loop_cons]
        by_cases hlt : n + (encodeCharUTF8 c).length > nUTF8Count
        · refine ⟨[], c :: cs, rfl, ?_, hn, ?_⟩
          · rw [if_pos hlt]
            rfl
          · intro c' t h
            obtain rfl : c = c' := (List.cons.inj h).1
            rw [List.nil_append, encodeUTF8_cons, List.length_append]
            omega
        · obtain ⟨front, rest, hcs, hrun, hle, hmax⟩ :=
            ih (n + (encodeCharUTF8 c).length) (Nat.le_of_not_lt hlt)
          refine ⟨c :: front, rest, ?_, ?_, ?_, ?_⟩
          · rw [hcs, List.cons_append]
          · rw [if_neg hlt, hrun, encodeUTF8_cons]
          · rw [encodeUTF8_cons, List.length_append]
            omega
          · intro c' t h
            have := hmax c' t h
            rw [List.cons_append, encodeUTF8_cons, List.length_append]
            omega
  obtain ⟨front, rest, hcs, hrun, hle, hmax⟩ := hloop (charsUTF16 ws) 0 (Nat.zero_le _)
  refine ⟨front, rest, hcs, ?_, by omega, fun c t h => by have := hmax c t h; omega⟩
  rw [utf16To8, hrun]
  simp only [decide_eq_true_eq, Prod.mk.injEq, and_true]
  split_ifs
  · rfl
  · rw [List.append_nil]

/-- How many characters are not ASCII. -/
def nonASCII (cs : List Nat) : Nat := cs.countP fun c => decide (0x80 ≤ c)

/-- A whole character at the front of a text. -/
theorem detectUTF8_char
    {c : Nat} (hpos : 0 < c) {b : UInt8} {bs : List UInt8} (h : Spells c b bs)
    (hbs : c < 128 → bs = []) (rest : List UInt8) :
    detectUTF8 (b :: (bs ++ rest)) =
      ((detectUTF8 rest).1, (detectUTF8 rest).2.1 + (if 0x80 ≤ c then 1 else 0),
        (detectUTF8 rest).2.2) := by
  have hbit : b.toNat &&& 0x80 = 0 ↔ b.toNat < 128 := by
    have h7 : b.toNat &&& 0x80 = 0 ↔ b.toNat / 128 % 2 = 0 := and_bit_eq_zero_iff b.toNat 7
    have := b.toNat_lt
    omega
  rw [detectUTF8, if_neg (h.first hpos), h.whole]
  by_cases hc : c < 128
  · rw [if_pos (hbit.mpr (h.ascii.mpr hc)), hbs hc, if_neg (by omega)]
    rfl
  · rw [if_neg fun hb => hc (h.ascii.mp (hbit.mp hb)), if_neg (by simp), if_pos (by omega)]

/-- The first bytes of a character, and the end. -/
theorem detectUTF8_cut
    {c : Nat} (hpos : 0 < c) {b : UInt8} {bs : List UInt8} (h : Spells c b bs)
    {k : Nat} (hk : k < bs.length) (hc : 128 ≤ c) :
    detectUTF8 (b :: bs.take k) = (false, 1, true) := by
  have hbit : ¬ b.toNat &&& 0x80 = 0 := by
    have h7 : b.toNat &&& 0x80 = 0 ↔ b.toNat / 128 % 2 = 0 := and_bit_eq_zero_iff b.toNat 7
    have := b.toNat_lt
    have := h.ascii
    omega
  rw [detectUTF8, if_neg (h.first hpos), if_neg hbit, h.cut k hk]
  rfl

/--
A text in UTF-8 that is cut off anywhere: `DetectUTF8` takes it if the cut is behind a character,
and otherwise says that the error is at the end; it counts the characters that are not ASCII, the
one that is cut included.
-/
theorem detectUTF8_take
    {cs : List Nat} (hcs : ∀ c ∈ cs, IsCharacter c) (n : Nat) :
    (∃ front, front <+: cs ∧ (encodeUTF8 cs).take n = encodeUTF8 front ∧
        detectUTF8 ((encodeUTF8 cs).take n) = (true, nonASCII front, false)) ∨
      ∃ front c k, front ++ [c] <+: cs ∧ 0 < k ∧ k < (encodeCharUTF8 c).length ∧
        (encodeUTF8 cs).take n = encodeUTF8 front ++ (encodeCharUTF8 c).take k ∧
        detectUTF8 ((encodeUTF8 cs).take n) = (false, nonASCII front + 1, true) := by
  induction cs generalizing n with
  | nil =>
      refine Or.inl ⟨[], List.prefix_rfl, List.take_nil, ?_⟩
      rw [show encodeUTF8 [] = [] from rfl, List.take_nil, detectUTF8]
      rfl
  | cons c cs ih =>
      obtain ⟨hpos, hlt, -⟩ := hcs c List.mem_cons_self
      have hcs' : ∀ c' ∈ cs, IsCharacter c' := fun c' hc' => hcs c' (List.mem_cons_of_mem c hc')
      obtain ⟨b, bs, hb, hspells⟩ := exists_encodeCharUTF8 c (by omega)
      have hbs : c < 128 → bs = [] := by
        intro hc
        rw [encodeCharUTF8, if_pos hc] at hb
        exact (List.cons.inj hb).2.symm
      have hlen : (encodeCharUTF8 c).length = bs.length + 1 := by
        rw [hb, List.length_cons]
      rw [encodeUTF8_cons]
      by_cases hcut : n < (encodeCharUTF8 c).length
      · -- the cut is in front of this character or inside it
        rw [List.take_append_of_le_length (Nat.le_of_lt hcut)]
        cases n with
        | zero =>
            refine Or.inl ⟨[], List.nil_prefix, rfl, ?_⟩
            rw [List.take_zero, detectUTF8]
            rfl
        | succ k =>
            refine Or.inr ⟨[], c, k + 1, ?_, Nat.succ_pos k, hcut, rfl, ?_⟩
            · exact List.prefix_append [c] cs
            · have hc : 128 ≤ c := by
                refine Nat.le_of_not_lt fun hc => ?_
                rw [hlen, hbs hc, List.length_nil] at hcut
                omega
              rw [hb, List.take_succ_cons,
                detectUTF8_cut hpos hspells (by rw [hlen] at hcut; omega) hc]
              rfl
      · have htake : (encodeCharUTF8 c ++ encodeUTF8 cs).take n =
            encodeCharUTF8 c ++ (encodeUTF8 cs).take (n - (encodeCharUTF8 c).length) := by
          rw [List.take_append, List.take_of_length_le (Nat.le_of_not_lt hcut)]
        have hstep (rest : List UInt8) :
            detectUTF8 (encodeCharUTF8 c ++ rest) =
              ((detectUTF8 rest).1, (detectUTF8 rest).2.1 + (if 0x80 ≤ c then 1 else 0),
                (detectUTF8 rest).2.2) := by
          rw [hb]
          exact detectUTF8_char hpos hspells hbs rest
        have hcount (front : List Nat) :
            nonASCII (c :: front) = nonASCII front + if 0x80 ≤ c then 1 else 0 := by
          rw [nonASCII, List.countP_cons]
          simp only [decide_eq_true_eq]
          rfl
        rw [htake]
        rcases ih hcs' (n - (encodeCharUTF8 c).length) with
          ⟨front, hfront, heq, hdet⟩ | ⟨front, c', k, hfront, hk, hk', heq, hdet⟩
        · refine Or.inl ⟨c :: front, (List.prefix_cons_inj c).mpr hfront, ?_, ?_⟩
          · rw [heq, encodeUTF8_cons]
          · rw [hstep, hdet, hcount]
        · refine Or.inr ⟨c :: front, c', k, (List.prefix_cons_inj c).mpr hfront, hk, hk', ?_, ?_⟩
          · rw [heq, encodeUTF8_cons, List.append_assoc]
          · rw [hstep, hdet, hcount]
            simp only [Nat.add_right_comm]

section Examples

/-- A cut inside the second character. -/
theorem detectUTF8_take_example :
    detectUTF8 ((encodeUTF8 [0x41, 0x20ac]).take 2) = (false, 1, true) := by
  have hcs : ∀ c ∈ [0x41, 0x20ac], IsCharacter c := by decide
  rcases detectUTF8_take hcs 2 with ⟨front, hfront, htake, -⟩ | ⟨front, c, k, hfront, hpos, hlt, -, h⟩
  · -- No front of the text is two bytes long.
    simp only [List.prefix_cons_iff, List.prefix_nil] at hfront
    rcases hfront with rfl | ⟨_, rfl, rfl | ⟨_, rfl, rfl⟩⟩
    all_goals exact absurd htake (by decide)
  · -- The character that is cut is the second one.
    simp only [List.prefix_cons_iff, List.prefix_nil, List.append_eq_nil_iff] at hfront
    rcases hfront with ⟨-, h'⟩ | ⟨l, h', hl⟩
    · cases h'
    · cases front with
      | nil =>
          obtain ⟨rfl, rfl⟩ := List.cons.inj h'
          have hone : (encodeCharUTF8 0x41).length = 1 := by decide
          omega
      | cons d front =>
          obtain ⟨rfl, rfl⟩ := List.cons.inj h'
          rcases hl with hl | ⟨l', hl, rfl⟩
          · simp at hl
          · have hnil : front = [] := by
              have hlen := congrArg List.length hl
              simp at hlen
              exact hlen
            rw [h, hnil]
            rfl

end Examples

end Bounds

end Markup
end IocpNetlib
