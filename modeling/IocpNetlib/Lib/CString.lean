import Mathlib.Algebra.Group.Int.Defs
import Mathlib.Algebra.Group.Nat.Defs
import Mathlib.Data.List.TakeWhile

/-!
# C string functions on a block of memory

Memory from a pointer on is the list of the bytes up to the end of the block
the pointer points into.  Each function returns `none` when it would read
behind that end; `strstr`, `memchr` and the comparisons stop at the first byte
that decides them, as the C functions do.

**Results.**
* `strstr_skip`, `strstr_found`: where a search ends.
* `strstr_local`: a successful search depends only on the bytes up to the end
  of its match.
* `atoi_digits`: a digit string followed by anything else is read as its value.
* `strnicmpEq_slices`: a comparison over equal lengths ignores ASCII case only.
-/

namespace IocpNetlib
namespace CString

/-- Compare the front of a string with `needle`, byte by byte. -/
def startsWith : List UInt8 → List UInt8 → Option Bool
  | [], _ => some true
  | _ :: _, [] => none
  | n :: ns, c :: cs => if c = n then startsWith ns cs else some false

/-- `strstr`, as the offset of the match; `some none` is `NULL`. -/
def strstr (needle : List UInt8) : List UInt8 → Option (Option Nat)
  | [] => none
  | c :: cs =>
      match startsWith needle (c :: cs) with
      | none => none
      | some true => some (some 0)
      | some false =>
          if c = 0 then some none
          else (strstr needle cs).map (Option.map (· + 1))

/-- `memchr` over `n` bytes, as the offset of the match. -/
def memchr (ch : UInt8) : List UInt8 → Nat → Option (Option Nat)
  | _, 0 => some none
  | [], _ + 1 => none
  | b :: bs, n + 1 =>
      if b = ch then some (some 0)
      else (memchr ch bs n).map (Option.map (· + 1))

/-- `isspace` of the "C" locale. -/
def isspace (b : UInt8) : Bool :=
  b = 32 || (9 ≤ b && b ≤ 13)

/-- `isdigit`. -/
def isdigit (b : UInt8) : Bool :=
  48 ≤ b && b ≤ 57

/-- Value of the digits at the front of a string, after `acc`. -/
def digitsValue (acc : Nat) : List UInt8 → Option Nat
  | [] => none
  | b :: bs =>
      if isdigit b then digitsValue (acc * 10 + (b.toNat - 48)) bs else some acc

/-- The range of `int`, to which `atoi` clamps. -/
def clampInt (n : Int) : Int :=
  max (-2 ^ 31) (min (2 ^ 31 - 1) n)

/-- `atoi`: white space, an optional sign, digits. -/
def atoi : List UInt8 → Option Int
  | [] => none
  | b :: bs =>
      if isspace b then atoi bs
      else if b = 45 then (digitsValue 0 bs).map fun n => clampInt (-n)
      else if b = 43 then (digitsValue 0 bs).map fun n => clampInt n
      else (digitsValue 0 (b :: bs)).map fun n => clampInt n

/-- `tolower` of the "C" locale. -/
def tolower (b : UInt8) : UInt8 :=
  if 65 ≤ b && b ≤ 90 then b + 32 else b

/-- `_strnicmp(a, b, n) == 0`. -/
def strnicmpEq : List UInt8 → List UInt8 → Nat → Option Bool
  | _, _, 0 => some true
  | [], _, _ + 1 => none
  | _, [], _ + 1 => none
  | x :: xs, y :: ys, n + 1 =>
      if tolower x ≠ tolower y then some false
      else if x = 0 then some true
      else strnicmpEq xs ys n

section Search

/-- A decided comparison looks at no more bytes than the needle has. -/
theorem startsWith_local
    (rest needle mem : List UInt8) {m : Nat} {r : Bool}
    (h : startsWith needle mem = some r) (hm : needle.length ≤ m) :
    startsWith needle (mem.take m ++ rest) = some r := by
  induction needle generalizing mem m with
  | nil => exact h
  | cons n ns ih =>
      cases mem with
      | nil => exact absurd h (by simp [startsWith])
      | cons c cs =>
          obtain ⟨k, rfl⟩ : ∃ k, m = k + 1 := ⟨m - 1, by simp at hm; omega⟩
          simp only [startsWith, List.take_succ_cons, List.cons_append] at h ⊢
          by_cases hc : c = n
          · rw [if_pos hc] at h ⊢
            exact ih cs h (by simpa using hm)
          · rw [if_neg hc] at h ⊢
            exact h

theorem length_le_of_startsWith {needle mem : List UInt8}
    (h : startsWith needle mem = some true) : needle.length ≤ mem.length := by
  induction needle generalizing mem with
  | nil => exact Nat.zero_le _
  | cons n ns ih =>
      cases mem with
      | nil => exact absurd h (by simp [startsWith])
      | cons c cs =>
          rw [startsWith] at h
          by_cases hc : c = n
          · rw [if_pos hc] at h
            simpa using ih h
          · rw [if_neg hc] at h
            exact absurd h (by simp)

theorem strstr_found
    {needle : List UInt8} {c : UInt8} {cs : List UInt8}
    (h : startsWith needle (c :: cs) = some true) :
    strstr needle (c :: cs) = some (some 0) := by
  rw [strstr, h]

theorem strstr_step
    {needle : List UInt8} {c : UInt8} {cs : List UInt8}
    (h : startsWith needle (c :: cs) = some false) (hc : c ≠ 0) :
    strstr needle (c :: cs) = (strstr needle cs).map (Option.map (· + 1)) := by
  rw [strstr, h]
  simp [hc]

/-- A match is at the first byte, or is one of the search behind it. -/
theorem strstr_cons_cases
    {needle : List UInt8} {c : UInt8} {cs : List UInt8} {i : Nat}
    (h : strstr needle (c :: cs) = some (some i)) :
    startsWith needle (c :: cs) = some true ∧ i = 0 ∨
      ∃ j, startsWith needle (c :: cs) = some false ∧ c ≠ 0 ∧
        strstr needle cs = some (some j) ∧ i = j + 1 := by
  rw [strstr] at h
  split at h
  · exact absurd h (by simp)
  · next hs =>
      simp only [Option.some.injEq] at h
      exact Or.inl ⟨hs, h.symm⟩
  · next hs =>
      split_ifs at h with hc
      · exact absurd h (by simp)
      · obtain ⟨o, ho, hmap⟩ := Option.map_eq_some_iff.mp h
        obtain ⟨j, rfl, rfl⟩ := Option.map_eq_some_iff.mp hmap
        exact Or.inr ⟨j, hs, hc, ho, rfl⟩

theorem map_map_add (o : Option (Option Nat)) (a b : Nat) :
    (o.map (Option.map (· + a))).map (Option.map (· + b)) =
      o.map (Option.map (· + (a + b))) := by
  cases o with
  | none => rfl
  | some o => cases o <;> simp [Nat.add_assoc]

/-- Bytes that neither end the string nor start the needle are passed over. -/
theorem strstr_skip
    (n : UInt8) (ns rest x : List UInt8) (h : ∀ c ∈ x, c ≠ n ∧ c ≠ 0) :
    strstr (n :: ns) (x ++ rest) =
      (strstr (n :: ns) rest).map (Option.map (· + x.length)) := by
  induction x with
  | nil =>
      rw [List.nil_append]
      cases strstr (n :: ns) rest with
      | none => rfl
      | some o => cases o <;> rfl
  | cons c cs ih =>
      have hc := h c List.mem_cons_self
      have hstep : startsWith (n :: ns) (c :: (cs ++ rest)) = some false := by
        simp [startsWith, hc.1]
      rw [List.cons_append, strstr_step hstep hc.2,
        ih (fun d hd => h d (List.mem_cons_of_mem _ hd)), map_map_add]
      rfl

/-- A match lies inside the block. -/
theorem strstr_le
    {needle mem : List UInt8} {i : Nat} (h : strstr needle mem = some (some i)) :
    i + needle.length ≤ mem.length := by
  induction mem generalizing i with
  | nil => exact absurd h (by simp [strstr])
  | cons c cs ih =>
      rcases strstr_cons_cases h with ⟨hs, rfl⟩ | ⟨j, -, -, hj, rfl⟩
      · have hle := length_le_of_startsWith hs
        omega
      · have hle := ih hj
        rw [List.length_cons]
        omega

/-- A match depends only on the bytes up to its end. -/
theorem strstr_local
    {needle : List UInt8} (rest : List UInt8) {mem : List UInt8} {i m : Nat}
    (h : strstr needle mem = some (some i)) (hm : i + needle.length ≤ m) (hpos : 0 < m) :
    strstr needle (mem.take m ++ rest) = some (some i) := by
  induction mem generalizing i m with
  | nil => exact absurd h (by simp [strstr])
  | cons c cs ih =>
      obtain ⟨k, rfl⟩ : ∃ k, m = k + 1 := ⟨m - 1, by omega⟩
      have hloc {r : Bool} (hs : startsWith needle (c :: cs) = some r) :
          startsWith needle (c :: (cs.take k ++ rest)) = some r := by
        have hstart := startsWith_local rest needle (c :: cs) hs (show _ ≤ k + 1 by omega)
        rwa [List.take_succ_cons, List.cons_append] at hstart
      rw [List.take_succ_cons, List.cons_append]
      rcases strstr_cons_cases h with ⟨hs, rfl⟩ | ⟨j, hs, hc, hj, rfl⟩
      · exact strstr_found (hloc hs)
      · have hne : needle ≠ [] := by
          rintro rfl
          exact absurd hs (by simp [startsWith])
        have hlen := List.length_pos_iff.mpr hne
        rw [strstr_step (hloc hs) hc, ih hj (by omega) (by omega)]
        rfl

/-- A match of a longer needle starts with a match of its front. -/
theorem startsWith_front
    (b : List UInt8) {a mem : List UInt8} {r : Bool} (h : startsWith (a ++ b) mem = some r) :
    ∃ r', startsWith a mem = some r' ∧ (r = true → r' = true) := by
  induction a generalizing mem with
  | nil => exact ⟨true, by rw [startsWith], fun _ => rfl⟩
  | cons n ns ih =>
      cases mem with
      | nil => exact absurd h (by simp [startsWith])
      | cons c cs =>
          rw [List.cons_append, startsWith] at h
          rw [startsWith]
          by_cases hc : c = n
          · rw [if_pos hc] at h ⊢
            exact ih h
          · rw [if_neg hc] at h ⊢
            exact ⟨false, rfl, fun hr => by simp_all⟩

/-- Where a longer needle is found, its front is found there or before. -/
theorem strstr_front
    {a b mem : List UInt8} {e : Nat} (h : strstr (a ++ b) mem = some (some e)) :
    ∃ i, strstr a mem = some (some i) ∧ i ≤ e := by
  induction mem generalizing e with
  | nil => exact absurd h (by simp [strstr])
  | cons c cs ih =>
      rcases strstr_cons_cases h with ⟨hs, rfl⟩ | ⟨j, hs, hc, hj, rfl⟩
      · obtain ⟨r', hr', htrue⟩ := startsWith_front b hs
        rw [htrue rfl] at hr'
        exact ⟨0, strstr_found hr', Nat.le_refl 0⟩
      · obtain ⟨i, hi, hij⟩ := ih hj
        obtain ⟨r', hr', -⟩ := startsWith_front b hs
        cases r' with
        | true => exact ⟨0, strstr_found hr', Nat.zero_le _⟩
        | false =>
            refine ⟨i + 1, ?_, by omega⟩
            rw [strstr_step hr' hc, hi]
            rfl

/-- A search that starts behind, but not after the match, finds the same match. -/
theorem strstr_drop
    {needle mem : List UInt8} {e p : Nat} (h : strstr needle mem = some (some e)) (hp : p ≤ e) :
    strstr needle (mem.drop p) = some (some (e - p)) := by
  induction mem generalizing e p with
  | nil => exact absurd h (by simp [strstr])
  | cons c cs ih =>
      cases p with
      | zero => exact h
      | succ p =>
          rcases strstr_cons_cases h with ⟨-, rfl⟩ | ⟨j, -, -, hj, rfl⟩
          · omega
          · rw [List.drop_succ_cons, Nat.add_sub_add_right]
            exact ih hj (by omega)

/-- A search stops at a NUL, so there is none in front of a match. -/
theorem strstr_ne_zero
    {needle mem : List UInt8} {e : Nat} (h : strstr needle mem = some (some e)) :
    ∀ c ∈ mem.take e, c ≠ 0 := by
  induction mem generalizing e with
  | nil => exact absurd h (by simp [strstr])
  | cons c cs ih =>
      rcases strstr_cons_cases h with ⟨-, rfl⟩ | ⟨j, -, hc, hj, rfl⟩
      · simp
      · rw [List.take_succ_cons, List.forall_mem_cons]
        exact ⟨hc, ih hj⟩

theorem startsWith_true_iff {needle mem : List UInt8} :
    startsWith needle mem = some true ↔ needle <+: mem := by
  induction needle generalizing mem with
  | nil => simp [startsWith]
  | cons n ns ih =>
      cases mem with
      | nil => simp [startsWith]
      | cons c cs =>
          rw [startsWith, List.cons_prefix_cons]
          by_cases hc : c = n
          · rw [if_pos hc, ih]
            simp [hc]
          · have hc' : ¬ n = c := fun h => hc h.symm
            rw [if_neg hc]
            simp [hc']

/-- A comparison stays inside a block that is long enough, or has a NUL. -/
theorem startsWith_isSome {needle mem : List UInt8} (hz : (0 : UInt8) ∉ needle)
    (h : (0 : UInt8) ∈ mem ∨ needle.length ≤ mem.length) :
    (startsWith needle mem).isSome = true := by
  induction needle generalizing mem with
  | nil => rw [startsWith, Option.isSome_some]
  | cons n ns ih =>
      cases mem with
      | nil => simp at h
      | cons c cs =>
          rw [startsWith]
          by_cases hc : c = n
          · rw [if_pos hc]
            refine ih (fun hn => hz (List.mem_cons_of_mem _ hn)) ?_
            rcases h with h | h
            · rcases List.mem_cons.mp h with h0 | h
              · exact absurd (h0.trans hc ▸ List.mem_cons_self) hz
              · exact Or.inl h
            · exact Or.inr (Nat.le_of_succ_le_succ h)
          · rw [if_neg hc]
            rfl

/-- A search stays inside the block as long as it has a NUL or the needle. -/
theorem strstr_isSome_iff
    {needle : List UInt8} (hne : needle ≠ []) (hz : (0 : UInt8) ∉ needle) (mem : List UInt8) :
    (strstr needle mem).isSome = true ↔ (0 : UInt8) ∈ mem ∨ needle <:+: mem := by
  induction mem with
  | nil => simp [strstr, hne]
  | cons c cs ih =>
      cases hs : startsWith needle (c :: cs) with
      | none =>
          have hnot : ¬ ((0 : UInt8) ∈ c :: cs ∨ needle.length ≤ (c :: cs).length) := by
            intro h
            have hsome := startsWith_isSome hz h
            rw [hs] at hsome
            exact absurd hsome (by simp)
          rw [strstr, hs]
          refine iff_of_false (by simp) ?_
          rintro (h | h)
          · exact hnot (Or.inl h)
          · exact hnot (Or.inr h.length_le)
      | some found =>
          cases found with
          | true =>
              rw [strstr_found hs]
              exact iff_of_true rfl (Or.inr (startsWith_true_iff.mp hs).isInfix)
          | false =>
              have hnot : ¬ needle <+: c :: cs := by
                intro h
                rw [startsWith_true_iff.mpr h] at hs
                exact absurd hs (by simp)
              by_cases hc : c = 0
              · rw [strstr, hs]
                simp [hc]
              · have hc' : ¬ 0 = c := fun h => hc h.symm
                rw [strstr_step hs hc, Option.isSome_map, ih, List.infix_cons_iff,
                  List.mem_cons]
                simp [hnot, hc']

/-- A match is where the needle stands. -/
theorem strstr_prefix
    {needle mem : List UInt8} {i : Nat} (h : strstr needle mem = some (some i)) :
    needle <+: mem.drop i := by
  induction mem generalizing i with
  | nil => exact absurd h (by simp [strstr])
  | cons c cs ih =>
      rcases strstr_cons_cases h with ⟨hs, rfl⟩ | ⟨j, -, -, hj, rfl⟩
      · exact startsWith_true_iff.mp hs
      · rw [List.drop_succ_cons]
        exact ih hj

theorem memchr_append
    (ch : UInt8) (rest x : List UInt8) (h : ch ∉ x) (n : Nat) :
    memchr ch (x ++ rest) (x.length + n) =
      (memchr ch rest n).map (Option.map (· + x.length)) := by
  induction x with
  | nil =>
      rw [List.nil_append, List.length_nil, Nat.zero_add]
      cases memchr ch rest n with
      | none => rfl
      | some o => cases o <;> rfl
  | cons b bs ih =>
      have hb : b ≠ ch := fun he => h (he ▸ List.mem_cons_self)
      have hsize : (b :: bs).length + n = (bs.length + n) + 1 := by
        simp only [List.length_cons]
        omega
      rw [hsize, List.cons_append, memchr, if_neg hb,
        ih (fun hm => h (List.mem_cons_of_mem _ hm)), map_map_add]
      rfl

theorem memchr_none
    {ch : UInt8} {x : List UInt8} (h : ch ∉ x) (rest : List UInt8) :
    memchr ch (x ++ rest) x.length = some none := by
  have := memchr_append ch rest x h 0
  simpa [memchr] using this

theorem memchr_lt
    {ch : UInt8} {mem : List UInt8} {n c : Nat} (h : memchr ch mem n = some (some c)) : c < n := by
  induction n generalizing mem c with
  | zero => simp [memchr] at h
  | succ n ih =>
      cases mem with
      | nil => exact absurd h (by simp [memchr])
      | cons b bs =>
          rw [memchr] at h
          split_ifs at h
          · simp only [Option.some.injEq] at h
            omega
          · obtain ⟨o, ho, hmap⟩ := Option.map_eq_some_iff.mp h
            obtain ⟨j, rfl, rfl⟩ := Option.map_eq_some_iff.mp hmap
            have hlt := ih ho
            omega

/-- `memchr` only looks at the bytes it is given. -/
theorem memchr_local
    (ch : UInt8) (rest mem : List UInt8) {n m : Nat} (h : n ≤ m) (h' : n ≤ mem.length) :
    memchr ch (mem.take m ++ rest) n = memchr ch mem n := by
  induction n generalizing mem m with
  | zero => simp [memchr]
  | succ n ih =>
      cases mem with
      | nil => exact absurd h' (by simp)
      | cons b bs =>
          obtain ⟨k, rfl⟩ : ∃ k, m = k + 1 := ⟨m - 1, by omega⟩
          rw [List.take_succ_cons, List.cons_append, memchr, memchr,
            ih bs (Nat.le_of_succ_le_succ h) (by simpa using h')]

end Search

section Numbers

/-- The decimal value of a digit string. -/
def decimalFrom (acc : Nat) (ds : List UInt8) : Nat :=
  ds.foldl (fun a d => a * 10 + (d.toNat - 48)) acc

theorem digitsValue_digits
    {c : UInt8} (hc : isdigit c = false) (rest ds : List UInt8) (acc : Nat)
    (h : ∀ d ∈ ds, isdigit d = true) :
    digitsValue acc (ds ++ c :: rest) = some (decimalFrom acc ds) := by
  induction ds generalizing acc with
  | nil => simp [digitsValue, decimalFrom, hc]
  | cons d ds ih =>
      rw [List.cons_append, digitsValue, if_pos (h d List.mem_cons_self),
        ih _ (fun e he => h e (List.mem_cons_of_mem _ he))]
      rfl

theorem digit_not_space
    {d : UInt8} (h : isdigit d = true) :
    isspace d = false ∧ d ≠ 45 ∧ d ≠ 43 := by
  rw [isdigit] at h
  rw [isspace]
  simp only [Bool.and_eq_true, decide_eq_true_eq, UInt8.le_iff_toNat_le] at h
  refine ⟨?_, ?_, ?_⟩
  · simp only [Bool.or_eq_false_iff, Bool.and_eq_false_iff, decide_eq_false_iff_not,
      UInt8.le_iff_toNat_le]
    refine ⟨?_, Or.inr ?_⟩
    · rintro rfl
      exact absurd h.1 (by decide)
    · have h48 : (48 : UInt8).toNat = 48 := rfl
      have h13 : (13 : UInt8).toNat = 13 := rfl
      omega
  · rintro rfl
    exact absurd h.1 (by decide)
  · rintro rfl
    exact absurd h.1 (by decide)

/-- A digit string is read as its value, clamped. -/
theorem atoi_digits
    {ds : List UInt8} (hds : ∀ d ∈ ds, isdigit d = true) (hne : ds ≠ [])
    {c : UInt8} (hc : isdigit c = false) (rest : List UInt8) :
    atoi (ds ++ c :: rest) = some (clampInt (decimalFrom 0 ds)) := by
  cases ds with
  | nil => exact absurd rfl hne
  | cons d ds =>
      obtain ⟨h₁, h₂, h₃⟩ := digit_not_space (hds d List.mem_cons_self)
      have hval := digitsValue_digits hc rest (d :: ds) 0 hds
      rw [List.cons_append] at hval ⊢
      rw [atoi, if_neg (by simp [h₁]), if_neg h₂, if_neg h₃, hval]
      rfl

theorem clampInt_of_lt {n : Nat} (h : n < 2 ^ 31) :
    clampInt n = n := by
  rw [clampInt]
  omega

theorem clampInt_le (n : Int) : clampInt n ≤ 2 ^ 31 - 1 := by
  rw [clampInt]
  omega

theorem le_clampInt (n : Int) : -2 ^ 31 ≤ clampInt n := by
  rw [clampInt]
  omega

theorem atoi_range {n : Int} {mem : List UInt8} (h : atoi mem = some n) :
    -2 ^ 31 ≤ n ∧ n ≤ 2 ^ 31 - 1 := by
  have hclamp (m : Int) : -2 ^ 31 ≤ clampInt m ∧ clampInt m ≤ 2 ^ 31 - 1 :=
    ⟨le_clampInt m, clampInt_le m⟩
  induction mem with
  | nil => exact absurd h (by simp [atoi])
  | cons b bs ih =>
      rw [atoi] at h
      split_ifs at h
      · exact ih h
      · obtain ⟨m, _, rfl⟩ := Option.map_eq_some_iff.mp h
        exact hclamp _
      · obtain ⟨m, _, rfl⟩ := Option.map_eq_some_iff.mp h
        exact hclamp _
      · obtain ⟨m, _, rfl⟩ := Option.map_eq_some_iff.mp h
        exact hclamp _

/-- A text behind its sign. -/
def behindSign : List UInt8 → List UInt8
  | [] => []
  | b :: bs => if b = 45 ∨ b = 43 then bs else b :: bs

/-- What is left of a text behind white space, a sign and digits. -/
def behindNumber (v : List UInt8) : List UInt8 :=
  (behindSign (v.dropWhile isspace)).dropWhile isdigit

theorem digitsValue_isSome_iff (v : List UInt8) (acc : Nat) :
    (digitsValue acc v).isSome = true ↔ v.dropWhile isdigit ≠ [] := by
  induction v generalizing acc with
  | nil => simp [digitsValue]
  | cons b bs ih =>
      rw [digitsValue]
      cases hb : isdigit b with
      | true =>
          rw [if_pos rfl, List.dropWhile_cons_of_pos hb]
          exact ih _
      | false => simp [hb]

/-- `atoi` stays inside the block as long as something follows the number. -/
theorem atoi_isSome_iff (v : List UInt8) : (atoi v).isSome = true ↔ behindNumber v ≠ [] := by
  induction v with
  | nil => simp [atoi, behindNumber, behindSign]
  | cons b bs ih =>
      rw [behindNumber] at ih ⊢
      rw [atoi]
      cases hb : isspace b with
      | true =>
          rw [if_pos rfl, List.dropWhile_cons_of_pos hb]
          exact ih
      | false =>
          rw [if_neg (by simp), List.dropWhile_cons_of_neg (by simp [hb]), behindSign]
          by_cases hminus : b = 45
          · rw [if_pos hminus, if_pos (Or.inl hminus), ← digitsValue_isSome_iff bs 0]
            cases digitsValue 0 bs <;> simp
          · by_cases hplus : b = 43
            · rw [if_neg hminus, if_pos hplus, if_pos (Or.inr hplus),
                ← digitsValue_isSome_iff bs 0]
              cases digitsValue 0 bs <;> simp
            · rw [if_neg hminus, if_neg hplus, if_neg (not_or.mpr ⟨hminus, hplus⟩),
                ← digitsValue_isSome_iff (b :: bs) 0]
              cases digitsValue 0 (b :: bs) <;> simp

theorem mem_dropWhile_of_not
    {P : UInt8 → Bool} {x : UInt8} {v : List UInt8} (hx : P x = false) (h : x ∈ v) :
    x ∈ v.dropWhile P := by
  rw [← List.takeWhile_append_dropWhile (p := P) (l := v)] at h
  rcases List.mem_append.mp h with h | h
  · exact absurd (List.mem_takeWhile_imp h) (by simp [hx])
  · exact h

/-- A NUL ends every number. -/
theorem behindNumber_of_zero
    {v : List UInt8} (h : (0 : UInt8) ∈ v) : behindNumber v ≠ [] := by
  have hspace : (0 : UInt8) ∈ v.dropWhile isspace := mem_dropWhile_of_not (by decide) h
  have hsign : (0 : UInt8) ∈ behindSign (v.dropWhile isspace) := by
    generalize v.dropWhile isspace = u at hspace ⊢
    cases u with
    | nil => exact hspace
    | cons b bs =>
        rw [behindSign]
        split_ifs with hb
        · rcases List.mem_cons.mp hspace with rfl | hbs
          · exact absurd hb (by decide)
          · exact hbs
        · exact hspace
  exact List.ne_nil_of_mem (mem_dropWhile_of_not (by decide) hsign)

end Numbers

section Comparison

/-- Equality up to ASCII case. -/
def eqIgnoreCase (a b : List UInt8) : Prop :=
  a.map tolower = b.map tolower

instance (a b : List UInt8) : Decidable (eqIgnoreCase a b) :=
  inferInstanceAs (Decidable (a.map tolower = b.map tolower))

theorem tolower_ne_zero {b : UInt8} (h : b ≠ 0) : tolower b ≠ 0 := by
  rw [tolower]
  split_ifs with hb
  · simp only [Bool.and_eq_true, decide_eq_true_eq, UInt8.le_iff_toNat_le] at hb
    intro h0
    have hnat := congrArg UInt8.toNat h0
    have h32 : (32 : UInt8).toNat = 32 := rfl
    have h65 : (65 : UInt8).toNat = 65 := rfl
    have h90 : (90 : UInt8).toNat = 90 := rfl
    rw [UInt8.toNat_add, h32] at hnat
    simp only [UInt8.toNat_zero] at hnat
    omega
  · exact h

/-- Two slices of one length without a NUL are compared up to ASCII case. -/
theorem strnicmpEq_slices
    (as bs a b : List UInt8) (h : a.length = b.length) (hb : ∀ c ∈ b, c ≠ 0) :
    strnicmpEq (a ++ as) (b ++ bs) a.length = some (decide (eqIgnoreCase a b)) := by
  induction a generalizing b with
  | nil =>
      cases b with
      | nil => simp [strnicmpEq, eqIgnoreCase]
      | cons y ys => simp at h
  | cons x xs ih =>
      cases b with
      | nil => simp at h
      | cons y ys =>
          have hrest := ih ys (by simpa using h) (fun c hc => hb c (List.mem_cons_of_mem _ hc))
          simp only [List.cons_append, List.length_cons, strnicmpEq]
          by_cases hxy : tolower x = tolower y
          · have hx : x ≠ 0 := by
              rintro rfl
              exact tolower_ne_zero (hb y List.mem_cons_self) hxy.symm
            rw [if_neg (not_not.mpr hxy), if_neg hx, hrest, Option.some_inj, decide_eq_decide]
            simp [eqIgnoreCase, hxy]
          · rw [if_pos hxy]
            simp [eqIgnoreCase, hxy]

/--
A slice is compared with a string up to the end of the slice or the NUL of the
string, whichever comes first.
-/
theorem strnicmpEq_string
    (rest x m : List UInt8) (hm : ∀ c ∈ m, c ≠ 0) :
    strnicmpEq (x ++ rest) (m ++ [0]) x.length =
      some (decide (eqIgnoreCase (x.take (m.length + 1)) ((m ++ [0]).take x.length))) := by
  induction x generalizing m with
  | nil => simp [strnicmpEq, eqIgnoreCase]
  | cons x xs ih =>
      cases m with
      | nil =>
          have hzero : tolower 0 = 0 := by decide
          simp only [List.cons_append, List.nil_append, List.length_cons, strnicmpEq, hzero]
          by_cases hx : x = 0
          · simp [hx, eqIgnoreCase, hzero]
          · simp [tolower_ne_zero hx, eqIgnoreCase, hzero]
      | cons y ys =>
          have hrest := ih ys (fun c hc => hm c (List.mem_cons_of_mem _ hc))
          simp only [List.cons_append, List.length_cons, strnicmpEq]
          by_cases hxy : tolower x = tolower y
          · have hx : x ≠ 0 := by
              rintro rfl
              exact tolower_ne_zero (hm y List.mem_cons_self) hxy.symm
            rw [if_neg (not_not.mpr hxy), if_neg hx, hrest, Option.some_inj, decide_eq_decide]
            simp [eqIgnoreCase, hxy]
          · rw [if_pos hxy]
            simp [eqIgnoreCase, hxy]

/-- Comparing as many bytes as a key has asks whether the key is a front of the name. -/
theorem strnicmpEq_front
    (rest : List UInt8) (key name : List UInt8)
    (hkey : ∀ c ∈ key, c ≠ 0) (hname : ∀ c ∈ name, c ≠ 0) :
    strnicmpEq (key ++ rest) (name ++ [0]) key.length =
      some (decide (key.length ≤ name.length ∧ eqIgnoreCase key (name.take key.length))) := by
  rw [strnicmpEq_string rest key name hname, Option.some_inj, decide_eq_decide]
  rcases Nat.lt_or_ge name.length key.length with hlong | hle
  · have hall : (name ++ [0]).take key.length = name ++ [0] :=
      List.take_of_length_le (by simp; omega)
    rw [hall]
    refine iff_of_false ?_ fun h => absurd h.1 (Nat.not_le_of_lt hlong)
    intro heq
    -- the NUL of the name would be the image of a byte of the key
    have hzero : tolower 0 ∈ (key.take (name.length + 1)).map tolower := by
      rw [heq]
      exact List.mem_map_of_mem (List.mem_append_right _ List.mem_cons_self)
    obtain ⟨c, hc, hlower⟩ := List.mem_map.mp hzero
    exact tolower_ne_zero (hkey c (List.mem_of_mem_take hc)) hlower
  · rw [List.take_of_length_le (by omega), List.take_append_of_le_length hle]
    simp [hle]

/--
A comparison is decided inside a string that ends in a byte the other string
does not have.
-/
theorem strnicmpEq_decided
    {c : UInt8} (rest a b : List UInt8) (n : Nat) (h : n ≤ b.length)
    (hc : ∀ y ∈ b, tolower c ≠ tolower y) :
    (strnicmpEq (a ++ c :: rest) b n).isSome = true := by
  induction n generalizing a b with
  | zero => simp [strnicmpEq]
  | succ n ih =>
      cases b with
      | nil => exact absurd h (by simp)
      | cons y ys =>
          cases a with
          | nil => simp [strnicmpEq, hc y List.mem_cons_self]
          | cons x xs =>
              have hrest := ih xs ys (by simpa using h)
                (fun z hz => hc z (List.mem_cons_of_mem _ hz))
              simp only [List.cons_append, strnicmpEq]
              split_ifs
              · rfl
              · rfl
              · exact hrest

end Comparison

end CString
end IocpNetlib
