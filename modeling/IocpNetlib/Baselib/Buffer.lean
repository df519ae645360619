import IocpNetlib.Lib.ByteBlock

/-!
# `Buffer`

A buffer that doubles its capacity until there is room.  Sizes are words of `w`
bits: the sum of the size and a length can wrap around, and so can the doubled
capacity, from which the loop may never come back.

`Fits` says of a call that its sum does not wrap around and that the loop ends;
`Behaves` says of a sequence of calls that each of them ends, writes inside the
buffer, and does what it returns.  They say the same.
-/

namespace IocpNetlib
namespace Baselib

open ByteBlock

/-- The fields of a buffer; `data` is `NULL` or the bytes that were allocated. -/
structure Buffer where
  data : Option (List UInt8)
  size : Nat
  capacity : Nat
deriving DecidableEq, Repr

/-- What `new(std::nothrow)` returns: nothing, or memory with some bytes in it. -/
abbrev NewAnswer := Option (Nat → UInt8)

/-- The `n` bytes of new memory. -/
def newBytes (n : Nat) (junk : Nat → UInt8) : List UInt8 :=
  (List.range n).map junk

/-- What goes wrong in a call: a loop that does not end, or a copy outside of the buffer. -/
inductive BufferFault
  | loops
  | outside
deriving DecidableEq, Repr

/-- The constructor. -/
def Buffer.make (init_capacity : Nat) (new : NewAnswer) : Buffer :=
  match new with
  | some junk =>
      { data := some (newBytes init_capacity junk), size := 0, capacity := init_capacity }
  | none => { data := none, size := 0, capacity := 0 }

/-- `while (new_capacity < required) new_capacity *= 2`, for at most `fuel` tests. -/
def growLoop (w required : Nat) : Nat → Nat → Option Nat
  | 0, _ => none
  | fuel + 1, new_capacity =>
      if new_capacity < required then growLoop w required fuel (new_capacity * 2 % 2 ^ w)
      else some new_capacity

/-- The capacity that the loop starts with. -/
def Buffer.startCapacity (b : Buffer) : Nat :=
  if 0 < b.capacity then b.capacity else 1024

/-- `ensureCapacity`; after `w + 1` looks the loop does not end, by `growLoop_none_iff`. -/
def Buffer.ensureCapacity (w : Nat) (b : Buffer) (required : Nat) (new : NewAnswer) :
    Except BufferFault (Buffer × Bool) :=
  if required ≤ b.capacity then .ok (b, true)
  else
    match growLoop w required (w + 1) b.startCapacity with
    | none => .error .loops
    | some new_capacity =>
        match new with
        | none => .ok (b, false)
        | some junk =>
            .ok
              ({ data := some (memcpy (newBytes new_capacity junk) 0 ((b.data.getD []).take b.size))
                 size := b.size
                 capacity := new_capacity }, true)

/-- `write`. -/
def Buffer.write (w : Nat) (b : Buffer) (src : List UInt8) (new : NewAnswer) :
    Except BufferFault (Buffer × Bool) :=
  match b.ensureCapacity w ((b.size + src.length) % 2 ^ w) new with
  | .error e => .error e
  | .ok (b, false) => .ok (b, false)
  | .ok (b, true) =>
      if b.capacity < b.size + src.length then .error .outside
      else
        .ok
          ({ b with
             data := b.data.map fun data => memcpy data b.size src
             size := (b.size + src.length) % 2 ^ w }, true)

/-- `getBuffer`: the offset of the bytes it returns. -/
def Buffer.getBuffer (w : Nat) (b : Buffer) (need : Nat) (new : NewAnswer) :
    Except BufferFault (Buffer × Option Nat) :=
  match b.ensureCapacity w ((b.size + need) % 2 ^ w) new with
  | .error e => .error e
  | .ok (b, false) => .ok (b, none)
  | .ok (b, true) => .ok ({ b with size := (b.size + need) % 2 ^ w }, some b.size)

/-- `clear`. -/
def Buffer.clear (b : Buffer) : Buffer :=
  { b with size := 0 }

/-- A call, with what `new` returns in it, if it is reached. -/
inductive BufferCall
  | write (src : List UInt8) (new : NewAnswer)
  | getBuffer (need : Nat) (new : NewAnswer)
  | clear

/-- What a call returns. -/
inductive BufferAnswer
  | written (done : Bool)
  | got (pre : Option Nat)
  | cleared
deriving DecidableEq, Repr

/-- A call of a buffer. -/
def Buffer.call (w : Nat) (b : Buffer) : BufferCall → Except BufferFault (Buffer × BufferAnswer)
  | .write src new => (b.write w src new).map fun r => (r.1, .written r.2)
  | .getBuffer need new => (b.getBuffer w need new).map fun r => (r.1, .got r.2)
  | .clear => .ok (b.clear, .cleared)

/-- The bytes a buffer holds. -/
def Buffer.contents (b : Buffer) : List UInt8 :=
  (b.data.getD []).take b.size

/-- The capacity is that of the memory, and the size is not larger. -/
structure Buffer.Valid (w : Nat) (b : Buffer) : Prop where
  memory : (b.data.getD []).length = b.capacity
  size_le : b.size ≤ b.capacity
  capacity_lt : b.capacity < 2 ^ w

/--
What a call should do: append the bytes, or make room for more of them, or
change nothing where there is no memory.
-/
def Buffer.Effect (b : Buffer) : BufferCall → Buffer → BufferAnswer → Prop
  | .write src _, b', .written true => b'.contents = b.contents ++ src
  | .write _ new, b', .written false => b' = b ∧ new.isNone = true
  | .getBuffer need _, b', .got (some pre) =>
      pre = b.size ∧ b'.size = b.size + need ∧ b'.contents.take b.size = b.contents
  | .getBuffer _ new, b', .got none => b' = b ∧ new.isNone = true
  | .clear, b', .cleared => b' = { b with size := 0 }
  | _, _, _ => False

/--
Each call of the sequence ends, copies nothing outside of the buffer and has its
effect, and between the calls the buffer is valid.
-/
def Buffer.Behaves (w : Nat) : Buffer → List BufferCall → Prop
  | b, [] => b.Valid w
  | b, c :: cs =>
      b.Valid w ∧
        ∃ b' answer, b.call w c = .ok (b', answer) ∧ b.Effect c b' answer ∧ b'.Behaves w cs

/-- There is room for `required` bytes, or a doubling of the capacity that is enough. -/
def Buffer.Grows (w : Nat) (b : Buffer) (required : Nat) : Prop :=
  required ≤ b.capacity ∨ ∃ k, required ≤ b.startCapacity * 2 ^ k % 2 ^ w

/-- The size and the length do not add up to `2 ^ w`, and the loop ends. -/
def Buffer.Fits (w : Nat) (b : Buffer) : BufferCall → Prop
  | .write src _ => b.size + src.length < 2 ^ w ∧ b.Grows w (b.size + src.length)
  | .getBuffer need _ => b.size + need < 2 ^ w ∧ b.Grows w (b.size + need)
  | .clear => True

/-- Every call of the sequence fits, at the buffer that the calls in front of it left. -/
def Buffer.AllFit (w : Nat) : Buffer → List BufferCall → Prop
  | _, [] => True
  | b, c :: cs =>
      b.Fits w c ∧ ∀ b' answer, b.call w c = .ok (b', answer) → b'.AllFit w cs

section Loop

variable {w required : Nat}

/-- The loop does not end if and only if no doubling is enough; looking further does not help. -/
theorem growLoop_none_iff
    {fuel c : Nat} (hc : c < 2 ^ w) :
    growLoop w required fuel c = none ↔ ∀ k < fuel, c * 2 ^ k % 2 ^ w < required := by
  induction fuel generalizing c with
  | zero => simp [growLoop]
  | succ fuel ih =>
      have hshift : ∀ k, c * 2 % 2 ^ w * 2 ^ k % 2 ^ w = c * 2 ^ (k + 1) % 2 ^ w := by
        intro k
        rw [Nat.mod_mul_mod, Nat.mul_assoc, ← Nat.pow_succ']
      rw [growLoop]
      split_ifs with hlt
      · rw [ih (Nat.mod_lt _ (Nat.two_pow_pos w))]
        constructor
        · intro h k hk
          cases k with
          | zero => rwa [Nat.pow_zero, Nat.mul_one, Nat.mod_eq_of_lt hc]
          | succ k =>
              rw [← hshift]
              exact h k (Nat.lt_of_succ_lt_succ hk)
        · intro h k hk
          rw [hshift]
          exact h (k + 1) (Nat.succ_lt_succ hk)
      · refine ⟨fun h => absurd h (by simp), fun h => ?_⟩
        have hzero := h 0 (Nat.succ_pos fuel)
        rw [Nat.pow_zero, Nat.mul_one, Nat.mod_eq_of_lt hc] at hzero
        exact absurd hzero hlt

/-- After `w` doublings the capacity is 0, so that `w + 1` looks are as good as any number. -/
theorem growLoop_none_iff_forall
    {c : Nat} (hc : c < 2 ^ w) (hpos : 0 < required) :
    growLoop w required (w + 1) c = none ↔ ∀ k, c * 2 ^ k % 2 ^ w < required := by
  rw [growLoop_none_iff hc]
  constructor
  · intro h k
    by_cases hk : k < w + 1
    · exact h k hk
    · have hdvd : 2 ^ w ∣ c * 2 ^ k :=
        Nat.dvd_mul_left_of_dvd (Nat.pow_dvd_pow 2 (by omega)) c
      rwa [Nat.mod_eq_zero_of_dvd hdvd]
  · exact fun h k _ => h k

/-- The loop ends with a capacity that is enough. -/
theorem growLoop_some
    {fuel c n : Nat} (hc : c < 2 ^ w) (h : growLoop w required fuel c = some n) :
    required ≤ n ∧ n < 2 ^ w := by
  induction fuel generalizing c with
  | zero => simp [growLoop] at h
  | succ fuel ih =>
      rw [growLoop] at h
      split_ifs at h with hlt
      · exact ih (Nat.mod_lt _ (Nat.two_pow_pos w)) h
      · rw [Option.some.injEq] at h
        subst h
        exact ⟨Nat.le_of_not_lt hlt, hc⟩

end Loop

section Calls

variable {w : Nat} {b : Buffer}

@[simp] theorem length_newBytes (n : Nat) (junk : Nat → UInt8) : (newBytes n junk).length = n := by
  simp [newBytes]

theorem Buffer.valid_make
    {init_capacity : Nat} (hlt : init_capacity < 2 ^ w) (new : NewAnswer) :
    (Buffer.make init_capacity new).Valid w := by
  cases new with
  | none => exact ⟨rfl, Nat.le_refl 0, Nat.two_pow_pos w⟩
  | some junk => exact ⟨length_newBytes _ _, Nat.zero_le _, hlt⟩

theorem Buffer.Valid.length_contents (h : b.Valid w) : b.contents.length = b.size := by
  have hsize := h.size_le
  rw [Buffer.contents, List.length_take, h.memory]
  omega

theorem Buffer.Valid.startCapacity_lt (h : b.Valid w) (hw : 1024 < 2 ^ w) :
    b.startCapacity < 2 ^ w := by
  have hcap := h.capacity_lt
  rw [Buffer.startCapacity]
  split_ifs <;> omega

/-- What `ensureCapacity` does: it makes room, or changes nothing, or does not end. -/
theorem Buffer.Valid.ensureCapacity
    (h : b.Valid w) (hw : 1024 < 2 ^ w) (required : Nat) (new : NewAnswer) :
    (b.Grows w required ∧
        ∃ b',
          b.ensureCapacity w required new = .ok (b', true) ∧ b'.Valid w ∧ b'.size = b.size ∧
            required ≤ b'.capacity ∧ b'.contents = b.contents) ∨
      (b.Grows w required ∧ b.ensureCapacity w required new = .ok (b, false) ∧
        new.isNone = true) ∨
      (¬ b.Grows w required ∧ b.ensureCapacity w required new = .error .loops) := by
  have hstart := h.startCapacity_lt hw
  rw [Buffer.ensureCapacity]
  split_ifs with hroom
  · exact .inl ⟨.inl hroom, b, rfl, h, rfl, hroom, rfl⟩
  · cases hloop : growLoop w required (w + 1) b.startCapacity with
    | none =>
        have hall := (growLoop_none_iff_forall hstart (by omega)).mp hloop
        refine .inr (.inr ⟨?_, rfl⟩)
        rintro (hle | ⟨k, hk⟩)
        · exact hroom hle
        · exact absurd (hall k) (Nat.not_lt_of_le hk)
    | some n =>
        have hgrows : b.Grows w required := by
          right
          by_contra hno
          have hnone :=
            (growLoop_none_iff_forall hstart (by omega)).mpr fun k =>
              Nat.lt_of_not_le fun hk => hno ⟨k, hk⟩
          rw [hloop] at hnone
          exact absurd hnone (by simp)
        cases new with
        | none => exact .inr (.inl ⟨hgrows, rfl, rfl⟩)
        | some junk =>
            obtain ⟨hge, hlt⟩ := growLoop_some hstart hloop
            have hlen := h.length_contents
            have hsize := h.size_le
            refine .inl ⟨hgrows, _, rfl, ⟨?_, ?_, hlt⟩, rfl, hge, ?_⟩
            · refine (length_memcpy ?_).trans (length_newBytes n junk)
              rw [length_newBytes]
              simp only [Buffer.contents] at hlen
              omega
            · show b.size ≤ n
              omega
            · simp only [Buffer.contents, Option.getD_some]
              have htake := take_memcpy (newBytes n junk) b.contents (Nat.zero_le _)
              rw [hlen, Nat.zero_add, List.take_zero, List.nil_append] at htake
              exact htake

/-- Bytes for which there is room are appended. -/
theorem Buffer.Valid.append
    (h : b.Valid w) {src : List UInt8} (hroom : b.size + src.length ≤ b.capacity) :
    Valid w
        { b with
          data := b.data.map fun data => memcpy data b.size src
          size := b.size + src.length } ∧
      contents
          { b with
            data := b.data.map fun data => memcpy data b.size src
            size := b.size + src.length } = b.contents ++ src := by
  have hmemory := h.memory
  cases hdata : b.data with
  | none =>
      rw [hdata] at hmemory
      have hcap : b.capacity = 0 := hmemory.symm
      have hnil : src = [] := List.length_eq_zero_iff.mp (by omega)
      subst hnil
      refine ⟨⟨hmemory, hroom, h.capacity_lt⟩, ?_⟩
      simp [Buffer.contents, hdata]
  | some data =>
      rw [hdata] at hmemory
      simp only [Option.getD_some] at hmemory
      refine ⟨⟨(length_memcpy (by omega)).trans hmemory, hroom, h.capacity_lt⟩, ?_⟩
      simp only [Buffer.contents, hdata, Option.map_some, Option.getD_some]
      exact take_memcpy data src (by have := h.size_le; omega)

/-- More bytes of the memory belong to the contents. -/
theorem Buffer.Valid.extend
    (h : b.Valid w) {need : Nat} (hroom : b.size + need ≤ b.capacity) :
    Valid w { b with size := b.size + need } ∧
      (contents { b with size := b.size + need }).take b.size = b.contents := by
  refine ⟨⟨h.memory, hroom, h.capacity_lt⟩, ?_⟩
  simp only [Buffer.contents, List.take_take]
  rw [Nat.min_eq_left (Nat.le_add_right _ _)]

/-- A call that fits ends, stays inside and has its effect. -/
theorem Buffer.Valid.call_of_fits
    (h : b.Valid w) (hw : 1024 < 2 ^ w) {c : BufferCall} (hfits : b.Fits w c) :
    ∃ b' answer, b.call w c = .ok (b', answer) ∧ b.Effect c b' answer ∧ b'.Valid w := by
  cases c with
  | write src new =>
      obtain ⟨hsum, hgrows⟩ := hfits
      rcases h.ensureCapacity hw (b.size + src.length) new with
        ⟨-, b', hroom, hvalid, hsize, hcap, hcontents⟩ | ⟨-, hfail, hnew⟩ | ⟨hno, -⟩
      · have happend := hvalid.append (show b'.size + src.length ≤ b'.capacity by omega)
        rw [hsize, hcontents] at happend
        refine ⟨_, .written true, ?_, happend.2, happend.1⟩
        rw [Buffer.call, Buffer.write, Nat.mod_eq_of_lt hsum, hroom]
        simp only [hsize, Nat.mod_eq_of_lt hsum]
        rw [if_neg (by omega)]
        rfl
      · refine ⟨b, .written false, ?_, ⟨rfl, hnew⟩, h⟩
        rw [Buffer.call, Buffer.write, Nat.mod_eq_of_lt hsum, hfail]
        rfl
      · exact absurd hgrows hno
  | getBuffer need new =>
      obtain ⟨hsum, hgrows⟩ := hfits
      rcases h.ensureCapacity hw (b.size + need) new with
        ⟨-, b', hroom, hvalid, hsize, hcap, hcontents⟩ | ⟨-, hfail, hnew⟩ | ⟨hno, -⟩
      · have hextend := hvalid.extend (show b'.size + need ≤ b'.capacity by omega)
        rw [hsize, hcontents] at hextend
        refine ⟨_, .got (some b.size), ?_, ⟨rfl, rfl, hextend.2⟩, hextend.1⟩
        rw [Buffer.call, Buffer.getBuffer, Nat.mod_eq_of_lt hsum, hroom]
        simp only [hsize, Nat.mod_eq_of_lt hsum]
        rfl
      · refine ⟨b, .got none, ?_, ⟨rfl, hnew⟩, h⟩
        rw [Buffer.call, Buffer.getBuffer, Nat.mod_eq_of_lt hsum, hfail]
        rfl
      · exact absurd hgrows hno
  | clear => exact ⟨b.clear, .cleared, rfl, rfl, h.memory, Nat.zero_le _, h.capacity_lt⟩

/-- The lengths that a call passes are words. -/
def BufferCall.IsWord (w : Nat) : BufferCall → Prop
  | .write src _ => src.length < 2 ^ w
  | .getBuffer need _ => need < 2 ^ w
  | .clear => True

/-- A sum that wraps around is below the capacity, so that nothing is allocated. -/
theorem Buffer.Valid.ensureCapacity_wrap
    (h : b.Valid w) {len : Nat} (hlen : len < 2 ^ w) (hwrap : 2 ^ w ≤ b.size + len)
    (new : NewAnswer) :
    b.ensureCapacity w ((b.size + len) % 2 ^ w) new = .ok (b, true) := by
  have hsize := h.size_le
  have hcap := h.capacity_lt
  rw [Buffer.ensureCapacity, Nat.mod_eq_sub_mod hwrap, Nat.mod_eq_of_lt (by omega),
    if_pos (by omega)]

/-- A call that ends, stays inside and has its effect fits. -/
theorem Buffer.Valid.fits_of_call
    (h : b.Valid w) (hw : 1024 < 2 ^ w) {c : BufferCall} (hword : c.IsWord w) {b' : Buffer}
    {answer : BufferAnswer} (hcall : b.call w c = .ok (b', answer))
    (heffect : b.Effect c b' answer) :
    b.Fits w c := by
  have hsize := h.size_le
  have hcap := h.capacity_lt
  cases c with
  | write src new =>
      rw [Buffer.call, Buffer.write] at hcall
      have hsum : b.size + src.length < 2 ^ w := by
        by_contra hwrap
        rw [h.ensureCapacity_wrap hword (Nat.le_of_not_lt hwrap)] at hcall
        simp only at hcall
        rw [if_pos (by omega)] at hcall
        exact absurd hcall (by simp [Except.map])
      rw [Nat.mod_eq_of_lt hsum] at hcall
      refine ⟨hsum, ?_⟩
      rcases h.ensureCapacity hw (b.size + src.length) new with
        ⟨hgrows, -⟩ | ⟨hgrows, -⟩ | ⟨-, hloops⟩
      · exact hgrows
      · exact hgrows
      · rw [hloops] at hcall
        exact absurd hcall (by simp [Except.map])
  | getBuffer need new =>
      rw [Buffer.call, Buffer.getBuffer] at hcall
      have hsum : b.size + need < 2 ^ w := by
        by_contra hwrap
        rw [h.ensureCapacity_wrap hword (Nat.le_of_not_lt hwrap)] at hcall
        simp only [Except.map, Except.ok.injEq, Prod.mk.injEq] at hcall
        obtain ⟨rfl, rfl⟩ := hcall
        have hgrown : (b.size + need) % 2 ^ w = b.size + need := heffect.2.1
        have hmod := Nat.mod_lt (b.size + need) (Nat.two_pow_pos w)
        omega
      rw [Nat.mod_eq_of_lt hsum] at hcall
      refine ⟨hsum, ?_⟩
      rcases h.ensureCapacity hw (b.size + need) new with
        ⟨hgrows, -⟩ | ⟨hgrows, -⟩ | ⟨-, hloops⟩
      · exact hgrows
      · exact hgrows
      · rw [hloops] at hcall
        exact absurd hcall (by simp [Except.map])
  | clear => trivial

end Calls

section Sequences

variable {w : Nat} {b : Buffer} {cs : List BufferCall}

theorem Buffer.Valid.behaves
    (h : b.Valid w) (hw : 1024 < 2 ^ w) (hfits : b.AllFit w cs) :
    b.Behaves w cs := by
  induction cs generalizing b with
  | nil => exact h
  | cons c cs ih =>
      obtain ⟨hfirst, hrest⟩ := hfits
      obtain ⟨b', answer, hcall, heffect, hvalid⟩ := h.call_of_fits hw hfirst
      exact ⟨h, b', answer, hcall, heffect, ih hvalid (hrest b' answer hcall)⟩

theorem Buffer.Behaves.allFit
    (hw : 1024 < 2 ^ w) (hwords : ∀ c ∈ cs, c.IsWord w) (h : b.Behaves w cs) :
    b.AllFit w cs := by
  induction cs generalizing b with
  | nil => trivial
  | cons c cs ih =>
      obtain ⟨hvalid, b', answer, hcall, heffect, hrest⟩ := h
      refine ⟨hvalid.fits_of_call hw (hwords c List.mem_cons_self) hcall heffect, ?_⟩
      intro b'' answer' hcall'
      rw [hcall] at hcall'
      simp only [Except.ok.injEq, Prod.mk.injEq] at hcall'
      obtain ⟨rfl, rfl⟩ := hcall'
      exact ih (fun d hd => hwords d (List.mem_cons_of_mem c hd)) hrest

/--
A buffer does what it should in all calls of a sequence if and only if in each
of them the size and the length do not add up to `2 ^ w` or more, and some
doubling of the capacity is enough where there is no room.
-/
theorem buffer_behaves_iff
    {init_capacity : Nat} {new : NewAnswer} (hw : w = 32 ∨ w = 64)
    (hinit : init_capacity < 2 ^ w) (hwords : ∀ c ∈ cs, c.IsWord w) :
    (Buffer.make init_capacity new).Behaves w cs ↔
      (Buffer.make init_capacity new).AllFit w cs := by
  have hstart : 1024 < 2 ^ w := by rcases hw with rfl | rfl <;> decide
  exact
    ⟨fun h => h.allFit hstart hwords, fun h => (Buffer.valid_make hinit new).behaves hstart h⟩

end Sequences

/-- Three bytes are written to a buffer of two, which is then cleared. -/
theorem buffer_behaves_iff_example :
    (Buffer.make 2 (some fun _ => 0)).Behaves 64 [.write [1, 2, 3] (some fun _ => 0), .clear] := by
  have hwords :
      ∀ c ∈ [BufferCall.write [1, 2, 3] (some fun _ => 0), .clear], c.IsWord 64 := by
    simp [BufferCall.IsWord]
  refine (buffer_behaves_iff (.inr rfl) (by decide) hwords).mpr ⟨⟨by decide, .inr ⟨1, ?_⟩⟩, ?_⟩
  · decide
  · exact fun _ _ _ => ⟨trivial, fun _ _ _ => trivial⟩

/--
After one byte, `2 ^ 64 - 1` more are copied to a buffer of 16; and where half of
the memory is not enough, the capacity is doubled for ever.
-/
theorem buffer_wraps :
    ¬ (Buffer.make 16 (some fun _ => 0)).Behaves 64
        [.write [1] none, .write (List.replicate (2 ^ 64 - 1) 0) none] ∧
    (Buffer.make 1024 (some fun _ => 0)).call 64 (.write (List.replicate (2 ^ 63 + 1) 0) none) =
      .error .loops := by
  constructor
  · intro h
    have hwords :
        ∀ c ∈ [BufferCall.write [1] none, .write (List.replicate (2 ^ 64 - 1) 0) none],
          c.IsWord 64 := by
      simp only [List.mem_cons, List.not_mem_nil, or_false, forall_eq_or_imp, forall_eq,
        BufferCall.IsWord, List.length_replicate]
      decide
    have hcall :
        (Buffer.make 16 (some fun _ => 0)).call 64 (.write [1] none) =
          .ok (⟨some (1 :: List.replicate 15 0), 1, 16⟩, .written true) := by
      decide
    have hsum := ((h.allFit (by decide) hwords).2 _ _ hcall).1.1
    rw [List.length_replicate] at hsum
    exact absurd hsum (by decide)
  · have hsize : (Buffer.make 1024 (some fun _ => 0)).size = 0 := rfl
    have hloops :
        (Buffer.make 1024 (some fun _ => 0)).ensureCapacity 64 ((0 + (2 ^ 63 + 1)) % 2 ^ 64) none =
          .error .loops := by
      decide
    rw [Buffer.call, Buffer.write, List.length_replicate, hsize, hloops]
    rfl

end Baselib
end IocpNetlib
