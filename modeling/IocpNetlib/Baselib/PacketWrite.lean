import IocpNetlib.Baselib.PackageQueue

/-!
# `PacketWrite::Write`

A packet of capacity `c` should take a write if and only if it fits in what is
left, and then append it.  `Write` compares the sum of two sizes with the
capacity, and the sum wraps around: a write from which it does is taken however
large it is.  `NoWrap` says that no call of a sequence has such a sum, and
`AllOrNothing` that the packet does what it should in every call.
-/

namespace IocpNetlib
namespace Baselib

open ByteBlock

/-- What a packet of capacity `c` that holds the bytes `held` should do with a write. -/
def writeSpec (c : Nat) (held data : List UInt8) : List UInt8 × Bool :=
  if data.length ≤ c - held.length then (held ++ data, true) else (held, false)

/-- The block `buf` is a packet of capacity `c` that holds the bytes `held`. -/
structure PacketHolds (c : Nat) (mem : Memory) (buf : BlockID) (held : List UInt8) : Prop where
  writePos : (mem buf).writePos = .num held.length
  capacity : (mem buf).capacity = c
  size : (mem buf).payload.length = c
  bound : held.length ≤ c
  bytes : (mem buf).payload.take held.length = held

/--
Before, between and after the calls of `Write` the packet holds what it should;
each call returns what it should, a call that returns `false` changes nothing,
and no call changes another block.
-/
def AllOrNothing (w c : Nat) (buf : BlockID) : Memory → List UInt8 → List (List UInt8) → Prop
  | mem, held, [] => PacketHolds c mem buf held
  | mem, held, data :: rest =>
      PacketHolds c mem buf held ∧
        ∃ mem',
          write w mem buf data = some (mem', (writeSpec c held data).2) ∧
            ((writeSpec c held data).2 = false → mem' = mem) ∧
              (∀ b, b ≠ buf → mem' b = mem b) ∧
                AllOrNothing w c buf mem' (writeSpec c held data).1 rest

/-- No call of a sequence adds up to `2 ^ w` or more. -/
def NoWrap (w c : Nat) : List UInt8 → List (List UInt8) → Prop
  | _, [] => True
  | held, data :: rest =>
      held.length + data.length < 2 ^ w ∧ NoWrap w c (writeSpec c held data).1 rest

section Calls

variable {w c : Nat} {mem : Memory} {buf : BlockID} {held data : List UInt8}

/-- A packet that was just attached holds nothing. -/
theorem packetHolds_attach (hsize : (mem buf).payload.length = c) :
    PacketHolds c (attach mem buf c) buf [] := by
  rw [attach]
  constructor
  · rw [Function.update_self]
    rfl
  · rw [Function.update_self]
  · rw [Function.update_self]
    exact hsize
  · exact Nat.zero_le c
  · exact List.take_zero

/-- What `Write` does with a packet that holds `held`. -/
theorem PacketHolds.write_eq (h : PacketHolds c mem buf held) :
    write w mem buf data =
      if c < (held.length + data.length) % 2 ^ w then some (mem, false)
      else
        some
          (Function.update mem buf
            { mem buf with
              writePos := .num ((held.length + data.length) % 2 ^ w)
              payload := memcpy (mem buf).payload held.length data },
            true) := by
  rw [write]
  rw [h.writePos]
  simp only [h.capacity]

/-- The bytes after a write that fits. -/
theorem PacketHolds.append
    (h : PacketHolds c mem buf held) (hfits : held.length + data.length ≤ c) :
    PacketHolds c
      (Function.update mem buf
        { mem buf with
          writePos := .num (held.length + data.length)
          payload := memcpy (mem buf).payload held.length data })
      buf (held ++ data) := by
  have hsize := h.size
  constructor
  · rw [Function.update_self, List.length_append]
  · rw [Function.update_self]
    exact h.capacity
  · rw [Function.update_self, length_memcpy (by omega)]
    exact hsize
  · rw [List.length_append]
    exact hfits
  · rw [Function.update_self, List.length_append, take_memcpy _ _ (by omega), h.bytes]

/-- A sum that does not wrap around is compared with the capacity. -/
theorem PacketHolds.write_noWrap
    (h : PacketHolds c mem buf held) (hwrap : held.length + data.length < 2 ^ w) :
    ∃ mem',
      write w mem buf data = some (mem', (writeSpec c held data).2) ∧
        ((writeSpec c held data).2 = false → mem' = mem) ∧
          (∀ b, b ≠ buf → mem' b = mem b) ∧
            PacketHolds c mem' buf (writeSpec c held data).1 := by
  have hbound := h.bound
  rw [h.write_eq, Nat.mod_eq_of_lt hwrap]
  rw [writeSpec]
  by_cases hfits : held.length + data.length ≤ c
  · rw [if_neg (by omega), if_pos (by omega)]
    refine ⟨_, rfl, fun hfalse => absurd hfalse (by simp), fun b hb => ?_, h.append hfits⟩
    exact Function.update_of_ne hb _ mem
  · rw [if_pos (by omega), if_neg (by omega)]
    exact ⟨mem, rfl, fun _ => rfl, fun _ _ => rfl, h⟩

/-- A sum that wraps around is below the position, so that the write is taken. -/
theorem PacketHolds.write_wrap
    (h : PacketHolds c mem buf held) (hc : c < 2 ^ w) (hlen : data.length < 2 ^ w)
    (hwrap : 2 ^ w ≤ held.length + data.length) :
    (∃ mem', write w mem buf data = some (mem', true)) ∧ (writeSpec c held data).2 = false := by
  have hbound := h.bound
  have hmod : (held.length + data.length) % 2 ^ w = held.length + data.length - 2 ^ w := by
    rw [Nat.mod_eq_sub_mod hwrap, Nat.mod_eq_of_lt (by omega)]
  rw [h.write_eq, hmod, if_neg (by omega)]
  rw [writeSpec]
  rw [if_neg (by omega)]
  exact ⟨⟨_, rfl⟩, rfl⟩

end Calls

section Sequences

variable {w c : Nat} {mem : Memory} {buf : BlockID} {held : List UInt8}
variable {datas : List (List UInt8)}

theorem NoWrap.allOrNothing
    (hwrap : NoWrap w c held datas) (h : PacketHolds c mem buf held) :
    AllOrNothing w c buf mem held datas := by
  induction datas generalizing mem held with
  | nil => exact h
  | cons data rest ih =>
      obtain ⟨hdata, hrest⟩ := hwrap
      obtain ⟨mem', hwrite, hsame, hothers, hholds⟩ := h.write_noWrap hdata
      exact ⟨h, mem', hwrite, hsame, hothers, ih hrest hholds⟩

theorem AllOrNothing.noWrap
    (hc : c < 2 ^ w) (hlen : ∀ data ∈ datas, data.length < 2 ^ w)
    (h : AllOrNothing w c buf mem held datas) :
    NoWrap w c held datas := by
  induction datas generalizing mem held with
  | nil => trivial
  | cons data rest ih =>
      obtain ⟨hholds, mem', hwrite, -, -, hrest⟩ := h
      refine ⟨?_, ih (fun d hd => hlen d (List.mem_cons_of_mem data hd)) hrest⟩
      by_contra hwrap
      obtain ⟨⟨mem'', htaken⟩, hrefuse⟩ :=
        hholds.write_wrap hc (hlen data List.mem_cons_self) (Nat.le_of_not_lt hwrap)
      rw [htaken, hrefuse] at hwrite
      simp at hwrite

/--
The calls of `Write` on a packet of capacity `c` are all or nothing if and only
if in none of them the position and the length add up to `2 ^ w` or more.
-/
theorem write_allOrNothing_iff
    (hc : c < 2 ^ w) (hsize : (mem buf).payload.length = c)
    (hlen : ∀ data ∈ datas, data.length < 2 ^ w) :
    AllOrNothing w c buf (attach mem buf c) [] datas ↔ NoWrap w c [] datas :=
  ⟨fun h => h.noWrap hc hlen, fun h => h.allOrNothing (packetHolds_attach hsize)⟩

end Sequences

/-- Three bytes, then six that do not fit, then one. -/
theorem write_allOrNothing_iff_example :
    AllOrNothing 64 4 ⟨0, 0⟩
      (attach (fun _ => ⟨.num 0, 0, [0, 0, 0, 0]⟩) ⟨0, 0⟩ 4) []
      [[1, 2, 3], [4, 5, 6, 7, 8, 9], [10]] := by
  have hlen :
      ∀ data ∈ [[1, 2, 3], [4, 5, 6, 7, 8, 9], [(10 : UInt8)]], data.length < 2 ^ 64 := by
    simp
  have hwrap : NoWrap 64 4 [] [[1, 2, 3], [4, 5, 6, 7, 8, 9], [10]] :=
    ⟨by decide, by decide, by decide, trivial⟩
  have hsize : ((fun _ => ⟨.num 0, 0, [0, 0, 0, 0]⟩ : Memory) ⟨0, 0⟩).payload.length = 4 := rfl
  exact (write_allOrNothing_iff (by decide) hsize hlen).mpr hwrap

/-- After one byte, `2 ^ 64 - 1` more are taken by a packet of four. -/
theorem write_wrap_taken :
    ¬ AllOrNothing 64 4 ⟨0, 0⟩
      (attach (fun _ => ⟨.num 0, 0, [0, 0, 0, 0]⟩) ⟨0, 0⟩ 4) []
      [[1], List.replicate (2 ^ 64 - 1) 0] := by
  intro h
  have hlen : ∀ data ∈ [[1], List.replicate (2 ^ 64 - 1) (0 : UInt8)], data.length < 2 ^ 64 := by
    simp only [List.mem_cons, List.not_mem_nil, or_false, forall_eq_or_imp, forall_eq,
      List.length_replicate]
    decide
  have hwrap := (h.noWrap (by decide) hlen).2.1
  simp only [List.length_replicate] at hwrap
  exact absurd hwrap (by decide)

end Baselib
end IocpNetlib
