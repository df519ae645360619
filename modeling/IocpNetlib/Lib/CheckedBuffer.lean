import IocpNetlib.Lib.ByteBlock
import IocpNetlib.Lib.MachineInt

/-!
# A receive buffer with checked accesses

Arithmetic, copies and reads that end in a fault where the language gives them
no meaning.  A cell of the buffer is a byte that was received, or holds
something else; a read asks for received bytes only.  The lemmas say when an
operation has no fault and what it does then.
-/

namespace IocpNetlib
namespace CheckedBuffer

open ByteBlock MachineInt

/-- What a run can end in: a fault, or a loop that is not through with its fuel. -/
inductive Fault
  | overflow
  | outside
  | notReceived
  | running
deriving DecidableEq, Repr

/-- A received byte, or whatever else is there. -/
abbrev Cell := Option UInt8

/-- The result of an operation of the type `t`. -/
def arith (t : IntType) (n : Int) : Except Fault Int :=
  if t.InRange n then .ok n else .error .overflow

/-- The `n` bytes from `off` on are among the first `size` bytes. -/
def Inside (size off n : Int) : Prop :=
  0 ≤ off ∧ 0 ≤ n ∧ off + n ≤ size

instance (size off n : Int) : Decidable (Inside size off n) :=
  inferInstanceAs (Decidable (0 ≤ off ∧ 0 ≤ n ∧ off + n ≤ size))

/-- The bytes in the cells. -/
def bytes (cells : List Cell) : List UInt8 :=
  cells.map fun c => c.getD 0

/-- The next `n` bytes of a chunk, and what is behind them. -/
def takeChunk (chunk : List UInt8) (n : Int) : Except Fault (List UInt8 × List UInt8) :=
  if Inside chunk.length 0 n then .ok (chunk.take n.toNat, chunk.drop n.toNat)
  else .error .outside

/-- Copy received bytes into the buffer. -/
def copyIn (size : Int) (buf : List Cell) (off : Int) (src : List UInt8) :
    Except Fault (List Cell) :=
  if Inside size off src.length then .ok (memcpy buf off.toNat (src.map some))
  else .error .outside

/-- Move a range of the buffer. -/
def move (size : Int) (buf : List Cell) (dst src n : Int) : Except Fault (List Cell) :=
  if Inside size dst n ∧ Inside size src n then .ok (memmove buf dst.toNat src.toNat n.toNat)
  else .error .outside

/-- Read a range of the buffer, the first `filled` bytes of which are received. -/
def readReceived (size filled : Int) (buf : List Cell) (off n : Int) :
    Except Fault (List UInt8) :=
  let cells := (buf.drop off.toNat).take n.toNat
  if Inside size off n then
    if off + n ≤ filled ∧ cells.all Option.isSome then .ok (bytes cells)
    else .error .notReceived
  else .error .outside

/-- The first `n` cells are received bytes. -/
def Filled (n : Nat) (buf : List Cell) : Prop :=
  ∀ c ∈ buf.take n, c.isSome

section Filled

variable {buf : List Cell} {m n off : Nat}

theorem Filled.mono (h : Filled n buf) (hm : m ≤ n) : Filled m buf := by
  intro c hc
  have htake : buf.take m = (buf.take n).take m := by rw [List.take_take, Nat.min_eq_left hm]
  rw [htake] at hc
  exact h c (List.mem_of_mem_take hc)

theorem filled_zero (buf : List Cell) : Filled 0 buf := by
  intro c hc
  rw [List.take_zero] at hc
  exact absurd hc List.not_mem_nil

/-- A range in front of the end of the received bytes is received. -/
theorem Filled.slice (h : Filled m buf) (hm : off + n ≤ m) :
    ((buf.drop off).take n).all Option.isSome = true := by
  rw [List.all_eq_true]
  intro c hc
  have htake : (buf.drop off).take n = (buf.take (off + n)).drop off := by
    rw [List.drop_take, Nat.add_sub_cancel_left]
  rw [htake] at hc
  exact h.mono hm c (List.mem_of_mem_drop hc)

/-- Received bytes behind received bytes. -/
theorem Filled.copyIn (h : Filled off buf) (hoff : off ≤ buf.length) (src : List UInt8) :
    Filled (off + src.length) (memcpy buf off (src.map some)) := by
  have hfront := take_memcpy buf (src.map some) hoff
  rw [List.length_map] at hfront
  intro c hc
  rw [hfront, List.mem_append] at hc
  rcases hc with hc | hc
  · exact h c hc
  · obtain ⟨b, -, rfl⟩ := List.mem_map.mp hc
    rfl

/-- Received bytes that are moved to the front. -/
theorem Filled.move (h : Filled (off + n) buf) (hlen : off + n ≤ buf.length) :
    Filled n (memmove buf 0 off n) := by
  intro c hc
  rw [take_memmove_zero hlen] at hc
  exact List.all_eq_true.mp (h.slice (Nat.le_refl _)) c hc

end Filled

section Bytes

theorem bytes_take (buf : List Cell) (n : Nat) : bytes (buf.take n) = (bytes buf).take n :=
  List.map_take

theorem bytes_drop (buf : List Cell) (n : Nat) : bytes (buf.drop n) = (bytes buf).drop n :=
  List.map_drop

theorem bytes_map_some (src : List UInt8) : bytes (src.map some) = src := by
  simp [bytes]

theorem bytes_memcpy (buf cells : List Cell) (off : Nat) :
    bytes (memcpy buf off cells) = memcpy (bytes buf) off (bytes cells) := by
  simp only [memcpy, bytes, List.map_append, List.map_take, List.map_drop, List.length_map]

theorem bytes_memmove (buf : List Cell) (dst src n : Nat) :
    bytes (memmove buf dst src n) = memmove (bytes buf) dst src n := by
  rw [memmove, bytes_memcpy, bytes_take, bytes_drop, memmove]

end Bytes

section Ok

/-- What follows an operation without a fault. -/
theorem ok_bind {α β : Type} (x : α) (f : α → Except Fault β) : (Except.ok x >>= f) = f x := rfl

variable {size m n off : Nat} {buf : List Cell}

theorem arith_ok {t : IntType} {k : Int} (h : t.InRange k) : arith t k = .ok k :=
  if_pos h

theorem inside_cast (h : off + n ≤ size) : Inside size off n :=
  ⟨Int.natCast_nonneg off, Int.natCast_nonneg n, by exact_mod_cast h⟩

theorem takeChunk_ok {chunk : List UInt8} (h : n ≤ chunk.length) :
    takeChunk chunk n = .ok (chunk.take n, chunk.drop n) := by
  have hinside : Inside chunk.length 0 n := ⟨Int.le_refl 0, Int.natCast_nonneg n, by omega⟩
  rw [takeChunk, if_pos hinside, Int.toNat_natCast]

theorem copyIn_ok {src : List UInt8} (h : off + src.length ≤ size) :
    copyIn size buf off src = .ok (memcpy buf off (src.map some)) := by
  rw [copyIn, if_pos (inside_cast h), Int.toNat_natCast]

/-- A move to the front. -/
theorem move_ok (h : off + n ≤ size) :
    move size buf 0 off n = .ok (memmove buf 0 off n) := by
  have hinside : Inside size 0 n := ⟨Int.le_refl 0, Int.natCast_nonneg n, by omega⟩
  rw [move, if_pos ⟨hinside, inside_cast h⟩, Int.toNat_natCast, Int.toNat_natCast, Int.toNat_zero]

theorem readReceived_ok (h : Filled m buf) (hm : off + n ≤ m) (hsize : off + n ≤ size) :
    readReceived size m buf off n = .ok (((bytes buf).drop off).take n) := by
  have hle : (off : Int) + n ≤ m := by exact_mod_cast hm
  rw [readReceived, if_pos (inside_cast hsize), Int.toNat_natCast, Int.toNat_natCast,
    if_pos ⟨hle, h.slice hm⟩, bytes_take, bytes_drop]

/-- A read of the front. -/
theorem readReceived_zero_ok (h : Filled m buf) (hm : n ≤ m) (hsize : n ≤ size) :
    readReceived size m buf 0 n = .ok ((bytes buf).take n) := by
  have hread := readReceived_ok h (show 0 + n ≤ m by omega) (show 0 + n ≤ size by omega)
  rwa [List.drop_zero] at hread

end Ok

end CheckedBuffer
end IocpNetlib
