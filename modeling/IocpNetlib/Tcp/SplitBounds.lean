import IocpNetlib.Lib.CheckedBuffer
import IocpNetlib.Tcp.SplitPacket

/-!
# The accesses of `SplitPacket`

`SplitPacket` with every `int` operation, copy and read checked: an operation
on `int` that overflows, an access outside the first `mMaxPacketSize` bytes of
`mRecvPacketBuffer`, and a length or a packet with a byte that was not received
are faults.  A loop that is not through with its fuel is one as well.

**Results.**
* `checkedPass_ok`: one pass of the inner loop.
* `checkedInner_ok`, `checkedLoop_ok`: the loops, with fuel for what they
  count down.
* `checkedSplitPacket_ok`: no fault, and what the splitter does is what
  `splitPacket` says.
-/

namespace IocpNetlib
namespace Tcp

open ByteBlock CheckedBuffer MachineInt

/-- The C++ type `int`. -/
def int : IntType := ⟨31, true⟩

/-- The receive fields of a `TcpClient`, and the calls of `OnReceived` so far. -/
structure ClientFields where
  mRecvPacketBuffer : Option (List Cell)
  mRecvBytes : Int
  calls : List (List UInt8)
deriving DecidableEq, Repr

/-- The same behind the check for the buffer. -/
structure RecvBuffer where
  mRecvPacketBuffer : List Cell
  mRecvBytes : Int
  calls : List (List UInt8)
deriving DecidableEq, Repr

def RecvBuffer.fields (r : RecvBuffer) : ClientFields where
  mRecvPacketBuffer := some r.mRecvPacketBuffer
  mRecvBytes := r.mRecvBytes
  calls := r.calls

/-- How a pass of the inner loop ends: the loop is left, or starts again. -/
inductive Pass
  | leave (ret : NetServiceErr) (r : RecvBuffer)
  | again (r : RecvBuffer)
deriving DecidableEq, Repr

section Checked

variable (p : FramingParam)
variable (onReceived : List (List UInt8) → Int)

/-- The length in front: `memcpy(&packetSize, ...)`. -/
def readPacketSize (r : RecvBuffer) : Except Fault Int := do
  let field ←
    readReceived p.mMaxPacketSize r.mRecvBytes r.mRecvPacketBuffer p.mPacketSizeOffset 4
  return toInt32 (leNat field)

/-- The rest of a pass of the inner loop, behind the read of `packetSize`. -/
def checkedPacket (r : RecvBuffer) (packetSize : Int) : Except Fault Pass :=
  if packetSize < 0 ∨ packetSize.toNat < 4 ∨ p.mMaxPacketSize < packetSize then
    return .leave .illegalRecvPacket r
  else if r.mRecvBytes < packetSize then
    return .leave .success r
  else do
    let packet ← readReceived p.mMaxPacketSize r.mRecvBytes r.mRecvPacketBuffer 0 packetSize
    let calls := r.calls ++ [packet]
    if onReceived calls ≠ 0 then
      return .leave .beClosed { r with calls := calls }
    else
      let mRecvBytes ← arith int (r.mRecvBytes - packetSize)
      if 0 < mRecvBytes then
        let buf ← move p.mMaxPacketSize r.mRecvPacketBuffer 0 packetSize mRecvBytes
        return .again ⟨buf, mRecvBytes, calls⟩
      else
        return .again ⟨r.mRecvPacketBuffer, mRecvBytes, calls⟩

/-- One pass of the inner `while (true)`. -/
def checkedPass (r : RecvBuffer) : Except Fault Pass := do
  let fieldEnd ← arith int (p.mPacketSizeOffset + 4)
  if r.mRecvBytes < fieldEnd then
    return .leave .success r
  else
    let packetSize ← readPacketSize p r
    checkedPacket p onReceived r packetSize

/-- The inner `while (true)`. -/
def checkedInner : Nat → RecvBuffer → Except Fault (NetServiceErr × RecvBuffer)
  | 0, _ => .error .running
  | fuel + 1, r => do
      match ← checkedPass p onReceived r with
      | .leave ret r => return (ret, r)
      | .again r => checkedInner fuel r

/-- `mRecvPacketBuffer`, allocated when there is none. -/
def recvBuffer (available : Bool) (st : ClientFields) : Option RecvBuffer :=
  match st.mRecvPacketBuffer with
  | some buf => some ⟨buf, st.mRecvBytes, st.calls⟩
  | none =>
      if available then some ⟨List.replicate p.mMaxPacketSize none, 0, st.calls⟩
      else none

/-- The outer `while (leftSize > 0)`; `n` is the fuel of the inner loop. -/
def checkedLoop (available : Bool) (n : Nat) :
    Nat → ClientFields → Int → List UInt8 → Except Fault (NetServiceErr × ClientFields)
  | 0, _, _, _ => .error .running
  | fuel + 1, st, leftSize, pTemp =>
      if 0 < leftSize then
        match recvBuffer p available st with
        | none => return (.recvQueueFull, st)
        | some r => do
            let room ← arith int (p.mMaxPacketSize - r.mRecvBytes)
            let copySize := min leftSize room
            if copySize ≤ 0 then
              return (.illegalRecvPacket, r.fields)
            else
              let leftSize ← arith int (leftSize - copySize)
              let (src, pTemp) ← takeChunk pTemp copySize
              let buf ← copyIn p.mMaxPacketSize r.mRecvPacketBuffer r.mRecvBytes src
              let mRecvBytes ← arith int (r.mRecvBytes + copySize)
              match ← checkedInner p onReceived n ⟨buf, mRecvBytes, r.calls⟩ with
              | (.success, r) => checkedLoop available n fuel r.fields leftSize pTemp
              | (ret, r) => return (ret, r.fields)
      else return (.success, st)

/-- `SplitPacket` on one received chunk. -/
def checkedSplitPacket (available : Bool) (fuel : Nat) (st : ClientFields)
    (pData : List UInt8) : Except Fault (NetServiceErr × ClientFields) :=
  checkedLoop p onReceived available fuel fuel st pData.length pData

end Checked

/-- `mRecvBytes` is in its range, and counts received bytes of a whole buffer. -/
structure RecvBuffer.Ok (p : FramingParam) (r : RecvBuffer) : Prop where
  nonneg : 0 ≤ r.mRecvBytes
  le : r.mRecvBytes ≤ p.mMaxPacketSize
  size : p.mMaxPacketSize ≤ r.mRecvPacketBuffer.length
  filled : Filled r.mRecvBytes.toNat r.mRecvPacketBuffer

/-- The same, as far as there is a buffer. -/
structure ClientFields.Ok (p : FramingParam) (st : ClientFields) : Prop where
  nonneg : 0 ≤ st.mRecvBytes
  le : st.mRecvBytes ≤ p.mMaxPacketSize
  buffer : ∀ buf, st.mRecvPacketBuffer = some buf →
    p.mMaxPacketSize ≤ buf.length ∧ Filled st.mRecvBytes.toNat buf

/-- The fields with the bytes in the cells only. -/
def ClientFields.erase (st : ClientFields) : RecvState where
  mRecvPacketBuffer := st.mRecvPacketBuffer.map bytes
  mRecvBytes := st.mRecvBytes.toNat
  calls := st.calls

/-- The same for the result of a loop. -/
def RecvBuffer.result (r : RecvBuffer) (ret : NetServiceErr) : SplitResult where
  ret := ret
  mRecvPacketBuffer := bytes r.mRecvPacketBuffer
  mRecvBytes := r.mRecvBytes.toNat
  calls := r.calls

section Pass

variable {p : FramingParam} {onReceived : List (List UInt8) → Int} {r : RecvBuffer}

theorem inRange_int {n : Int} : int.InRange n ↔ -2 ^ 31 ≤ n ∧ n < 2 ^ 31 :=
  IntType.inRange_signed rfl

/-- The end of the length field is an `int`. -/
theorem fieldEnd_ok (p : FramingParam) :
    arith int (p.mPacketSizeOffset + 4) = .ok (p.mPacketSizeOffset + 4) := by
  have hle := p.packetSizeOffset_le
  simp only [intMax] at hle
  exact arith_ok (inRange_int.mpr (by omega))

/-- A number of received bytes is an `int`. -/
theorem arith_recvBytes {n : Int} (h0 : 0 ≤ n) (h : n ≤ p.mMaxPacketSize) :
    arith int n = .ok n := by
  have hle := p.maxPacketSize_le
  simp only [intMax] at hle
  exact arith_ok (inRange_int.mpr (by omega))

/-- The buffer after a packet of `n` bytes was delivered. -/
def restOf (buf : List Cell) (m n : Nat) : List Cell :=
  if n < m then memmove buf 0 n (m - n) else buf

variable {buf : List Cell} {m n : Nat} {calls : List (List UInt8)}

theorem bytes_restOf (buf : List Cell) (m n : Nat) :
    bytes (restOf buf m n) =
      if 0 < m - n then memmove (bytes buf) 0 n (m - n) else bytes buf := by
  rw [restOf]
  by_cases hlt : n < m
  · rw [if_pos hlt, if_pos (by omega), bytes_memmove]
  · rw [if_neg hlt, if_neg (by omega)]

/-- The length field of the packet in front. -/
theorem readPacketSize_ok (h : RecvBuffer.Ok p ⟨buf, m, calls⟩) (hm : m ≤ p.mMaxPacketSize)
    (hfield : p.mPacketSizeOffset + 4 ≤ m) :
    readPacketSize p ⟨buf, m, calls⟩ = .ok (int32At (bytes buf) p.mPacketSizeOffset) := by
  have hfilled := h.filled
  rw [Int.toNat_natCast] at hfilled
  have hread : readReceived p.mMaxPacketSize m buf p.mPacketSizeOffset 4 =
      .ok (((bytes buf).drop p.mPacketSizeOffset).take 4) :=
    readReceived_ok hfilled hfield (hfield.trans hm)
  rw [readPacketSize]
  simp only [hread, ok_bind]
  rfl

/-- A pass that has a whole packet of `n` bytes. -/
theorem checkedPacket_ok (h : RecvBuffer.Ok p ⟨buf, m, calls⟩) (hm : m ≤ p.mMaxPacketSize)
    (hfour : 4 ≤ n) (hle : n ≤ m) :
    checkedPacket p onReceived ⟨buf, m, calls⟩ n =
      .ok (if onReceived (calls ++ [(bytes buf).take n]) ≠ 0 then
          .leave .beClosed ⟨buf, m, calls ++ [(bytes buf).take n]⟩
        else .again ⟨restOf buf m n, (m - n : Nat), calls ++ [(bytes buf).take n]⟩) := by
  have hfilled := h.filled
  rw [Int.toNat_natCast] at hfilled
  have hpacket : readReceived p.mMaxPacketSize m buf 0 n = .ok ((bytes buf).take n) :=
    readReceived_zero_ok hfilled hle (hle.trans hm)
  have hrest : arith int ((m : Int) - n) = .ok ((m - n : Nat) : Int) := by
    rw [← Int.ofNat_sub hle]
    exact arith_recvBytes (p := p) (by omega) (by omega)
  rw [checkedPacket, Int.toNat_natCast, if_neg (by omega), if_neg (by simp only; omega)]
  simp only [hpacket, ok_bind]
  by_cases hret : onReceived (calls ++ [(bytes buf).take n]) ≠ 0
  · rw [if_pos hret, if_pos hret]
    rfl
  · rw [if_neg hret, if_neg hret, hrest, ok_bind, restOf]
    by_cases hlt : n < m
    · have hmove : move p.mMaxPacketSize buf 0 n ((m - n : Nat) : Int) =
          .ok (memmove buf 0 n (m - n)) := move_ok (by omega)
      rw [if_pos hlt, if_pos (by omega), hmove]
      rfl
    · rw [if_neg hlt, if_neg (by omega)]
      rfl

/-- What is left behind a delivered packet is received. -/
theorem ok_restOf (h : RecvBuffer.Ok p ⟨buf, m, calls⟩) (hm : m ≤ p.mMaxPacketSize)
    (hle : n ≤ m) (calls' : List (List UInt8)) :
    RecvBuffer.Ok p ⟨restOf buf m n, (m - n : Nat), calls'⟩ := by
  have hfilled := h.filled
  rw [Int.toNat_natCast] at hfilled
  have hsize : m ≤ buf.length := hm.trans h.size
  refine ⟨by simp only; omega, by simp only; omega, ?_, ?_⟩
  · rw [restOf]
    split_ifs with hlt
    · rw [length_memmove n (by omega)]
      exact h.size
    · exact h.size
  · rw [Int.toNat_natCast, restOf]
    split_ifs with hlt
    · exact Filled.move (by rwa [Nat.add_sub_cancel' hle]) (by omega)
    · rw [Nat.sub_eq_zero_of_le (by omega)]
      exact filled_zero buf

variable (onReceived) in
/-- What one pass does: it leaves the loop, or delivers a packet and goes on. -/
theorem checkedPass_ok (h : r.Ok p) :
    (∃ ret r', checkedPass p onReceived r = .ok (.leave ret r') ∧ r'.Ok p ∧
        splitPacketInner p onReceived (bytes r.mRecvPacketBuffer) r.mRecvBytes.toNat r.calls =
          r'.result ret) ∨
      ∃ r', checkedPass p onReceived r = .ok (.again r') ∧ r'.Ok p ∧
        r'.mRecvBytes < r.mRecvBytes ∧
        splitPacketInner p onReceived (bytes r.mRecvPacketBuffer) r.mRecvBytes.toNat r.calls =
          splitPacketInner p onReceived (bytes r'.mRecvPacketBuffer) r'.mRecvBytes.toNat
            r'.calls := by
  obtain ⟨buf, k, calls⟩ := r
  obtain ⟨m, rfl⟩ := Int.eq_ofNat_of_zero_le h.nonneg
  have hm : m ≤ p.mMaxPacketSize := Int.ofNat_le.mp h.le
  simp only [Int.toNat_natCast]
  rw [splitPacketInner]
  by_cases hfield : m < p.mPacketSizeOffset + 4
  · refine .inl ⟨.success, ⟨buf, m, calls⟩, ?_, h, ?_⟩
    · rw [checkedPass, fieldEnd_ok, ok_bind, if_pos (by simp only; omega)]
      rfl
    · rw [if_pos hfield]
      rfl
  have hpass : checkedPass p onReceived ⟨buf, m, calls⟩ =
      checkedPacket p onReceived ⟨buf, m, calls⟩ (int32At (bytes buf) p.mPacketSizeOffset) := by
    rw [checkedPass, fieldEnd_ok, ok_bind, if_neg (by simp only; omega),
      readPacketSize_ok h hm (by omega), ok_bind]
  rw [if_neg hfield, hpass]
  generalize int32At (bytes buf) p.mPacketSizeOffset = packetSize
  simp only
  by_cases hillegal : packetSize < 0 ∨ packetSize.toNat < 4 ∨ p.mMaxPacketSize < packetSize
  · refine .inl ⟨.illegalRecvPacket, ⟨buf, m, calls⟩, ?_, h, ?_⟩
    · rw [checkedPacket, if_pos hillegal]
      rfl
    · rw [dif_pos hillegal]
      rfl
  rw [dif_neg hillegal]
  obtain ⟨n, rfl⟩ := Int.eq_ofNat_of_zero_le (show 0 ≤ packetSize by omega)
  by_cases hwait : (m : Int) < n
  · refine .inl ⟨.success, ⟨buf, m, calls⟩, ?_, h, ?_⟩
    · rw [checkedPacket, if_neg hillegal, if_pos hwait]
      rfl
    · rw [dif_pos hwait]
      rfl
  rw [dif_neg hwait]
  rw [Int.toNat_natCast] at hillegal ⊢
  have hpacket : checkedPacket p onReceived ⟨buf, m, calls⟩ n = _ :=
    checkedPacket_ok h hm (by omega) (by omega)
  by_cases hret : onReceived (calls ++ [(bytes buf).take n]) ≠ 0
  · rw [if_pos hret] at hpacket ⊢
    exact .inl ⟨.beClosed, _, hpacket, ⟨h.nonneg, h.le, h.size, h.filled⟩, rfl⟩
  · rw [if_neg hret] at hpacket ⊢
    refine .inr ⟨_, hpacket, ok_restOf h hm (by omega) _, by simp only; omega, ?_⟩
    simp only [bytes_restOf, Int.toNat_natCast]

end Pass

section Loops

variable {p : FramingParam} (onReceived : List (List UInt8) → Int)

/-- The inner loop is through after one pass for each received byte, and one more. -/
theorem checkedInner_ok {fuel : Nat} :
    ∀ {r : RecvBuffer}, r.Ok p → r.mRecvBytes.toNat < fuel →
      ∃ ret r', checkedInner p onReceived fuel r = .ok (ret, r') ∧ r'.Ok p ∧
        splitPacketInner p onReceived (bytes r.mRecvPacketBuffer) r.mRecvBytes.toNat r.calls =
          r'.result ret := by
  induction fuel with
  | zero =>
      intro r _ hfuel
      exact absurd hfuel (Nat.not_lt_zero _)
  | succ fuel ih =>
      intro r h hfuel
      rw [checkedInner]
      rcases checkedPass_ok onReceived h with
        ⟨ret, r', hpass, hok, hinner⟩ | ⟨r', hpass, hok, hless, hinner⟩
      · exact ⟨ret, r', by rw [hpass]; rfl, hok, hinner⟩
      · have hnonneg := hok.nonneg
        obtain ⟨ret, r'', hrest, hok', hinner'⟩ := ih hok (by omega)
        refine ⟨ret, r'', ?_, hok', hinner.trans hinner'⟩
        rw [hpass]
        exact hrest

/-- The fields behind the copy of `src`. -/
theorem RecvBuffer.Ok.copyIn {buf : List Cell} {m : Nat} {calls : List (List UInt8)}
    (h : RecvBuffer.Ok p ⟨buf, m, calls⟩) (src : List UInt8)
    (hfit : m + src.length ≤ p.mMaxPacketSize) :
    RecvBuffer.Ok p ⟨memcpy buf m (src.map some), (m + src.length : Nat), calls⟩ := by
  have hfilled := h.filled
  have hsize := h.size
  rw [Int.toNat_natCast] at hfilled
  refine ⟨Int.natCast_nonneg _, Int.ofNat_le.mpr hfit, ?_, ?_⟩
  · rw [length_memcpy (by rw [List.length_map]; exact hfit.trans hsize)]
    exact hsize
  · rw [Int.toNat_natCast]
    exact hfilled.copyIn (by omega) src

section Pass

variable {available : Bool} {n fuel m copySize : Nat} {buf : List Cell}
  {calls : List (List UInt8)} {pTemp : List UInt8}

/-- What `min(leftSize, mMaxPacketSize - mRecvBytes)` is computed from. -/
theorem room_ok (hm : m ≤ p.mMaxPacketSize)
    (hcopySize : min pTemp.length (p.mMaxPacketSize - m) = copySize) :
    arith int ((p.mMaxPacketSize : Int) - m) = .ok ((p.mMaxPacketSize : Int) - m) ∧
      min (pTemp.length : Int) ((p.mMaxPacketSize : Int) - m) = copySize :=
  ⟨arith_recvBytes (p := p) (by omega) (by omega), by omega⟩

/-- A pass of the outer loop without room in the buffer. -/
theorem checkedLoop_full (hm : m ≤ p.mMaxPacketSize) (hpos : pTemp.length ≠ 0)
    (hcopySize : min pTemp.length (p.mMaxPacketSize - m) = 0) :
    checkedLoop p onReceived available n (fuel + 1) (RecvBuffer.fields ⟨buf, m, calls⟩)
        pTemp.length pTemp =
      .ok (.illegalRecvPacket, RecvBuffer.fields ⟨buf, m, calls⟩) := by
  obtain ⟨hroom, hcopy⟩ := room_ok hm hcopySize
  rw [checkedLoop, if_pos (by omega)]
  simp only [recvBuffer, RecvBuffer.fields, hroom, ok_bind, hcopy]
  rw [if_pos (by omega)]
  rfl

/-- A pass of the outer loop that copies, and what the inner loop makes of the copy. -/
theorem checkedLoop_pass (hm : m ≤ p.mMaxPacketSize) (hlen : pTemp.length ≤ intMax)
    (hcopySize : min pTemp.length (p.mMaxPacketSize - m) = copySize) (hpos : 0 < copySize)
    {ret : NetServiceErr} {r' : RecvBuffer}
    (hinner : checkedInner p onReceived n
      ⟨memcpy buf m ((pTemp.take copySize).map some), (m + copySize : Nat), calls⟩ =
        .ok (ret, r')) :
    checkedLoop p onReceived available n (fuel + 1) (RecvBuffer.fields ⟨buf, m, calls⟩)
        pTemp.length pTemp =
      if ret = .success then
        checkedLoop p onReceived available n fuel r'.fields (pTemp.drop copySize).length
          (pTemp.drop copySize)
      else .ok (ret, r'.fields) := by
  obtain ⟨hroom, hcopy⟩ := room_ok hm hcopySize
  have hsrc : (pTemp.take copySize).length = copySize := List.length_take_of_le (by omega)
  have hleft : arith int ((pTemp.length : Int) - copySize) =
      .ok ((pTemp.drop copySize).length : Int) := by
    rw [List.length_drop, Int.ofNat_sub (by omega)]
    simp only [intMax] at hlen
    exact arith_ok (inRange_int.mpr (by omega))
  have hchunk : takeChunk pTemp copySize = .ok (pTemp.take copySize, pTemp.drop copySize) :=
    takeChunk_ok (by omega)
  have hinto : copyIn p.mMaxPacketSize buf m (pTemp.take copySize) =
      .ok (memcpy buf m ((pTemp.take copySize).map some)) := copyIn_ok (by omega)
  have hadd : arith int ((m : Int) + copySize) = .ok ((m + copySize : Nat) : Int) :=
    arith_recvBytes (p := p) (by omega) (by omega)
  rw [checkedLoop, if_pos (by omega)]
  simp only [recvBuffer, RecvBuffer.fields, hroom, ok_bind, hcopy]
  rw [if_neg (by omega)]
  simp only [hleft, hchunk, hinto, hadd, hinner, ok_bind]
  cases ret <;> rfl

end Pass

/-- The outer loop is through after one pass for each byte of the chunk, and one more. -/
theorem checkedLoop_ok (available : Bool) {n : Nat} (hn : p.mMaxPacketSize < n) {fuel : Nat} :
    ∀ {r : RecvBuffer} {pTemp : List UInt8},
      r.Ok p → pTemp.length ≤ intMax → pTemp.length < fuel →
        ∃ (ret : NetServiceErr) (r' : RecvBuffer),
          checkedLoop p onReceived available n fuel r.fields pTemp.length pTemp =
              .ok (ret, r'.fields) ∧
            r'.Ok p ∧
            splitPacketLoop p onReceived (bytes r.mRecvPacketBuffer) r.mRecvBytes.toNat r.calls
              pTemp = r'.result ret := by
  induction fuel with
  | zero =>
      intro r pTemp _ _ hfuel
      exact absurd hfuel (Nat.not_lt_zero _)
  | succ fuel ih =>
      intro r pTemp h hlen hfuel
      obtain ⟨buf, k, calls⟩ := r
      obtain ⟨m, rfl⟩ := Int.eq_ofNat_of_zero_le h.nonneg
      have hm : m ≤ p.mMaxPacketSize := Int.ofNat_le.mp h.le
      rw [splitPacketLoop]
      by_cases hnil : pTemp.length = 0
      · refine ⟨.success, ⟨buf, m, calls⟩, ?_, h, by rw [if_pos hnil]; rfl⟩
        rw [checkedLoop, if_neg (by omega)]
        rfl
      rw [if_neg hnil]
      simp only [Int.toNat_natCast]
      generalize hcopySize : min pTemp.length (p.mMaxPacketSize - m) = copySize
      by_cases hfull : copySize = 0
      · exact ⟨.illegalRecvPacket, ⟨buf, m, calls⟩,
          checkedLoop_full onReceived hm hnil (hcopySize.trans hfull), h,
          by rw [if_pos hfull]; rfl⟩
      have hsrc : (pTemp.take copySize).length = copySize := List.length_take_of_le (by omega)
      have hok := h.copyIn (pTemp.take copySize) (by omega)
      rw [hsrc] at hok
      have hfuel' : ((m + copySize : Nat) : Int).toNat < n := by
        rw [Int.toNat_natCast]
        omega
      obtain ⟨ret, r', hinner, hok', hresult⟩ := checkedInner_ok onReceived hok hfuel'
      simp only [bytes_memcpy, bytes_map_some, Int.toNat_natCast] at hresult
      rw [checkedLoop_pass onReceived hm hlen hcopySize (by omega) hinner, if_neg hfull, hresult]
      cases ret with
      | success =>
          have hdrop : (pTemp.drop copySize).length = pTemp.length - copySize := List.length_drop
          rw [if_pos rfl]
          exact ih hok' (by omega) (by omega)
      | _ => exact ⟨_, r', rfl, hok', rfl⟩

end Loops

section Chunk

variable {p : FramingParam} {onReceived : List (List UInt8) → Int} {st : ClientFields}
  {available : Bool}

theorem RecvBuffer.Ok.fields {r : RecvBuffer} (h : r.Ok p) : r.fields.Ok p := by
  refine ⟨h.nonneg, h.le, ?_⟩
  rintro buf hbuf
  cases hbuf
  exact ⟨h.size, h.filled⟩

/-- The buffer a pass of the outer loop works on. -/
theorem recvBuffer_ok {r : RecvBuffer} (hst : st.Ok p) (h : recvBuffer p available st = some r) :
    r.Ok p := by
  rw [recvBuffer] at h
  cases hbuf : st.mRecvPacketBuffer with
  | some buf =>
      obtain ⟨hsize, hfilled⟩ := hst.buffer buf hbuf
      simp only [hbuf, Option.some.injEq] at h
      subst h
      exact ⟨hst.nonneg, hst.le, hsize, hfilled⟩
  | none =>
      simp only [hbuf] at h
      split_ifs at h
      cases h
      exact ⟨Int.le_refl 0, Int.natCast_nonneg _, by rw [List.length_replicate], filled_zero _⟩

/-- The loop does not care when the buffer was allocated. -/
theorem checkedLoop_recvBuffer {r : RecvBuffer} (h : recvBuffer p available st = some r)
    {leftSize : Int} (hleft : 0 < leftSize) (n fuel : Nat) (pTemp : List UInt8) :
    checkedLoop p onReceived available n fuel st leftSize pTemp =
      checkedLoop p onReceived available n fuel r.fields leftSize pTemp := by
  cases fuel with
  | zero => rfl
  | succ fuel =>
      rw [checkedLoop, checkedLoop, if_pos hleft, if_pos hleft, h]
      rfl

/-- No buffer, and none to be had. -/
theorem splitPacket_queueFull (h : recvBuffer p available st = none) {pData : List UInt8}
    (hpos : pData.length ≠ 0) :
    splitPacket p onReceived available st.erase pData = (.recvQueueFull, st.erase) := by
  rw [recvBuffer] at h
  cases hbuf : st.mRecvPacketBuffer with
  | some buf => simp [hbuf] at h
  | none =>
      simp only [hbuf] at h
      split_ifs at h with havailable
      have herase : st.erase.mRecvPacketBuffer = none := by rw [ClientFields.erase, hbuf]; rfl
      rw [splitPacket, if_neg hpos, herase, allocRecvPacket, if_neg havailable]

/-- The splitter on the buffer that is there or was allocated. -/
theorem splitPacket_recvBuffer {r : RecvBuffer} (h : recvBuffer p available st = some r)
    {pData : List UInt8} (hpos : pData.length ≠ 0) {ret : NetServiceErr} {r' : RecvBuffer}
    (hloop : splitPacketLoop p onReceived (bytes r.mRecvPacketBuffer) r.mRecvBytes.toNat r.calls
      pData = r'.result ret) :
    splitPacket p onReceived available st.erase pData = (ret, r'.fields.erase) := by
  have hresult : r'.fields.erase =
      ⟨some (bytes r'.mRecvPacketBuffer), r'.mRecvBytes.toNat, r'.calls⟩ := rfl
  rw [recvBuffer] at h
  rw [splitPacket, if_neg hpos, hresult]
  cases hbuf : st.mRecvPacketBuffer with
  | some buf =>
      simp only [hbuf, Option.some.injEq] at h
      subst h
      have herase : st.erase.mRecvPacketBuffer = some (bytes buf) := by
        rw [ClientFields.erase, hbuf]
        rfl
      have hloop' : splitPacketLoop p onReceived (bytes buf) st.erase.mRecvBytes st.erase.calls
          pData = r'.result ret := hloop
      simp only [herase, hloop']
      rfl
  | none =>
      simp only [hbuf] at h
      split_ifs at h with havailable
      cases h
      have herase : st.erase.mRecvPacketBuffer = none := by rw [ClientFields.erase, hbuf]; rfl
      have hzeros : bytes (List.replicate p.mMaxPacketSize none) =
          List.replicate p.mMaxPacketSize 0 := by
        simp [bytes]
      rw [hzeros] at hloop
      have hloop' : splitPacketLoop p onReceived (List.replicate p.mMaxPacketSize 0) 0
          st.erase.calls pData = r'.result ret := hloop
      simp only [herase, allocRecvPacket, if_pos havailable, hloop']
      rfl

/--
**`SplitPacket` stays in bounds.**  For all framing parameters, applications,
states with `0 <= mRecvBytes <= mMaxPacketSize` and chunks there is no fault:
no `int` overflows, every copy, move, length and delivered packet lies within
the first `mMaxPacketSize` bytes, what is read was received, and both loops come
to their end.  The state is in its range again, and is the one `splitPacket` says.
-/
theorem checkedSplitPacket_ok (hst : st.Ok p) {pData : List UInt8}
    (hlen : pData.length ≤ intMax) {fuel : Nat} (hmax : p.mMaxPacketSize < fuel)
    (hfuel : pData.length < fuel) :
    ∃ ret st', checkedSplitPacket p onReceived available fuel st pData = .ok (ret, st') ∧
      st'.Ok p ∧ splitPacket p onReceived available st.erase pData = (ret, st'.erase) := by
  rw [checkedSplitPacket]
  obtain ⟨k, rfl⟩ : ∃ k, fuel = k + 1 := ⟨fuel - 1, by omega⟩
  by_cases hnil : pData.length = 0
  · refine ⟨.success, st, ?_, hst, by rw [splitPacket, if_pos hnil]⟩
    rw [checkedLoop, if_neg (by omega)]
    rfl
  cases hbuffer : recvBuffer p available st with
  | none =>
      refine ⟨.recvQueueFull, st, ?_, hst, ?_⟩
      · rw [checkedLoop, if_pos (by omega), hbuffer]
        rfl
      · exact splitPacket_queueFull hbuffer hnil
  | some r =>
      obtain ⟨ret, r', hloop, hok, hresult⟩ := checkedLoop_ok onReceived available
        hmax (recvBuffer_ok hst hbuffer) hlen hfuel
      refine ⟨ret, r'.fields, ?_, hok.fields, ?_⟩
      · rw [checkedLoop_recvBuffer hbuffer (by omega)]
        exact hloop
      · exact splitPacket_recvBuffer hbuffer hnil hresult

/-- Two packets and the start of a third one, for a buffer of 16 bytes that is still to come. -/
theorem checkedSplitPacket_ok_two :
    let p : FramingParam := ⟨16, 0, by decide, by decide, by decide⟩
    let st : ClientFields := ⟨none, 0, []⟩
    let pData : List UInt8 := [5, 0, 0, 0, 1, 4, 0, 0, 0, 9, 0]
    ∃ ret st', checkedSplitPacket p (fun _ => 0) true 17 st pData = .ok (ret, st') ∧
      st'.Ok p ∧ splitPacket p (fun _ => 0) true st.erase pData = (ret, st'.erase) := by
  intro p st pData
  have hst : st.Ok p := ⟨Int.le_refl 0, by decide, fun _ h => nomatch h⟩
  exact checkedSplitPacket_ok hst (by decide) (by decide) (by decide)

end Chunk

end Tcp
end IocpNetlib
