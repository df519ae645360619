import IocpNetlib.Http.HeaderLocality
import IocpNetlib.Http.SplitHttpPacket

/-!
# What the HTTP splitter knows of a packet it hands to `OnReceived`

A packet is a head the scan has found, followed by exactly as many bytes as
its `Content-Length` says.  This holds of every call of every run, whatever
bytes arrive and whatever the receiver answers.
-/

namespace IocpNetlib
namespace Http

open ByteBlock CString

/-- The packet is a head and the body its head announces. -/
structure HttpCall.Framed (c : HttpCall) (tail : List UInt8) (hs : HttpHeaders) : Prop where
  parse :
    parseHttpHeaders (c.packet ++ tail) c.packet.length = some (some (hs, c.headerSize))
  contentLength : getContentLength (c.packet ++ tail) hs.headers = some c.contentLength
  nonneg : 0 ≤ c.contentLength
  size : (c.packet.length : Int) = c.headerSize + c.contentLength
  small : c.packet.length < 2 ^ 31

section Runs

variable {p : FramingParam}
variable (onReceived : List (List UInt8) → Int)

/-- A positive `packetSize` is the sum it was computed from. -/
theorem packetSizeOf_eq
    {headerSize : Nat} {contentLength : Int}
    (hhead : headerSize < 2 ^ 31) (hnonneg : 0 ≤ contentLength)
    (hint : contentLength < 2 ^ 31) (hpos : 0 < packetSizeOf headerSize contentLength) :
    packetSizeOf headerSize contentLength = headerSize + contentLength := by
  rw [packetSizeOf] at hpos ⊢
  generalize hn : headerSize + contentLength.toNat = n at hpos ⊢
  by_cases hlt : n < 2 ^ 31
  · rw [toInt32_of_lt hlt]
    omega
  · have hbound : n < 2 ^ 32 := by omega
    have hneg := toInt32_neg (Nat.le_of_not_lt hlt) hbound
    exact absurd hpos (Int.not_lt.mpr (Int.le_of_lt hneg))

/-- A complete scan frames the packet it finds. -/
theorem framed_of_scan
    {buf : List UInt8} {mRecvBytes headerSize : Nat}
    {hs : HttpHeaders} {contentLength : Int}
    (hlen : buf.length = p.mMaxPacketSize)
    (h : scanPacket p buf mRecvBytes = .complete hs headerSize contentLength) :
    ∃ tail,
      HttpCall.Framed
        ⟨buf.take (packetSizeOf headerSize contentLength).toNat, headerSize, contentLength⟩
        tail hs := by
  obtain ⟨hparse, hcl, hnonneg, hpos, hmax, hrecv⟩ := scanPacket_complete p h
  have hint := p.maxPacketSize_le
  rw [intMax] at hint
  obtain ⟨e, rfl, he, -, -⟩ := parseHttpHeaders_key hparse
  have hrange := getContentLength_range hcl
  have hsize := packetSizeOf_eq (by omega) hnonneg (by omega) hpos
  generalize packetSizeOf (e + 4) contentLength = packetSize at hpos hmax hrecv hsize ⊢
  have htake : (buf.take packetSize.toNat).length = packetSize.toNat := by
    rw [List.length_take]
    omega
  have hsum : ((buf.take packetSize.toNat).length : Int) = (e + 4 : Nat) + contentLength := by
    rw [htake]
    omega
  have hsmall : (buf.take packetSize.toNat).length < 2 ^ 31 := by
    rw [htake]
    omega
  refine ⟨buf.drop packetSize.toNat, ?_, ?_, hnonneg, hsum, hsmall⟩
  · rw [List.take_append_drop]
    exact (parseHttpHeaders_len _ _ _).trans hparse
  · rw [List.take_append_drop]
    exact hcl

/-- What holds of the receive buffer and the calls between two steps of the splitter. -/
structure HttpBuffer.Sound (p : FramingParam) (b : HttpBuffer) : Prop where
  length : b.mRecvPacketBuffer.length = p.mMaxPacketSize
  recvBytes : b.mRecvBytes ≤ p.mMaxPacketSize
  calls : ∀ c ∈ b.calls, ∃ tail hs, c.Framed tail hs

theorem HttpBuffer.Sound.deliver
    {b : HttpBuffer} {hs : HttpHeaders} {headerSize : Nat} {contentLength : Int}
    (h : b.Sound p)
    (hscan : scanPacket p b.mRecvPacketBuffer b.mRecvBytes =
      .complete hs headerSize contentLength) :
    ∀ c ∈ b.calls ++
        [⟨b.mRecvPacketBuffer.take (packetSizeOf headerSize contentLength).toNat,
          headerSize, contentLength⟩],
      ∃ tail hs, c.Framed tail hs := by
  obtain ⟨tail, hframed⟩ := framed_of_scan h.length hscan
  intro c hc
  rcases List.mem_append.mp hc with hc | hc
  · exact h.calls c hc
  · rw [List.mem_singleton.mp hc]
    exact ⟨tail, hs, hframed⟩

/-- The buffer after a packet has been delivered. -/
theorem HttpBuffer.Sound.next
    {b : HttpBuffer} {hs : HttpHeaders} {headerSize : Nat} {contentLength : Int}
    (h : b.Sound p)
    (hscan : scanPacket p b.mRecvPacketBuffer b.mRecvBytes =
      .complete hs headerSize contentLength) (close : Bool) :
    HttpBuffer.Sound p
      { mRecvPacketBuffer :=
          shiftOut b.mRecvPacketBuffer (packetSizeOf headerSize contentLength).toNat b.mRecvBytes
        mRecvBytes := b.mRecvBytes - (packetSizeOf headerSize contentLength).toNat
        mCloseAfterSend := close
        calls := b.calls ++
          [⟨b.mRecvPacketBuffer.take (packetSizeOf headerSize contentLength).toNat,
            headerSize, contentLength⟩] } := by
  have hlen := h.length
  have hbytes := h.recvBytes
  refine ⟨?_, Nat.le_trans (Nat.sub_le _ _) hbytes, h.deliver hscan⟩
  rw [length_shiftOut (by omega)]
  exact hlen

theorem splitHttpPacketInner_sound (b : HttpBuffer) :
    b.Sound p → (splitHttpPacketInner p onReceived b).2.Sound p := by
  fun_induction splitHttpPacketInner p onReceived b with
  | case1 => exact id
  | case2 => exact id
  | case3 => exact id
  | case4 b hs headerSize contentLength hscan packetSize calls hret =>
      intro h
      exact ⟨h.length, h.recvBytes, h.deliver hscan⟩
  | case5 b hs headerSize contentLength hscan packetSize calls hret hclose =>
      intro h
      exact ⟨h.length, h.recvBytes, h.deliver hscan⟩
  | case6 b hs headerSize contentLength hscan packetSize calls hret close hclose ih =>
      intro h
      exact ih (h.next hscan close)

/-- Copying a piece that fits keeps the block's size. -/
theorem HttpBuffer.Sound.copy
    {b : HttpBuffer} (h : b.Sound p) (pData : List UInt8) :
    HttpBuffer.Sound p
      { b with
        mRecvPacketBuffer :=
          memcpy b.mRecvPacketBuffer b.mRecvBytes
            (pData.take (min pData.length (p.mMaxPacketSize - b.mRecvBytes)))
        mRecvBytes :=
          b.mRecvBytes + min pData.length (p.mMaxPacketSize - b.mRecvBytes) } := by
  have hlen := h.length
  have hbytes := h.recvBytes
  refine ⟨?_, ?_, h.calls⟩
  · refine (length_memcpy ?_).trans hlen
    rw [List.length_take]
    omega
  · show b.mRecvBytes + min pData.length (p.mMaxPacketSize - b.mRecvBytes) ≤ _
    omega

theorem splitHttpPacketLoop_sound (b : HttpBuffer) (pData : List UInt8) :
    b.Sound p → (splitHttpPacketLoop p onReceived b pData).2.Sound p := by
  fun_induction splitHttpPacketLoop p onReceived b pData with
  | case1 => exact id
  | case2 => exact id
  | case3 b pData hne hroom b' hinner ih =>
      intro h
      have hsound := splitHttpPacketInner_sound onReceived _ (h.copy pData)
      rw [hinner] at hsound
      exact ih hsound
  | case4 b pData hne hroom hinner =>
      intro h
      exact splitHttpPacketInner_sound onReceived _ (h.copy pData)

/-- The client between two chunks. -/
structure HttpRecvState.Sound (p : FramingParam) (st : HttpRecvState) : Prop where
  buffer : ∀ buf, st.mRecvPacketBuffer = some buf →
    buf.length = p.mMaxPacketSize ∧ st.mRecvBytes ≤ p.mMaxPacketSize
  calls : ∀ c ∈ st.calls, ∃ tail hs, c.Framed tail hs

theorem HttpRecvState.Sound.alloc
    {st : HttpRecvState} {available : Bool} {b : HttpBuffer}
    (h : st.Sound p) (hb : st.buffer p available = some b) : b.Sound p := by
  rw [HttpRecvState.buffer] at hb
  split at hb
  · next buf hbuf =>
      obtain ⟨hlen, hbytes⟩ := h.buffer buf hbuf
      simp only [Option.some.injEq] at hb
      subst hb
      exact ⟨hlen, hbytes, h.calls⟩
  · split_ifs at hb
    simp only [Option.some.injEq] at hb
    subst hb
    exact ⟨List.length_replicate, Nat.zero_le _, h.calls⟩

theorem splitHttpPacket_sound
    (available : Bool) {st : HttpRecvState} (h : st.Sound p) (pData : List UInt8) :
    (splitHttpPacket p onReceived available st pData).2.Sound p := by
  rw [splitHttpPacket]
  split_ifs
  · exact h
  · split
    · exact h
    · next b hb =>
        obtain ⟨hlen, hbytes, hcalls⟩ :=
          splitHttpPacketLoop_sound onReceived b pData (h.alloc hb)
        refine ⟨?_, hcalls⟩
        intro buf hbuf
        simp only [HttpBuffer.state, Option.some.injEq] at hbuf
        subst hbuf
        exact ⟨hlen, hbytes⟩

/-- Every call of a run over any chunks is framed. -/
theorem splitHttpPackets_sound
    (chunks : List (List UInt8)) {st : HttpRecvState} (h : st.Sound p) :
    (splitHttpPackets p onReceived st chunks).2.Sound p := by
  induction chunks generalizing st with
  | nil => exact h
  | cons c cs ih =>
      have hc := splitHttpPacket_sound onReceived true h c
      rw [splitHttpPackets]
      split
      · next heq =>
          rw [heq] at hc
          exact ih hc
      · exact hc

theorem HttpRecvState.reset_sound : HttpRecvState.reset.Sound p where
  buffer := fun _ h => nomatch h
  calls := fun _ h => nomatch h

end Runs

end Http
end IocpNetlib
