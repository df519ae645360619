import IocpNetlib.Http.FramedCalls

/-!
# HTTP framing conserves bytes

The packets delivered and the received bytes that are left in the buffer are
together the bytes that came in, whatever the buffer held behind them.  The
scan may look at those stale bytes, but a packet is only delivered once it
consists of received ones.
-/

namespace IocpNetlib
namespace Http

open ByteBlock CString

/-- The received bytes that are not delivered yet. -/
def HttpRecvState.residual (st : HttpRecvState) : List UInt8 :=
  (st.mRecvPacketBuffer.getD []).take st.mRecvBytes

/-- A client that has received nothing; its buffer may hold anything. -/
structure HttpRecvState.Fresh (p : FramingParam) (st : HttpRecvState) : Prop where
  buffer : ∀ buf, st.mRecvPacketBuffer = some buf → buf.length = p.mMaxPacketSize
  recvBytes : st.mRecvBytes = 0
  calls : st.calls = []

/-- What was delivered and what is left, in one. -/
def HttpRecvState.stream (st : HttpRecvState) : List UInt8 :=
  (st.calls.map HttpCall.packet).flatten ++ st.residual

/-- The same of a buffer in use. -/
def HttpBuffer.stream (b : HttpBuffer) : List UInt8 :=
  (b.calls.map HttpCall.packet).flatten ++ b.mRecvPacketBuffer.take b.mRecvBytes

/-- The packet is as long as a packet may be. -/
def HttpCall.Fits (p : FramingParam) (c : HttpCall) : Prop :=
  4 ≤ c.packet.length ∧ c.packet.length ≤ p.mMaxPacketSize

/-- What a loop of the splitter keeps: sizes in any case, and the bytes when it succeeds. -/
structure Conserved (p : FramingParam) (r : Option NetServiceErr × HttpBuffer)
    (stream : List UInt8) : Prop where
  sound : r.2.Sound p
  fits : ∀ c ∈ r.2.calls, c.Fits p
  stream : r.1 = some .success → r.2.stream = stream

section Loops

variable {p : FramingParam}
variable (onReceived : List (List UInt8) → Int)

/-- A delivered packet is the front of the received bytes. -/
theorem HttpBuffer.stream_deliver
    {b : HttpBuffer} {packetSize headerSize : Nat} {contentLength : Int} {close : Bool}
    (hle : packetSize ≤ b.mRecvBytes) (hbytes : b.mRecvBytes ≤ b.mRecvPacketBuffer.length) :
    HttpBuffer.stream
      { mRecvPacketBuffer := shiftOut b.mRecvPacketBuffer packetSize b.mRecvBytes
        mRecvBytes := b.mRecvBytes - packetSize
        mCloseAfterSend := close
        calls := b.calls ++
          [⟨b.mRecvPacketBuffer.take packetSize, headerSize, contentLength⟩] } =
      b.stream := by
  have hfront :
      b.mRecvPacketBuffer.take packetSize =
        (b.mRecvPacketBuffer.take b.mRecvBytes).take packetSize := by
    rw [List.take_take, Nat.min_eq_left hle]
  unfold HttpBuffer.stream
  simp only [List.map_append, List.map_cons, List.map_nil, List.flatten_append,
    List.flatten_cons, List.flatten_nil, List.append_nil, List.append_assoc]
  rw [take_shiftOut hle hbytes, hfront, List.take_append_drop]

/-- A copied piece comes behind the received bytes. -/
theorem HttpBuffer.stream_copy
    {b : HttpBuffer} {pData : List UInt8} {k : Nat} (hk : k ≤ pData.length)
    (hbytes : b.mRecvBytes ≤ b.mRecvPacketBuffer.length) :
    HttpBuffer.stream
      { b with
        mRecvPacketBuffer := memcpy b.mRecvPacketBuffer b.mRecvBytes (pData.take k)
        mRecvBytes := b.mRecvBytes + k } =
      b.stream ++ pData.take k := by
  have htake := take_memcpy b.mRecvPacketBuffer (pData.take k) hbytes
  rw [List.length_take_of_le hk] at htake
  unfold HttpBuffer.stream
  rw [htake, List.append_assoc]

/-- A packet that is delivered has its head, and fits the buffer. -/
theorem fits_of_scan
    {b : HttpBuffer} {hs : HttpHeaders} {headerSize : Nat} {contentLength : Int}
    (h : b.Sound p)
    (hscan : scanPacket p b.mRecvPacketBuffer b.mRecvBytes =
      .complete hs headerSize contentLength)
    (hfits : ∀ c ∈ b.calls, c.Fits p) :
    ∀ c ∈ b.calls ++
        [⟨b.mRecvPacketBuffer.take (packetSizeOf headerSize contentLength).toNat,
          headerSize, contentLength⟩],
      c.Fits p := by
  intro c hc
  rcases List.mem_append.mp hc with hc | hc
  · exact hfits c hc
  · obtain ⟨tail, hframed⟩ := framed_of_scan h.length hscan
    obtain ⟨hparse, -, hnonneg, -, hmax, -⟩ := scanPacket_complete p hscan
    obtain ⟨e, hhead, -⟩ := parseHttpHeaders_key hparse
    have hsize := hframed.size
    rw [List.mem_singleton.mp hc]
    refine ⟨by simp only at hsize ⊢; omega, ?_⟩
    have htake :=
      List.length_take_le (packetSizeOf headerSize contentLength).toNat b.mRecvPacketBuffer
    simp only
    omega

/-- The inner loop moves bytes from the buffer to the packets. -/
theorem splitHttpPacketInner_conserved (b : HttpBuffer) :
    b.Sound p → (∀ c ∈ b.calls, c.Fits p) →
      Conserved p (splitHttpPacketInner p onReceived b) b.stream := by
  fun_induction splitHttpPacketInner p onReceived b with
  | case1 => exact fun h hfits => ⟨h, hfits, fun hret => absurd hret (by simp)⟩
  | case2 => exact fun h hfits => ⟨h, hfits, fun _ => rfl⟩
  | case3 => exact fun h hfits => ⟨h, hfits, fun hret => absurd hret (by simp)⟩
  | case4 b hs headerSize contentLength hscan packetSize calls hret =>
      intro h hfits
      exact ⟨⟨h.length, h.recvBytes, h.deliver hscan⟩, fits_of_scan h hscan hfits,
        fun hret => absurd hret (by simp)⟩
  | case5 b hs headerSize contentLength hscan packetSize calls hret hclose =>
      intro h hfits
      exact ⟨⟨h.length, h.recvBytes, h.deliver hscan⟩, fits_of_scan h hscan hfits,
        fun hret => absurd hret (by simp)⟩
  | case6 b hs headerSize contentLength hscan packetSize calls hret close hclose ih =>
      intro h hfits
      have hsize := scanPacket_complete p hscan
      have hlen := h.length
      have hbytes := h.recvBytes
      have hnext := ih (h.next hscan close) (fits_of_scan h hscan hfits)
      refine ⟨hnext.sound, hnext.fits, fun hsuccess => ?_⟩
      rw [hnext.stream hsuccess]
      exact HttpBuffer.stream_deliver (by omega) (by omega)

/-- The outer loop moves the chunk to the buffer. -/
theorem splitHttpPacketLoop_conserved (b : HttpBuffer) (pData : List UInt8) :
    b.Sound p → (∀ c ∈ b.calls, c.Fits p) →
      Conserved p (splitHttpPacketLoop p onReceived b pData) (b.stream ++ pData) := by
  fun_induction splitHttpPacketLoop p onReceived b pData with
  | case1 b pData hempty =>
      intro h hfits
      rw [List.length_eq_zero_iff.mp hempty, List.append_nil]
      exact ⟨h, hfits, fun _ => rfl⟩
  | case2 b pData hne hroom =>
      exact fun h hfits => ⟨h, hfits, fun hret => absurd hret (by simp)⟩
  | case3 b pData hne hroom b' hinner ih =>
      intro h hfits
      have hlen := h.length
      have hbytes := h.recvBytes
      have hpiece := splitHttpPacketInner_conserved onReceived _ (h.copy pData) hfits
      rw [hinner] at hpiece
      have hrest := ih hpiece.sound hpiece.fits
      refine ⟨hrest.sound, hrest.fits, fun hsuccess => ?_⟩
      rw [hrest.stream hsuccess, hpiece.stream rfl,
        HttpBuffer.stream_copy (Nat.min_le_left _ _) (by omega), List.append_assoc,
        List.take_append_drop]
  | case4 b pData hne hroom hinner =>
      intro h hfits
      have hpiece := splitHttpPacketInner_conserved onReceived _ (h.copy pData) hfits
      refine ⟨hpiece.sound, hpiece.fits, fun hsuccess => ?_⟩
      exact (hinner _ (Prod.ext hsuccess rfl)).elim

end Loops

section Runs

variable {p : FramingParam}
variable (onReceived : List (List UInt8) → Int)

/-- What is known of a client between two calls of the splitter. -/
structure HttpRecvState.Tidy (p : FramingParam) (st : HttpRecvState) : Prop where
  sound : st.Sound p
  recvBytes : st.mRecvBytes ≤ p.mMaxPacketSize
  fits : ∀ c ∈ st.calls, c.Fits p

/-- The buffer the loop finds holds what the client holds. -/
theorem HttpRecvState.buffer_stream
    {st : HttpRecvState} {available : Bool} {b : HttpBuffer}
    (h : st.buffer p available = some b) : b.stream = st.stream ∧ b.calls = st.calls := by
  rw [HttpRecvState.buffer] at h
  rw [HttpBuffer.stream, HttpRecvState.stream, HttpRecvState.residual]
  cases hbuf : st.mRecvPacketBuffer with
  | some buf =>
      rw [hbuf] at h
      simp only [Option.some.injEq] at h
      subst h
      exact ⟨rfl, rfl⟩
  | none =>
      rw [hbuf] at h
      simp only [Option.ite_none_right_eq_some, Option.some.injEq] at h
      obtain ⟨-, rfl⟩ := h
      simp

/-- A call keeps the client tidy and, when it succeeds, every byte. -/
theorem splitHttpPacket_conserved
    (available : Bool) {st : HttpRecvState} (h : st.Tidy p) (pData : List UInt8) :
    (splitHttpPacket p onReceived available st pData).2.Tidy p ∧
      ((splitHttpPacket p onReceived available st pData).1 = some .success →
        (splitHttpPacket p onReceived available st pData).2.stream = st.stream ++ pData) := by
  rw [splitHttpPacket]
  by_cases hempty : pData.length = 0
  · rw [if_pos hempty, List.length_eq_zero_iff.mp hempty, List.append_nil]
    exact ⟨h, fun _ => rfl⟩
  · rw [if_neg hempty]
    cases hb : st.buffer p available with
    | none => exact ⟨h, fun hret => absurd hret (by simp)⟩
    | some b =>
        obtain ⟨hstream, hcalls⟩ := HttpRecvState.buffer_stream hb
        have hfits := h.fits
        rw [← hcalls] at hfits
        have hloop := splitHttpPacketLoop_conserved onReceived b pData (h.sound.alloc hb) hfits
        rw [hstream] at hloop
        refine ⟨⟨⟨?_, hloop.sound.calls⟩, hloop.sound.recvBytes, hloop.fits⟩, hloop.stream⟩
        intro buf hbuf
        simp only [HttpBuffer.state, Option.some.injEq] at hbuf
        subst hbuf
        exact ⟨hloop.sound.length, hloop.sound.recvBytes⟩

/-- The same of a run, from any tidy client. -/
theorem splitHttpPackets_conserved
    (chunks : List (List UInt8)) {st : HttpRecvState} (h : st.Tidy p) :
    (splitHttpPackets p onReceived st chunks).2.Tidy p ∧
      ((splitHttpPackets p onReceived st chunks).1 = some .success →
        (splitHttpPackets p onReceived st chunks).2.stream = st.stream ++ chunks.flatten) := by
  induction chunks generalizing st with
  | nil => exact ⟨h, fun _ => by simp [splitHttpPackets]⟩
  | cons c cs ih =>
      obtain ⟨htidy, hstream⟩ := splitHttpPacket_conserved onReceived true h c
      rw [splitHttpPackets]
      split
      · next st' heq =>
          rw [heq] at htidy hstream
          obtain ⟨htidy', hstream'⟩ := ih htidy
          rw [hstream rfl, List.append_assoc] at hstream'
          exact ⟨htidy', hstream'⟩
      · next hne =>
          exact ⟨htidy, fun hsuccess => (hne _ (Prod.ext hsuccess rfl)).elim⟩

theorem HttpRecvState.Fresh.tidy
    {st : HttpRecvState} (h : st.Fresh p) : st.Tidy p where
  sound :=
    { buffer := fun buf hbuf => ⟨h.buffer buf hbuf, by rw [h.recvBytes]; exact Nat.zero_le _⟩
      calls := by
        rw [h.calls]
        exact fun _ hc => nomatch hc }
  recvBytes := by
    rw [h.recvBytes]
    exact Nat.zero_le _
  fits := by
    rw [h.calls]
    exact fun _ hc => nomatch hc

theorem HttpRecvState.Fresh.stream
    {st : HttpRecvState} (h : st.Fresh p) : st.stream = [] := by
  rw [HttpRecvState.stream, HttpRecvState.residual]
  rw [h.calls, h.recvBytes]
  rfl

/--
**HTTP framing conserves bytes.**  From a client that has received nothing,
with anything in its buffer: the received bytes never outgrow the buffer, every
packet is a head and the body it announces and has a legal size, and while the
splitter succeeds, the packets and the bytes left are the bytes received.
-/
theorem splitHttpPackets_conserves
    {st : HttpRecvState} (hst : st.Fresh p) (chunks : List (List UInt8)) :
    (splitHttpPackets p onReceived st chunks).2.mRecvBytes ≤ p.mMaxPacketSize ∧
      (∀ c ∈ (splitHttpPackets p onReceived st chunks).2.calls,
        (∃ tail hs, c.Framed tail hs) ∧ 4 ≤ c.packet.length ∧
          c.packet.length ≤ p.mMaxPacketSize) ∧
      ((splitHttpPackets p onReceived st chunks).1 = some .success →
        ((splitHttpPackets p onReceived st chunks).2.calls.map HttpCall.packet).flatten ++
            (splitHttpPackets p onReceived st chunks).2.residual =
          chunks.flatten) := by
  obtain ⟨htidy, hstream⟩ := splitHttpPackets_conserved onReceived chunks hst.tidy
  rw [hst.stream, List.nil_append] at hstream
  exact ⟨htidy.recvBytes, fun c hc => ⟨htidy.sound.calls c hc, htidy.fits c hc⟩, hstream⟩

/-- A receive buffer of 40 bytes. -/
def fortyBytes : FramingParam where
  mMaxPacketSize := 40
  mPacketSizeOffset := 0
  maxPacketSize_pos := by decide
  maxPacketSize_le := by decide
  packetSizeOffset_le := firstField_le

/-- A client whose buffer still holds `"xx..x"` and a NUL of earlier use. -/
def staleClient : HttpRecvState where
  mRecvPacketBuffer := some (List.replicate 39 120 ++ [0])
  mRecvBytes := 0
  mCloseAfterSend := false
  calls := []

theorem staleClient_fresh : staleClient.Fresh fortyBytes where
  buffer := by
    intro buf hbuf
    simp only [staleClient, Option.some.injEq] at hbuf
    rw [← hbuf]
    rfl
  recvBytes := rfl
  calls := rfl

/-- `"G\r\n\r\nH\r\n"` in two pieces: one packet, and three bytes that wait. -/
theorem splitHttpPackets_conserves_example :
    ((splitHttpPackets fortyBytes (fun _ => 0) staleClient
          [[71, 13, 10], [13, 10, 72, 13, 10]]).2.calls.map HttpCall.packet).flatten ++
        (splitHttpPackets fortyBytes (fun _ => 0) staleClient
          [[71, 13, 10], [13, 10, 72, 13, 10]]).2.residual =
      [71, 13, 10, 13, 10, 72, 13, 10] :=
  (splitHttpPackets_conserves (fun _ => 0) staleClient_fresh
    [[71, 13, 10], [13, 10, 72, 13, 10]]).2.2 (by decide +kernel)

end Runs

end Http
end IocpNetlib
