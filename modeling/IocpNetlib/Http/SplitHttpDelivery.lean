import IocpNetlib.Lib.Framer
import IocpNetlib.Http.HeaderLocality
import IocpNetlib.Http.Request

/-!
# When the HTTP splitter delivers a well-formed request stream

The scan of `SplitHttpPacket` runs over the whole receive buffer.  Behind an
incomplete request the buffer still holds bytes of earlier requests, and the
scan may take them for the rest of its head.  `leftovers` lists the contents
of the buffer each time the splitter is left with an incomplete request; the
stream is delivered exactly when none of these scans goes wrong.
-/

namespace IocpNetlib
namespace Http

open ByteBlock CString Framing

section Scan

variable (p : FramingParam)

/--
The scan of a buffer stays inside it and finds no head, or one whose size fits
the buffer.
-/
def harmless (buf : List UInt8) : Bool :=
  match parseHttpHeaders buf buf.length with
  | none => false
  | some none => true
  | some (some (hs, headerSize)) =>
      match getContentLength buf hs.headers with
      | none => false
      | some contentLength =>
          decide (0 ≤ contentLength ∧ headerSize + contentLength ≤ p.mMaxPacketSize)

theorem parseHttpHeaders_headerSize
    {data : List UInt8} {len headerSize : Nat} {hs : HttpHeaders}
    (h : parseHttpHeaders data len = some (some (hs, headerSize))) :
    ∃ e, strstr blankLine data = some (some e) ∧ headerSize = e + 4 := by
  rw [parseHttpHeaders] at h
  split at h
  · exact absurd h (by simp)
  · exact absurd h (by simp)
  · next e he =>
      split at h
      · exact absurd h (by simp)
      · exact absurd h (by simp)
      · obtain ⟨l, _, hl⟩ := Option.map_eq_some_iff.mp h
        simp only [Option.some.injEq, Prod.mk.injEq] at hl
        exact ⟨e, he, hl.2.symm⟩

theorem headerSize_le
    {data : List UInt8} {len headerSize : Nat} {hs : HttpHeaders}
    (h : parseHttpHeaders data len = some (some (hs, headerSize))) :
    4 ≤ headerSize ∧ headerSize ≤ data.length := by
  obtain ⟨e, he, rfl⟩ := parseHttpHeaders_headerSize h
  have hle := strstr_le he
  simp only [blankLine, List.length_cons, List.length_nil] at hle
  omega

/--
A buffer that holds less than the packet its scan finds: the splitter waits
exactly when the scan is harmless, and it delivers nothing.
-/
theorem scanPacket_incomplete_iff
    {buf : List UInt8} {n : Nat}
    (hbuf : buf.length = p.mMaxPacketSize)
    (hshort : ∀ hs headerSize contentLength,
      parseHttpHeaders buf n = some (some (hs, headerSize)) →
      getContentLength buf hs.headers = some contentLength → 0 ≤ contentLength →
        n < headerSize + contentLength.toNat) :
    (scanPacket p buf n = .incomplete ↔ harmless p buf = true) ∧
    ∀ hs headerSize contentLength,
      scanPacket p buf n ≠ .complete hs headerSize contentLength := by
  have hmax := p.maxPacketSize_le
  rw [intMax] at hmax
  rw [scanPacket, harmless]
  rw [parseHttpHeaders_len buf buf.length n]
  cases hparse : parseHttpHeaders buf n with
  | none => simp
  | some o =>
      cases o with
      | none => simp
      | some res =>
          obtain ⟨hs, headerSize⟩ := res
          have hhead := headerSize_le hparse
          simp only
          cases hcl : getContentLength buf hs.headers with
          | none => simp
          | some cl =>
              have hrange := getContentLength_range hcl
              have hn := hshort hs headerSize cl hparse hcl
              simp only [decide_eq_true_eq]
              by_cases hneg : cl < 0
              · rw [if_pos hneg]
                simp only [reduceCtorEq, false_iff, ne_eq, not_false_eq_true, implies_true,
                  and_true]
                omega
              · rw [if_neg hneg]
                by_cases hfit : headerSize + cl ≤ p.mMaxPacketSize
                · have hsize :
                      packetSizeOf headerSize cl = ((headerSize + cl.toNat : Nat) : Int) :=
                    toInt32_of_lt (by omega)
                  rw [hsize, if_neg (by omega), if_pos (by omega)]
                  simp only [reduceCtorEq, ne_eq, not_false_eq_true, implies_true, and_true,
                    true_iff]
                  omega
                · have hsize :
                      packetSizeOf headerSize cl ≤ 0 ∨
                        p.mMaxPacketSize < packetSizeOf headerSize cl := by
                    by_cases hlt : headerSize + cl.toNat < 2 ^ 31
                    · right
                      have := toInt32_of_lt hlt
                      rw [packetSizeOf]
                      omega
                    · left
                      have := toInt32_neg (Nat.le_of_not_lt hlt) (by omega)
                      rw [packetSizeOf]
                      omega
                  rw [if_pos hsize]
                  simp only [reduceCtorEq, false_iff, ne_eq, not_false_eq_true, implies_true,
                    and_true]
                  omega

/-- A buffer that holds only a part of a well-formed request. -/
theorem scanPacket_of_part
    {r : HttpMessage} (h : r.WellFormed) (hsize : r.bytes.length ≤ p.mMaxPacketSize)
    {buf : List UInt8} {n : Nat} (hbuf : buf.length = p.mMaxPacketSize)
    (hn : n < r.bytes.length) (htake : buf.take n = r.bytes.take n) :
    (scanPacket p buf n = .incomplete ↔ harmless p buf = true) ∧
    ∀ hs headerSize contentLength,
      scanPacket p buf n ≠ .complete hs headerSize contentLength := by
  have hbytes : r.bytes = r.head ++ r.body := rfl
  have hlen : r.bytes.length = r.head.length + r.body.length := List.length_append
  apply scanPacket_incomplete_iff p hbuf
  intro hs headerSize contentLength hparse hcl hpos
  by_cases hhead : r.head.length ≤ n
  · -- the whole head has arrived, so the scan finds the real sizes
    have hmax := p.maxPacketSize_le
    have hsplit : buf = r.head ++ buf.drop r.head.length := by
      have hfront : buf.take r.head.length = r.head := by
        have h₁ : buf.take r.head.length = (buf.take n).take r.head.length := by
          rw [List.take_take, Nat.min_eq_left hhead]
        rw [h₁, htake, List.take_take, Nat.min_eq_left hhead, hbytes, List.take_left]
      calc buf = buf.take r.head.length ++ buf.drop r.head.length :=
            (List.take_append_drop _ _).symm
        _ = r.head ++ buf.drop r.head.length := by rw [hfront]
    rw [hsplit, h.parse] at hparse
    simp only [Option.some.injEq, Prod.mk.injEq] at hparse
    obtain ⟨rfl, rfl⟩ := hparse
    rw [hsplit, h.contentLength (by unfold intMax at hmax; omega)] at hcl
    simp only [Option.some.injEq] at hcl
    omega
  · -- a blank line inside the received bytes would be the real one
    obtain ⟨e, he, rfl⟩ := parseHttpHeaders_headerSize hparse
    by_contra hle
    have hloc :=
      strstr_local ((r.head ++ r.body).drop n) he (m := n)
        (by simp only [blankLine, List.length_cons, List.length_nil]; omega) (by omega)
    rw [htake, hbytes, List.take_append_drop] at hloc
    obtain ⟨e', he', hhead'⟩ := parseHttpHeaders_headerSize (h.parse r.body 0)
    rw [hloc] at he'
    simp only [Option.some.injEq] at he'
    omega

end Scan

section Arrival

/-- The receive buffer of a client, and the requests its bytes belong to. -/
structure Arrival where
  mRecvPacketBuffer : List UInt8
  mRecvBytes : Nat
  delivered : List HttpMessage
  pending : List HttpMessage
deriving DecidableEq, Repr

/-- Take the complete requests off the front of the buffer. -/
def settle (buf : List UInt8) (n : Nat) (delivered : List HttpMessage) :
    List HttpMessage → Arrival
  | [] => ⟨buf, n, delivered, []⟩
  | q :: qs =>
      if n < q.bytes.length then ⟨buf, n, delivered, q :: qs⟩
      else
        settle (shiftOut buf q.bytes.length n) (n - q.bytes.length)
          (delivered ++ [q]) qs

variable (p : FramingParam)

/--
The buffer a chunk arrives in.  The list is its contents each time the complete
requests have been taken off.
-/
def arrive (a : Arrival) (pData : List UInt8) : List (List UInt8) × Arrival :=
  if pData.length = 0 then ([], a)
  else if min pData.length (p.mMaxPacketSize - a.mRecvBytes) = 0 then ([], a)
  else
    let a' :=
      settle
        (memcpy a.mRecvPacketBuffer a.mRecvBytes
          (pData.take (min pData.length (p.mMaxPacketSize - a.mRecvBytes))))
        (a.mRecvBytes + min pData.length (p.mMaxPacketSize - a.mRecvBytes))
        a.delivered a.pending
    let r := arrive a' (pData.drop (min pData.length (p.mMaxPacketSize - a.mRecvBytes)))
    (a'.mRecvPacketBuffer :: r.1, r.2)
termination_by pData.length
decreasing_by
  simp only [List.length_drop]
  omega

/-- The buffer before the first chunk. -/
def Arrival.start (rs : List HttpMessage) : Arrival :=
  ⟨List.replicate p.mMaxPacketSize 0, 0, [], rs⟩

/-- The contents of the buffer over all chunks. -/
def arriveAll (a : Arrival) : List (List UInt8) → List (List UInt8) × Arrival
  | [] => ([], a)
  | c :: cs =>
      ((arrive p a c).1 ++ (arriveAll (arrive p a c).2 cs).1,
        (arriveAll (arrive p a c).2 cs).2)

/--
What the splitter is left to scan while the requests `rs` arrive in chunks:
the received part of a request, and behind it what earlier requests left.
-/
def leftovers (rs : List HttpMessage) (chunks : List (List UInt8)) : List (List UInt8) :=
  (arriveAll p (.start p rs) chunks).1

variable {p}

/-- The buffer holds the front of the pending requests; `rest` is still to come. -/
structure Arrival.Holds (p : FramingParam) (a : Arrival) (rest : List UInt8) : Prop where
  length : a.mRecvPacketBuffer.length = p.mMaxPacketSize
  recvBytes : a.mRecvBytes ≤ p.mMaxPacketSize
  stream :
    (a.pending.map HttpMessage.bytes).flatten =
      a.mRecvPacketBuffer.take a.mRecvBytes ++ rest
  wellFormed : ∀ q ∈ a.pending, q.WellFormed ∧ q.bytes.length ≤ p.mMaxPacketSize

/-- No pending request is complete. -/
def Arrival.Rests (a : Arrival) : Prop :=
  match a.pending with
  | [] => a.mRecvBytes = 0
  | q :: _ => a.mRecvBytes < q.bytes.length

/-- The splitter has the same buffer and has made the calls of the delivered requests. -/
structure Arrival.Shown (a : Arrival) (b : HttpBuffer) : Prop where
  buffer : b.mRecvPacketBuffer = a.mRecvPacketBuffer
  recvBytes : b.mRecvBytes = a.mRecvBytes
  calls : b.calls.map HttpCall.packet = a.delivered.map HttpMessage.bytes

/-- A pending request whose bytes are all there is the front of the buffer. -/
theorem Arrival.Holds.front
    {buf : List UInt8} {n : Nat} {ds qs : List HttpMessage} {q : HttpMessage}
    {rest : List UInt8}
    (h : Arrival.Holds p ⟨buf, n, ds, q :: qs⟩ rest) (hn : q.bytes.length ≤ n) :
    buf = q.bytes ++ buf.drop q.bytes.length ∧
    Arrival.Holds p
      ⟨shiftOut buf q.bytes.length n, n - q.bytes.length, ds ++ [q], qs⟩ rest := by
  obtain ⟨hlen, hbytes, hstream, hwf⟩ := h
  simp only at hlen hbytes hstream hwf
  have hfront : (buf.take n).take q.bytes.length = q.bytes := by
    have h₁ := congrArg (List.take q.bytes.length) hstream
    rw [List.map_cons, List.flatten_cons, List.take_left,
      List.take_append_of_le_length (by simp only [List.length_take]; omega)] at h₁
    exact h₁.symm
  have hbuf : buf.take q.bytes.length = q.bytes := by
    rw [List.take_take, Nat.min_eq_left hn] at hfront
    exact hfront
  refine ⟨?_, ⟨?_, ?_, ?_, ?_⟩⟩
  · calc buf = buf.take q.bytes.length ++ buf.drop q.bytes.length :=
          (List.take_append_drop _ _).symm
      _ = q.bytes ++ buf.drop q.bytes.length := by rw [hbuf]
  · rw [← hlen]
    exact length_shiftOut (by omega)
  · show n - q.bytes.length ≤ p.mMaxPacketSize
    omega
  · show (qs.map HttpMessage.bytes).flatten =
      (shiftOut buf q.bytes.length n).take (n - q.bytes.length) ++ rest
    have h₁ := congrArg (List.drop q.bytes.length) hstream
    rw [List.map_cons, List.flatten_cons, List.drop_left,
      List.drop_append_of_le_length (by simp only [List.length_take]; omega)] at h₁
    rw [take_shiftOut hn (by omega)]
    exact h₁
  · exact fun r hr => hwf r (List.mem_cons_of_mem _ hr)

/-- Settling keeps the stream and leaves no complete request. -/
theorem settle_holds
    {rest : List UInt8} (qs : List HttpMessage) (buf : List UInt8) (n : Nat)
    (ds : List HttpMessage) (h : Arrival.Holds p ⟨buf, n, ds, qs⟩ rest) :
    (settle buf n ds qs).Holds p rest ∧ (settle buf n ds qs).Rests := by
  induction qs generalizing buf n ds with
  | nil =>
      have hnil := h.stream
      have hlen := h.length
      have hbytes := h.recvBytes
      simp only [List.map_nil, List.flatten_nil] at hnil
      have hzero : (buf.take n).length = 0 := by
        have := congrArg List.length hnil
        simp only [List.length_nil, List.length_append] at this
        omega
      refine ⟨h, ?_⟩
      show n = 0
      simp only [List.length_take] at hzero
      have hpos := p.maxPacketSize_pos
      simp only at hlen hbytes
      omega
  | cons q qs ih =>
      rw [settle]
      by_cases hn : n < q.bytes.length
      · rw [if_pos hn]
        exact ⟨h, hn⟩
      · rw [if_neg hn]
        exact ih _ _ _ (h.front (by omega)).2

/-- A receiver that accepts every packet. -/
def acceptAll : List (List UInt8) → Int := fun _ => 0

/-- A scan that finds no complete packet ends the inner loop. -/
theorem splitHttpPacketInner_stop
    {b : HttpBuffer}
    (h : ∀ hs headerSize contentLength,
      scanPacket p b.mRecvPacketBuffer b.mRecvBytes ≠ .complete hs headerSize contentLength) :
    splitHttpPacketInner p acceptAll b =
      ((match scanPacket p b.mRecvPacketBuffer b.mRecvBytes with
        | .incomplete => some NetServiceErr.success
        | .illegal => some NetServiceErr.illegalRecvPacket
        | _ => none), b) := by
  rw [splitHttpPacketInner]
  split
  · next hscan => rw [hscan]
  · next hscan => rw [hscan]
  · next hscan => rw [hscan]
  · next hs headerSize contentLength hscan => exact absurd hscan (h hs headerSize contentLength)

/-- A complete request at the front of the buffer is delivered and shifted out. -/
theorem splitHttpPacketInner_deliver
    {b : HttpBuffer} {q : HttpMessage} {tail : List UInt8}
    (hq : q.WellFormed) (hsize : q.bytes.length ≤ p.mMaxPacketSize)
    (hbuf : b.mRecvPacketBuffer = q.bytes ++ tail) (hn : q.bytes.length ≤ b.mRecvBytes) :
    ∃ close,
      splitHttpPacketInner p acceptAll b =
        splitHttpPacketInner p acceptAll
          { mRecvPacketBuffer := shiftOut b.mRecvPacketBuffer q.bytes.length b.mRecvBytes
            mRecvBytes := b.mRecvBytes - q.bytes.length
            mCloseAfterSend := close
            calls := b.calls ++ [⟨q.bytes, q.head.length, q.body.length⟩] } := by
  have hmax := p.maxPacketSize_le
  have hint : q.bytes.length < 2 ^ 31 := by
    rw [intMax] at hmax
    omega
  have hhead : b.mRecvPacketBuffer = q.head ++ (q.body ++ tail) := by
    rw [hbuf, HttpMessage.bytes, List.append_assoc]
  have hscan :
      scanPacket p b.mRecvPacketBuffer b.mRecvBytes =
        .complete q.headers q.head.length q.body.length := by
    rw [hhead, hq.scan p hsize, if_neg (by omega)]
  have hclose :
      (isConnectionClose b.mRecvPacketBuffer q.headers.headers).isSome = true := by
    rw [hhead]
    exact isConnectionClose_isSome _ q.fields _ (q.fieldsAt _)
  obtain ⟨close, hclose⟩ := Option.isSome_iff_exists.mp hclose
  have hpacket : (packetSizeOf q.head.length q.body.length).toNat = q.bytes.length := by
    rw [HttpMessage.packetSize hint, Int.toNat_natCast]
  have htake : b.mRecvPacketBuffer.take q.bytes.length = q.bytes := by
    rw [hbuf, List.take_left]
  refine ⟨close, ?_⟩
  rw [splitHttpPacketInner]
  split
  · next h => rw [hscan] at h; exact absurd h (by simp)
  · next h => rw [hscan] at h; exact absurd h (by simp)
  · next h => rw [hscan] at h; exact absurd h (by simp)
  · next hs headerSize contentLength h =>
      rw [hscan] at h
      simp only [Scan.complete.injEq] at h
      obtain ⟨rfl, rfl, rfl⟩ := h
      simp only [acceptAll, ne_eq, not_true_eq_false, if_false, hclose, hpacket, htake]

/-- The code is zero exactly when `ok` holds, and then the splitter shows `a`. -/
def Follows (ok : Prop) (r : Option NetServiceErr × HttpBuffer) (a : Arrival) : Prop :=
  (r.1 = some .success ↔ ok) ∧ (ok → a.Shown r.2)

theorem splitHttpPacketInner_follows {rest : List UInt8} :
    ∀ (qs : List HttpMessage) (b : HttpBuffer) (buf : List UInt8) (n : Nat)
      (ds : List HttpMessage),
      Arrival.Holds p ⟨buf, n, ds, qs⟩ rest → Arrival.Shown ⟨buf, n, ds, qs⟩ b →
        Follows (harmless p (settle buf n ds qs).mRecvPacketBuffer = true)
          (splitHttpPacketInner p acceptAll b) (settle buf n ds qs) := by
  -- the two ways a scan that finds no complete request can end
  have hstop :
      ∀ (a : Arrival) (b : HttpBuffer), a.Shown b →
        ((scanPacket p a.mRecvPacketBuffer a.mRecvBytes = .incomplete ↔
            harmless p a.mRecvPacketBuffer = true) ∧
          ∀ hs headerSize contentLength,
            scanPacket p a.mRecvPacketBuffer a.mRecvBytes ≠
              .complete hs headerSize contentLength) →
          Follows (harmless p a.mRecvPacketBuffer = true)
            (splitHttpPacketInner p acceptAll b) a := by
    intro a b hb hscan
    rw [← hb.buffer, ← hb.recvBytes] at hscan
    rw [← hb.buffer]
    rw [splitHttpPacketInner_stop hscan.2]
    constructor
    · rw [← hscan.1]
      cases scanPacket p b.mRecvPacketBuffer b.mRecvBytes <;> simp
    · intro _
      exact hb
  intro qs
  induction qs with
  | nil =>
      intro b buf n ds h hb
      have hzero : n = 0 := (settle_holds [] buf n ds h).2
      subst hzero
      refine hstop _ b hb (scanPacket_incomplete_iff p h.length ?_)
      intro hs headerSize contentLength hparse _ _
      have := (headerSize_le hparse).1
      show 0 < headerSize + contentLength.toNat
      omega
  | cons q qs ih =>
      intro b buf n ds h hb
      obtain ⟨hq, hsize⟩ := h.wellFormed q List.mem_cons_self
      rw [settle]
      by_cases hn : n < q.bytes.length
      · rw [if_pos hn]
        refine hstop _ b hb (scanPacket_of_part p hq hsize h.length hn ?_)
        have hlen := h.length
        have hstream := congrArg (List.take n) h.stream
        simp only at hlen hstream
        rw [List.map_cons, List.flatten_cons,
          List.take_append_of_le_length (by omega),
          List.take_append_of_le_length (by simp only [List.length_take]; omega),
          List.take_take, Nat.min_self] at hstream
        exact hstream.symm
      · rw [if_neg hn]
        obtain ⟨hfront, hholds⟩ := h.front (by omega)
        have hbuf : b.mRecvPacketBuffer = q.bytes ++ buf.drop q.bytes.length := by
          rw [hb.buffer]
          exact hfront
        have hrecv : b.mRecvBytes = n := hb.recvBytes
        obtain ⟨close, hinner⟩ :=
          splitHttpPacketInner_deliver hq hsize hbuf (by omega)
        rw [hinner]
        refine ih _ _ _ _ hholds ⟨?_, ?_, ?_⟩
        · show shiftOut b.mRecvPacketBuffer q.bytes.length b.mRecvBytes =
            shiftOut buf q.bytes.length n
          rw [hb.buffer, hrecv]
        · show b.mRecvBytes - q.bytes.length = n - q.bytes.length
          rw [hrecv]
        · have hcalls := hb.calls
          simp only at hcalls
          show (b.calls ++ [_]).map HttpCall.packet = (ds ++ [q]).map HttpMessage.bytes
          rw [List.map_append, List.map_append, hcalls]
          rfl

/-- Copying the front of the rest of the stream into the buffer. -/
theorem Arrival.Holds.copy
    {a : Arrival} {pData rest : List UInt8} {k : Nat}
    (h : a.Holds p (pData ++ rest))
    (hk : k ≤ pData.length) (hfit : a.mRecvBytes + k ≤ p.mMaxPacketSize) :
    Arrival.Holds p
      ⟨memcpy a.mRecvPacketBuffer a.mRecvBytes (pData.take k), a.mRecvBytes + k,
        a.delivered, a.pending⟩ (pData.drop k ++ rest) := by
  have hlen := h.length
  have htake : (pData.take k).length = k := by
    rw [List.length_take, Nat.min_eq_left hk]
  refine ⟨?_, hfit, ?_, h.wellFormed⟩
  · show (memcpy a.mRecvPacketBuffer a.mRecvBytes (pData.take k)).length = p.mMaxPacketSize
    rw [length_memcpy (by omega), hlen]
  · have hoff : a.mRecvBytes ≤ a.mRecvPacketBuffer.length := by omega
    have hcpy := take_memcpy a.mRecvPacketBuffer (pData.take k) hoff
    rw [htake] at hcpy
    show (a.pending.map HttpMessage.bytes).flatten =
      (memcpy a.mRecvPacketBuffer a.mRecvBytes (pData.take k)).take (a.mRecvBytes + k) ++
        (pData.drop k ++ rest)
    rw [hcpy, h.stream, List.append_assoc, ← List.append_assoc (pData.take k),
      List.take_append_drop]

/-- A buffer at rest has room, so a piece of the chunk is always copied. -/
theorem Arrival.Rests.lt_max
    {a : Arrival} {rest : List UInt8} (h : a.Rests) (hh : a.Holds p rest) :
    a.mRecvBytes < p.mMaxPacketSize := by
  obtain ⟨buf, n, ds, qs⟩ := a
  cases qs with
  | nil =>
      have hzero : n = 0 := h
      have := p.maxPacketSize_pos
      show n < p.mMaxPacketSize
      omega
  | cons q qs =>
      have hlt : n < q.bytes.length := h
      have := (hh.wellFormed q List.mem_cons_self).2
      show n < p.mMaxPacketSize
      omega

/-- A chunk keeps the stream and leaves no complete request. -/
theorem arrive_holds {rest : List UInt8} (a : Arrival) (pData : List UInt8) :
    a.Holds p (pData ++ rest) → a.Rests →
      (arrive p a pData).2.Holds p rest ∧ (arrive p a pData).2.Rests := by
  induction a, pData using arrive.induct p with
  | case1 a pData hnil =>
      intro hholds hrests
      have hempty : pData = [] := List.length_eq_zero_iff.mp hnil
      subst hempty
      rw [arrive]
      exact ⟨hholds, hrests⟩
  | case2 a pData hne hfull =>
      intro hholds hrests
      have hlt := hrests.lt_max hholds
      omega
  | case3 a pData hne hroom a' ih =>
      intro hholds hrests
      obtain ⟨hholds', hrests'⟩ :=
        settle_holds _ _ _ _ (hholds.copy
          (k := min pData.length (p.mMaxPacketSize - a.mRecvBytes)) (by omega) (by omega))
      rw [arrive, if_neg hne, if_neg hroom]
      exact ih hholds' hrests'

/-- The splitter takes a chunk in as long as no scan of left-over bytes goes wrong. -/
theorem splitHttpPacketLoop_follows {rest : List UInt8} (b : HttpBuffer)
    (pData : List UInt8) :
    ∀ a : Arrival, a.Holds p (pData ++ rest) → a.Rests → a.Shown b →
      Follows (∀ l ∈ (arrive p a pData).1, harmless p l = true)
        (splitHttpPacketLoop p acceptAll b pData) (arrive p a pData).2 := by
  -- the inner loop after the first piece of the chunk has been copied
  have hpiece :
      ∀ (b : HttpBuffer) (pData : List UInt8) (a : Arrival),
        a.Holds p (pData ++ rest) → a.Shown b →
          Follows
            (harmless p
              (settle
                (memcpy a.mRecvPacketBuffer a.mRecvBytes
                  (pData.take (min pData.length (p.mMaxPacketSize - a.mRecvBytes))))
                (a.mRecvBytes + min pData.length (p.mMaxPacketSize - a.mRecvBytes))
                a.delivered a.pending).mRecvPacketBuffer = true)
            (splitHttpPacketInner p acceptAll
              { b with
                mRecvPacketBuffer :=
                  memcpy a.mRecvPacketBuffer a.mRecvBytes
                    (pData.take (min pData.length (p.mMaxPacketSize - a.mRecvBytes)))
                mRecvBytes :=
                  a.mRecvBytes + min pData.length (p.mMaxPacketSize - a.mRecvBytes) })
            (settle
              (memcpy a.mRecvPacketBuffer a.mRecvBytes
                (pData.take (min pData.length (p.mMaxPacketSize - a.mRecvBytes))))
              (a.mRecvBytes + min pData.length (p.mMaxPacketSize - a.mRecvBytes))
              a.delivered a.pending) := by
    intro b pData a hholds hshown
    have hbytes := hholds.recvBytes
    exact splitHttpPacketInner_follows a.pending _ _ _ a.delivered
      (hholds.copy (by omega) (by omega)) ⟨rfl, rfl, hshown.calls⟩
  induction b, pData using splitHttpPacketLoop.induct p acceptAll with
  | case1 b pData hnil =>
      intro a hholds hrests hshown
      rw [arrive, splitHttpPacketLoop, if_pos hnil, if_pos hnil]
      exact ⟨by simp, fun _ => hshown⟩
  | case2 b pData hne hfull =>
      intro a hholds hrests hshown
      have hlt := hrests.lt_max hholds
      have hn := hshown.recvBytes
      omega
  | case3 b pData hne hroom b' hinner ih =>
      intro a hholds hrests hshown
      have hn := hshown.recvBytes
      have hbytes := hholds.recvBytes
      rw [hn, hshown.buffer] at hinner
      rw [hn] at hroom ih
      obtain ⟨hcode, hshow⟩ := hpiece b pData a hholds hshown
      rw [hinner] at hcode hshow
      have hok := hcode.mp rfl
      obtain ⟨hholds', hrests'⟩ :=
        settle_holds _ _ _ _ (hholds.copy
          (k := min pData.length (p.mMaxPacketSize - a.mRecvBytes)) (by omega) (by omega))
      rw [arrive, splitHttpPacketLoop, if_neg hne, if_neg hne, hn, if_neg hroom,
        if_neg hroom, hshown.buffer, hinner]
      obtain ⟨hiff, hlater⟩ := ih _ hholds' hrests' (hshow hok)
      constructor
      · rw [List.forall_mem_cons, hiff]
        exact ⟨fun h => ⟨hok, h⟩, fun h => h.2⟩
      · intro h
        exact hlater (List.forall_mem_cons.mp h).2
  | case4 b pData hne hroom hinner =>
      intro a hholds hrests hshown
      have hn := hshown.recvBytes
      rw [hn, hshown.buffer] at hinner
      rw [hn] at hroom
      obtain ⟨hcode, _⟩ := hpiece b pData a hholds hshown
      rw [arrive, splitHttpPacketLoop, if_neg hne, if_neg hne, hn, if_neg hroom,
        if_neg hroom, hshown.buffer]
      generalize hr : splitHttpPacketInner p acceptAll _ = r at hinner hcode ⊢
      obtain ⟨code, b'⟩ := r
      have hbad : code ≠ some .success := by
        rintro rfl
        exact hinner b' rfl
      have hharm := mt hcode.mpr hbad
      split
      · next heq => exact absurd (congrArg Prod.fst heq) hbad
      · constructor
        · rw [List.forall_mem_cons]
          exact ⟨fun h => absurd h hbad, fun h => absurd h.1 hharm⟩
        · intro h
          exact absurd (List.forall_mem_cons.mp h).1 hharm

end Arrival

section Run

variable {p : FramingParam}

/-- A client state whose receive buffer, allocated if need be, is that of `a`. -/
structure Arrival.Client (p : FramingParam) (a : Arrival) (st : HttpRecvState) : Prop where
  shown : ∃ b, st.buffer p true = some b ∧ a.Shown b
  recvBytes : st.mRecvBytes = a.mRecvBytes
  calls : st.calls.map HttpCall.packet = a.delivered.map HttpMessage.bytes

theorem Arrival.Shown.client
    {a : Arrival} {b : HttpBuffer} (h : a.Shown b) : a.Client p b.state where
  shown := ⟨b, rfl, h⟩
  recvBytes := h.recvBytes
  calls := h.calls

theorem Arrival.start_client (rs : List HttpMessage) :
    (Arrival.start p rs).Client p .reset where
  shown := ⟨⟨List.replicate p.mMaxPacketSize 0, 0, false, []⟩, rfl, ⟨rfl, rfl, rfl⟩⟩
  recvBytes := rfl
  calls := rfl

theorem Arrival.start_holds
    {rs : List HttpMessage}
    (hwf : ∀ r ∈ rs, r.WellFormed ∧ r.bytes.length ≤ p.mMaxPacketSize) :
    (Arrival.start p rs).Holds p (rs.map HttpMessage.bytes).flatten ∧
    (Arrival.start p rs).Rests := by
  refine ⟨⟨List.length_replicate, Nat.zero_le _, ?_, hwf⟩, ?_⟩
  · simp [Arrival.start]
  · cases rs with
    | nil => rfl
    | cons r rs =>
        have := r.head_length_pos
        show 0 < r.bytes.length
        rw [HttpMessage.bytes, List.length_append]
        omega

theorem arriveAll_holds
    (chunks : List (List UInt8)) (a : Arrival) (hholds : a.Holds p chunks.flatten)
    (hrests : a.Rests) :
    (arriveAll p a chunks).2.Holds p [] ∧ (arriveAll p a chunks).2.Rests := by
  induction chunks generalizing a with
  | nil => exact ⟨hholds, hrests⟩
  | cons c cs ih =>
      rw [List.flatten_cons] at hholds
      obtain ⟨hholds', hrests'⟩ := arrive_holds a c hholds hrests
      exact ih _ hholds' hrests'

/-- After the last chunk nothing is pending. -/
theorem Arrival.Holds.finished
    {a : Arrival} (hholds : a.Holds p []) (hrests : a.Rests) :
    a.pending = [] ∧ a.mRecvBytes = 0 := by
  obtain ⟨buf, n, ds, qs⟩ := a
  cases qs with
  | nil => exact ⟨rfl, hrests⟩
  | cons q qs =>
      have hlt : n < q.bytes.length := hrests
      have hstream := congrArg List.length hholds.stream
      simp only [List.map_cons, List.flatten_cons, List.length_append, List.append_nil,
        List.length_take] at hstream
      omega

/-- Requests move from the pending to the delivered ones, in order. -/
theorem settle_requests
    (qs : List HttpMessage) (buf : List UInt8) (n : Nat) (ds : List HttpMessage) :
    (settle buf n ds qs).delivered ++ (settle buf n ds qs).pending = ds ++ qs := by
  induction qs generalizing buf n ds with
  | nil => rfl
  | cons q qs ih =>
      rw [settle]
      split_ifs
      · rfl
      · rw [ih]
        simp

theorem arrive_requests (a : Arrival) (pData : List UInt8) :
    (arrive p a pData).2.delivered ++ (arrive p a pData).2.pending =
      a.delivered ++ a.pending := by
  induction a, pData using arrive.induct p with
  | case1 a pData hnil => rw [arrive, if_pos hnil]
  | case2 a pData hne hfull => rw [arrive, if_neg hne, if_pos hfull]
  | case3 a pData hne hroom a' ih =>
      rw [arrive, if_neg hne, if_neg hroom]
      exact ih.trans (settle_requests _ _ _ _)

theorem arriveAll_requests (chunks : List (List UInt8)) (a : Arrival) :
    (arriveAll p a chunks).2.delivered ++ (arriveAll p a chunks).2.pending =
      a.delivered ++ a.pending := by
  induction chunks generalizing a with
  | nil => rfl
  | cons c cs ih => exact (ih _).trans (arrive_requests _ _)

/-- The run over all chunks. -/
theorem splitHttpPackets_follows
    (chunks : List (List UInt8)) (a : Arrival) (st : HttpRecvState) (hne : ∀ c ∈ chunks, c ≠ [])
    (hholds : a.Holds p chunks.flatten) (hrests : a.Rests) (hclient : a.Client p st) :
    ((splitHttpPackets p acceptAll st chunks).1 = some .success ↔
      ∀ l ∈ (arriveAll p a chunks).1, harmless p l = true) ∧
    ((∀ l ∈ (arriveAll p a chunks).1, harmless p l = true) →
      (arriveAll p a chunks).2.Client p (splitHttpPackets p acceptAll st chunks).2) := by
  induction chunks generalizing a st with
  | nil => exact ⟨by simp [splitHttpPackets, arriveAll], fun _ => hclient⟩
  | cons c cs ih =>
      have hlen : c.length ≠ 0 := by
        intro h
        exact hne c List.mem_cons_self (List.length_eq_zero_iff.mp h)
      have hne' : ∀ d ∈ cs, d ≠ [] := fun d hd => hne d (List.mem_cons_of_mem _ hd)
      rw [List.flatten_cons] at hholds
      obtain ⟨b, hb, hshown⟩ := hclient.shown
      obtain ⟨hholds', hrests'⟩ := arrive_holds a c hholds hrests
      obtain ⟨hcode, hshow⟩ := splitHttpPacketLoop_follows b c a hholds hrests hshown
      have hchunk :
          splitHttpPacket p acceptAll true st c =
            ((splitHttpPacketLoop p acceptAll b c).1,
              (splitHttpPacketLoop p acceptAll b c).2.state) := by
        rw [splitHttpPacket, if_neg hlen, hb]
      have hall :
          (∀ l ∈ (arriveAll p a (c :: cs)).1, harmless p l = true) ↔
            (∀ l ∈ (arrive p a c).1, harmless p l = true) ∧
              ∀ l ∈ (arriveAll p (arrive p a c).2 cs).1, harmless p l = true :=
        List.forall_mem_append
      rw [hall, splitHttpPackets, hchunk]
      by_cases hok : ∀ l ∈ (arrive p a c).1, harmless p l = true
      · obtain ⟨hiff, hlater⟩ :=
          ih (arrive p a c).2 _ hne' hholds' hrests' (hshow hok).client
        rw [hcode.mpr hok]
        refine ⟨?_, fun h => hlater h.2⟩
        rw [hiff]
        exact ⟨fun h => ⟨hok, h⟩, fun h => h.2⟩
      · have hbad := mt hcode.mp hok
        refine ⟨?_, fun h => absurd h.1 hok⟩
        split
        · next heq => exact absurd (congrArg Prod.fst heq) hbad
        · exact ⟨fun h => absurd h hbad, fun h => absurd h.1 hok⟩

/-- What a run that delivers the requests `rs` ends with. -/
structure Delivered (p : FramingParam) (rs : List HttpMessage)
    (chunks : List (List UInt8)) : Prop where
  code : (splitHttpPackets p acceptAll .reset chunks).1 = some .success
  calls :
    (splitHttpPackets p acceptAll .reset chunks).2.calls.map HttpCall.packet =
      rs.map HttpMessage.bytes
  recvBytes : (splitHttpPackets p acceptAll .reset chunks).2.mRecvBytes = 0

/--
**When a request stream is delivered.**  Whatever way a stream of well-formed
requests is cut, the splitter returns zero on every chunk, delivers exactly
these requests and is left with an empty buffer if and only if every scan of a
left-over buffer is harmless.
-/
theorem splitHttpPackets_delivered_iff
    (p : FramingParam) {rs : List HttpMessage} {chunks : List (List UInt8)}
    (hwf : ∀ r ∈ rs, r.WellFormed ∧ r.bytes.length ≤ p.mMaxPacketSize)
    (hcut : IsCut (rs.map HttpMessage.bytes).flatten chunks) :
    Delivered p rs chunks ↔ ∀ buf ∈ leftovers p rs chunks, harmless p buf = true := by
  obtain ⟨hholds, hrests⟩ := Arrival.start_holds hwf
  rw [← hcut.flatten] at hholds
  obtain ⟨hcode, hclient⟩ :=
    splitHttpPackets_follows chunks _ _ hcut.nonempty hholds hrests (Arrival.start_client rs)
  constructor
  · intro h
    exact hcode.mp h.code
  · intro h
    obtain ⟨hholds', hrests'⟩ := arriveAll_holds chunks _ hholds hrests
    obtain ⟨hpending, hzero⟩ := hholds'.finished hrests'
    have hrequests := arriveAll_requests (p := p) chunks (Arrival.start p rs)
    rw [hpending, List.append_nil] at hrequests
    have hdelivered : (arriveAll p (.start p rs) chunks).2.delivered = rs := hrequests
    refine ⟨hcode.mpr h, ?_, ?_⟩
    · rw [(hclient h).calls, hdelivered]
    · rw [(hclient h).recvBytes, hzero]

section Examples

/-- A receive buffer of 64 bytes. -/
def smallBuffer : FramingParam where
  mMaxPacketSize := 64
  mPacketSizeOffset := 0
  maxPacketSize_pos := by decide
  maxPacketSize_le := by decide
  packetSizeOffset_le := firstField_le

/-- `"A\r\nContent-Length:6\r\n\r\n-1\r\n\r\n"`. -/
def negativeBody : HttpMessage :=
  { requestLine := [65]
    fields := [⟨contentLengthName, 0, [54]⟩]
    body := [45, 49, 13, 10, 13, 10] }

/-- `"ABCDEF\r\nContent-Length:1\r\n\r\nx"`. -/
def oneByteBody : HttpMessage :=
  { requestLine := [65, 66, 67, 68, 69, 70]
    fields := [⟨contentLengthName, 0, [49]⟩]
    body := [120] }

theorem negativeBody_wellFormed : negativeBody.WellFormed where
  requestLine := by decide
  fields := by decide
  unique := by decide
  value := List.forall_mem_singleton.mpr fun _ =>
    ⟨by decide, List.forall_mem_singleton.mpr (by decide), by decide⟩
  absent := by decide

theorem oneByteBody_wellFormed : oneByteBody.WellFormed where
  requestLine := by decide
  fields := by decide
  unique := by decide
  value := List.forall_mem_singleton.mpr fun _ =>
    ⟨by decide, List.forall_mem_singleton.mpr (by decide), by decide⟩
  absent := by decide

theorem exampleRequests_wellFormed :
    ∀ r ∈ [negativeBody, oneByteBody],
      r.WellFormed ∧ r.bytes.length ≤ smallBuffer.mMaxPacketSize := by
  simp only [List.forall_mem_cons, List.not_mem_nil, false_implies, implies_true, and_true]
  exact ⟨⟨negativeBody_wellFormed, by decide⟩, ⟨oneByteBody_wellFormed, by decide⟩⟩

/--
The second request is cut behind `Content-Length:`; the scan reads the body of
the first one as its value.
-/
theorem splitHttpPackets_stale_length :
    (∀ r ∈ [negativeBody, oneByteBody],
      r.WellFormed ∧ r.bytes.length ≤ smallBuffer.mMaxPacketSize) ∧
    IsCut ([negativeBody, oneByteBody].map HttpMessage.bytes).flatten
      [negativeBody.bytes, oneByteBody.bytes.take 23, oneByteBody.bytes.drop 23] ∧
    ¬ Delivered smallBuffer [negativeBody, oneByteBody]
      [negativeBody.bytes, oneByteBody.bytes.take 23, oneByteBody.bytes.drop 23] := by
  refine ⟨exampleRequests_wellFormed, ⟨by decide, by decide⟩, ?_⟩
  intro h
  exact absurd h.code (by decide +kernel)

/-- Cut between the requests, the same stream is delivered. -/
theorem splitHttpPackets_delivered_iff_example :
    Delivered smallBuffer [negativeBody, oneByteBody]
      [negativeBody.bytes, oneByteBody.bytes] :=
  (splitHttpPackets_delivered_iff smallBuffer exampleRequests_wellFormed
    ⟨by decide, by decide⟩).mpr (by decide +kernel)

end Examples

end Run

end Http
end IocpNetlib
