import IocpNetlib.Lib.Framer
import IocpNetlib.Tcp.SplitPacket

/-!
# The TCP splitter does not depend on how the stream is cut

`tcpFramer` is the framing rule of the protocol on an unbounded buffer.  The
inner loop of `SplitPacket` is `drain` of that framer on the received bytes,
the outer loop feeds it the chunk piece by piece, and a run over any cutting
of a stream therefore ends as `drain` of the whole stream does.
-/

namespace IocpNetlib
namespace Tcp

open ByteBlock Framing

section Framer

variable (p : FramingParam)

/--
Verdict of the TCP framing rule.  When the length field does not fit into the
buffer no packet is ever found, and one byte more than the buffer is illegal.
-/
def tcpVerdict (b : List UInt8) : Verdict :=
  if p.mMaxPacketSize < p.mPacketSizeOffset + 4 then
    if p.mMaxPacketSize < b.length then .illegal else .wait
  else if b.length < p.mPacketSizeOffset + 4 then .wait
  else if int32At b p.mPacketSizeOffset < 0 ∨
      (int32At b p.mPacketSizeOffset).toNat < 4 ∨
      p.mMaxPacketSize < int32At b p.mPacketSizeOffset then .illegal
  else if b.length < int32At b p.mPacketSizeOffset then .wait
  else .packet (int32At b p.mPacketSizeOffset).toNat

variable {p}

theorem tcpVerdict_packet_iff
    {b : List UInt8} {n : Nat} :
    tcpVerdict p b = .packet n ↔
      p.mPacketSizeOffset + 4 ≤ b.length ∧ p.mPacketSizeOffset + 4 ≤ p.mMaxPacketSize ∧
        int32At b p.mPacketSizeOffset = n ∧ 4 ≤ n ∧ n ≤ p.mMaxPacketSize ∧
        n ≤ b.length := by
  rw [tcpVerdict]
  generalize int32At b p.mPacketSizeOffset = k
  constructor
  · intro h
    split_ifs at h with h₁ h₂ h₃ h₄ h₅
    injection h with hn
    omega
  · rintro ⟨h₁, h₂, rfl, h₄, h₅, h₆⟩
    rw [if_neg (by omega), if_neg (by omega), if_neg (by omega),
      if_neg (by omega), Int.toNat_natCast]

theorem tcpVerdict_illegal_stable
    {b : List UInt8} (c : List UInt8)
    (h : tcpVerdict p b = .illegal) :
    tcpVerdict p (b ++ c) = .illegal := by
  have hlen : (b ++ c).length = b.length + c.length := List.length_append
  rw [tcpVerdict] at h ⊢
  split_ifs at h with h₁ h₂ h₃ h₄ h₅
  · rw [if_pos h₁, if_pos (by omega)]
  · rw [if_neg h₁, if_neg (by omega), int32At_append (by omega), if_pos h₄]

/-- Only a buffer too small for the length field can fill up without a verdict. -/
theorem tcpVerdict_wait_full
    {b : List UInt8}
    (h : tcpVerdict p b = .wait)
    (hfull : p.mMaxPacketSize ≤ b.length) :
    p.mMaxPacketSize < p.mPacketSizeOffset + 4 := by
  rw [tcpVerdict] at h
  split_ifs at h <;> omega

variable (p)

/-- The framing rule of the TCP protocol. -/
def tcpFramer : Framer UInt8 where
  verdict := tcpVerdict p
  packet_pos := by
    intro b n h
    have := tcpVerdict_packet_iff.mp h
    omega
  packet_le := by
    intro b n h
    have := tcpVerdict_packet_iff.mp h
    omega
  packet_stable := by
    intro b n c h
    obtain ⟨h₁, h₂, h₃, h₄, h₅, h₆⟩ := tcpVerdict_packet_iff.mp h
    have hlen : (b ++ c).length = b.length + c.length := List.length_append
    rw [tcpVerdict_packet_iff, int32At_append h₁]
    exact ⟨by omega, h₂, h₃, h₄, h₅, by omega⟩
  illegal_stable := fun c h => tcpVerdict_illegal_stable c h

/-- The code `SplitPacket` returns when draining ends. -/
def codeOf : Stop → NetServiceErr
  | .waiting => .success
  | .illegal => .illegalRecvPacket
  | .refused => .beClosed

@[simp] theorem codeOf_eq_success_iff (s : Stop) :
    codeOf s = .success ↔ s = .waiting := by
  cases s <;> simp [codeOf]

/-- A splitter result describes the same receiver as a drained buffer. -/
structure SplitResult.Matches (r : SplitResult) (d : Drained UInt8) : Prop where
  ret : r.ret = codeOf d.stop
  calls : r.calls = d.out
  length : r.mRecvPacketBuffer.length = p.mMaxPacketSize
  bytes : r.mRecvBytes ≤ p.mMaxPacketSize
  rest : r.mRecvPacketBuffer.take r.mRecvBytes = d.rest

end Framer

section Refinement

variable (p : FramingParam)
variable (onReceived : List (List UInt8) → Int)

/-- The packets the application takes are those it answers with zero. -/
def accepts (out : List (List UInt8)) : Bool :=
  onReceived out = 0

/-- **The inner loop drains the received bytes.** -/
theorem splitPacketInner_matches
    (mRecvBytes : Nat) :
    ∀ (buf : List UInt8) (calls : List (List UInt8)),
      buf.length = p.mMaxPacketSize → mRecvBytes ≤ p.mMaxPacketSize →
        (splitPacketInner p onReceived buf mRecvBytes calls).Matches p
          (drain (tcpFramer p) (accepts onReceived) calls
            (buf.take mRecvBytes)) := by
  induction mRecvBytes using Nat.strongRecOn with
  | ind m ih =>
      intro buf calls hbuf hm
      have hlen : (buf.take m).length = m := by
        rw [List.length_take]
        omega
      rw [splitPacketInner]
      by_cases hfield : m < p.mPacketSizeOffset + 4
      · have hv : (tcpFramer p).verdict (buf.take m) = .wait := by
          show tcpVerdict p (buf.take m) = .wait
          rw [tcpVerdict]
          rw [hlen]
          split_ifs
          · omega
          · rfl
          · rfl
        rw [if_pos hfield, drain_wait hv]
        exact ⟨rfl, rfl, hbuf, hm, rfl⟩
      · rw [if_neg hfield]
        have hsize :
            int32At (buf.take m) p.mPacketSizeOffset =
              int32At buf p.mPacketSizeOffset :=
          int32At_eq_of_take_eq (n := m) (by omega)
            (by rw [List.take_take, Nat.min_self])
        generalize hn : int32At buf p.mPacketSizeOffset = n at hsize ⊢
        dsimp only
        by_cases hillegal : n < 0 ∨ n.toNat < 4 ∨ p.mMaxPacketSize < n
        · have hv : (tcpFramer p).verdict (buf.take m) = .illegal := by
            show tcpVerdict p (buf.take m) = .illegal
            rw [tcpVerdict]
            rw [hlen, hsize, if_neg (by omega), if_neg (by omega), if_pos hillegal]
          rw [dif_pos hillegal, drain_illegal hv]
          exact ⟨rfl, rfl, hbuf, hm, rfl⟩
        · rw [dif_neg hillegal]
          by_cases hshort : (m : Int) < n
          · have hv : (tcpFramer p).verdict (buf.take m) = .wait := by
              show tcpVerdict p (buf.take m) = .wait
              rw [tcpVerdict]
              rw [hlen, hsize, if_neg (by omega), if_neg (by omega),
                if_neg hillegal, if_pos hshort]
            rw [dif_pos hshort, drain_wait hv]
            exact ⟨rfl, rfl, hbuf, hm, rfl⟩
          · obtain ⟨k, rfl⟩ : ∃ k : Nat, n = k :=
              ⟨n.toNat, by omega⟩
            rw [dif_neg hshort, Int.toNat_natCast]
            have hv : (tcpFramer p).verdict (buf.take m) = .packet k := by
              show tcpVerdict p (buf.take m) = .packet k
              rw [tcpVerdict_packet_iff, hlen, hsize]
              exact ⟨by omega, by omega, rfl, by omega, by omega, by omega⟩
            have hpacket : (buf.take m).take k = buf.take k := by
              rw [List.take_take, Nat.min_eq_left (by omega)]
            rw [drain_packet hv, hpacket]
            by_cases hacc : onReceived (calls ++ [buf.take k]) = 0
            · have hret : ¬ onReceived (calls ++ [buf.take k]) ≠ 0 := not_not.mpr hacc
              have haccepts : accepts onReceived (calls ++ [buf.take k]) = true := by
                simpa [accepts] using hacc
              rw [if_neg hret, if_pos haccepts]
              have hrest :
                  (if 0 < m - k then memmove buf 0 k (m - k) else buf).take (m - k) =
                    (buf.take m).drop k := by
                rw [List.drop_take]
                split_ifs with hpos
                · exact take_memmove_zero (by omega)
                · have hzero : m - k = 0 := by omega
                  simp [hzero]
              have hlength :
                  (if 0 < m - k then memmove buf 0 k (m - k) else buf).length =
                    p.mMaxPacketSize := by
                split_ifs
                · rw [length_memmove k (by omega), hbuf]
                · exact hbuf
              rw [← hrest]
              exact ih (m - k) (by omega) _ _ hlength (by omega)
            · have haccepts : ¬ accepts onReceived (calls ++ [buf.take k]) = true := by
                simpa [accepts] using hacc
              rw [if_pos hacc, if_neg haccepts]
              exact ⟨rfl, rfl, hbuf, hm, rfl⟩

/-- **The outer loop feeds the chunk to the draining receiver.** -/
theorem splitPacketLoop_matches
    (pData : List UInt8) :
    ∀ (buf : List UInt8) (mRecvBytes : Nat) (calls : List (List UInt8)),
      buf.length = p.mMaxPacketSize → mRecvBytes ≤ p.mMaxPacketSize →
      (tcpFramer p).verdict (buf.take mRecvBytes) = .wait →
        ∃ d, (splitPacketLoop p onReceived buf mRecvBytes calls pData).Matches p d ∧
          d.Agree (drain (tcpFramer p) (accepts onReceived) calls
            (buf.take mRecvBytes ++ pData)) := by
  induction hsize : pData.length using Nat.strongRecOn generalizing pData with
  | ind n ih =>
      intro buf m calls hbuf hm hwait
      have hlen : (buf.take m).length = m := by
        rw [List.length_take]
        omega
      rw [splitPacketLoop]
      by_cases hempty : pData.length = 0
      · rw [if_pos hempty]
        have hnil : pData = [] := List.length_eq_zero_iff.mp hempty
        subst hnil
        refine ⟨⟨.waiting, buf.take m, calls⟩, ⟨rfl, rfl, hbuf, hm, rfl⟩, ?_⟩
        rw [List.append_nil, drain_wait hwait]
        exact ⟨rfl, rfl, fun _ => rfl⟩
      · rw [if_neg hempty]
        by_cases hcopy : min pData.length (p.mMaxPacketSize - m) = 0
        · -- the buffer is full and still no packet: the length field never fits
          have hfull : (buf.take m ++ pData).length = m + pData.length := by
            rw [List.length_append, hlen]
          have hfield := tcpVerdict_wait_full hwait (by omega)
          have hv : (tcpFramer p).verdict (buf.take m ++ pData) = .illegal := by
            show tcpVerdict p (buf.take m ++ pData) = .illegal
            rw [tcpVerdict]
            rw [if_pos hfield, if_pos (by omega)]
          rw [if_pos hcopy]
          refine ⟨⟨.illegal, buf.take m, calls⟩, ⟨rfl, rfl, hbuf, hm, rfl⟩, ?_⟩
          rw [drain_illegal hv]
          exact ⟨rfl, rfl, fun h => nomatch h⟩
        · rw [if_neg hcopy]
          generalize hk : min pData.length (p.mMaxPacketSize - m) = k at hcopy ⊢
          have hpiece : (pData.take k).length = k := by
            rw [List.length_take]
            omega
          have hcopied : (memcpy buf m (pData.take k)).length = p.mMaxPacketSize := by
            rw [length_memcpy (by omega), hbuf]
          have hbytes :
              (memcpy buf m (pData.take k)).take (m + k) = buf.take m ++ pData.take k := by
            have h := take_memcpy buf (pData.take k) (show m ≤ buf.length by omega)
            rwa [hpiece] at h
          have hinner :=
            splitPacketInner_matches p onReceived (m + k)
              (memcpy buf m (pData.take k)) calls hcopied (by omega)
          rw [hbytes] at hinner
          have hsplit :
              buf.take m ++ pData = (buf.take m ++ pData.take k) ++ pData.drop k := by
            rw [List.append_assoc, List.take_append_drop]
          rw [hsplit]
          generalize splitPacketInner p onReceived
            (memcpy buf m (pData.take k)) (m + k) calls = r at hinner ⊢
          obtain ⟨ret, buf', m', calls'⟩ := r
          by_cases hstop :
              (drain (tcpFramer p) (accepts onReceived) calls
                (buf.take m ++ pData.take k)).stop = .waiting
          · have hret : ret = .success := hinner.ret.trans (by rw [hstop]; rfl)
            subst hret
            rw [drain_append_of_waiting _ _ _ hstop, ← hinner.calls, ← hinner.rest]
            have hdropped : (pData.drop k).length < n := by
              rw [List.length_drop]
              omega
            refine ih _ hdropped (pData.drop k) rfl buf' m' calls'
              hinner.length hinner.bytes ?_
            have hv := verdict_rest_of_waiting (F := tcpFramer p) _ _ hstop
            rwa [← hinner.rest] at hv
          · obtain ⟨hs, ho⟩ :=
              drain_append_of_stopped (buf.take m ++ pData.take k)
                (pData.drop k) calls hstop
            have hret : ret ≠ .success := by
              intro h
              exact hstop ((codeOf_eq_success_iff _).mp (hinner.ret.symm.trans h))
            refine ⟨_, ?_, ⟨hs.symm, ho.symm, fun h => absurd h hstop⟩⟩
            cases ret <;> first | exact absurd rfl hret | exact hinner

/-- A client between two chunks, and the waiting receiver it implements. -/
structure RecvState.Holds (st : RecvState) (d : Drained UInt8) : Prop where
  bytes : st.mRecvBytes ≤ p.mMaxPacketSize
  length : ∀ buf, st.mRecvPacketBuffer = some buf → buf.length = p.mMaxPacketSize
  rest : st.residual = d.rest
  calls : st.calls = d.out
  unallocated : st.mRecvPacketBuffer = none → st.mRecvBytes = 0
  waiting : d.stop = .waiting
  verdict : (tcpFramer p).verdict d.rest = .wait

theorem RecvState.Holds.rest_eq_take
    {st : RecvState} {d : Drained UInt8} (h : st.Holds p d)
    {buf : List UInt8} (hbuf : st.mRecvPacketBuffer = some buf) :
    d.rest = buf.take st.mRecvBytes := by
  rw [← h.rest]
  simp [RecvState.residual, hbuf]

/-- A client between two chunks counts exactly the bytes it holds. -/
theorem RecvState.Holds.length_residual
    {p : FramingParam} {st : RecvState} {d : Drained UInt8} (h : st.Holds p d) :
    st.residual.length = st.mRecvBytes := by
  rw [RecvState.residual]
  cases hbuf : st.mRecvPacketBuffer with
  | none =>
      simp [h.unallocated hbuf]
  | some buf =>
      have hbytes := h.bytes
      have hlength := h.length buf hbuf
      simp only [Option.getD_some, List.length_take]
      omega

theorem holds_reset : RecvState.reset.Holds p Drained.fresh where
  bytes := Nat.zero_le _
  length := fun _ h => nomatch h
  rest := rfl
  calls := rfl
  unallocated := fun _ => rfl
  waiting := rfl
  verdict := by
    show tcpVerdict p [] = .wait
    rw [tcpVerdict]
    have hpos := p.maxPacketSize_pos
    split_ifs <;> simp_all

/-- What a run of the splitter shows of a receiver. -/
structure Shows (r : NetServiceErr × RecvState) (d : Drained UInt8) : Prop where
  ret : r.1 = codeOf d.stop
  calls : r.2.calls = d.out
  holds : d.stop = .waiting → r.2.Holds p d

theorem shows_of_matches
    {r : SplitResult} {d : Drained UInt8} (h : r.Matches p d)
    (hv : d.stop = .waiting → (tcpFramer p).verdict d.rest = .wait) :
    Shows p (r.ret, ⟨some r.mRecvPacketBuffer, r.mRecvBytes, r.calls⟩) d where
  ret := h.ret
  calls := h.calls
  holds := fun hw =>
    { bytes := h.bytes
      length := fun buf hbuf => by
        injection hbuf with hbuf
        exact hbuf ▸ h.length
      rest := by simpa [RecvState.residual] using h.rest
      calls := h.calls
      unallocated := fun hnone => nomatch hnone
      waiting := hw
      verdict := hv hw }

/-- **One call of `SplitPacket` feeds one chunk.** -/
theorem splitPacket_shows
    {st : RecvState} {d : Drained UInt8} (h : st.Holds p d)
    (pData : List UInt8) :
    ∃ e, Shows p (splitPacket p onReceived true st pData) e ∧
      e.Agree (feed (tcpFramer p) (accepts onReceived) d pData) := by
  have hfeed :
      feed (tcpFramer p) (accepts onReceived) d pData =
        drain (tcpFramer p) (accepts onReceived) d.out (d.rest ++ pData) := by
    simp [feed, h.waiting]
  rw [hfeed]
  rw [splitPacket]
  by_cases hempty : pData.length = 0
  · have hnil : pData = [] := List.length_eq_zero_iff.mp hempty
    subst hnil
    refine ⟨d, ⟨?_, h.calls, fun _ => h⟩, ?_⟩
    · simp [h.waiting, codeOf]
    · rw [List.append_nil, drain_wait h.verdict]
      exact ⟨h.waiting, rfl, fun _ => rfl⟩
  · rw [if_neg hempty]
    have hloop (buf : List UInt8) (m : Nat)
        (hbuf : buf.length = p.mMaxPacketSize) (hm : m ≤ p.mMaxPacketSize)
        (hrest : d.rest = buf.take m) :
        ∃ e, Shows p
            ((splitPacketLoop p onReceived buf m st.calls pData).ret,
              ⟨some (splitPacketLoop p onReceived buf m st.calls pData).mRecvPacketBuffer,
                (splitPacketLoop p onReceived buf m st.calls pData).mRecvBytes,
                (splitPacketLoop p onReceived buf m st.calls pData).calls⟩) e ∧
          e.Agree (drain (tcpFramer p) (accepts onReceived) d.out
            (d.rest ++ pData)) := by
      have hv := h.verdict
      rw [hrest] at hv ⊢
      obtain ⟨e, hmatch, hagree⟩ :=
        splitPacketLoop_matches p onReceived pData buf m st.calls hbuf hm hv
      rw [h.calls] at hagree hmatch ⊢
      refine ⟨e, shows_of_matches p hmatch ?_, hagree⟩
      intro hw
      rw [hagree.rest hw]
      exact verdict_rest_of_waiting _ _ (hagree.stop ▸ hw)
    cases hbuf : st.mRecvPacketBuffer with
    | some buf =>
        exact hloop buf st.mRecvBytes (h.length buf hbuf) h.bytes
          (h.rest_eq_take p hbuf)
    | none =>
        have hrest : d.rest = (List.replicate p.mMaxPacketSize 0).take 0 := by
          rw [← h.rest]
          simp [RecvState.residual, hbuf]
        exact hloop _ 0 List.length_replicate (Nat.zero_le _) hrest

/-- **A run of `SplitPacket` feeds the chunks in order.** -/
theorem splitPackets_shows
    (chunks : List (List UInt8)) :
    ∀ {st : RecvState} {d : Drained UInt8}, st.Holds p d →
      ∃ e, Shows p (splitPackets p onReceived st chunks) e ∧
        e.Agree (feedAll (tcpFramer p) (accepts onReceived) d chunks) := by
  induction chunks with
  | nil =>
      intro st d h
      exact ⟨d, ⟨by simp [splitPackets, h.waiting, codeOf], h.calls, fun _ => h⟩,
        rfl, rfl, fun _ => rfl⟩
  | cons c cs ih =>
      intro st d h
      obtain ⟨e, hshows, hagree⟩ := splitPacket_shows p onReceived h c
      have hcons :
          feedAll (tcpFramer p) (accepts onReceived) d (c :: cs) =
            feedAll (tcpFramer p) (accepts onReceived)
              (feed (tcpFramer p) (accepts onReceived) d c) cs := rfl
      rw [hcons]
      have hrun := hagree.feedAll (tcpFramer p) (accepts onReceived) cs
      rw [splitPackets]
      generalize splitPacket p onReceived true st c = r at hshows ⊢
      obtain ⟨ret, st'⟩ := r
      by_cases hw : e.stop = .waiting
      · have hret : ret = .success := hshows.ret.trans (by rw [hw]; rfl)
        subst hret
        obtain ⟨f, hf, hfe⟩ := ih (hshows.holds hw)
        exact ⟨f, hf, hfe.trans hrun⟩
      · have hret : ret ≠ .success := by
          intro hr
          exact hw ((codeOf_eq_success_iff _).mp (hshows.ret.symm.trans hr))
        rw [feedAll_of_stopped hw] at hrun
        refine ⟨e, ?_, hrun⟩
        cases ret <;> first | exact absurd rfl hret | exact hshows

/-- A run from a fresh client shows what draining the whole stream does. -/
theorem splitPackets_reset_shows
    (chunks : List (List UInt8)) :
    ∃ e, Shows p (splitPackets p onReceived .reset chunks) e ∧
      e.Agree (drain (tcpFramer p) (accepts onReceived) [] chunks.flatten) := by
  obtain ⟨e, hshows, hagree⟩ :=
    splitPackets_shows p onReceived chunks (holds_reset p)
  have hdrain :=
    feedAll_agree (tcpFramer p) (accepts onReceived) chunks Drained.fresh rfl
      (holds_reset p).verdict
  exact ⟨e, hshows, hagree.trans hdrain⟩

end Refinement

/--
**Framing does not depend on how the stream is cut.**  Two runs over one
stream make the same calls, return the same code and, when the code is zero,
leave the same bytes.
-/
theorem splitPackets_cut_independent
    (p : FramingParam) (onReceived : List (List UInt8) → Int)
    (stream : List UInt8) (cs ds : List (List UInt8))
    (hcs : IsCut stream cs) (hds : IsCut stream ds) :
    (splitPackets p onReceived .reset cs).2.calls =
        (splitPackets p onReceived .reset ds).2.calls ∧
    (splitPackets p onReceived .reset cs).1 =
        (splitPackets p onReceived .reset ds).1 ∧
    ((splitPackets p onReceived .reset cs).1 = .success →
      (splitPackets p onReceived .reset cs).2.mRecvBytes =
          (splitPackets p onReceived .reset ds).2.mRecvBytes ∧
      (splitPackets p onReceived .reset cs).2.residual =
          (splitPackets p onReceived .reset ds).2.residual) := by
  obtain ⟨d, hd, hdrain⟩ := splitPackets_reset_shows p onReceived cs
  obtain ⟨e, he, hdrain'⟩ := splitPackets_reset_shows p onReceived ds
  rw [hcs.flatten] at hdrain
  rw [hds.flatten] at hdrain'
  have hagree : d.Agree e := hdrain.trans hdrain'.symm
  refine ⟨?_, ?_, ?_⟩
  · rw [hd.calls, he.calls, hagree.out]
  · rw [hd.ret, he.ret, hagree.stop]
  · intro hret
    have hw : d.stop = .waiting :=
      (codeOf_eq_success_iff _).mp (hd.ret.symm.trans hret)
    have hholds := hd.holds hw
    have hholds' := he.holds (hagree.stop ▸ hw)
    have hresidual :
        (splitPackets p onReceived .reset cs).2.residual =
          (splitPackets p onReceived .reset ds).2.residual := by
      rw [hholds.rest, hholds'.rest, hagree.rest hw]
    refine ⟨?_, hresidual⟩
    have hlen := congrArg List.length hresidual
    rwa [hholds.length_residual, hholds'.length_residual] at hlen

/-- The same two packets, cut inside the first length field or not at all. -/
theorem splitPackets_cut_independent_example :
    (splitPackets
      { mMaxPacketSize := 6, mPacketSizeOffset := 0,
        maxPacketSize_pos := by decide, maxPacketSize_le := by decide,
        packetSizeOffset_le := by decide }
      (fun out => if out.length = 2 then 1 else 0) .reset
      [[4, 0], [0, 0, 4, 0, 0], [0]]).2.calls =
    (splitPackets
      { mMaxPacketSize := 6, mPacketSizeOffset := 0,
        maxPacketSize_pos := by decide, maxPacketSize_le := by decide,
        packetSizeOffset_le := by decide }
      (fun out => if out.length = 2 then 1 else 0) .reset
      [[4, 0, 0, 0, 4, 0, 0, 0]]).2.calls :=
  (splitPackets_cut_independent _ _ [4, 0, 0, 0, 4, 0, 0, 0] _ _
    ⟨by decide, by decide⟩ ⟨by decide, by decide⟩).1

end Tcp
end IocpNetlib
