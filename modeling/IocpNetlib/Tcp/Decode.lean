import IocpNetlib.Tcp.CutIndependence
import Mathlib.Tactic.FinCases

/-!
# The TCP splitter decodes what a conforming sender encodes

A conforming packet carries its own length, little-endian, at the configured
offset.  Whatever the cutting of a stream of conforming packets, after each
chunk exactly the packets whose last byte has arrived are delivered.
-/

namespace IocpNetlib
namespace Tcp

open ByteBlock Framing

/-- A packet as a conforming sender builds it. -/
structure Conforming (p : FramingParam) (packet : List UInt8) : Prop where
  lower : p.mPacketSizeOffset + 4 ≤ packet.length
  upper : packet.length ≤ p.mMaxPacketSize
  field :
    (packet.drop p.mPacketSizeOffset).take 4 = leBytes 4 packet.length

/-- The packets whose last byte is among the first `n` bytes of the stream. -/
def completed : List (List UInt8) → Nat → List (List UInt8)
  | [], _ => []
  | q :: qs, n =>
      if q.length ≤ n then q :: completed qs (n - q.length) else []

theorem completed_flatten_length (packets : List (List UInt8)) :
    completed packets packets.flatten.length = packets := by
  induction packets with
  | nil => rfl
  | cons q qs ih =>
      have hle : q.length ≤ (q :: qs).flatten.length := by
        simp only [List.flatten_cons, List.length_append]
        omega
      have hrest : (q :: qs).flatten.length - q.length = qs.flatten.length := by
        simp only [List.flatten_cons, List.length_append]
        omega
      rw [completed, if_pos hle, hrest, ih]

theorem completed_subset (packets : List (List UInt8)) (n : Nat) (q : List UInt8)
    (h : q ∈ completed packets n) : q ∈ packets := by
  induction packets generalizing n with
  | nil => exact absurd h List.not_mem_nil
  | cons r rs ih =>
      rw [completed] at h
      split_ifs at h
      · rcases List.mem_cons.mp h with rfl | h
        · exact List.mem_cons_self
        · exact List.mem_cons_of_mem _ (ih _ h)
      · exact absurd h List.not_mem_nil

section Decode

variable {p : FramingParam}

theorem Conforming.int32At_append
    {packet : List UInt8} (h : Conforming p packet) (c : List UInt8) :
    int32At (packet ++ c) p.mPacketSizeOffset = packet.length := by
  have hmax := p.maxPacketSize_le
  have hupper := h.upper
  have hfield := int32At_of_field (by unfold intMax at hmax; omega) h.field
  rw [ByteBlock.int32At_append h.lower, hfield]

/-- A complete conforming packet is found, whatever follows it. -/
theorem Conforming.verdict_append
    {packet : List UInt8} (h : Conforming p packet) (c : List UInt8) :
    (tcpFramer p).verdict (packet ++ c) = .packet packet.length := by
  show tcpVerdict p (packet ++ c) = _
  have hlower := h.lower
  have hupper := h.upper
  have hlen : (packet ++ c).length = packet.length + c.length :=
    List.length_append
  rw [tcpVerdict_packet_iff, h.int32At_append c]
  exact ⟨by omega, by omega, rfl, by omega, hupper, by omega⟩

/-- A conforming packet whose last byte is missing makes the splitter wait. -/
theorem Conforming.verdict_take
    {packet : List UInt8} (h : Conforming p packet)
    {n : Nat} (hn : n < packet.length) :
    (tcpFramer p).verdict (packet.take n) = .wait := by
  show tcpVerdict p (packet.take n) = .wait
  have hlower := h.lower
  have hupper := h.upper
  have hlen : (packet.take n).length = n := by
    rw [List.length_take]
    omega
  rw [tcpVerdict]
  rw [hlen, if_neg (by omega)]
  by_cases hfield : n < p.mPacketSizeOffset + 4
  · rw [if_pos hfield]
  · have hsize :
        int32At (packet.take n) p.mPacketSizeOffset = packet.length := by
      have h₁ :
          int32At (packet.take n) p.mPacketSizeOffset =
            int32At packet p.mPacketSizeOffset :=
        int32At_eq_of_take_eq (by omega : p.mPacketSizeOffset + 4 ≤ n)
          (by rw [List.take_take, Nat.min_self])
      have h₂ := h.int32At_append []
      rw [List.append_nil] at h₂
      exact h₁.trans h₂
    rw [if_neg hfield, hsize, if_neg (by omega), if_pos (by omega)]

/--
The first `n` bytes of a conforming stream are the packets completed by them
and a rest in which the splitter finds nothing.
-/
theorem take_flatten_completed (packets : List (List UInt8))
    (hconf : ∀ q ∈ packets, Conforming p q) (n : Nat) :
    ∃ tail, packets.flatten.take n = (completed packets n).flatten ++ tail ∧
      (tcpFramer p).verdict tail = .wait := by
  induction packets generalizing n with
  | nil => exact ⟨[], by simp [completed], (holds_reset p).verdict⟩
  | cons q qs ih =>
      have hq := hconf q List.mem_cons_self
      by_cases hle : q.length ≤ n
      · obtain ⟨tail, htake, hwait⟩ :=
          ih (fun r hr => hconf r (List.mem_cons_of_mem _ hr)) (n - q.length)
        refine ⟨tail, ?_, hwait⟩
        rw [List.flatten_cons, List.take_append, List.take_of_length_le hle, htake,
          completed, if_pos hle, List.flatten_cons, List.append_assoc]
      · refine ⟨q.take n, ?_, hq.verdict_take (by omega)⟩
        rw [List.flatten_cons, List.take_append_of_le_length (by omega),
          completed, if_neg hle, List.flatten_nil, List.nil_append]

/-- Draining conforming packets delivers them one by one. -/
theorem drain_conforming
    (onReceived : List (List UInt8) → Int) (hzero : ∀ out, onReceived out = 0)
    {tail : List UInt8} (htail : (tcpFramer p).verdict tail = .wait)
    (packets out : List (List UInt8)) (hconf : ∀ q ∈ packets, Conforming p q) :
    drain (tcpFramer p) (accepts onReceived) out (packets.flatten ++ tail) =
      { stop := .waiting, rest := tail, out := out ++ packets } := by
  induction packets generalizing out with
  | nil => rw [List.flatten_nil, List.nil_append, List.append_nil, drain_wait htail]
  | cons q qs ih =>
      have hq := hconf q List.mem_cons_self
      have hacc (o : List (List UInt8)) : accepts onReceived o = true := by
        simp [accepts, hzero o]
      rw [List.flatten_cons, List.append_assoc, drain_packet (hq.verdict_append _),
        List.take_left, List.drop_left, if_pos (hacc _),
        ih (out ++ [q]) (fun r hr => hconf r (List.mem_cons_of_mem _ hr)), List.append_assoc,
        List.singleton_append]

/-- **What a run over the first bytes of a conforming stream shows.** -/
theorem splitPackets_prefix
    (onReceived : List (List UInt8) → Int) (hzero : ∀ out, onReceived out = 0)
    {packets : List (List UInt8)} (hconf : ∀ q ∈ packets, Conforming p q)
    {chunks : List (List UInt8)} {n : Nat}
    (hflat : chunks.flatten = packets.flatten.take n) :
    (splitPackets p onReceived .reset chunks).1 = .success ∧
    (splitPackets p onReceived .reset chunks).2.calls = completed packets n ∧
    (splitPackets p onReceived .reset chunks).2.mRecvBytes =
      (packets.flatten.take n).length - (completed packets n).flatten.length := by
  obtain ⟨tail, htake, hwait⟩ := take_flatten_completed packets hconf n
  obtain ⟨d, hshows, hagree⟩ := splitPackets_reset_shows p onReceived chunks
  have hdrain :=
    drain_conforming onReceived hzero hwait (completed packets n) []
      (fun q hq => hconf q (completed_subset packets n q hq))
  rw [hflat, htake, hdrain] at hagree
  have hw : d.stop = .waiting := hagree.stop
  have hholds := hshows.holds hw
  refine ⟨?_, ?_, ?_⟩
  · rw [hshows.ret, hw]
    rfl
  · rw [hshows.calls, hagree.out]
    rfl
  · rw [← hholds.length_residual, hholds.rest, hagree.rest hw, htake,
      List.length_append, Nat.add_sub_cancel_left]

end Decode

/--
**The splitter decodes every fragmentation of a conforming stream.**  Every
chunk is taken with code zero, after each chunk exactly the packets whose last
byte has arrived are delivered, and at the end nothing is left over.
-/
theorem splitPackets_decodes
    (p : FramingParam) (onReceived : List (List UInt8) → Int)
    (hzero : ∀ out, onReceived out = 0)
    (packets chunks : List (List UInt8))
    (hconf : ∀ q ∈ packets, Conforming p q)
    (hcut : IsCut packets.flatten chunks) :
    (∀ before after, chunks = before ++ after →
      (splitPackets p onReceived .reset before).1 = .success ∧
      (splitPackets p onReceived .reset before).2.calls =
        completed packets before.flatten.length) ∧
    (splitPackets p onReceived .reset chunks).1 = .success ∧
    (splitPackets p onReceived .reset chunks).2.calls = packets ∧
    (splitPackets p onReceived .reset chunks).2.mRecvBytes = 0 := by
  constructor
  · rintro before after rfl
    have hflat :
        before.flatten = packets.flatten.take before.flatten.length := by
      rw [← hcut.flatten, List.flatten_append, List.take_left]
    obtain ⟨hret, hcalls, _⟩ := splitPackets_prefix onReceived hzero hconf hflat
    exact ⟨hret, hcalls⟩
  · have hflat :
        chunks.flatten = packets.flatten.take packets.flatten.length := by
      rw [hcut.flatten, List.take_length]
    obtain ⟨hret, hcalls, hbytes⟩ := splitPackets_prefix onReceived hzero hconf hflat
    rw [completed_flatten_length] at hcalls hbytes
    refine ⟨hret, hcalls, ?_⟩
    rw [hbytes, List.take_length, Nat.sub_self]

/-- Two packets in three chunks, cut inside a length field and inside a body. -/
theorem splitPackets_decodes_example :
    (splitPackets
      { mMaxPacketSize := 6, mPacketSizeOffset := 0,
        maxPacketSize_pos := by decide, maxPacketSize_le := by decide,
        packetSizeOffset_le := by decide }
      (fun _ => 0) .reset [[5, 0], [0, 0, 7, 6, 0, 0, 0], [8, 9]]).2.calls =
        [[5, 0, 0, 0, 7], [6, 0, 0, 0, 8, 9]] :=
  (splitPackets_decodes _ (fun _ => 0) (fun _ => rfl)
    [[5, 0, 0, 0, 7], [6, 0, 0, 0, 8, 9]] _
    (by
      intro q hq
      fin_cases hq
      · exact ⟨by decide, by decide, by decide⟩
      · exact ⟨by decide, by decide, by decide⟩)
    ⟨by decide, by decide⟩).2.2.1

end Tcp
end IocpNetlib
