import IocpNetlib.Tcp.CutIndependence

/-!
# Which delivered packets contain their own length

A length field is read as soon as it has arrived, but it is only compared with
`sizeof(int)`.  A packet whose field says less than the field's own end is
delivered without it: the bytes of the field belong to the packet behind.
-/

namespace IocpNetlib
namespace Tcp

open ByteBlock Framing

/--
The packet contains its length field, which says how long it is; `M` and `o`
are `mMaxPacketSize` and `mPacketSizeOffset`.
-/
structure ContainsLength (M o : Nat) (packet : List UInt8) : Prop where
  field : o + 4 ≤ packet.length
  max : packet.length ≤ M
  length : int32At packet o = packet.length

/-- The bytes from a packet's start on have a length field that ends behind the packet. -/
structure ShortField (M o : Nat) (rest : List UInt8) : Prop where
  arrived : o + 4 ≤ rest.length
  fits : o + 4 ≤ M
  legal : 4 ≤ int32At rest o
  short : int32At rest o < o + 4

section Params

variable {M o : Nat} (hM : 0 < M) (hmax : M ≤ intMax)

/-- The parameters, when `mPacketSizeOffset + (int)sizeof(int)` is an `int`. -/
def framingParam (ho : o + 4 ≤ intMax) : FramingParam where
  mMaxPacketSize := M
  mPacketSizeOffset := o
  maxPacketSize_pos := hM
  maxPacketSize_le := hmax
  packetSizeOffset_le := ho

/--
A run of `SplitPacket` from a fresh client, for every `int` offset that is not
negative.  The result `none` is the signed overflow of the end of the field,
in the first pass of the inner loop.
-/
def splitPacketsAt (o : Nat) (onReceived : List (List UInt8) → Int)
    (chunks : List (List UInt8)) : Option (NetServiceErr × RecvState) :=
  if ho : o + 4 ≤ intMax then
    some (splitPackets (framingParam hM hmax ho) onReceived .reset chunks)
  else if chunks.flatten = [] then some (.success, .reset)
  else none

end Params

section Delivery

variable {p : FramingParam} {onReceived : List (List UInt8) → Int}
  {chunks : List (List UInt8)}

/-- The calls of a run are the packets in front of the rests of its stream. -/
theorem mem_splitPackets_calls_iff {x : List UInt8} :
    x ∈ (splitPackets p onReceived .reset chunks).2.calls ↔
      ∃ r n, ComesTo (tcpFramer p) (accepts onReceived) [] chunks.flatten r ∧
        tcpVerdict p r = .packet n ∧ x = r.take n := by
  obtain ⟨e, hshows, hagree⟩ := splitPackets_reset_shows p onReceived chunks
  rw [hshows.calls, hagree.out, mem_drain_out_iff]
  simp only [List.not_mem_nil, false_or]
  rfl

/-- A packet contains its length unless its field says less than the field's end. -/
theorem containsLength_take_iff
    {r : List UInt8} {n : Nat} (h : tcpVerdict p r = .packet n) :
    ContainsLength p.mMaxPacketSize p.mPacketSizeOffset (r.take n) ↔
      ¬ ShortField p.mMaxPacketSize p.mPacketSizeOffset r := by
  obtain ⟨harrived, hfits, hsize, hlegal, hmax, hle⟩ := tcpVerdict_packet_iff.mp h
  have hlen : (r.take n).length = n := List.length_take_of_le hle
  constructor
  · intro hx hshort
    have hfield := hx.field
    have hless := hshort.short
    rw [hlen] at hfield
    omega
  · intro hnot
    have hfield : p.mPacketSizeOffset + 4 ≤ n := by
      by_contra hlt
      exact hnot ⟨harrived, hfits, by omega, by omega⟩
    refine ⟨by omega, by omega, ?_⟩
    have heq : int32At (r.take n) p.mPacketSizeOffset = int32At r p.mPacketSizeOffset :=
      int32At_eq_of_take_eq hfield (by rw [List.take_take, Nat.min_self])
    rw [heq, hlen, hsize]

/-- A short field is always the length of a packet that has arrived. -/
theorem ShortField.packet
    {r : List UInt8} (h : ShortField p.mMaxPacketSize p.mPacketSizeOffset r) :
    ∃ n, tcpVerdict p r = .packet n := by
  obtain ⟨harrived, hfits, hlegal, hshort⟩ := h
  refine ⟨(int32At r p.mPacketSizeOffset).toNat, tcpVerdict_packet_iff.mpr ?_⟩
  exact ⟨harrived, hfits, by omega, by omega, by omega, by omega⟩

/-- All packets of a run contain their length as long as no short field is come to. -/
theorem splitPackets_containsLength_iff :
    (∀ x ∈ (splitPackets p onReceived .reset chunks).2.calls,
        ContainsLength p.mMaxPacketSize p.mPacketSizeOffset x) ↔
      ∀ r, ComesTo (tcpFramer p) (accepts onReceived) [] chunks.flatten r →
        ¬ ShortField p.mMaxPacketSize p.mPacketSizeOffset r := by
  constructor
  · intro h r hr hshort
    obtain ⟨n, hn⟩ := hshort.packet
    have hx := h (r.take n) (mem_splitPackets_calls_iff.mpr ⟨r, n, hr, hn, rfl⟩)
    exact (containsLength_take_iff hn).mp hx hshort
  · intro h x hx
    obtain ⟨r, n, hr, hn, rfl⟩ := mem_splitPackets_calls_iff.mp hx
    exact (containsLength_take_iff hn).mpr (h r hr)

end Delivery

/--
**When delivered packets contain their length.**  For every buffer size, offset,
application, stream and fragmentation: if and only if nothing is received, or
the field's end is an `int` and no packet start of the stream has a short field.
-/
theorem splitPackets_length_iff
    {M o : Nat} (hM : 0 < M) (hmax : M ≤ intMax)
    (onReceived : List (List UInt8) → Int) (chunks : List (List UInt8)) :
    (∃ r, splitPacketsAt hM hmax o onReceived chunks = some r ∧
        ∀ x ∈ r.2.calls, ContainsLength M o x) ↔
      chunks.flatten = [] ∨
        ∃ ho : o + 4 ≤ intMax,
          ∀ r, ComesTo (tcpFramer (framingParam hM hmax ho)) (accepts onReceived) []
              chunks.flatten r → ¬ ShortField M o r := by
  rw [splitPacketsAt]
  by_cases ho : o + 4 ≤ intMax
  · rw [dif_pos ho]
    simp only [Option.some.injEq, exists_eq_left', ho, exists_true_left]
    rw [or_iff_right_of_imp]
    · exact splitPackets_containsLength_iff
    · intro hnil r hr hshort
      have hwait : ∀ n, (tcpFramer (framingParam hM hmax ho)).verdict [] ≠ .packet n := by
        intro n hn
        have hle := (tcpFramer (framingParam hM hmax ho)).packet_le hn
        have hpos := (tcpFramer (framingParam hM hmax ho)).packet_pos hn
        rw [List.length_nil] at hle
        omega
      rw [hnil] at hr
      have harrived := hshort.arrived
      rw [hr.of_not_packet hwait, List.length_nil] at harrived
      omega
  · rw [dif_neg ho]
    simp only [ho, IsEmpty.exists_iff, or_false]
    by_cases hnil : chunks.flatten = []
    · rw [if_pos hnil]
      refine iff_of_true ⟨_, rfl, ?_⟩ hnil
      intro x hx
      exact absurd hx List.not_mem_nil
    · rw [if_neg hnil]
      refine iff_of_false ?_ hnil
      rintro ⟨r, hr, -⟩
      exact absurd hr (by simp)

section Examples

theorem sixteen_le_intMax : 16 ≤ intMax := by decide

theorem sixteen_pos : 0 < 16 := by decide

/-- A buffer of 16 bytes, and the field at offset 4. -/
def fieldAtFour : FramingParam :=
  framingParam (M := 16) (o := 4) sixteen_pos sixteen_le_intMax (by decide)

/-- With the field at offset 4, a length of 4 is delivered as the four bytes in front of it. -/
theorem splitPackets_short_field :
    ∃ r, splitPacketsAt (M := 16) (by decide) sixteen_le_intMax 4 (fun _ => 0)
        [[1, 2, 3, 4, 4, 0, 0, 0]] = some r ∧
      [1, 2, 3, 4] ∈ r.2.calls ∧ ¬ ContainsLength 16 4 [1, 2, 3, 4] := by
  have hcall :
      [1, 2, 3, 4] ∈
        (splitPackets fieldAtFour (fun _ => 0) .reset [[1, 2, 3, 4, 4, 0, 0, 0]]).2.calls :=
    mem_splitPackets_calls_iff.mpr ⟨[1, 2, 3, 4, 4, 0, 0, 0], 4, .here _ _, by decide +kernel, rfl⟩
  refine ⟨_, dif_pos (by decide), hcall, ?_⟩
  intro h
  have hfield : 8 ≤ 4 := h.field
  exact absurd hfield (by decide)

theorem splitPackets_length_iff_example :
    ∃ r, splitPacketsAt (M := 16) (by decide) sixteen_le_intMax 4 (fun _ => 0)
        [[1, 2, 3, 4, 9, 0], [0, 0, 5]] = some r ∧
      ∀ x ∈ r.2.calls, ContainsLength 16 4 x := by
  refine (splitPackets_length_iff (M := 16) (by decide) sixteen_le_intMax (fun _ => 0)
    [[1, 2, 3, 4, 9, 0], [0, 0, 5]]).mpr (Or.inr ⟨by decide, ?_⟩)
  intro r hr hshort
  have hpacket : (tcpFramer fieldAtFour).verdict [1, 2, 3, 4, 9, 0, 0, 0, 5] = .packet 9 := by
    decide +kernel
  rcases (comesTo_packet_iff hpacket).mp hr with rfl | ⟨-, hr⟩
  · have hshort' := hshort.short
    exact absurd hshort' (by decide +kernel)
  · have hwait : (tcpFramer fieldAtFour).verdict [] = .wait := by decide +kernel
    have hnil := hr.of_not_packet (fun n hn => nomatch hwait.symm.trans hn)
    have harrived := hshort.arrived
    rw [hnil] at harrived
    exact absurd harrived (by decide)

end Examples

end Tcp
end IocpNetlib
