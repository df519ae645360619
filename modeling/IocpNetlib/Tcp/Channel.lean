import IocpNetlib.Tcp.Decode

/-!
# One direction of a connection

The sender hands packets to `WSASend` one after another; their bytes come out of
the connection in the same order, in pieces of any size, and go through
`SplitPacket` on the other side.  Between the calls of `Send` and the calls of
`OnReceived` the packets in flight are a queue: nothing overtakes, nothing is
lost, nothing comes twice.
-/

namespace IocpNetlib
namespace Tcp

open ByteBlock Framing

/-- A receiver that accepts every packet. -/
def acceptAll : List (List UInt8) → Int := fun _ => 0

/-- The packets sent, the bytes under way, and the receiving `TcpClient`. -/
structure Channel where
  posted : List (List UInt8)
  wire : List UInt8
  recv : RecvState
deriving DecidableEq, Repr

/-- A new connection. -/
def Channel.start : Channel :=
  { posted := [], wire := [], recv := .reset }

/-- A packet is handed to `WSASend`. -/
def Channel.post (c : Channel) (packet : List UInt8) : Channel :=
  { c with posted := c.posted ++ [packet], wire := c.wire ++ packet }

/-- A receive completes with at most `n` bytes, and `SplitPacket` is called on them. -/
def Channel.deliver (p : FramingParam) (n : Nat) (c : Channel) : NetServiceErr × Channel :=
  let r := splitPacket p acceptAll true c.recv (c.wire.take n)
  (r.1, { c with wire := c.wire.drop n, recv := r.2 })

/-- The packets that have not been handed to `OnReceived` yet. -/
def Channel.inFlight (c : Channel) : List (List UInt8) :=
  c.posted.drop c.recv.calls.length

/-- The packets that `OnReceived` gets from the next `n` bytes. -/
def Channel.arrivals (p : FramingParam) (n : Nat) (c : Channel) : List (List UInt8) :=
  (c.deliver p n).2.recv.calls.drop c.recv.calls.length

/-- The bytes under way are the rest of the stream that the receiver has been fed with. -/
structure Channel.Lossless (p : FramingParam) (c : Channel) : Prop where
  conforming : ∀ q ∈ c.posted, Conforming p q
  fed : ∃ chunks, splitPackets p acceptAll .reset chunks = (.success, c.recv) ∧
    chunks.flatten ++ c.wire = c.posted.flatten

section Channel

variable {p : FramingParam} {c : Channel}

/-- Feeding one chunk more. -/
theorem splitPackets_concat
    {onReceived : List (List UInt8) → Int} (cs : List (List UInt8)) (c : List UInt8)
    {st st' : RecvState} (h : splitPackets p onReceived st cs = (.success, st')) :
    splitPackets p onReceived st (cs ++ [c]) = splitPacket p onReceived true st' c := by
  induction cs generalizing st with
  | nil =>
      rw [splitPackets] at h
      injection h with _ hst
      subst hst
      rw [List.nil_append, splitPackets]
      generalize splitPacket p onReceived true st c = r
      obtain ⟨ret, st'⟩ := r
      cases ret <;> rfl
  | cons d ds ih =>
      rw [splitPackets] at h
      rw [List.cons_append, splitPackets]
      split at h
      · exact ih h
      · next hne =>
          exact absurd h (hne st')

theorem Channel.start_lossless : Channel.start.Lossless p where
  conforming := fun _ hq => absurd hq List.not_mem_nil
  fed := ⟨[], rfl, rfl⟩

theorem Channel.Lossless.post
    (h : c.Lossless p) {packet : List UInt8} (hpacket : Conforming p packet) :
    (c.post packet).Lossless p := by
  obtain ⟨chunks, hrun, hflat⟩ := h.fed
  refine ⟨?_, chunks, hrun, ?_⟩
  · exact List.forall_mem_append.mpr ⟨h.conforming, List.forall_mem_singleton.mpr hpacket⟩
  · show chunks.flatten ++ (c.wire ++ packet) = (c.posted ++ [packet]).flatten
    rw [← List.append_assoc, hflat, List.flatten_append, List.flatten_singleton]

/-- What the receiver has delivered are the packets whose last byte it was fed with. -/
theorem Channel.Lossless.calls
    (h : c.Lossless p) :
    ∃ n, c.recv.calls = completed c.posted n ∧ n + c.wire.length = c.posted.flatten.length := by
  obtain ⟨chunks, hrun, hflat⟩ := h.fed
  have hfed : chunks.flatten = c.posted.flatten.take chunks.flatten.length := by
    rw [← hflat, List.take_left]
  obtain ⟨-, hcalls, -⟩ :=
    splitPackets_prefix acceptAll (fun _ => rfl) h.conforming hfed
  rw [hrun] at hcalls
  refine ⟨chunks.flatten.length, hcalls, ?_⟩
  rw [← hflat, List.length_append]

theorem completed_prefix (packets : List (List UInt8)) (n : Nat) :
    completed packets n <+: packets := by
  induction packets generalizing n with
  | nil => exact List.prefix_rfl
  | cons q qs ih =>
      rw [completed]
      split_ifs
      · exact List.cons_prefix_cons.mpr ⟨rfl, ih _⟩
      · exact List.nil_prefix

theorem completed_mono (packets : List (List UInt8)) {n m : Nat} (h : n ≤ m) :
    completed packets n <+: completed packets m := by
  induction packets generalizing n m with
  | nil => exact List.prefix_rfl
  | cons q qs ih =>
      rw [completed, completed]
      by_cases hle : q.length ≤ n
      · rw [if_pos hle, if_pos (by omega)]
        exact List.cons_prefix_cons.mpr ⟨rfl, ih (by omega)⟩
      · rw [if_neg hle]
        exact List.nil_prefix

/-- Delivered packets and packets in flight are the packets sent, in their order. -/
theorem Channel.Lossless.posted_eq
    (h : c.Lossless p) : c.posted = c.recv.calls ++ c.inFlight := by
  obtain ⟨n, hcalls, -⟩ := h.calls
  have hprefix : c.recv.calls <+: c.posted := hcalls ▸ completed_prefix c.posted n
  have htake := List.prefix_iff_eq_take.mp hprefix
  calc c.posted = c.posted.take c.recv.calls.length ++ c.posted.drop c.recv.calls.length :=
        (List.take_append_drop _ _).symm
    _ = c.recv.calls ++ c.inFlight := by rw [← htake, Channel.inFlight]

/-- A receive takes packets off the front of those in flight, and goes on. -/
theorem Channel.Lossless.deliver
    (h : c.Lossless p) (n : Nat) :
    (c.deliver p n).1 = .success ∧ (c.deliver p n).2.Lossless p ∧
      c.inFlight = c.arrivals p n ++ (c.deliver p n).2.inFlight := by
  obtain ⟨chunks, hrun, hflat⟩ := h.fed
  have hconcat := splitPackets_concat chunks (c.wire.take n) hrun
  have hsplit : (chunks ++ [c.wire.take n]).flatten ++ c.wire.drop n = c.posted.flatten := by
    rw [List.flatten_append, List.flatten_singleton, List.append_assoc, List.take_append_drop,
      hflat]
  have hfed :
      (chunks ++ [c.wire.take n]).flatten =
        c.posted.flatten.take (chunks ++ [c.wire.take n]).flatten.length := by
    rw [← hsplit, List.take_left]
  obtain ⟨hret, -, -⟩ := splitPackets_prefix acceptAll (fun _ => rfl) h.conforming hfed
  rw [hconcat] at hret
  have hnext : (c.deliver p n).2.Lossless p :=
    ⟨h.conforming, _, hconcat.trans (Prod.ext hret rfl), hsplit⟩
  refine ⟨hret, hnext, ?_⟩
  obtain ⟨m, hcalls, hm⟩ := h.calls
  obtain ⟨m', hcalls', hm'⟩ := hnext.calls
  have hwire : (c.deliver p n).2.wire.length ≤ c.wire.length := by
    show (c.wire.drop n).length ≤ c.wire.length
    rw [List.length_drop]
    omega
  have hposted : (c.deliver p n).2.posted = c.posted := rfl
  rw [hposted] at hcalls' hm'
  have hprefix : c.recv.calls <+: (c.deliver p n).2.recv.calls := by
    rw [hcalls, hcalls']
    exact completed_mono c.posted (by omega)
  have hcont : (c.deliver p n).2.recv.calls = c.recv.calls ++ c.arrivals p n := by
    rw [Channel.arrivals]
    conv_lhs => rw [← List.take_append_drop c.recv.calls.length (c.deliver p n).2.recv.calls]
    rw [← List.prefix_iff_eq_take.mp hprefix]
  have hafter := hnext.posted_eq
  rw [hposted, hcont, h.posted_eq, List.append_assoc] at hafter
  exact List.append_cancel_left hafter

end Channel

end Tcp
end IocpNetlib
