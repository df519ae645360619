import IocpNetlib.Baselib.CTimer
import IocpNetlib.Lib.ByteBlock
import IocpNetlib.Lib.Transfer

/-!
# `SuperSocket::SendAll` and `RecvAll`

Both wait for the socket with what is left of the timeout and move what the
socket takes or gives, until everything is moved, something fails, or the time
is over.  The clock, `select`, `send` and `recv` answer as they like, but move no
more than they are asked to.
-/

namespace IocpNetlib
namespace SuperSocket

open ByteBlock Timing Transfer

/-- `EVENT_READ`, `EVENT_WRITE` and `EVENT_ERROR`. -/
structure Events where
  read : Bool
  write : Bool
  error : Bool
deriving DecidableEq, Repr

/-- The result of `select`, and the sets `m_fd` is in afterwards. -/
structure Selected where
  ret : Int
  rfds : Bool
  wfds : Bool
  efds : Bool

/-- A `timeval *`. -/
abbrev Timeval := Option (Int × Int)

/-- `WaitEvent`. -/
def waitEvent (events : Events) (timeoutMs : Int) (select : Timeval → Selected) : Events :=
  let tv := if timeoutMs < 0 then none else some (timeoutMs.tdiv 1000, timeoutMs.tmod 1000 * 1000)
  let selected := select tv
  if 0 < selected.ret then
    { read := events.read && selected.rfds
      write := events.write && selected.wfds
      error := selected.efds }
  else { read := false, write := false, error := false }

/-- What the system answers in one round of `SendAll`. -/
structure SendRound where
  tick : Nat
  select : Timeval → Selected
  send : List UInt8 → Int
  send_le : ∀ bytes, send bytes ≤ bytes.length

/-- What `recv` returns for a buffer of `len` bytes, and what it stores there. -/
structure Received (len : Nat) where
  ret : Int
  bytes : List UInt8
  ret_le : ret ≤ len
  length_eq : 0 < ret → (bytes.length : Int) = ret

/-- What the system answers in one round of `RecvAll`. -/
structure RecvRound where
  tick : Nat
  select : Timeval → Selected
  recv : (len : Nat) → Received len

/-- `timeoutMs - (int)used`, unless the time is over. -/
def remain (timeoutMs : Int) (used : Nat) : Option Int :=
  if timeoutMs ≤ toInt32 used then none
  else some (toInt32 ((timeoutMs - toInt32 used) % 2 ^ 32).toNat)

/-- A call of `send` that went through: what it was given, and what it returned. -/
structure SendCall where
  bytes : List UInt8
  ret : Int

/-- A call of `recv` that went through: the room it was given, and what it returned. -/
structure RecvCall where
  room : Nat
  ret : Int
  bytes : List UInt8

/-- `WaitEvent` with the time that is left finds the socket writable. -/
def SendRound.ready (r : SendRound) (left : Option Int) : Bool :=
  left.any fun left =>
    (waitEvent { read := false, write := true, error := true } left r.select).write

/-- The same for a socket that is readable. -/
def RecvRound.ready (r : RecvRound) (left : Option Int) : Bool :=
  left.any fun left =>
    (waitEvent { read := true, write := false, error := true } left r.select).read

/-- One round of `SendAll`, with the time that is left; the calls are those that went through. -/
def sendRound (len : Nat) (buf : List UInt8) (r : SendRound) (left : Option Int) (total : Nat)
    (calls : List SendCall) : Except Int (Nat × List SendCall) :=
  if r.ready left then
    let bytes := (buf.drop total).take (len - total)
    let ret := r.send bytes
    if ret ≤ 0 then .error (-1) else .ok (ret.toNat, calls ++ [⟨bytes, ret⟩])
  else .error (-1)

/-- `Recv` with a timeout: `none` is a socket that is not readable. -/
def recv (r : RecvRound) (left : Option Int) (room : Nat) : Option (Received room) :=
  if r.ready left then some (r.recv room) else none

/-- One round of `RecvAll`, on the block at `buf` and the calls that went through. -/
def recvRound (len : Nat) (r : RecvRound) (left : Option Int) (total : Nat)
    (s : List UInt8 × List RecvCall) : Except Int (Nat × List UInt8 × List RecvCall) :=
  match recv r left (len - total) with
  | none => .error (-1)
  | some received =>
      if 0 < received.ret then
        .ok (received.ret.toNat, memcpy s.1 total received.bytes,
          s.2 ++ [⟨len - total, received.ret, received.bytes⟩])
      else .error received.ret

/-- What is left of the timeout when the clock shows `tick`. -/
def timeLeft (timeoutMs : Int) (start tick : Nat) : Option Int :=
  remain timeoutMs (tickDiff tick start)

/-- `SendAll`; `start` is the first reading of the clock. -/
def sendAll (len : Nat) (timeoutMs : Int) (start fuel : Nat) (buf : List UInt8)
    (rounds : Nat → SendRound) : Option (Int × List SendCall) :=
  transfer
    (fun i => sendRound len buf (rounds i) (timeLeft timeoutMs start (rounds i).tick))
    len fuel 0 0 []

/-- `RecvAll`. -/
def recvAll (len : Nat) (timeoutMs : Int) (start fuel : Nat) (buf : List UInt8)
    (rounds : Nat → RecvRound) : Option (Int × List UInt8 × List RecvCall) :=
  transfer
    (fun i => recvRound len (rounds i) (timeLeft timeoutMs start (rounds i).tick))
    len fuel 0 0 (buf, [])

/-- The bytes that calls of `send` moved, in the order of the calls. -/
def sentBytes (calls : List SendCall) : List UInt8 :=
  calls.flatMap fun c => c.bytes.take c.ret.toNat

/-- The bytes that calls of `recv` moved. -/
def receivedBytes (calls : List RecvCall) : List UInt8 :=
  calls.flatMap RecvCall.bytes

@[simp] theorem sentBytes_append (calls : List SendCall) (c : SendCall) :
    sentBytes (calls ++ [c]) = sentBytes calls ++ c.bytes.take c.ret.toNat := by
  simp [sentBytes]

@[simp] theorem receivedBytes_append (calls : List RecvCall) (c : RecvCall) :
    receivedBytes (calls ++ [c]) = receivedBytes calls ++ c.bytes := by
  simp [receivedBytes]

/-- A round that fails: the time is over, the socket does not get writable, or `send` fails. -/
def SendRound.Fails (r : SendRound) (left : Option Int) (bytes : List UInt8) : Prop :=
  r.ready left = false ∨ r.send bytes ≤ 0

/-- A round that fails with `ret`. -/
def RecvRound.Fails (r : RecvRound) (left : Option Int) (room : Nat) (ret : Int) : Prop :=
  r.ready left = false ∧ ret = -1 ∨ r.ready left = true ∧ ret = (r.recv room).ret ∧ ret ≤ 0

/--
What `SendAll` has done when it returns `ret` after `calls`.  Call `i` is made in
round `i`, with the bytes that the calls before it have not moved.
-/
structure Sends (len : Nat) (buf : List UInt8) (rounds : Nat → SendRound)
    (lefts : Nat → Option Int) (ret : Int) (calls : List SendCall) : Prop where
  call : ∀ i c, calls[i]? = some c →
    (rounds i).ready (lefts i) = true ∧
      c.bytes = (buf.take len).drop (sentBytes (calls.take i)).length ∧
      c.ret = (rounds i).send c.bytes ∧ 0 < c.ret
  front : sentBytes calls <+: buf.take len
  all : ret = len ↔ sentBytes calls = buf.take len
  failed : ret ≠ len →
    ret = -1 ∧
      (rounds calls.length).Fails (lefts calls.length)
        ((buf.take len).drop (sentBytes calls).length)
  count : calls.length ≤ len

/--
What `RecvAll` has done when it returns `ret` after `calls`, with `buf'` in the
block.  Call `i` is made in round `i`, for the room that is left.
-/
structure Receives (len : Nat) (buf : List UInt8) (rounds : Nat → RecvRound)
    (lefts : Nat → Option Int) (ret : Int) (buf' : List UInt8) (calls : List RecvCall) :
    Prop where
  call : ∀ i c, calls[i]? = some c →
    (rounds i).ready (lefts i) = true ∧
      c.room = len - (receivedBytes (calls.take i)).length ∧
      c.ret = ((rounds i).recv c.room).ret ∧ c.bytes = ((rounds i).recv c.room).bytes ∧
      0 < c.ret
  stored : buf' = memcpy buf 0 (receivedBytes calls)
  within : (receivedBytes calls).length ≤ len
  all : ret = len ↔ (receivedBytes calls).length = len
  failed : ret ≠ len →
    ret ≤ 0 ∧
      (rounds calls.length).Fails (lefts calls.length)
        (len - (receivedBytes calls).length) ret
  count : calls.length ≤ len

/-- The invariant of `SendAll`: one call in each round, and the front of the buffer is sent. -/
structure Sent (len : Nat) (buf : List UInt8) (rounds : Nat → SendRound)
    (lefts : Nat → Option Int) (i total : Nat) (calls : List SendCall) : Prop where
  round : calls.length = i
  sent : sentBytes calls = buf.take total
  count : calls.length ≤ total
  call : ∀ i c, calls[i]? = some c →
    (rounds i).ready (lefts i) = true ∧
      c.bytes = (buf.take len).drop (sentBytes (calls.take i)).length ∧
      c.ret = (rounds i).send c.bytes ∧ 0 < c.ret

/-- The invariant of `RecvAll`: what was received stands at the front of the buffer. -/
structure Stored (len : Nat) (buf : List UInt8) (rounds : Nat → RecvRound)
    (lefts : Nat → Option Int) (i total : Nat) (s : List UInt8 × List RecvCall) : Prop where
  round : s.2.length = i
  stored : s.1 = memcpy buf 0 (receivedBytes s.2)
  size : (receivedBytes s.2).length = total
  count : s.2.length ≤ total
  call : ∀ i c, s.2[i]? = some c →
    (rounds i).ready (lefts i) = true ∧
      c.room = len - (receivedBytes (s.2.take i)).length ∧
      c.ret = ((rounds i).recv c.room).ret ∧ c.bytes = ((rounds i).recv c.room).bytes ∧
      0 < c.ret

section Results

variable {len : Nat} {left : Option Int}

/-- A round of `SendAll` that goes on has given `send` what comes next. -/
theorem sendRound_ok {buf : List UInt8} {r : SendRound} {total n : Nat}
    {calls calls' : List SendCall}
    (h : sendRound len buf r left total calls = .ok (n, calls')) :
    ∃ bytes, bytes = (buf.drop total).take (len - total) ∧ r.ready left = true ∧
      0 < r.send bytes ∧ n = (r.send bytes).toNat ∧ calls' = calls ++ [⟨bytes, r.send bytes⟩] := by
  unfold sendRound at h
  split_ifs at h with hready
  simp only at h
  split_ifs at h with hret
  cases h
  exact ⟨_, rfl, hready, Int.not_le.mp hret, rfl, rfl⟩

/-- `SendAll` fails with -1, where the round does. -/
theorem sendRound_error {buf : List UInt8} {r : SendRound} {total : Nat}
    {calls : List SendCall} {ret : Int}
    (h : sendRound len buf r left total calls = .error ret) :
    ret = -1 ∧ r.Fails left ((buf.drop total).take (len - total)) := by
  unfold sendRound at h
  split_ifs at h with hready
  · simp only at h
    split_ifs at h with hret
    exact ⟨(Except.error.inj h).symm, Or.inr hret⟩
  · exact ⟨(Except.error.inj h).symm, Or.inl (Bool.not_eq_true _ ▸ hready)⟩

/-- A round of `RecvAll` that goes on has stored what it received behind the rest. -/
theorem recvRound_ok {r : RecvRound} {total n : Nat}
    {s s' : List UInt8 × List RecvCall}
    (h : recvRound len r left total s = .ok (n, s')) :
    r.ready left = true ∧ 0 < (r.recv (len - total)).ret ∧
      n = (r.recv (len - total)).ret.toNat ∧
      s' =
        (memcpy s.1 total (r.recv (len - total)).bytes,
          s.2 ++
            [⟨len - total, (r.recv (len - total)).ret, (r.recv (len - total)).bytes⟩]) := by
  unfold recvRound recv at h
  split_ifs at h with hready
  · simp only at h
    split_ifs at h with hret
    cases h
    exact ⟨hready, hret, rfl, rfl⟩

/-- `RecvAll` fails with what `Recv` returned, or with -1. -/
theorem recvRound_error {r : RecvRound} {total : Nat}
    {s : List UInt8 × List RecvCall} {ret : Int}
    (h : recvRound len r left total s = .error ret) :
    r.Fails left (len - total) ret := by
  unfold recvRound recv at h
  split_ifs at h with hready
  · simp only at h
    split_ifs at h with hret
    cases h
    exact Or.inr ⟨hready, rfl, Int.not_lt.mp hret⟩
  · exact Or.inl ⟨Bool.not_eq_true _ ▸ hready, (Except.error.inj h).symm⟩

theorem RecvRound.Fails.nonpos {r : RecvRound} {room : Nat} {ret : Int}
    (h : r.Fails left room ret) : ret ≤ 0 := by
  rcases h with ⟨-, rfl⟩ | ⟨-, -, hle⟩
  · decide
  · exact hle

theorem getElem?_concat_cases {α : Type} {xs : List α} {x y : α} {i : Nat}
    (h : (xs ++ [x])[i]? = some y) :
    xs[i]? = some y ∧ (xs ++ [x]).take i = xs.take i ∨
      i = xs.length ∧ y = x ∧ (xs ++ [x]).take i = xs := by
  rcases Nat.lt_or_ge i xs.length with hlt | hge
  · rw [List.getElem?_append_left hlt] at h
    exact Or.inl ⟨h, List.take_append_of_le_length (Nat.le_of_lt hlt)⟩
  · rw [List.getElem?_append_right hge] at h
    have hi : i = xs.length := by
      by_contra hne
      rw [List.getElem?_eq_none (by simp; omega)] at h
      exact absurd h (by simp)
    subst hi
    rw [Nat.sub_self] at h
    exact Or.inr ⟨rfl, (Option.some.inj h).symm, List.take_left⟩

variable {rounds : Nat → SendRound} {lefts : Nat → Option Int}

theorem Sent.next {buf : List UInt8} (hlen : len ≤ buf.length) {i total n : Nat}
    {calls calls' : List SendCall} (hmore : total < len)
    (h : Sent len buf rounds lefts i total calls)
    (hround : sendRound len buf (rounds i) (lefts i) total calls = .ok (n, calls')) :
    0 < n ∧ total + n ≤ len ∧ Sent len buf rounds lefts (i + 1) (total + n) calls' := by
  obtain ⟨bytes, hbytes, hready, hpos, rfl, rfl⟩ := sendRound_ok hround
  have hsize : bytes.length = len - total := by
    rw [hbytes, length_slice (by omega)]
  have hle := (rounds i).send_le bytes
  have hsent : (sentBytes calls).length = total := by
    rw [h.sent, List.length_take]
    omega
  refine ⟨by omega, by omega, ?_, ?_, ?_, ?_⟩
  · rw [List.length_append, h.round, List.length_singleton]
  · have htake : bytes.take ((rounds i).send bytes).toNat =
        (buf.drop total).take ((rounds i).send bytes).toNat := by
      nth_rewrite 2 [hbytes]
      rw [List.take_take, Nat.min_eq_left (by omega)]
    rw [sentBytes_append, h.sent, htake, List.take_add]
  · have hcount := h.count
    rw [List.length_append, List.length_singleton]
    omega
  · intro k c hk
    rcases getElem?_concat_cases hk with ⟨hold, htake⟩ | ⟨rfl, rfl, htake⟩
    · rw [htake]
      exact h.call k c hold
    · rw [htake, hsent, h.round]
      refine ⟨hready, ?_, rfl, hpos⟩
      rw [hbytes, List.take_drop, Nat.add_sub_cancel' (Nat.le_of_lt hmore)]

theorem Stored.next {buf : List UInt8} {rounds : Nat → RecvRound} {i total n : Nat}
    {s s' : List UInt8 × List RecvCall} (hmore : total < len)
    (h : Stored len buf rounds lefts i total s)
    (hround : recvRound len (rounds i) (lefts i) total s = .ok (n, s')) :
    0 < n ∧ total + n ≤ len ∧ Stored len buf rounds lefts (i + 1) (total + n) s' := by
  obtain ⟨hready, hpos, rfl, rfl⟩ := recvRound_ok hround
  have hle := ((rounds i).recv (len - total)).ret_le
  have hbytes := ((rounds i).recv (len - total)).length_eq hpos
  refine ⟨by omega, by omega, ?_, ?_, ?_, ?_, ?_⟩
  · rw [List.length_append, h.round, List.length_singleton]
  · rw [receivedBytes_append, h.stored, ← h.size]
    exact memcpy_append buf _ _
  · rw [receivedBytes_append, List.length_append, h.size]
    exact congrArg _ (Int.ofNat.inj (hbytes.trans (Int.toNat_of_nonneg (Int.le_of_lt hpos)).symm))
  · have hcount := h.count
    rw [List.length_append, List.length_singleton]
    omega
  · intro k c hk
    rcases getElem?_concat_cases hk with ⟨hold, htake⟩ | ⟨rfl, rfl, htake⟩
    · rw [htake]
      exact h.call k c hold
    · rw [htake, h.size, h.round]
      exact ⟨hready, rfl, rfl, rfl, hpos⟩

/-- The rounds of `SendAll` send the next bytes of the buffer, and say whether that was all. -/
theorem sends_prefix {buf : List UInt8} (hlen : len ≤ buf.length)
    (rounds : Nat → SendRound) (lefts : Nat → Option Int) {fuel : Nat} (hfuel : len < fuel) :
    ∃ ret calls,
      transfer (fun i => sendRound len buf (rounds i) (lefts i)) len fuel 0 0 [] =
        some (ret, calls) ∧
      Sends len buf rounds lefts ret calls := by
  have hstart : Sent len buf rounds lefts 0 0 [] :=
    ⟨rfl, by simp [sentBytes], Nat.le_refl 0, fun _ _ h => absurd h (by simp)⟩
  obtain ⟨ret, calls, i, total, heq, h, hend⟩ :=
    transfer_spec (fun i => sendRound len buf (rounds i) (lefts i))
      (P := Sent len buf rounds lefts) (Sent.next hlen) fuel 0 (Nat.zero_le len) hstart (by omega)
  have htotal : total ≤ len := by rcases hend with ⟨hall, -⟩ | ⟨hpart, -⟩ <;> omega
  have hsent : (sentBytes calls).length = total := by
    rw [h.sent, List.length_take]
    omega
  refine ⟨ret, calls, heq, h.call, ?_, ?_, ?_, Nat.le_trans h.count htotal⟩
  · rw [h.sent]
    exact List.take_prefix_take_left htotal
  · rcases hend with ⟨hall, hret⟩ | ⟨hpart, hret⟩
    · exact iff_of_true hret (by rw [h.sent, hall])
    · have hret' := (sendRound_error hret).1
      refine iff_of_false (by omega) fun hsame => ?_
      have hsizes := congrArg List.length hsame
      rw [hsent, List.length_take] at hsizes
      omega
  · rcases hend with ⟨-, hret⟩ | ⟨hpart, hret⟩
    · exact fun hne => absurd hret hne
    · obtain ⟨hret', hfails⟩ := sendRound_error hret
      rw [hsent, h.round]
      refine fun _ => ⟨hret', ?_⟩
      rw [List.take_drop, Nat.add_sub_cancel' (Nat.le_of_lt hpart)] at hfails
      exact hfails

/-- The rounds of `RecvAll` fill the front of the buffer, and say whether that was all. -/
theorem receives_prefix (buf : List UInt8)
    (rounds : Nat → RecvRound) (lefts : Nat → Option Int) {fuel : Nat} (hfuel : len < fuel) :
    ∃ ret buf' calls,
      transfer (fun i => recvRound len (rounds i) (lefts i)) len fuel 0 0 (buf, []) =
        some (ret, buf', calls) ∧
      Receives len buf rounds lefts ret buf' calls := by
  have hstart : Stored len buf rounds lefts 0 0 (buf, []) :=
    ⟨rfl, (memcpy_nil buf).symm, rfl, Nat.le_refl 0, fun _ _ h => absurd h (by simp)⟩
  obtain ⟨ret, ⟨buf', calls⟩, i, total, heq, h, hend⟩ :=
    transfer_spec (fun i => recvRound len (rounds i) (lefts i))
      (P := Stored len buf rounds lefts) Stored.next fuel 0 (Nat.zero_le len) hstart (by omega)
  have htotal : total ≤ len := by rcases hend with ⟨hall, -⟩ | ⟨hpart, -⟩ <;> omega
  have hsize : (receivedBytes calls).length = total := h.size
  refine ⟨ret, buf', calls, heq, h.call, h.stored, by omega, ?_, ?_,
    Nat.le_trans h.count htotal⟩
  · rcases hend with ⟨hall, hret⟩ | ⟨hpart, hret⟩
    · exact iff_of_true hret (hsize.trans hall)
    · have := (recvRound_error hret).nonpos
      exact iff_of_false (by omega) (by omega)
  · rcases hend with ⟨-, hret⟩ | ⟨-, hret⟩
    · exact fun hne => absurd hret hne
    · have hfails := recvRound_error hret
      have hround : calls.length = i := h.round
      rw [hsize, hround]
      exact fun _ => ⟨hfails.nonpos, hfails⟩

end Results

/--
Whatever the clock and the socket answer: what `SendAll` gives to `send` are the
next bytes of the buffer, and what `RecvAll` receives stands at its front; each
says whether it moved everything, stops early only at a round that fails, and
makes at most as many transfers as there are bytes.
-/
theorem transfers_exact
    {len : Nat} {buf : List UInt8} (hlen : len ≤ buf.length) (timeoutMs : Int) (start : Nat)
    {fuel : Nat} (hfuel : len < fuel) :
    (∀ rounds : Nat → SendRound, ∃ ret calls,
      sendAll len timeoutMs start fuel buf rounds = some (ret, calls) ∧
      Sends len buf rounds (fun i => timeLeft timeoutMs start (rounds i).tick) ret calls) ∧
    ∀ rounds : Nat → RecvRound, ∃ ret buf' calls,
      recvAll len timeoutMs start fuel buf rounds = some (ret, buf', calls) ∧
      Receives len buf rounds (fun i => timeLeft timeoutMs start (rounds i).tick) ret buf'
        calls :=
  ⟨fun rounds => sends_prefix hlen rounds _ hfuel,
    fun rounds => receives_prefix buf rounds _ hfuel⟩

/-- Two bytes. -/
theorem transfers_exact_two :
    (∀ rounds : Nat → SendRound, ∃ ret calls,
      sendAll 2 100 0 3 [1, 2] rounds = some (ret, calls) ∧
      Sends 2 [1, 2] rounds (fun i => timeLeft 100 0 (rounds i).tick) ret calls) ∧
    ∀ rounds : Nat → RecvRound, ∃ ret buf' calls,
      recvAll 2 100 0 3 [1, 2] rounds = some (ret, buf', calls) ∧
      Receives 2 [1, 2] rounds (fun i => timeLeft 100 0 (rounds i).tick) ret buf' calls :=
  transfers_exact (by decide) 100 0 (by decide)

end SuperSocket
end IocpNetlib
