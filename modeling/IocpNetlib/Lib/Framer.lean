import Mathlib.Data.List.Basic

/-!
# Stream framers and independence of the cut

A framer looks at the bytes buffered so far and says *wait*, *illegal* or
*a packet of `n` bytes*.  Its verdicts are stable: more input never changes a
packet or an illegal verdict.  `drain` takes packets off the front of a buffer
as long as the framer finds one and the receiver accepts it.

**Results.**
* `drain_append_of_waiting`, `drain_append_of_stopped`: draining a longer
  buffer continues where draining the shorter one stopped.
* `mem_drain_out_iff`: which packets are delivered.
* `feedAll_agree`: feeding a stream in chunks ends as draining the whole
  stream does, so it does not depend on the cut.
-/

namespace IocpNetlib
namespace Framing

universe u

variable {α : Type u}

/-- The chunks a receiver gets: non-empty pieces of the stream, in order. -/
structure IsCut (stream : List α) (chunks : List (List α)) : Prop where
  flatten : chunks.flatten = stream
  nonempty : ∀ c ∈ chunks, c ≠ []

/-- What a framer says of the bytes buffered so far. -/
inductive Verdict
  | wait
  | illegal
  | packet (n : Nat)
deriving DecidableEq, Repr

/-- A framer whose verdicts never change when more input arrives. -/
structure Framer (α : Type u) where
  verdict : List α → Verdict
  packet_pos :
    ∀ {b : List α} {n : Nat}, verdict b = .packet n → 0 < n
  packet_le :
    ∀ {b : List α} {n : Nat}, verdict b = .packet n → n ≤ b.length
  packet_stable :
    ∀ {b : List α} {n : Nat} (c : List α),
      verdict b = .packet n → verdict (b ++ c) = .packet n
  illegal_stable :
    ∀ {b : List α} (c : List α),
      verdict b = .illegal → verdict (b ++ c) = .illegal

/-- Why draining a buffer ends. -/
inductive Stop
  | waiting
  | illegal
  | refused
deriving DecidableEq, Repr

/-- State of a receiver: why it stands still, what is left, what it delivered. -/
structure Drained (α : Type u) where
  stop : Stop
  rest : List α
  out : List (List α)

/-- The receiver before any input. -/
def Drained.fresh : Drained α :=
  { stop := .waiting, rest := [], out := [] }

section Drain

variable (F : Framer α)
variable (accept : List (List α) → Bool)

/--
Take packets off the front of `b`.  `accept` sees everything delivered so far,
the new packet last.
-/
def drain (out : List (List α)) (b : List α) : Drained α :=
  match _hv : F.verdict b with
  | .wait => { stop := .waiting, rest := b, out := out }
  | .illegal => { stop := .illegal, rest := b, out := out }
  | .packet n =>
      if accept (out ++ [b.take n]) then
        drain (out ++ [b.take n]) (b.drop n)
      else
        { stop := .refused, rest := b, out := out ++ [b.take n] }
termination_by b.length
decreasing_by
  have hpos := F.packet_pos _hv
  have hle := F.packet_le _hv
  simp only [List.length_drop]
  omega

variable {F} {accept}

theorem drain_wait
    {out : List (List α)} {b : List α}
    (h : F.verdict b = .wait) :
    drain F accept out b = { stop := .waiting, rest := b, out := out } := by
  rw [drain]
  split <;> simp_all

theorem drain_illegal
    {out : List (List α)} {b : List α}
    (h : F.verdict b = .illegal) :
    drain F accept out b = { stop := .illegal, rest := b, out := out } := by
  rw [drain]
  split <;> simp_all

theorem drain_packet
    {out : List (List α)} {b : List α} {n : Nat}
    (h : F.verdict b = .packet n) :
    drain F accept out b =
      if accept (out ++ [b.take n]) then
        drain F accept (out ++ [b.take n]) (b.drop n)
      else
        { stop := .refused, rest := b, out := out ++ [b.take n] } := by
  rw [drain]
  split <;> simp_all

/-- A packet is cut off the front whatever comes behind it. -/
theorem drain_packet_append
    {out : List (List α)} {b : List α} {n : Nat} (c : List α)
    (h : F.verdict b = .packet n) :
    drain F accept out (b ++ c) =
      if accept (out ++ [b.take n]) then
        drain F accept (out ++ [b.take n]) (b.drop n ++ c)
      else
        { stop := .refused, rest := b ++ c, out := out ++ [b.take n] } := by
  have hle := F.packet_le h
  have htake : (b ++ c).take n = b.take n := List.take_append_of_le_length hle
  have hdrop : (b ++ c).drop n = b.drop n ++ c := List.drop_append_of_le_length hle
  rw [drain_packet (F.packet_stable c h), htake, hdrop]

/-- A receiver that waits has nothing to deliver in its rest. -/
theorem verdict_rest_of_waiting
    (b : List α) :
    ∀ out : List (List α),
      (drain F accept out b).stop = .waiting →
        F.verdict (drain F accept out b).rest = .wait := by
  induction hn : b.length using Nat.strongRecOn generalizing b with
  | ind n ih =>
      intro out hstop
      cases hv : F.verdict b with
      | wait =>
          simpa [drain_wait hv] using hv
      | illegal =>
          simp [drain_illegal hv] at hstop
      | packet m =>
          have hpos := F.packet_pos hv
          have hle := F.packet_le hv
          rw [drain_packet hv] at hstop ⊢
          split_ifs at hstop ⊢ with hacc
          exact ih (b.drop m).length (by simp only [List.length_drop]; omega)
            (b.drop m) rfl _ hstop

/-- Draining on continues from the rest of a receiver that waits. -/
theorem drain_append_of_waiting
    (b c : List α) :
    ∀ out : List (List α),
      (drain F accept out b).stop = .waiting →
        drain F accept out (b ++ c) =
          drain F accept (drain F accept out b).out
            ((drain F accept out b).rest ++ c) := by
  induction hn : b.length using Nat.strongRecOn generalizing b with
  | ind n ih =>
      intro out hstop
      cases hv : F.verdict b with
      | wait =>
          simp [drain_wait hv]
      | illegal =>
          simp [drain_illegal hv] at hstop
      | packet m =>
          have hpos := F.packet_pos hv
          have hle := F.packet_le hv
          rw [drain_packet_append c hv]
          rw [drain_packet hv] at hstop ⊢
          split_ifs at hstop ⊢ with hacc
          exact ih (b.drop m).length (by simp only [List.length_drop]; omega)
            (b.drop m) rfl _ hstop

/-- A receiver that has stopped is not moved by more input. -/
theorem drain_append_of_stopped
    (b c : List α) :
    ∀ out : List (List α),
      (drain F accept out b).stop ≠ .waiting →
        (drain F accept out (b ++ c)).stop = (drain F accept out b).stop ∧
        (drain F accept out (b ++ c)).out = (drain F accept out b).out := by
  induction hn : b.length using Nat.strongRecOn generalizing b with
  | ind n ih =>
      intro out hstop
      cases hv : F.verdict b with
      | wait =>
          simp [drain_wait hv] at hstop
      | illegal =>
          simp [drain_illegal hv, drain_illegal (F.illegal_stable c hv)]
      | packet m =>
          have hpos := F.packet_pos hv
          have hle := F.packet_le hv
          rw [drain_packet_append c hv]
          rw [drain_packet hv] at hstop ⊢
          split_ifs at hstop ⊢ with hacc
          · exact ih (b.drop m).length (by simp only [List.length_drop]; omega)
              (b.drop m) rfl _ hstop
          · exact ⟨rfl, rfl⟩

variable (F) (accept)

/-- Draining `b` comes to the rest `r`, with every packet before it accepted. -/
inductive ComesTo : List (List α) → List α → List α → Prop
  | here (out : List (List α)) (b : List α) : ComesTo out b b
  | next {out : List (List α)} {b r : List α} {n : Nat}
      (hv : F.verdict b = .packet n) (hacc : accept (out ++ [b.take n]) = true)
      (h : ComesTo (out ++ [b.take n]) (b.drop n) r) : ComesTo out b r

variable {F} {accept}

/-- In front of anything but a packet, draining stays where it is. -/
theorem ComesTo.of_not_packet
    {out : List (List α)} {b r : List α} (h : ComesTo F accept out b r)
    (hv : ∀ n, F.verdict b ≠ .packet n) : r = b := by
  cases h with
  | here => rfl
  | next hv' _ _ => exact absurd hv' (hv _)

theorem comesTo_packet_iff
    {out : List (List α)} {b r : List α} {n : Nat} (hv : F.verdict b = .packet n) :
    ComesTo F accept out b r ↔
      r = b ∨ accept (out ++ [b.take n]) = true ∧
        ComesTo F accept (out ++ [b.take n]) (b.drop n) r := by
  constructor
  · intro h
    cases h with
    | here => exact Or.inl rfl
    | next hv' hacc h =>
        rw [hv] at hv'
        injection hv' with hn
        subst hn
        exact Or.inr ⟨hacc, h⟩
  · rintro (rfl | ⟨hacc, h⟩)
    · exact .here out r
    · exact .next hv hacc h

/-- What is delivered are the packets in front of the rests that draining comes to. -/
theorem mem_drain_out_iff
    {x : List α} (b : List α) :
    ∀ out : List (List α),
      x ∈ (drain F accept out b).out ↔
        x ∈ out ∨ ∃ r n, ComesTo F accept out b r ∧ F.verdict r = .packet n ∧ x = r.take n := by
  induction hn : b.length using Nat.strongRecOn generalizing b with
  | ind k ih =>
      intro out
      have hstay (hv : ∀ n, F.verdict b ≠ .packet n) :
          x ∈ out ↔ x ∈ out ∨
            ∃ r n, ComesTo F accept out b r ∧ F.verdict r = .packet n ∧ x = r.take n := by
        constructor
        · exact Or.inl
        · rintro (hx | ⟨r, n, hr, hverdict, -⟩)
          · exact hx
          · rw [hr.of_not_packet hv] at hverdict
            exact absurd hverdict (hv n)
      cases hv : F.verdict b with
      | wait =>
          rw [drain_wait hv]
          exact hstay (by simp [hv])
      | illegal =>
          rw [drain_illegal hv]
          exact hstay (by simp [hv])
      | packet m =>
          have hpos := F.packet_pos hv
          have hle := F.packet_le hv
          -- the first packet is the one in front of `b` itself
          have hhere (hx : x = b.take m) :
              ∃ r n, ComesTo F accept out b r ∧ F.verdict r = .packet n ∧ x = r.take n :=
            ⟨b, m, .here out b, hv, hx⟩
          rw [drain_packet hv]
          split_ifs with hacc
          · rw [ih (b.drop m).length (by simp only [List.length_drop]; omega) (b.drop m) rfl,
              List.mem_append, List.mem_singleton, or_assoc]
            refine or_congr_right ⟨?_, ?_⟩
            · rintro (hx | ⟨r, n, hr, hverdict, hx⟩)
              · exact hhere hx
              · exact ⟨r, n, .next hv hacc hr, hverdict, hx⟩
            · rintro ⟨r, n, hr, hverdict, hx⟩
              rcases (comesTo_packet_iff hv).mp hr with rfl | ⟨-, hr⟩
              · rw [hv] at hverdict
                injection hverdict with hmn
                exact Or.inl (by rw [hx, hmn])
              · exact Or.inr ⟨r, n, hr, hverdict, hx⟩
          · rw [List.mem_append, List.mem_singleton]
            refine or_congr_right ⟨hhere, ?_⟩
            rintro ⟨r, n, hr, hverdict, hx⟩
            rcases (comesTo_packet_iff hv).mp hr with rfl | ⟨hacc', -⟩
            · rw [hv] at hverdict
              injection hverdict with hmn
              rw [hx, hmn]
            · exact absurd hacc' hacc

variable (F) (accept)

/-- Feed one chunk; a receiver that has stopped takes no more. -/
def feed (d : Drained α) (chunk : List α) : Drained α :=
  if d.stop = .waiting then drain F accept d.out (d.rest ++ chunk) else d

/-- Feed the chunks in order. -/
def feedAll (d : Drained α) (chunks : List (List α)) : Drained α :=
  chunks.foldl (feed F accept) d

variable {F} {accept}

theorem feedAll_of_stopped
    {d : Drained α} (h : d.stop ≠ .waiting) (chunks : List (List α)) :
    feedAll F accept d chunks = d := by
  induction chunks with
  | nil => rfl
  | cons c cs ih =>
      have hfeed : feed F accept d c = d := by simp [feed, h]
      simpa [feedAll, hfeed] using ih

end Drain

/-- Two receivers that cannot be told apart by what they did. -/
structure Drained.Agree (d e : Drained α) : Prop where
  stop : d.stop = e.stop
  out : d.out = e.out
  rest : d.stop = .waiting → d.rest = e.rest

theorem Drained.Agree.symm
    {d e : Drained α} (h : d.Agree e) : e.Agree d :=
  ⟨h.stop.symm, h.out.symm, fun hw => (h.rest (h.stop.trans hw)).symm⟩

theorem Drained.Agree.trans
    {d e f : Drained α} (h : d.Agree e) (k : e.Agree f) : d.Agree f :=
  ⟨h.stop.trans k.stop, h.out.trans k.out,
    fun hw => (h.rest hw).trans (k.rest (h.stop ▸ hw))⟩

theorem Drained.Agree.feedAll
    (F : Framer α) (accept : List (List α) → Bool)
    {d e : Drained α} (h : d.Agree e) (chunks : List (List α)) :
    (feedAll F accept d chunks).Agree (feedAll F accept e chunks) := by
  by_cases hw : d.stop = .waiting
  · have heq : d = e := by
      obtain ⟨stop, rest, out⟩ := d
      obtain ⟨stop', rest', out'⟩ := e
      simp only [Drained.mk.injEq]
      exact ⟨h.stop, h.rest hw, h.out⟩
    subst heq
    exact ⟨rfl, rfl, fun _ => rfl⟩
  · have hw' : e.stop ≠ .waiting := fun he => hw (h.stop.trans he)
    rw [feedAll_of_stopped hw, feedAll_of_stopped hw']
    exact h

/-- **Feeding in chunks is draining the whole stream.** -/
theorem feedAll_agree
    (F : Framer α) (accept : List (List α) → Bool)
    (chunks : List (List α)) :
    ∀ d : Drained α,
      d.stop = .waiting → F.verdict d.rest = .wait →
        (feedAll F accept d chunks).Agree
          (drain F accept d.out (d.rest ++ chunks.flatten)) := by
  induction chunks with
  | nil =>
      intro d hd hv
      have hdrain :
          drain F accept d.out d.rest =
            { stop := .waiting, rest := d.rest, out := d.out } :=
        drain_wait hv
      simp only [feedAll, List.foldl_nil, List.flatten_nil, List.append_nil]
      rw [hdrain]
      exact ⟨hd, rfl, fun _ => rfl⟩
  | cons c cs ih =>
      intro d hd hv
      have hfeed : feed F accept d c = drain F accept d.out (d.rest ++ c) := by
        simp [feed, hd]
      have hcons :
          feedAll F accept d (c :: cs) =
            feedAll F accept (drain F accept d.out (d.rest ++ c)) cs := by
        rw [← hfeed]
        rfl
      rw [hcons, List.flatten_cons, ← List.append_assoc]
      by_cases hw : (drain F accept d.out (d.rest ++ c)).stop = .waiting
      · rw [drain_append_of_waiting _ _ _ hw]
        exact ih _ hw (verdict_rest_of_waiting _ _ hw)
      · rw [feedAll_of_stopped hw]
        obtain ⟨hstop, hout⟩ :=
          drain_append_of_stopped (d.rest ++ c) cs.flatten d.out hw
        exact ⟨hstop.symm, hout.symm, fun h => absurd h hw⟩

end Framing
end IocpNetlib
