import IocpNetlib.Http.HeaderLookup
import IocpNetlib.Http.ProcessMsg

/-!
# When the header scan stays inside the receive buffer

The scan looks for its marks in the whole buffer and nothing puts a NUL behind
the received bytes.  It stays inside if the buffer has a NUL, or has a blank
line and something behind the number of its `Content-Length`.
-/

namespace IocpNetlib
namespace Http

open ByteBlock CString

/-- The scan of the buffer meets what ends it. -/
structure ScanInside (buf : List UInt8) : Prop where
  blank : (0 : UInt8) ∈ buf ∨ blankLine <:+: buf
  number : ∀ hs headerSize h,
    parseHttpHeaders buf buf.length = some (some (hs, headerSize)) →
      findWhole buf contentLengthName hs.headers = some h →
        behindNumber (buf.drop h.value) ≠ []

section Scan

variable {data : List UInt8}

theorem memchr_isSome
    (ch : UInt8) {mem : List UInt8} {n : Nat} (h : n ≤ mem.length) :
    (memchr ch mem n).isSome = true := by
  induction n generalizing mem with
  | zero => simp [memchr]
  | succ n ih =>
      cases mem with
      | nil => exact absurd h (by simp)
      | cons b bs =>
          rw [memchr]
          split_ifs
          · rfl
          · rw [Option.isSome_map]
            exact ih (Nat.le_of_succ_le_succ h)

/-- In front of a blank line every line is scanned. -/
theorem parseHeaderLines_isSome
    {e : Nat} (h : strstr blankLine data = some (some e)) (p : Nat) :
    (parseHeaderLines data e p).isSome = true := by
  induction hk : e - p using Nat.strongRecOn generalizing p with
  | ind k ih =>
      rw [parseHeaderLines]
      by_cases hp : p < e
      · obtain ⟨i, hi, hie⟩ := lineEnd_of_blankLine h (Nat.le_of_lt hp)
        have hle := strstr_le hi
        have hnext := ih (e - (p + i + 2)) (by omega) (p + i + 2) rfl
        rw [if_pos hp, hi]
        simp only
        have hcolon : (memchr colonByte (data.drop p) i).isSome = true :=
          memchr_isSome _ (by omega)
        cases hc : memchr colonByte (data.drop p) i with
        | none => exact absurd (hc ▸ hcolon) (by simp)
        | some o =>
            cases o with
            | none => exact hnext
            | some c => rw [Option.isSome_map]; exact hnext
      · rw [if_neg hp]
        rfl

/-- The scan for a head stays inside if and only if there is a NUL or a blank line. -/
theorem parseHttpHeaders_isSome_iff (len : Nat) :
    (parseHttpHeaders data len).isSome = true ↔ (0 : UInt8) ∈ data ∨ blankLine <:+: data := by
  rw [← strstr_isSome_iff (by decide) (by decide) data]
  rw [parseHttpHeaders]
  cases hblank : strstr blankLine data with
  | none => simp
  | some o =>
      cases o with
      | none => simp
      | some e =>
          obtain ⟨first, hfirst, -⟩ := lineEnd_of_blankLine hblank (Nat.zero_le e)
          rw [List.drop_zero] at hfirst
          simp [hfirst, parseHeaderLines_isSome hblank]

/-- A value starts in front of the blank line, and the end of its line follows. -/
theorem parseHeaderLines_value
    {e : Nat} (h : strstr blankLine data = some (some e)) (p : Nat) :
    ∀ hs : List HttpHeader, parseHeaderLines data e p = some hs →
      ∀ x ∈ hs, x.value ≤ e ∧ ∃ text rest, data.drop x.value = text ++ 13 :: rest := by
  induction hk : e - p using Nat.strongRecOn generalizing p with
  | ind k ih =>
      intro hs hparse
      rw [parseHeaderLines] at hparse
      by_cases hp : p < e
      · rw [if_pos hp] at hparse
        obtain ⟨i, hi, hie⟩ := lineEnd_of_blankLine h (Nat.le_of_lt hp)
        have hnext := ih (e - (p + i + 2)) (by omega) (p + i + 2) rfl
        rw [hi] at hparse
        simp only at hparse
        split at hparse
        · exact absurd hparse (by simp)
        · exact hnext _ hparse
        · next c hcolon =>
            have hlt := memchr_lt hcolon
            obtain ⟨l, hl, rfl⟩ := Option.map_eq_some_iff.mp hparse
            rw [List.forall_mem_cons]
            refine ⟨?_, hnext _ hl⟩
            obtain ⟨rest, hrest⟩ := strstr_prefix hi
            rw [List.drop_drop] at hrest
            -- the value starts in front of the line end
            have hskip : skipSpaces data (p + c + 1) (p + i) ≤ p + i - (p + c + 1) := by
              rw [skipSpaces]
              refine Nat.le_trans (List.takeWhile_sublist _).length_le ?_
              exact List.length_take_le _ _
            have hvalue : (headerOfLine data p (p + c) (p + i)).value ≤ p + i := by
              show p + c + 1 + skipSpaces data (p + c + 1) (p + i) ≤ p + i
              omega
            generalize (headerOfLine data p (p + c) (p + i)).value = v at hvalue ⊢
            have hsplit : data.drop v = (data.drop v).take (p + i - v) ++ data.drop (p + i) := by
              have hdrop : data.drop (p + i) = (data.drop v).drop (p + i - v) := by
                rw [List.drop_drop]
                congr 1
                omega
              rw [hdrop, List.take_append_drop]
            exact ⟨by omega, _, 10 :: rest, by rw [hsplit, ← hrest]; rfl⟩
      · rw [if_neg hp] at hparse
        simp only [Option.some.injEq] at hparse
        subst hparse
        simp

theorem parseHttpHeaders_value
    {len headerSize : Nat} {hs : HttpHeaders}
    (h : parseHttpHeaders data len = some (some (hs, headerSize))) :
    ∀ x ∈ hs.headers, x.value + 4 ≤ headerSize ∧
      ∃ text rest, data.drop x.value = text ++ 13 :: rest := by
  rw [parseHttpHeaders] at h
  split at h
  · exact absurd h (by simp)
  · exact absurd h (by simp)
  · next e he =>
      split at h
      · exact absurd h (by simp)
      · exact absurd h (by simp)
      · obtain ⟨l, hl, heq⟩ := Option.map_eq_some_iff.mp h
        simp only [Option.some.injEq, Prod.mk.injEq] at heq
        obtain ⟨rfl, rfl⟩ := heq
        intro x hx
        obtain ⟨hle, htext⟩ := parseHeaderLines_value he _ _ hl x hx
        exact ⟨Nat.add_le_add_right hle 4, htext⟩

/-- Looking for `Connection: close` never leaves the head. -/
theorem isConnectionClose_inside
    (hs : List HttpHeader) (hkeys : ∀ x ∈ hs, x.key + x.keyLen ≤ data.length)
    (hvalues : ∀ x ∈ hs, ∃ text rest, data.drop x.value = text ++ 13 :: rest) :
    (isConnectionClose data hs).isSome = true := by
  induction hs with
  | nil => rfl
  | cons h hs ih =>
      have hrest := ih (fun x hx => hkeys x (List.mem_cons_of_mem _ hx))
        (fun x hx => hvalues x (List.mem_cons_of_mem _ hx))
      obtain ⟨text, rest, hvalue⟩ := hvalues h List.mem_cons_self
      have hclose :
          (strnicmpEq (data.drop h.value) (closeValue ++ [0]) 5).isSome = true := by
        rw [hvalue]
        exact strnicmpEq_decided rest text (closeValue ++ [0]) 5 (by decide)
          (by simp [closeValue, tolower])
      rw [isConnectionClose,
        headerKeyEqual_eq (hkeys h List.mem_cons_self) connectionName_ne_zero]
      by_cases hwhole : h.Whole data connectionName
      · simp only [hwhole, decide_true]
        generalize strnicmpEq (data.drop h.value) (closeValue ++ [0]) 5 = o at hclose ⊢
        rcases o with _ | _ | _
        · exact absurd hclose (by simp)
        · exact hrest
        · rfl
      · simp only [hwhole, decide_false]
        exact hrest

/-- Reading the body length stays inside if and only if something follows the number. -/
theorem getContentLength_isSome_iff
    {hs : List HttpHeader} (hkeys : ∀ x ∈ hs, x.key + x.keyLen ≤ data.length) :
    (getContentLength data hs).isSome = true ↔
      ∀ h, findWhole data contentLengthName hs = some h →
        behindNumber (data.drop h.value) ≠ [] := by
  rw [getContentLength_findEqual, findEqual_eq contentLengthName_ne_zero hs hkeys]
  cases hfind : findWhole data contentLengthName hs with
  | none => simp
  | some h => simp [atoi_isSome_iff]

end Scan

section Buffer

variable {p : FramingParam} {buf : List UInt8} {n : Nat}

/-- A scan that is inside has an answer of the header scan, and a body length for every head. -/
theorem scanInside_iff (n : Nat) :
    ScanInside buf ↔
      (parseHttpHeaders buf n).isSome = true ∧
        ∀ hs headerSize, parseHttpHeaders buf n = some (some (hs, headerSize)) →
          (getContentLength buf hs.headers).isSome = true := by
  rw [parseHttpHeaders_isSome_iff, parseHttpHeaders_len buf n buf.length]
  have hlength (hs : HttpHeaders) (headerSize : Nat)
      (hparse : parseHttpHeaders buf buf.length = some (some (hs, headerSize))) :
      (getContentLength buf hs.headers).isSome = true ↔
        ∀ h, findWhole buf contentLengthName hs.headers = some h →
          behindNumber (buf.drop h.value) ≠ [] := by
    obtain ⟨e, -, hle, -, hkeys⟩ := parseHttpHeaders_key hparse
    refine getContentLength_isSome_iff fun x hx => ?_
    have := hkeys x hx
    omega
  constructor
  · rintro ⟨hblank, hnumber⟩
    exact ⟨hblank, fun hs headerSize hparse =>
      (hlength hs headerSize hparse).mpr fun h => hnumber hs headerSize h hparse⟩
  · rintro ⟨hblank, hnumber⟩
    exact ⟨hblank, fun hs headerSize h hparse =>
      (hlength hs headerSize hparse).mp (hnumber hs headerSize hparse) h⟩

/-- **What keeps one scan of the buffer inside.** -/
theorem scanPacket_outside_iff :
    scanPacket p buf n = .outside ↔ ¬ ScanInside buf := by
  rw [scanInside_iff n]
  rw [scanPacket]
  cases hparse : parseHttpHeaders buf n with
  | none => simp
  | some o =>
      cases o with
      | none => simp
      | some found =>
          obtain ⟨hs, headerSize⟩ := found
          cases hlength : getContentLength buf hs.headers with
          | none =>
              simp only [hlength, true_iff, not_and]
              intro _ h
              have hsome := h hs headerSize rfl
              rw [hlength] at hsome
              exact absurd hsome (by simp)
          | some contentLength =>
              refine iff_of_false ?_ (not_not.mpr ⟨rfl, ?_⟩)
              · simp only [hlength]
                split_ifs <;> simp
              · rintro hs' headerSize' heq
                simp only [Option.some.injEq, Prod.mk.injEq] at heq
                rw [← heq.1, hlength]
                rfl

/-- A NUL anywhere keeps the scan inside. -/
theorem ScanInside.of_zero (h : (0 : UInt8) ∈ buf) : ScanInside buf where
  blank := Or.inl h
  number := by
    intro hs headerSize x hparse hfind
    obtain ⟨e, rfl, -, hzero, -⟩ := parseHttpHeaders_key hparse
    obtain ⟨hvalue, -⟩ := parseHttpHeaders_value hparse x (List.mem_of_find?_eq_some hfind)
    apply behindNumber_of_zero
    -- the NUL stands behind the value, since the scan passed everything in front of the head's end
    rw [← List.take_append_drop e buf] at h
    rcases List.mem_append.mp h with hfront | hback
    · exact absurd rfl (hzero 0 hfront)
    · have hdrop : buf.drop e = (buf.drop x.value).drop (e - x.value) := by
        rw [List.drop_drop]
        congr 1
        omega
      rw [hdrop] at hback
      exact List.mem_of_mem_drop hback

end Buffer

section Runs

variable (p : FramingParam)
variable (onReceived : List (List UInt8) → Int)

/-- The buffers the inner loop scans. -/
inductive InnerScans : HttpBuffer → HttpBuffer → Prop
  | here (b : HttpBuffer) : InnerScans b b
  | next {b s : HttpBuffer} {hs : HttpHeaders} {headerSize : Nat} {contentLength : Int}
      {close : Bool}
      (hscan : scanPacket p b.mRecvPacketBuffer b.mRecvBytes =
        .complete hs headerSize contentLength)
      (hret : onReceived
        ((b.calls ++ [HttpCall.mk
          (b.mRecvPacketBuffer.take (packetSizeOf headerSize contentLength).toNat)
          headerSize contentLength]).map HttpCall.packet) = 0)
      (hclose : isConnectionClose b.mRecvPacketBuffer hs.headers = some close)
      (h : InnerScans
        { mRecvPacketBuffer :=
            shiftOut b.mRecvPacketBuffer (packetSizeOf headerSize contentLength).toNat
              b.mRecvBytes
          mRecvBytes := b.mRecvBytes - (packetSizeOf headerSize contentLength).toNat
          mCloseAfterSend := close
          calls := b.calls ++
            [⟨b.mRecvPacketBuffer.take (packetSizeOf headerSize contentLength).toNat,
              headerSize, contentLength⟩] } s) : InnerScans b s

/-- The buffers the outer loop has scanned for a chunk. -/
inductive LoopScans : HttpBuffer → List UInt8 → HttpBuffer → Prop
  | piece {b s : HttpBuffer} {pData : List UInt8} (hne : pData.length ≠ 0)
      (hroom : min pData.length (p.mMaxPacketSize - b.mRecvBytes) ≠ 0)
      (h : InnerScans p onReceived (b.copy p pData) s) : LoopScans b pData s
  | next {b b' s : HttpBuffer} {pData : List UInt8} (hne : pData.length ≠ 0)
      (hroom : min pData.length (p.mMaxPacketSize - b.mRecvBytes) ≠ 0)
      (hinner : splitHttpPacketInner p onReceived (b.copy p pData) = (some .success, b'))
      (h : LoopScans b' (pData.drop (min pData.length (p.mMaxPacketSize - b.mRecvBytes))) s) :
      LoopScans b pData s

/-- The buffers a run scans. -/
inductive RunScans : HttpRecvState → List (List UInt8) → HttpBuffer → Prop
  | chunk {st : HttpRecvState} {c : List UInt8} {cs : List (List UInt8)} {b s : HttpBuffer}
      (hbuffer : st.buffer p true = some b) (h : LoopScans p onReceived b c s) :
      RunScans st (c :: cs) s
  | next {st st' : HttpRecvState} {c : List UInt8} {cs : List (List UInt8)} {s : HttpBuffer}
      (hret : splitHttpPacket p onReceived true st c = (some .success, st'))
      (h : RunScans st' cs s) : RunScans st (c :: cs) s

variable {p} {onReceived}

/-- Without a complete packet the inner loop scans once. -/
theorem InnerScans.of_not_complete
    {b s : HttpBuffer} (h : InnerScans p onReceived b s)
    (hscan : ∀ hs headerSize contentLength,
      scanPacket p b.mRecvPacketBuffer b.mRecvBytes ≠ .complete hs headerSize contentLength) :
    s = b := by
  cases h with
  | here => rfl
  | next hscan' _ _ _ => exact absurd hscan' (hscan _ _ _)

/-- A complete packet has been scanned inside, and so is its `Connection`. -/
theorem complete_inside
    {buf : List UInt8} {n headerSize : Nat} {hs : HttpHeaders} {contentLength : Int}
    (h : scanPacket p buf n = .complete hs headerSize contentLength) :
    ScanInside buf ∧ (isConnectionClose buf hs.headers).isSome = true := by
  refine ⟨?_, ?_⟩
  · by_contra hnot
    rw [scanPacket_outside_iff.mpr hnot] at h
    exact absurd h (by simp)
  · obtain ⟨hparse, -⟩ := scanPacket_complete p h
    obtain ⟨e, -, hle, -, hkeys⟩ := parseHttpHeaders_key hparse
    refine isConnectionClose_inside hs.headers ?_ ?_
    · intro x hx
      have := hkeys x hx
      omega
    · intro x hx
      exact (parseHttpHeaders_value hparse x hx).2

/-- **The inner loop stays inside if and only if each of its scans does.** -/
theorem splitHttpPacketInner_inside_iff (b : HttpBuffer) :
    (splitHttpPacketInner p onReceived b).1 ≠ none ↔
      ∀ s, InnerScans p onReceived b s → ScanInside s.mRecvPacketBuffer := by
  -- a scan that ends the loop is the last one
  have hlast (b : HttpBuffer) (hinside : scanPacket p b.mRecvPacketBuffer b.mRecvBytes ≠ .outside)
      (hscan : ∀ hs headerSize contentLength,
        scanPacket p b.mRecvPacketBuffer b.mRecvBytes ≠ .complete hs headerSize contentLength)
      (s : HttpBuffer) (hs : InnerScans p onReceived b s) : ScanInside s.mRecvPacketBuffer := by
    rw [hs.of_not_complete hscan]
    by_contra hnot
    exact hinside (scanPacket_outside_iff.mpr hnot)
  fun_induction splitHttpPacketInner p onReceived b with
  | case1 b hscan =>
      refine iff_of_false (by simp) fun h => ?_
      exact scanPacket_outside_iff.mp hscan (h b (.here b))
  | case2 b hscan =>
      exact iff_of_true (by simp) (hlast b (by simp [hscan]) (by simp [hscan]))
  | case3 b hscan =>
      exact iff_of_true (by simp) (hlast b (by simp [hscan]) (by simp [hscan]))
  | case4 b hs headerSize contentLength hscan packetSize calls hret =>
      refine iff_of_true (by simp) fun s h => ?_
      cases h with
      | here => exact (complete_inside hscan).1
      | next hscan' hret' _ _ =>
          rw [hscan] at hscan'
          injection hscan' with e₁ e₂ e₃
          subst e₁ e₂ e₃
          exact absurd hret' hret
  | case5 b hs headerSize contentLength hscan packetSize calls hret hclose =>
      have hsome := (complete_inside hscan).2
      rw [hclose] at hsome
      exact absurd hsome (by simp)
  | case6 b hs headerSize contentLength hscan packetSize calls hret close hclose ih =>
      refine ih.trans ⟨?_, ?_⟩
      · intro h s hs
        cases hs with
        | here => exact (complete_inside hscan).1
        | next hscan' hret' hclose' hnext =>
            rw [hscan] at hscan'
            injection hscan' with e₁ e₂ e₃
            subst e₁ e₂ e₃
            rw [hclose] at hclose'
            injection hclose' with e₄
            subst e₄
            exact h s hnext
      · intro h s hs
        exact h s (.next hscan (not_not.mp hret) hclose hs)

/-- The same of the outer loop. -/
theorem splitHttpPacketLoop_inside_iff (b : HttpBuffer) (pData : List UInt8) :
    (splitHttpPacketLoop p onReceived b pData).1 ≠ none ↔
      ∀ s, LoopScans p onReceived b pData s → ScanInside s.mRecvPacketBuffer := by
  fun_induction splitHttpPacketLoop p onReceived b pData with
  | case1 b pData hempty =>
      refine iff_of_true (by simp) fun s hs => ?_
      cases hs with
      | piece hne _ _ => exact absurd hempty hne
      | next hne _ _ _ => exact absurd hempty hne
  | case2 b pData hne hroom =>
      refine iff_of_true (by simp) fun s hs => ?_
      cases hs with
      | piece _ hroom' _ => exact absurd hroom hroom'
      | next _ hroom' _ _ => exact absurd hroom hroom'
  | case3 b pData hne hroom b' hinner ih =>
      have hpiece :
          (splitHttpPacketInner p onReceived (b.copy p pData)).1 ≠ none ↔
            ∀ s, InnerScans p onReceived (b.copy p pData) s → ScanInside s.mRecvPacketBuffer :=
        splitHttpPacketInner_inside_iff _
      have hinside := hpiece.mp (by rw [HttpBuffer.copy, hinner]; simp)
      refine ih.trans ⟨?_, ?_⟩
      · intro h s hs
        cases hs with
        | piece _ _ hs => exact hinside s hs
        | next _ _ hinner' hs =>
            rw [HttpBuffer.copy, hinner] at hinner'
            obtain ⟨-, rfl⟩ := Prod.mk.inj hinner'
            exact h s hs
      · intro h s hs
        exact h s (.next hne hroom hinner hs)
  | case4 b pData hne hroom hinner =>
      have hpiece :
          (splitHttpPacketInner p onReceived (b.copy p pData)).1 ≠ none ↔
            ∀ s, InnerScans p onReceived (b.copy p pData) s → ScanInside s.mRecvPacketBuffer :=
        splitHttpPacketInner_inside_iff _
      refine hpiece.trans ⟨?_, ?_⟩
      · intro h s hs
        cases hs with
        | piece _ _ hs => exact h s hs
        | next _ _ hinner' _ => exact (hinner _ hinner').elim
      · intro h s hs
        exact h s (.piece hne hroom hs)

/-- The same of one call. -/
theorem splitHttpPacket_inside_iff (st : HttpRecvState) (c : List UInt8) :
    (splitHttpPacket p onReceived true st c).1 ≠ none ↔
      ∀ b s, st.buffer p true = some b → LoopScans p onReceived b c s →
        ScanInside s.mRecvPacketBuffer := by
  rw [splitHttpPacket]
  by_cases hempty : c.length = 0
  · rw [if_pos hempty]
    refine iff_of_true (by simp) fun b s _ hs => ?_
    cases hs with
    | piece hne _ _ => exact absurd hempty hne
    | next hne _ _ _ => exact absurd hempty hne
  · rw [if_neg hempty]
    cases hb : st.buffer p true with
    | none => exact iff_of_true (by simp) fun _ _ h => absurd h (by simp)
    | some b =>
        refine (splitHttpPacketLoop_inside_iff b c).trans ⟨?_, fun h s hs => h b s rfl hs⟩
        intro h b' s hb' hs
        rw [← Option.some.inj hb'] at hs
        exact h s hs

/--
**When header scanning stays inside the buffer.**  In a run over any chunks, no
scan reads behind the buffer if and only if every buffer scanned has a NUL or a
blank line, and something behind the number of its `Content-Length`.
-/
theorem splitHttpPackets_inside_iff :
    ∀ (chunks : List (List UInt8)) (st : HttpRecvState),
      (splitHttpPackets p onReceived st chunks).1 ≠ none ↔
        ∀ s, RunScans p onReceived st chunks s → ScanInside s.mRecvPacketBuffer
  | [], st => by
      refine iff_of_true (by simp [splitHttpPackets]) fun s hs => ?_
      cases hs
  | c :: cs, st => by
      have hchunk :
          (splitHttpPacket p onReceived true st c).1 ≠ none ↔
            ∀ b s, st.buffer p true = some b → LoopScans p onReceived b c s →
              ScanInside s.mRecvPacketBuffer :=
        splitHttpPacket_inside_iff st c
      rw [splitHttpPackets]
      split
      · next st' hret =>
          have hinside := hchunk.mp (by rw [hret]; simp)
          refine (splitHttpPackets_inside_iff cs st').trans ⟨?_, fun h s hs => h s (.next hret hs)⟩
          intro h s hs
          cases hs with
          | chunk hb hs => exact hinside _ s hb hs
          | next hret' hs =>
              rw [hret] at hret'
              obtain ⟨-, rfl⟩ := Prod.mk.inj hret'
              exact h s hs
      · next hne =>
          refine hchunk.trans ⟨?_, fun h b s hb hs => h s (.chunk hb hs)⟩
          intro h s hs
          cases hs with
          | chunk hb hs => exact h _ s hb hs
          | next hret' _ => exact (hne _ hret').elim

/-- Four bytes without a NUL fill a buffer of four bytes, and the scan leaves it. -/
theorem splitHttpPackets_outside :
    (splitHttpPackets
      { mMaxPacketSize := 4, mPacketSizeOffset := 0,
        maxPacketSize_pos := by decide, maxPacketSize_le := by decide,
        packetSizeOffset_le := by decide }
      (fun _ => 0) .reset [[65, 65, 65, 65]]).1 = none := by
  decide +kernel

end Runs

section Room

variable {p : FramingParam} {onReceived : List (List UInt8) → Int} {buf : List UInt8}

/-- The last byte of the block is the zero it was allocated with. -/
def LastZero (p : FramingParam) (buf : List UInt8) : Prop :=
  buf[p.mMaxPacketSize - 1]? = some 0

theorem LastZero.lt (h : LastZero p buf) : p.mMaxPacketSize - 1 < buf.length :=
  (List.getElem?_eq_some_iff.mp h).1

theorem LastZero.inside (h : LastZero p buf) : ScanInside buf :=
  .of_zero (List.mem_of_getElem? h)

/-- A copied piece that leaves room does not reach the last byte. -/
theorem LastZero.copy
    {b : HttpBuffer} (h : LastZero p b.mRecvPacketBuffer) (pData : List UInt8)
    (hroom : (b.copy p pData).mRecvBytes < p.mMaxPacketSize) :
    LastZero p (b.copy p pData).mRecvPacketBuffer := by
  have hlt := h.lt
  have hlen := List.length_take_le (min pData.length (p.mMaxPacketSize - b.mRecvBytes)) pData
  rw [HttpBuffer.copy] at hroom ⊢
  simp only at hroom ⊢
  exact (getElem?_memcpy_behind (by omega) (by omega)).trans h

/-- Bytes that are moved to the front do not reach it either. -/
theorem LastZero.shiftOut
    {k n : Nat} (h : LastZero p buf) (hn : n < p.mMaxPacketSize) :
    LastZero p (shiftOut buf k n) := by
  rw [Http.shiftOut]
  split_ifs
  · have hlen := List.length_take_le (n - k) (buf.drop k)
    exact (getElem?_memcpy_behind (Nat.zero_le _) (by omega)).trans h
  · exact h

theorem splitHttpPacketInner_lastZero
    (onReceived : List (List UInt8) → Int) (b : HttpBuffer) :
    LastZero p b.mRecvPacketBuffer → b.mRecvBytes < p.mMaxPacketSize →
      LastZero p (splitHttpPacketInner p onReceived b).2.mRecvPacketBuffer := by
  fun_induction splitHttpPacketInner p onReceived b with
  | case6 b hs headerSize contentLength hscan packetSize calls hret close hclose ih =>
      intro h hroom
      simp only at ih
      exact ih (h.shiftOut hroom) (Nat.sub_lt_of_lt hroom)
  | _ => exact fun h _ => h

theorem InnerScans.lastZero
    {b s : HttpBuffer} (hs : InnerScans p onReceived b s) :
    LastZero p b.mRecvPacketBuffer → b.mRecvBytes < p.mMaxPacketSize →
      LastZero p s.mRecvPacketBuffer := by
  induction hs with
  | here => exact fun h _ => h
  | @next b s hs headerSize contentLength close hscan hret hclose _ ih =>
      intro h hroom
      simp only at ih
      exact ih (h.shiftOut hroom) (Nat.sub_lt_of_lt hroom)

/-- A piece is scanned before anything is moved. -/
theorem LoopScans.first
    {b : HttpBuffer} {pData : List UInt8} (hne : pData.length ≠ 0)
    (hroom : min pData.length (p.mMaxPacketSize - b.mRecvBytes) ≠ 0) :
    LoopScans p onReceived b pData (b.copy p pData) :=
  .piece hne hroom (.here _)

theorem splitHttpPacketLoop_lastZero
    (onReceived : List (List UInt8) → Int) (b : HttpBuffer) (pData : List UInt8) :
    LastZero p b.mRecvPacketBuffer →
      (∀ s, LoopScans p onReceived b pData s → s.mRecvBytes < p.mMaxPacketSize) →
        LastZero p (splitHttpPacketLoop p onReceived b pData).2.mRecvPacketBuffer := by
  fun_induction splitHttpPacketLoop p onReceived b pData with
  | case1 => exact fun h _ => h
  | case2 => exact fun h _ => h
  | case3 b pData hne hroom b' hinner ih =>
      intro h hall
      have hpiece := hall _ (.first hne hroom)
      have hzero :=
        splitHttpPacketInner_lastZero onReceived _ (h.copy pData hpiece) hpiece
      rw [HttpBuffer.copy, hinner] at hzero
      exact ih hzero fun s hs => hall s (.next hne hroom hinner hs)
  | case4 b pData hne hroom hinner =>
      intro h hall
      have hpiece := hall _ (.first hne hroom)
      exact splitHttpPacketInner_lastZero onReceived _ (h.copy pData hpiece) hpiece

theorem LoopScans.lastZero
    {b s : HttpBuffer} {pData : List UInt8} (hs : LoopScans p onReceived b pData s) :
    LastZero p b.mRecvPacketBuffer →
      (∀ s, LoopScans p onReceived b pData s → s.mRecvBytes < p.mMaxPacketSize) →
        LastZero p s.mRecvPacketBuffer := by
  induction hs with
  | piece hne hroom hs =>
      intro h hall
      have hpiece := hall _ (.first hne hroom)
      exact hs.lastZero (h.copy _ hpiece) hpiece
  | @next b b' s pData hne hroom hinner _ ih =>
      intro h hall
      have hpiece := hall _ (.first hne hroom)
      have hzero :=
        splitHttpPacketInner_lastZero onReceived _ (h.copy pData hpiece) hpiece
      rw [hinner] at hzero
      exact ih hzero fun s hs => hall s (.next hne hroom hinner hs)

/--
A client whose block still has its last zero, or that has no block yet.
-/
def HttpRecvState.LastZero (p : FramingParam) (st : HttpRecvState) : Prop :=
  ∀ buf, st.mRecvPacketBuffer = some buf → Http.LastZero p buf

theorem HttpRecvState.LastZero.buffer
    {st : HttpRecvState} (h : st.LastZero p) {available : Bool} {b : HttpBuffer}
    (hb : st.buffer p available = some b) : Http.LastZero p b.mRecvPacketBuffer := by
  rw [HttpRecvState.buffer] at hb
  cases hbuf : st.mRecvPacketBuffer with
  | some buf =>
      rw [hbuf] at hb
      obtain rfl := Option.some.inj hb
      exact h buf hbuf
  | none =>
      rw [hbuf] at hb
      simp only [Option.ite_none_right_eq_some, Option.some.injEq] at hb
      obtain ⟨-, rfl⟩ := hb
      have hpos := p.maxPacketSize_pos
      rw [Http.LastZero]
      rw [List.getElem?_replicate_of_lt (by omega)]

theorem RunScans.lastZero
    {st : HttpRecvState} {chunks : List (List UInt8)} {s : HttpBuffer}
    (hs : RunScans p onReceived st chunks s) :
    st.LastZero p →
      (∀ s, RunScans p onReceived st chunks s → s.mRecvBytes < p.mMaxPacketSize) →
        Http.LastZero p s.mRecvPacketBuffer := by
  induction hs with
  | chunk hb hs =>
      intro h hall
      exact hs.lastZero (h.buffer hb) fun s hs => hall s (.chunk hb hs)
  | @next st st' c cs s hret _ ih =>
      intro h hall
      refine ih ?_ fun s hs => hall s (.next hret hs)
      rw [splitHttpPacket] at hret
      split_ifs at hret with hempty
      · obtain ⟨-, rfl⟩ := Prod.mk.inj hret
        exact h
      · cases hb : st.buffer p true with
        | none =>
            rw [hb] at hret
            exact absurd (Prod.mk.inj hret).1 (by simp)
        | some b =>
            rw [hb] at hret
            obtain ⟨-, rfl⟩ := Prod.mk.inj hret
            intro buf hbuf
            obtain rfl := Option.some.inj hbuf
            exact splitHttpPacketLoop_lastZero onReceived b c (h.buffer hb)
              fun s hs => hall s (.chunk hb hs)

/--
**Only a full block is left.**  Where no scan of a run is of a full block, from
a client whose block still has its last zero, every scan stays inside.
-/
theorem RunScans.inside_of_room
    {st : HttpRecvState} {chunks : List (List UInt8)} {s : HttpBuffer}
    (hs : RunScans p onReceived st chunks s) (hst : st.LastZero p)
    (hroom : ∀ s, RunScans p onReceived st chunks s → s.mRecvBytes < p.mMaxPacketSize) :
    ScanInside s.mRecvPacketBuffer :=
  (hs.lastZero hst hroom).inside

end Room

end Http
end IocpNetlib
