import IocpNetlib.Lib.Reach
import Mathlib.Algebra.GroupWithZero.Nat
import Mathlib.Data.List.Infix
import Mathlib.Data.List.Nodup
import Mathlib.Logic.Function.Basic
import Mathlib.Tactic.Common

/-!
# The statistics of the service

`logStats` reads the counters one by one into a buffer, prints the buffer, and
sets the counters to zero one by one.  Each access to a counter is one
interlocked step; the workers count on in between.  `events_kept_iff` says for
which schedules what was printed and what is still counted add up to what
happened.
-/

namespace IocpNetlib
namespace Statistics

open Reachability

/-- `SnmpItem::operator++`, on a `DWORD`. -/
def SnmpItem.increment (m_value : Nat) : Nat :=
  (m_value + 1) % 2 ^ 32

/-- `SnmpItem::operator=`. -/
def SnmpItem.assign (value : Int) : Nat :=
  (value % 2 ^ 32).toNat

/-- The items and the buffer of a `CSnmpStatistic`. -/
structure CSnmpStatistic (κ : Type) where
  m_mapStatistics : κ → Nat
  m_pStatisticBuf : List Nat

section Items

variable {κ : Type} [DecidableEq κ]

/-- `operator[]` on a list of names: new items, and a buffer of as many values. -/
def CSnmpStatistic.define (m_names : List κ) : CSnmpStatistic κ where
  m_mapStatistics := fun _ => 0
  m_pStatisticBuf := m_names.map fun _ => 0

/-- Store into the item of a name. -/
def CSnmpStatistic.store (s : CSnmpStatistic κ) (name : κ) (value : Nat) : CSnmpStatistic κ :=
  { s with m_mapStatistics := Function.update s.m_mapStatistics name value }

/-- `Snapshot`, for the item at one index. -/
def CSnmpStatistic.snapshotItem (s : CSnmpStatistic κ) (it : κ × Nat) : CSnmpStatistic κ :=
  { s with m_pStatisticBuf := s.m_pStatisticBuf.set it.2 (s.m_mapStatistics it.1) }

/-- `Reset`, for the item at one index. -/
def CSnmpStatistic.resetItem (s : CSnmpStatistic κ) (it : κ × Nat) : CSnmpStatistic κ :=
  { s.store it.1 0 with m_pStatisticBuf := s.m_pStatisticBuf.set it.2 0 }

/-- `dump`: the names with the values that are printed beside them. -/
def CSnmpStatistic.dump (m_names : List κ) (s : CSnmpStatistic κ) : List (κ × Nat) :=
  m_names.zip s.m_pStatisticBuf

end Items

/-- The names the constructor of `TcpService` defines. -/
inductive StatName
  | clientPoolUsed
  | sendIOContextUsed
  | sendPoolUsed
  | recvPoolUsed
  | exceptionContextUsed
  | timeout
  | accept
  | acceptSucc
  | connection
deriving DecidableEq, Repr

def statNames : List StatName :=
  [.clientPoolUsed, .sendIOContextUsed, .sendPoolUsed, .recvPoolUsed, .exceptionContextUsed,
    .timeout, .accept, .acceptSucc, .connection]

/-- The items `logStats` assigns to, in its order. -/
def gaugeNames : List StatName :=
  [.clientPoolUsed, .sendIOContextUsed, .sendPoolUsed, .recvPoolUsed, .exceptionContextUsed,
    .connection]

/-- The items `checkStatus` and the acceptor increment. -/
def counterNames : List StatName :=
  [.timeout, .accept, .acceptSucc]

/-- Where `logStats` is: what its loops still have in front of them. -/
inductive Phase
  | idle
  | assign (left : List StatName)
  | snapshot (left : List (StatName × Nat))
  | dump
  | log
  | reset (left : List (StatName × Nat))
deriving DecidableEq, Repr

/-- The statistics, the place in `logStats`, and what has been dumped. -/
structure TcpStats where
  mStats : CSnmpStatistic StatName
  phase : Phase
  dumps : List (List (StatName × Nat))

def TcpStats.init : TcpStats where
  mStats := CSnmpStatistic.define statNames
  phase := .idle
  dumps := []

inductive Action
  | logStats
  | turn (value : Int)
  | increment (c : StatName)
deriving DecidableEq, Repr

/-- The next step of `logStats`; an assignment stores `value`. -/
def TcpStats.turn (s : TcpStats) (value : Int) : Option TcpStats :=
  match s.phase with
  | .idle => none
  | .assign [] => some { s with phase := .snapshot statNames.zipIdx }
  | .assign (name :: left) =>
      some { s with
        mStats := s.mStats.store name (SnmpItem.assign value)
        phase := .assign left }
  | .snapshot [] => some { s with phase := .dump }
  | .snapshot (it :: left) =>
      some { s with mStats := s.mStats.snapshotItem it, phase := .snapshot left }
  | .dump => some { s with dumps := s.dumps ++ [s.mStats.dump statNames], phase := .log }
  | .log => some { s with phase := .reset statNames.zipIdx }
  | .reset [] => some { s with phase := .idle }
  | .reset (it :: left) =>
      some { s with mStats := s.mStats.resetItem it, phase := .reset left }

/-- One atomic step: of `logStats`, or of a thread that counts an event. -/
def step (s : TcpStats) : Action → Option TcpStats
  | .logStats => if s.phase = .idle then some { s with phase := .assign gaugeNames } else none
  | .turn value => s.turn value
  | .increment c =>
      if c ∈ counterNames then
        some { s with
          mStats := s.mStats.store c (SnmpItem.increment (s.mStats.m_mapStatistics c)) }
      else none

/-- The current value of a counter. -/
def TcpStats.value (s : TcpStats) (c : StatName) : Nat :=
  s.mStats.m_mapStatistics c

/-- What the buffer holds for a counter. -/
def TcpStats.buffered (s : TcpStats) (c : StatName) : Nat :=
  s.mStats.m_pStatisticBuf.getD (statNames.idxOf c) 0

/-- The sum of the values dumped so far. -/
def TcpStats.dumped (s : TcpStats) (c : StatName) : Nat :=
  (s.dumps.map fun d => (d.lookup c).getD 0).sum

/-- `Snapshot` has read the counter, and `Reset` has not come to it yet. -/
def Phase.InWindow (c : StatName) : Phase → Prop
  | .idle => False
  | .assign _ => False
  | .snapshot left => c ∉ left.map Prod.fst
  | .dump => True
  | .log => True
  | .reset left => c ∈ left.map Prod.fst

instance (c : StatName) : (p : Phase) → Decidable (p.InWindow c)
  | .idle => inferInstanceAs (Decidable False)
  | .assign _ => inferInstanceAs (Decidable False)
  | .snapshot left => inferInstanceAs (Decidable (c ∉ left.map Prod.fst))
  | .dump => inferInstanceAs (Decidable True)
  | .log => inferInstanceAs (Decidable True)
  | .reset left => inferInstanceAs (Decidable (c ∈ left.map Prod.fst))

/-- The buffer has been dumped, and `Reset` has not come to the counter yet. -/
def Phase.Unreset (c : StatName) : Phase → Prop
  | .log => True
  | .reset left => c ∈ left.map Prod.fst
  | _ => False

instance (c : StatName) : (p : Phase) → Decidable (p.Unreset c)
  | .idle => inferInstanceAs (Decidable False)
  | .assign _ => inferInstanceAs (Decidable False)
  | .snapshot _ => inferInstanceAs (Decidable False)
  | .dump => inferInstanceAs (Decidable False)
  | .log => inferInstanceAs (Decidable True)
  | .reset left => inferInstanceAs (Decidable (c ∈ left.map Prod.fst))

/-- The value of a counter that has been dumped and is not reset yet. -/
def TcpStats.doubled (s : TcpStats) (c : StatName) : Nat :=
  if s.phase.Unreset c then s.buffered c else 0

/--
The events of the schedule: all of them, those in an open window, and those whose
window has been closed.
-/
structure Tally where
  made : StatName → Nat
  windowed : StatName → Nat
  lost : StatName → Nat

def Tally.zero : Tally where
  made := fun _ => 0
  windowed := fun _ => 0
  lost := fun _ => 0

/-- An event that falls into the window is lost when `Reset` closes it. -/
def note (s : TcpStats) (a : Action) (g : Tally) : Tally :=
  match a, s.phase with
  | .increment c, phase =>
      { g with
        made := Function.update g.made c (g.made c + 1)
        windowed :=
          if phase.InWindow c then Function.update g.windowed c (g.windowed c + 1)
          else g.windowed }
  | .turn _, .reset (it :: _) =>
      { g with
        windowed := Function.update g.windowed it.1 0
        lost := Function.update g.lost it.1 (g.lost it.1 + g.windowed it.1) }
  | _, _ => g

/-- No counter goes around. -/
def NoWrap (s : TcpStats) : Action → Prop
  | .increment c => s.value c + 1 < 2 ^ 32
  | _ => True

instance (s : TcpStats) : (a : Action) → Decidable (NoWrap s a)
  | .logStats => inferInstanceAs (Decidable True)
  | .turn _ => inferInstanceAs (Decidable True)
  | .increment c => inferInstanceAs (Decidable (s.value c + 1 < 2 ^ 32))

section Names

variable {c : StatName}

theorem mem_statNames (c : StatName) : c ∈ statNames := by
  cases c <;> decide

/-- The index a loop is at belongs to its name. -/
theorem index_eq : ∀ it ∈ statNames.zipIdx, it.2 = statNames.idxOf it.1 := by
  decide

theorem counter_ne_gauge : ∀ c ∈ counterNames, ∀ n ∈ gaugeNames, c ≠ n := by
  decide

/-- A loop comes to each name once. -/
theorem not_mem_left {it : StatName × Nat} {left : List (StatName × Nat)}
    (h : it :: left <:+ statNames.zipIdx) : it.1 ∉ left.map Prod.fst := by
  have hnodup : (statNames.zipIdx.map Prod.fst).Nodup := by decide
  have hsub := (h.sublist.map Prod.fst).nodup hnodup
  rw [List.map_cons, List.nodup_cons] at hsub
  exact hsub.1

/-- A store at one index leaves the values of the other names. -/
theorem getD_set {buf : List Nat} {it : StatName × Nat} {v : Nat}
    (hroom : buf.length = statNames.length) (hit : it ∈ statNames.zipIdx) (c : StatName) :
    (buf.set it.2 v).getD (statNames.idxOf c) 0 =
      if c = it.1 then v else buf.getD (statNames.idxOf c) 0 := by
  rw [index_eq it hit]
  have hlt : statNames.idxOf c < buf.length :=
    hroom ▸ List.idxOf_lt_length_iff.mpr (mem_statNames c)
  rw [List.getD_eq_getElem?_getD, List.getD_eq_getElem?_getD, List.getElem?_set]
  by_cases hc : c = it.1
  · subst hc
    rw [if_pos rfl, if_pos hlt, if_pos rfl, Option.getD_some]
  · have hidx : statNames.idxOf it.1 ≠ statNames.idxOf c := fun he =>
      hc ((List.idxOf_inj (mem_statNames it.1)).mp he).symm
    rw [if_neg hidx, if_neg hc]

/-- The value that is printed beside a name. -/
theorem lookup_zip {κ : Type} [DecidableEq κ] {c : κ} {names : List κ} {buf : List Nat}
    (h : c ∈ names) (hlen : buf.length = names.length) :
    (names.zip buf).lookup c = some (buf.getD (names.idxOf c) 0) := by
  induction names generalizing buf with
  | nil => exact absurd h List.not_mem_nil
  | cons n names ih =>
      cases buf with
      | nil => exact absurd hlen (by simp)
      | cons v buf =>
          rw [List.zip_cons_cons, List.lookup_cons]
          by_cases hc : c = n
          · subst hc
            simp
          · have hne : (c == n) = false := by simpa using hc
            have hn : n ≠ c := fun he => hc he.symm
            rw [hne, List.idxOf_cons_ne _ hn, List.getD_cons_succ]
            exact ih ((List.mem_cons.mp h).resolve_left hc) (by simpa using hlen)

end Names

/-- The loops are somewhere in their lists. -/
def Phase.Proper : Phase → Prop
  | .assign left => ∀ n ∈ left, n ∈ gaugeNames
  | .snapshot left => left <:+ statNames.zipIdx
  | .reset left => left <:+ statNames.zipIdx
  | _ => True

/-- What the steps keep, for one counter. -/
structure Accounts (c : StatName) (x : TcpStats × Tally) : Prop where
  room : x.1.mStats.m_pStatisticBuf.length = statNames.length
  proper : x.1.phase.Proper
  window : x.1.phase.InWindow c → x.1.value c = x.1.buffered c + x.2.windowed c
  closed : ¬ x.1.phase.InWindow c → x.2.windowed c = 0
  sum : x.1.dumped c + x.1.value c + x.2.lost c = x.2.made c + x.1.doubled c

section Step

variable {c : StatName} {m : CSnmpStatistic StatName} {p : Phase}
variable {d : List (List (StatName × Nat))} {s s' : TcpStats} {g : Tally}

@[simp] theorem value_mk : (TcpStats.mk m p d).value c = m.m_mapStatistics c := rfl

@[simp] theorem buffered_mk :
    (TcpStats.mk m p d).buffered c = m.m_pStatisticBuf.getD (statNames.idxOf c) 0 := rfl

@[simp] theorem dumped_mk :
    (TcpStats.mk m p d).dumped c = (d.map fun t => (t.lookup c).getD 0).sum := rfl

@[simp] theorem doubled_mk :
    (TcpStats.mk m p d).doubled c =
      if p.Unreset c then m.m_pStatisticBuf.getD (statNames.idxOf c) 0 else 0 := rfl

theorem doubled_eq (h : s.phase.Unreset c) : s.doubled c = s.buffered c :=
  if_pos h

theorem doubled_eq_zero (h : ¬ s.phase.Unreset c) : s.doubled c = 0 :=
  if_neg h

theorem note_reset {it : StatName × Nat} {left : List (StatName × Nat)} (value : Int) :
    note ⟨m, .reset (it :: left), d⟩ (.turn value) g =
      { g with
        windowed := Function.update g.windowed it.1 0
        lost := Function.update g.lost it.1 (g.lost it.1 + g.windowed it.1) } :=
  rfl

theorem accounts_init (c : StatName) : Accounts c (TcpStats.init, Tally.zero) where
  room := by decide
  proper := trivial
  window := fun h => absurd h not_false
  closed := fun _ => rfl
  sum := rfl

theorem accounts_increment {n : StatName} (h : Accounts c (s, g))
    (hwrap : NoWrap s (.increment n)) (hs : step s (.increment n) = some s') :
    Accounts c (s', note s (.increment n) g) := by
  obtain ⟨m, p, d⟩ := s
  obtain ⟨hroom, hproper, hwindow, hclosed, hsum⟩ := h
  rw [step] at hs
  split_ifs at hs
  cases hs
  by_cases hc : c = n
  · subst hc
    have hvalue : SnmpItem.increment (m.m_mapStatistics c) = m.m_mapStatistics c + 1 :=
      Nat.mod_eq_of_lt hwrap
    refine ⟨hroom, hproper, fun hwin => ?_, fun hwin => ?_, ?_⟩
    · have hold := hwindow hwin
      simp only [value_mk, buffered_mk, note, CSnmpStatistic.store, Function.update_self, hvalue,
        if_pos hwin] at hold ⊢
      omega
    · simp only [note, if_neg hwin]
      exact hclosed hwin
    · simp only [value_mk, dumped_mk, doubled_mk, note, CSnmpStatistic.store,
        Function.update_self, hvalue] at hsum ⊢
      omega
  · have hwindowed : (note (TcpStats.mk m p d) (.increment n) g).windowed c = g.windowed c := by
      simp only [note]
      split_ifs
      · exact Function.update_of_ne hc _ _
      · rfl
    refine ⟨hroom, hproper, fun hwin => ?_, fun hwin => ?_, ?_⟩
    · rw [hwindowed]
      simpa [CSnmpStatistic.store, Function.update_of_ne hc] using hwindow hwin
    · exact hwindowed.trans (hclosed hwin)
    · simpa [note, CSnmpStatistic.store, Function.update_of_ne hc] using hsum

theorem mem_zipIdx_names (c : StatName) : c ∈ statNames.zipIdx.map Prod.fst := by
  rw [List.zipIdx_map_fst]
  exact mem_statNames c

/-- `Snapshot` opens the window of the counter it reads. -/
theorem accounts_snapshotItem {it : StatName × Nat} {left : List (StatName × Nat)}
    (h : Accounts c (⟨m, .snapshot (it :: left), d⟩, g)) :
    Accounts c (⟨m.snapshotItem it, .snapshot left, d⟩, g) := by
  obtain ⟨hroom, hproper, hwindow, hclosed, hsum⟩ := h
  have hit : it ∈ statNames.zipIdx := hproper.subset List.mem_cons_self
  have hbuf := getD_set (v := m.m_mapStatistics it.1) hroom hit c
  refine ⟨(List.length_set ..).trans hroom, (List.suffix_cons it left).trans hproper,
    fun hwin => ?_, fun hwin => ?_, hsum⟩
  · rw [value_mk, buffered_mk]
    rw [CSnmpStatistic.snapshotItem, hbuf]
    by_cases hc : c = it.1
    · have hzero : g.windowed c = 0 := hclosed fun hout => hout (by simp [hc])
      rw [if_pos hc, hzero, Nat.add_zero, hc]
    · rw [if_neg hc]
      refine hwindow ?_
      simp only [Phase.InWindow, List.map_cons, List.mem_cons, not_or]
      exact ⟨hc, hwin⟩
  · refine hclosed fun hout => hwin ?_
    simp only [Phase.InWindow, List.map_cons, List.mem_cons, not_or] at hout ⊢
    exact hout.2

/-- `dump` prints the value in the buffer. -/
theorem accounts_dump (h : Accounts c (⟨m, .dump, d⟩, g)) :
    Accounts c (⟨m, .log, d ++ [m.dump statNames]⟩, g) := by
  obtain ⟨hroom, -, hwindow, hclosed, hsum⟩ := h
  refine ⟨hroom, trivial, fun _ => hwindow trivial, fun hwin => absurd trivial hwin, ?_⟩
  have hlookup := lookup_zip (mem_statNames c) hroom
  have hbefore : ¬ Phase.dump.Unreset c := not_false
  have hafter : Phase.log.Unreset c := trivial
  rw [doubled_eq_zero hbefore] at hsum
  rw [doubled_eq hafter]
  simp only [value_mk, buffered_mk, dumped_mk, List.map_append, List.map_cons, List.map_nil,
    List.sum_append, List.sum_cons, List.sum_nil, CSnmpStatistic.dump, hlookup,
    Option.getD_some] at hsum ⊢
  omega

/-- `Reset` closes the window of the counter it sets to zero. -/
theorem accounts_resetItem {it : StatName × Nat} {left : List (StatName × Nat)} (value : Int)
    (h : Accounts c (⟨m, .reset (it :: left), d⟩, g)) :
    Accounts c (⟨m.resetItem it, .reset left, d⟩,
      note ⟨m, .reset (it :: left), d⟩ (.turn value) g) := by
  rw [note_reset]
  obtain ⟨hroom, hproper, hwindow, hclosed, hsum⟩ := h
  have hit : it ∈ statNames.zipIdx := hproper.subset List.mem_cons_self
  have hbuf := getD_set (v := 0) hroom hit c
  have hlen : (m.resetItem it).m_pStatisticBuf.length = statNames.length :=
    (List.length_set ..).trans hroom
  have hrest : left <:+ statNames.zipIdx := (List.suffix_cons it left).trans hproper
  by_cases hc : c = it.1
  · subst hc
    have hout : it.1 ∉ left.map Prod.fst := not_mem_left hproper
    have hin : (Phase.reset (it :: left)).InWindow it.1 := List.mem_cons_self
    have hunreset : (Phase.reset (it :: left)).Unreset it.1 := List.mem_cons_self
    have hvalue := hwindow hin
    refine ⟨hlen, hrest, fun hwin => absurd hwin hout, fun _ => Function.update_self .., ?_⟩
    have hdone : ¬ (Phase.reset left).Unreset it.1 := hout
    rw [doubled_eq hunreset] at hsum
    rw [doubled_eq_zero hdone]
    simp only [value_mk, buffered_mk, dumped_mk, CSnmpStatistic.resetItem, CSnmpStatistic.store,
      Function.update_self] at hvalue hsum ⊢
    omega
  · have hmem : c ∈ (it :: left).map Prod.fst ↔ c ∈ left.map Prod.fst := by
      simp [hc]
    rw [if_neg hc] at hbuf
    refine ⟨hlen, hrest, fun hwin => ?_, fun hwin => ?_, ?_⟩
    · have hold := hwindow (hmem.mpr hwin)
      simp only [value_mk, buffered_mk, CSnmpStatistic.resetItem, CSnmpStatistic.store,
        Function.update_of_ne hc, hbuf] at hold ⊢
      exact hold
    · simp only [Function.update_of_ne hc]
      exact hclosed fun hin => hwin (hmem.mp hin)
    · have hsame : (TcpStats.mk (m.resetItem it) (.reset left) d).doubled c =
          (TcpStats.mk m (.reset (it :: left)) d).doubled c := by
        have hiff : (Phase.reset (it :: left)).Unreset c ↔ (Phase.reset left).Unreset c := hmem
        by_cases hin : (Phase.reset left).Unreset c
        · rw [doubled_eq hin, doubled_eq (hiff.mpr hin)]
          exact hbuf
        · rw [doubled_eq_zero hin, doubled_eq_zero (mt hiff.mp hin)]
      rw [hsame]
      simp only [value_mk, dumped_mk, CSnmpStatistic.resetItem, CSnmpStatistic.store,
        Function.update_of_ne hc] at hsum ⊢
      exact hsum

theorem accounts_turn {value : Int} (hcounter : c ∈ counterNames) (h : Accounts c (s, g))
    (hs : s.turn value = some s') : Accounts c (s', note s (.turn value) g) := by
  obtain ⟨m, p, d⟩ := s
  rw [TcpStats.turn.eq_def] at hs
  split at hs
  all_goals cases hs
  · next hp =>
      subst hp
      exact ⟨h.room, List.suffix_rfl, fun hwin => absurd (mem_zipIdx_names c) hwin,
        fun _ => h.closed not_false, h.sum⟩
  · next name left hp =>
      subst hp
      have hne : c ≠ name := counter_ne_gauge c hcounter name (h.proper name List.mem_cons_self)
      refine ⟨h.room, fun n hn => h.proper n (List.mem_cons_of_mem _ hn),
        fun hwin => absurd hwin not_false, fun _ => h.closed not_false, ?_⟩
      have hsum := h.sum
      simp only [value_mk, CSnmpStatistic.store, Function.update_of_ne hne] at hsum ⊢
      exact hsum
  · next hp =>
      subst hp
      exact ⟨h.room, trivial, fun _ => h.window List.not_mem_nil,
        fun hwin => absurd trivial hwin, h.sum⟩
  · next it left hp =>
      subst hp
      exact accounts_snapshotItem h
  · next hp =>
      subst hp
      exact accounts_dump h
  · next hp =>
      subst hp
      have hin := mem_zipIdx_names c
      refine ⟨h.room, List.suffix_rfl, fun _ => h.window trivial,
        fun hwin => absurd hin hwin, ?_⟩
      have hlog : Phase.log.Unreset c := trivial
      have hreset : (Phase.reset statNames.zipIdx).Unreset c := hin
      have hsum := h.sum
      rw [doubled_eq hlog] at hsum
      rw [doubled_eq hreset]
      exact hsum
  · next hp =>
      subst hp
      exact ⟨h.room, trivial, fun hwin => absurd hwin not_false,
        fun _ => h.closed List.not_mem_nil, h.sum⟩
  · next it left hp =>
      subst hp
      exact accounts_resetItem value h

theorem accounts_step {a : Action} (hcounter : c ∈ counterNames) (h : Accounts c (s, g))
    (hwrap : NoWrap s a) (hs : step s a = some s') : Accounts c (s', note s a g) := by
  cases a with
  | logStats =>
      obtain ⟨m, p, d⟩ := s
      rw [step] at hs
      split_ifs at hs with hp
      cases hs
      simp only at hp
      subst hp
      exact ⟨h.room, fun _ hn => hn, fun hwin => absurd hwin not_false,
        fun _ => h.closed not_false, h.sum⟩
  | turn value => exact accounts_turn hcounter h hs
  | increment n => exact accounts_increment h hwrap hs

end Step

/-- The states of the runs in which no counter goes around, with the events of the schedule. -/
abbrev StatRuns (x : TcpStats × Tally) : Prop :=
  Reach (withGhost step note) (fun x a => NoWrap x.1 a) (TcpStats.init, Tally.zero) x

theorem runs_accounts {x : TcpStats × Tally} (hrun : StatRuns x)
    {c : StatName} (hc : c ∈ counterNames) : Accounts c x :=
  hrun.invariant (I := Accounts c) (accounts_init c) fun {y y' a} hy hwrap hs => by
    obtain ⟨hs₁, hs₂⟩ := withGhost_eq_some hs
    have hstep := accounts_step hc hy hwrap hs₁
    rw [← hs₂] at hstep
    exact hstep

/--
In every run in which no counter goes around, the values dumped and the current
value of a counter add up to its events exactly if none of them fell between the
reading of `Snapshot` and the zero of `Reset` of a pass.  The states between the
dump of a pass and its `Reset` of the counter are left out: there what was just
dumped is still in the counter.
-/
theorem events_kept_iff
    {x : TcpStats × Tally} (hrun : StatRuns x) {c : StatName} (hc : c ∈ counterNames)
    (hreset : ¬ x.1.phase.Unreset c) :
    x.1.dumped c + x.1.value c = x.2.made c ↔ x.2.lost c = 0 := by
  have hsum := (runs_accounts hrun hc).sum
  rw [doubled_eq_zero hreset] at hsum
  omega

/-- In the states that are left out, what `Snapshot` read is counted twice. -/
theorem events_twice
    {x : TcpStats × Tally} (hrun : StatRuns x) {c : StatName} (hc : c ∈ counterNames)
    (hunreset : x.1.phase.Unreset c) :
    x.1.dumped c + x.1.value c + x.2.lost c = x.2.made c + x.1.buffered c := by
  have hsum := (runs_accounts hrun hc).sum
  rwa [doubled_eq hunreset] at hsum

/-- One pass of `logStats`; a connection is accepted while the values are printed. -/
def samplePass : List Action :=
  .logStats :: List.replicate 17 (.turn 0) ++ .increment .accept :: List.replicate 12 (.turn 0)

/-- The pass comes to its end, and the event is gone. -/
theorem exists_lost_event :
    ∃ x, StatRuns x ∧
      (decide (x.1.phase = .idle) && decide (x.1.dumped .accept + x.1.value .accept = 0) &&
        decide (x.2.made .accept = 1)) = true := by
  have hrun : (runAll (withGhost step note) (fun x a => NoWrap x.1 a)
      (TcpStats.init, Tally.zero) samplePass).any
        (fun x => decide (x.1.phase = .idle) &&
          decide (x.1.dumped .accept + x.1.value .accept = 0) &&
            decide (x.2.made .accept = 1)) = true := by
    decide
  exact exists_reach_of_runAll hrun

theorem events_kept_iff_accept :
    ∃ x : TcpStats × Tally, x.1.phase = .idle ∧
      (x.1.dumped .accept + x.1.value .accept = x.2.made .accept ↔ x.2.lost .accept = 0) := by
  obtain ⟨x, hrun, hx⟩ := exists_lost_event
  simp only [Bool.and_eq_true, decide_eq_true_eq] at hx
  refine ⟨x, hx.1.1, events_kept_iff hrun (by decide) ?_⟩
  rw [hx.1.1]
  exact not_false

/-- Between two passes an accepted connection is neither dumped nor counted. -/
theorem accept_event_lost :
    ¬ ∀ x : TcpStats × Tally, StatRuns x → x.1.phase = .idle →
      ∀ c ∈ counterNames, x.1.dumped c + x.1.value c = x.2.made c := by
  intro h
  obtain ⟨x, hrun, hx⟩ := exists_lost_event
  simp only [Bool.and_eq_true, decide_eq_true_eq] at hx
  have hkept := h x hrun hx.1.1 .accept (by decide)
  omega

end Statistics
end IocpNetlib
