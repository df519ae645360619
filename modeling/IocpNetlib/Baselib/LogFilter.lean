import IocpNetlib.Baselib.LogRotation

/-!
# Which records are written

`SetLogLevel` gives a name its level, a record is to be written if its own level
is within it.  The level a record is filtered by is the one `Write` or `WriteV`
puts into the cell, under the name as far as the cell holds it, against the
level the map was given first.  `filtered_iff` says for which records that comes
to the same.
-/

namespace IocpNetlib
namespace Logging

open ByteBlock CFormat Service Stdio Reachability

/-- A record as its caller gave it, and by which of the two functions. -/
structure Request where
  record : Record
  viaWrite : Bool

/-- The record `WriteV` is given for it. -/
def Request.handed (q : Request) : Record :=
  if q.viaWrite then { q.record with nLogLevel := logLevelInfo } else q.record

/-- The calls so far: the first and the last level of each name, and the waiting records. -/
structure Seen where
  first : LogName → Option Nat
  last : LogName → Option Nat
  pending : List Request

def Seen.empty : Seen where
  first := fun _ => none
  last := fun _ => none
  pending := []

/-- What a call adds. -/
def note (_ : LogManager) (c : Call) (g : Seen) : Seen :=
  match c with
  | .setLogLevel pszLogName nLogLevel _ fsopen =>
      if fsopen then
        { g with
          first := Function.update g.first pszLogName
            (some ((g.first pszLogName).getD nLogLevel))
          last := Function.update g.last pszLogName (some nLogLevel) }
      else g
  | .write r alloc => if alloc then { g with pending := g.pending ++ [⟨r, true⟩] } else g
  | .writeV r alloc => if alloc then { g with pending := g.pending ++ [⟨r, false⟩] } else g
  | .threadProc _ => { g with pending := g.pending.tail }

/-- The record is within the last level its name was given. -/
def Seen.Wanted (g : Seen) (q : Request) : Prop :=
  ∃ level, g.last q.record.pszLogName = some level ∧ q.record.nLogLevel ≤ level

/-- A line goes to the file of the record's name. -/
def WrittenTo (m m' : LogManager) (q : Request) : Prop :=
  ∃ line, m'.files.written =
    m.files.written ++ [(m.m_strLogDir ++ q.record.pszLogName.1, line)]

/--
The cell says the same about the record as its caller did: a record that is to be
written has a name the cell can hold, and a level that is handed on within the
first level of the name; one that is not lacks one of the two.
-/
def Seen.Faithful (g : Seen) (q : Request) : Prop :=
  ∀ first last, g.first q.record.pszLogName = some first →
    g.last q.record.pszLogName = some last →
      (q.record.nLogLevel ≤ last ↔
        q.record.pszLogName.1.length ≤ 31 ∧ q.handed.nLogLevel ≤ first)

/-- File operations succeed, and no path is cut while a file is rotated. -/
def FilesSucceed (b : Build) (m : LogManager) : Call → Prop
  | .threadProc a => ∀ cell rest, m.m_logQueue = cell :: rest → Smooth b m cell a ∧
      ∀ o, m.m_mapNameToFileObject.lookup cell.key = some o → cell.logLevel ≤ o.nLogLevel →
        Rotates b a o → m.m_strLogDir.length + cell.key.1.length + 2 ≤ maxPath
  | _ => True

section Cell

/-- The cell holds 31 characters of a name. -/
theorem key_logCell (r : Record) : r.logCell.key.1 = r.pszLogName.1.take 31 := by
  have hlen : (r.pszLogName.1.take (min (32 - 1) r.pszLogName.1.length)).length ≤ 31 := by
    rw [List.length_take]
    omega
  have htake : r.pszLogName.1.take (min (32 - 1) r.pszLogName.1.length) =
      r.pszLogName.1.take 31 := by
    rw [← List.take_take, List.take_length]
  obtain ⟨k, hk⟩ := Nat.exists_eq_add_of_le hlen
  have hzeros : (List.replicate 32 (0 : UInt8)).drop
      (r.pszLogName.1.take (min (32 - 1) r.pszLogName.1.length)).length =
        0 :: List.replicate k 0 := by
    rw [List.drop_replicate, ← List.replicate_succ]
    congr 1
    omega
  have hnul : (0 : UInt8) ∉ r.pszLogName.1.take 31 :=
    fun h => r.pszLogName.2 (List.mem_of_mem_take h)
  rw [LogCell.key, Record.logCell, nameField, memcpy, List.take_zero, List.nil_append,
    Nat.zero_add, hzeros, htake]
  exact cStr_append hnul _

/-- A short name is found again. -/
theorem key_logCell_short {r : Record} (h : r.pszLogName.1.length ≤ 31) :
    r.logCell.key = r.pszLogName := by
  apply Subtype.ext
  rw [key_logCell, List.take_of_length_le h]

/-- A longer name is not. -/
theorem key_logCell_long {r : Record} (h : 31 < r.pszLogName.1.length) :
    r.logCell.key ≠ r.pszLogName := by
  intro he
  have hlen := congrArg (fun k : LogName => k.1.length) he
  simp only [key_logCell, List.length_take] at hlen
  omega

@[simp] theorem handed_pszLogName (q : Request) : q.handed.pszLogName = q.record.pszLogName := by
  rw [Request.handed]
  split_ifs <;> rfl

end Cell

/-- The files against the first levels of their names. -/
structure Tracks (m : LogManager) (first : LogName → Option Nat) : Prop where
  sound : Sound m
  level : ∀ k, (m.m_mapNameToFileObject.lookup k).map (·.nLogLevel) = first k
  file : ∀ {k o}, m.m_mapNameToFileObject.lookup k = some o →
    m.files.path o.pFileHandle = some (m.m_strLogDir ++ k.1)

/-- The manager against the calls so far. -/
structure Follows (m : LogManager) (g : Seen) : Prop where
  tracks : Tracks m g.first
  queue : m.m_logQueue = g.pending.map fun q => q.handed.logCell
  known : ∀ k, g.first k = none ↔ g.last k = none

section Step

variable {b : Build} {m m' : LogManager} {g : Seen} {first : LogName → Option Nat}
variable {cell : LogCell} {a : Answers} {o : LogFileObject}

theorem follows_init (m_strLogDir : List UInt8) :
    Follows (LogManager.init m_strLogDir) Seen.empty where
  tracks :=
    { sound := sound_init m_strLogDir
      level := fun _ => rfl
      file := fun h => by simp [LogManager.init] at h }
  queue := rfl
  known := fun _ => Iff.rfl

/-- The level in the map is the first one. -/
theorem first_of_lookup {k : LogName} {o : LogFileObject} (h : Tracks m first)
    (hk : m.m_mapNameToFileObject.lookup k = some o) : first k = some o.nLogLevel := by
  rw [← h.level, hk, Option.map_some]

theorem first_of_lookup_none {k : LogName} (h : Tracks m first)
    (hk : m.m_mapNameToFileObject.lookup k = none) : first k = none := by
  rw [← h.level, hk, Option.map_none]

/-- `oldFileName` is the path of the file, as long as there is room for it. -/
theorem oldFileName_eq {m_strLogDir : List UInt8}
    (h : m_strLogDir.length + cell.key.1.length + 2 ≤ maxPath) :
    oldFileName m_strLogDir cell = m_strLogDir ++ cell.key.1 := by
  rw [oldFileName, printed, List.take_of_length_le]
  rw [List.length_append, maxPath]
  rw [maxPath] at h
  omega

/-- What becomes of a cell that is within the level of a file. -/
theorem _write_passes
    (h : Tracks m first) (hk : m.m_mapNameToFileObject.lookup cell.key = some o)
    (hlevel : cell.logLevel ≤ o.nLogLevel)
    (hok : Rotates b a o → GoesThrough m.m_strLogDir cell a)
    (hroom : Rotates b a o → m.m_strLogDir.length + cell.key.1.length + 2 ≤ maxPath) :
    ∃ m', m._write b cell a = some m' ∧ Tracks m' first ∧
      m'.m_logQueue = m.m_logQueue ∧
      m'.files.written =
        m.files.written ++ [(m.m_strLogDir ++ cell.key.1, logLine cell a)] := by
  obtain ⟨o', files', path, heq, howns, hsame, hpath, hwhere, hothers⟩ :=
    _write_line h.sound.1 hk hlevel hok
  have hown : path = m.m_strLogDir ++ cell.key.1 := by
    rcases hwhere with hold | ⟨hrot, hnew⟩
    · exact Option.some_inj.mp (hold.symm.trans (h.file hk))
    · rw [hnew, oldFileName_eq (hroom hrot)]
  refine ⟨_, heq, ⟨⟨owns_written howns, h.sound.2⟩, fun k => ?_, fun {k o₁} hk₁ => ?_⟩, rfl, ?_⟩
  · rw [← h.level k]
    by_cases hkk : k = cell.key
    · subst hkk
      rw [AList.lookup_insert, hk, Option.map_some, Option.map_some, hsame]
    · rw [AList.lookup_insert_ne hkk]
  · rcases lookup_assign hk₁ with ⟨rfl, rfl⟩ | ⟨hne, hk₁⟩
    · exact hpath.trans (congrArg some hown)
    · have hp := hothers _ (fun he => hne (h.sound.1.distinct hk₁ hk he)) (h.sound.1.isOpen hk₁)
      exact hp.trans (h.file hk₁)
  · rw [← hown]

/-- What becomes of any cell. -/
theorem _write_spec
    (h : Tracks m first) (hok : Smooth b m cell a)
    (hroom : ∀ o, m.m_mapNameToFileObject.lookup cell.key = some o → cell.logLevel ≤ o.nLogLevel →
      Rotates b a o → m.m_strLogDir.length + cell.key.1.length + 2 ≤ maxPath) :
    ∃ m', m._write b cell a = some m' ∧ Tracks m' first ∧ m'.m_logQueue = m.m_logQueue ∧
      m'.files.written =
        if (first cell.key).any (decide <| cell.logLevel ≤ ·) then
          m.files.written ++ [(m.m_strLogDir ++ cell.key.1, logLine cell a)]
        else m.files.written := by
  cases hk : m.m_mapNameToFileObject.lookup cell.key with
  | none =>
      have hfirst : first cell.key = none := first_of_lookup_none h hk
      refine ⟨m, _write_dropped fun o ho => ?_, h, rfl, ?_⟩
      · rw [hk] at ho
        exact absurd ho (by simp)
      · rw [hfirst]
        rfl
  | some o =>
      have hfirst : first cell.key = some o.nLogLevel := first_of_lookup h hk
      rw [hfirst, Option.any_some]
      by_cases hlevel : cell.logLevel ≤ o.nLogLevel
      · rw [if_pos (by simpa using hlevel)]
        exact _write_passes h hk hlevel (hok o hk hlevel) (hroom o hk hlevel)
      · rw [if_neg (by simpa using hlevel)]
        refine ⟨m, _write_dropped fun o' ho' => ?_, h, rfl, rfl⟩
        rw [hk, Option.some_inj] at ho'
        exact ho' ▸ Nat.not_le.mp hlevel

/-- The first level of a name stays. -/
theorem tracks_setLogLevel {pszLogName : LogName} {nLogLevel now : Nat} (h : Tracks m first) :
    Tracks (m.setLogLevel pszLogName nLogLevel now true).2
      (Function.update first pszLogName (some ((first pszLogName).getD nLogLevel))) := by
  have hwf := h.sound.1.wellFormed
  refine ⟨⟨owns_setLogLevel h.sound.1, (setLogLevel_m_Stop _ _ _ _).trans h.sound.2⟩,
    fun k => ?_, fun {k o} hk => ?_⟩
  · rw [setLogLevel_opened]
    cases hk : m.m_mapNameToFileObject.lookup k with
    | some o =>
        have hfirst : first k = some o.nLogLevel := first_of_lookup h hk
        have hkeep : Function.update first pszLogName
            (some ((first pszLogName).getD nLogLevel)) k = first k := by
          by_cases hkk : k = pszLogName
          · subst hkk
            rw [Function.update_self, hfirst, Option.getD_some]
          · rw [Function.update_of_ne hkk]
        rw [hkeep, hfirst, lookup_mapInsert_old hk, Option.map_some]
    | none =>
        have hfirst : first k = none := first_of_lookup_none h hk
        by_cases hkk : k = pszLogName
        · subst hkk
          rw [Function.update_self, hfirst, Option.getD_none, mapInsert,
            if_neg (AList.lookup_eq_none.mp hk), AList.lookup_insert, Option.map_some]
        · rw [Function.update_of_ne hkk, hfirst, mapInsert]
          split_ifs with hin
          · rw [hk, Option.map_none]
          · rw [AList.lookup_insert_ne hkk, hk, Option.map_none]
  · rw [setLogLevel_opened] at hk ⊢
    rcases lookup_mapInsert hk with hl | ⟨-, rfl, rfl⟩
    · exact (Files.path_fsopen hwf (h.sound.1.isOpen hl)).trans (h.file hl)
    · exact (Files.fsopen_fresh _ hwf).2.2

theorem follows_writeV {r : Record} {alloc : Bool} {q : Request}
    (h : Follows m g) (hq : q.handed = r) :
    Follows (m.writeV r alloc).2
      (if alloc then { g with pending := g.pending ++ [q] } else g) := by
  cases alloc with
  | false => exact h
  | true =>
      refine ⟨⟨h.tracks.sound, h.tracks.level, h.tracks.file⟩, ?_, h.known⟩
      rw [LogManager.writeV, if_pos rfl, if_pos rfl, List.map_append, ← h.queue, ← hq]
      rfl

theorem follows_step {c : Call} (h : Follows m g) (hok : FilesSucceed b m c)
    (hs : step b m c = some m') : Follows m' (note m c g) := by
  cases c with
  | setLogLevel pszLogName nLogLevel now fsopen =>
      cases hs
      cases fsopen with
      | false => exact h
      | true =>
          refine ⟨tracks_setLogLevel h.tracks, h.queue, fun k => ?_⟩
          rw [note, if_pos rfl]
          by_cases hkk : k = pszLogName
          · subst hkk
            exact iff_of_false (by simp) (by simp)
          · simp only [Function.update_of_ne hkk]
            exact h.known k
  | write r alloc =>
      cases hs
      exact follows_writeV h rfl
  | writeV r alloc =>
      cases hs
      exact follows_writeV h rfl
  | threadProc a =>
      rw [note]
      cases hq : m.m_logQueue with
      | nil =>
          rw [step, threadProc_nil hq] at hs
          cases hs
          have hnone : g.pending = [] := by simpa [hq] using h.queue.symm
          refine ⟨h.tracks, ?_, h.known⟩
          rw [hq, hnone]
          rfl
      | cons cell rest =>
          rw [step, threadProc_cons h.tracks.sound.2 hq] at hs
          obtain ⟨m₁, heq, htracks, hqueue, -⟩ :=
            _write_spec (m := { m with m_logQueue := rest })
              ⟨h.tracks.sound, h.tracks.level, h.tracks.file⟩ (hok cell rest hq).1
              (hok cell rest hq).2
          rw [heq] at hs
          cases hs
          refine ⟨htracks, hqueue.trans ?_, h.known⟩
          rw [List.map_tail, ← h.queue, hq]
          rfl

/-- A line goes to the file of a name that fits the cell, and within its first level. -/
theorem writtenTo_iff {q : Request} {line : List UInt8}
    (hwritten : m'.files.written =
      if (first q.handed.logCell.key).any (decide <| q.handed.nLogLevel ≤ ·) then
        m.files.written ++ [(m.m_strLogDir ++ q.handed.logCell.key.1, line)]
      else m.files.written) :
    WrittenTo m m' q ↔
      q.record.pszLogName.1.length ≤ 31 ∧
        ∃ level, first q.record.pszLogName = some level ∧ q.handed.nLogLevel ≤ level := by
  rw [WrittenTo, hwritten]
  by_cases hlen : q.record.pszLogName.1.length ≤ 31
  · have hkey : q.handed.logCell.key = q.record.pszLogName := by
      rw [key_logCell_short (by rw [handed_pszLogName]; exact hlen), handed_pszLogName]
    rw [hkey]
    cases hfirst : first q.record.pszLogName with
    | none => simp
    | some level =>
        by_cases hlevel : q.handed.nLogLevel ≤ level
        · simp [hlen, hlevel]
        · simp [hlevel]
  · have hkey : q.handed.logCell.key ≠ q.record.pszLogName := by
      have hne := key_logCell_long (r := q.handed)
        (by rw [handed_pszLogName]; exact Nat.not_le.mp hlen)
      rwa [handed_pszLogName] at hne
    refine iff_of_false ?_ fun h => hlen h.1
    rintro ⟨line', he⟩
    split_ifs at he with hany
    · simp only [List.append_cancel_left_eq, List.cons.injEq, Prod.mk.injEq] at he
      exact hkey (Subtype.ext he.1.1)
    · simp at he

end Step

/--
In every run whose file operations succeed, the next record is treated as the
levels of its name say, exactly if its cell is faithful.
-/
theorem filtered_iff
    {b : Build} {m_strLogDir : List UInt8} {x : LogManager × Seen}
    (hrun : Reach (withGhost (step b) note) (fun x c => FilesSucceed b x.1 c)
      (LogManager.init m_strLogDir, Seen.empty) x)
    {q : Request} {rest : List Request} (hq : x.2.pending = q :: rest)
    {a : Answers} (hok : FilesSucceed b x.1 (.threadProc a)) :
    ∃ m', step b x.1 (.threadProc a) = some m' ∧
      ((WrittenTo x.1 m' q ↔ x.2.Wanted q) ↔ x.2.Faithful q) := by
  have h : Follows x.1 x.2 :=
    hrun.invariant (I := fun y => Follows y.1 y.2) (follows_init m_strLogDir)
      fun {y y' c} hy hc hs => by
        obtain ⟨hs₁, hs₂⟩ := withGhost_eq_some hs
        rw [hs₂]
        exact follows_step hy hc hs₁
  have hqueue : x.1.m_logQueue = q.handed.logCell :: rest.map fun q => q.handed.logCell := by
    rw [h.queue, hq]
    rfl
  obtain ⟨m', heq, -, -, hwritten⟩ :=
    _write_spec (m := { x.1 with m_logQueue := rest.map fun q => q.handed.logCell })
      ⟨h.tracks.sound, h.tracks.level, h.tracks.file⟩ (hok _ _ hqueue).1 (hok _ _ hqueue).2
  refine ⟨m', (threadProc_cons h.tracks.sound.2 hqueue).trans heq, ?_⟩
  have hto : WrittenTo x.1 m' q ↔ _ := writtenTo_iff hwritten
  rw [hto, Seen.Wanted, Seen.Faithful]
  have hknown := h.known q.record.pszLogName
  cases hfirst : x.2.first q.record.pszLogName with
  | none =>
      rw [hknown.mp hfirst]
      simp
  | some first =>
      cases hlast : x.2.last q.record.pszLogName with
      | none =>
          rw [hknown.mpr hlast] at hfirst
          exact absurd hfirst (by simp)
      | some last =>
          simp only [Option.some.injEq, exists_eq_left']
          refine iff_comm.trans ⟨?_, fun hall => hall first last rfl rfl⟩
          rintro hiff _ _ rfl rfl
          exact hiff

section Samples

/-- The file is empty. -/
def sampleQuiet : Answers := { sampleRefused with size := 0 }

theorem filesSucceed_quiet (b : Build) (m : LogManager) :
    FilesSucceed b m (.threadProc sampleQuiet) :=
  fun _ _ _ => ⟨fun _ _ _ h => absurd h.2 (by decide), fun _ _ _ h => absurd h.2 (by decide)⟩

/-- `SetLogLevel("a", LOG_LEVEL_ERROR)`, and a fatal record behind it. -/
def sampleState (viaWrite : Bool) : LogManager × Seen :=
  let m := ((LogManager.init [100, 47]).setLogLevel sampleLog 2 0 true).2
  let g := note m (.setLogLevel sampleLog 2 0 true) Seen.empty
  let q : Request := ⟨sampleRecord 1, viaWrite⟩
  ((m.writeV q.handed true).2, { g with pending := [q] })

theorem reach_sampleState (viaWrite : Bool) :
    Reach (withGhost (step .tick64) note) (fun x c => FilesSucceed .tick64 x.1 c)
      (LogManager.init [100, 47], Seen.empty) (sampleState viaWrite) := by
  refine Reach.next (a := if viaWrite then .write (sampleRecord 1) true
    else .writeV (sampleRecord 1) true)
    (Reach.next (a := .setLogLevel sampleLog 2 0 true) .start trivial rfl) ?_ ?_
  · cases viaWrite <;> trivial
  · cases viaWrite <;> rfl

theorem filtered_iff_fatal :
    ∃ m', step .tick64 (sampleState false).1 (.threadProc sampleQuiet) = some m' ∧
      ((WrittenTo (sampleState false).1 m' ⟨sampleRecord 1, false⟩ ↔
          (sampleState false).2.Wanted ⟨sampleRecord 1, false⟩) ↔
        (sampleState false).2.Faithful ⟨sampleRecord 1, false⟩) :=
  filtered_iff (reach_sampleState false) rfl (filesSucceed_quiet _ _)

/-- A fatal record given to `Write` is not written to a file that takes errors. -/
theorem fatal_record_lost :
    ¬ ∀ (b : Build) (m_strLogDir : List UInt8) (x : LogManager × Seen),
      Reach (withGhost (step b) note) (fun x c => FilesSucceed b x.1 c)
        (LogManager.init m_strLogDir, Seen.empty) x →
      ∀ (q : Request) (rest : List Request), x.2.pending = q :: rest →
      ∀ (a : Answers), FilesSucceed b x.1 (.threadProc a) →
      ∀ m', step b x.1 (.threadProc a) = some m' →
        (WrittenTo x.1 m' q ↔ x.2.Wanted q) := by
  intro h
  have hstep : (step .tick64 (sampleState true).1 (.threadProc sampleQuiet)).map
      (·.files.written) = some [] := by decide
  obtain ⟨m', hm', hnothing⟩ := Option.map_eq_some_iff.mp hstep
  have hiff := h .tick64 _ _ (reach_sampleState true) ⟨sampleRecord 1, true⟩ [] rfl sampleQuiet
    (filesSucceed_quiet _ _) m' hm'
  obtain ⟨line, hline⟩ := hiff.mpr ⟨2, rfl, by decide⟩
  rw [hnothing] at hline
  exact absurd hline (by simp)

end Samples

end Logging
end IocpNetlib
