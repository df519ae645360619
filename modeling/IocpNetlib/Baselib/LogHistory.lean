import IocpNetlib.Baselib.LogFilter
import IocpNetlib.Lib.Disk

/-!
# The history of a log

A log that is rotated lies in several files: the ones it was renamed to, the
oldest first, and the one that is written now.  `log_history` says that together
they hold what was accepted for the name and is within its level, line by line
in the order of the calls, however often the file was rotated.
-/

namespace IocpNetlib
namespace Logging

open ByteBlock CFormat LocalTime Service Stdio Reachability

/-- The level a name was given, if it has a file. -/
def LogManager.level (m : LogManager) (k : LogName) : Option Nat :=
  (m.m_mapNameToFileObject.lookup k).map (·.nLogLevel)

/-- A cell the writer thread took from the queue, and the lines that were written for it. -/
structure Processed where
  cell : LogCell
  answers : Answers
  level : Option Nat
  lines : List (Text × Text)

/--
The records that were accepted, what became of them, the files on the disk, and
the paths the file of each name was renamed to.
-/
structure History where
  accepted : List Record
  processed : List Processed
  disk : Disk
  rotated : LogName → List Text

def History.start (disk : Disk) : History where
  accepted := []
  processed := []
  disk := disk
  rotated := fun _ => []

instance (b : Build) (a : Answers) (o : LogFileObject) : Decidable (Rotates b a o) :=
  inferInstanceAs (Decidable (_ ∧ _))

/-- The record renames the file it goes to. -/
def renames (b : Build) (m : LogManager) (cell : LogCell) (a : Answers) : Bool :=
  (m.m_mapNameToFileObject.lookup cell.key).any fun o =>
    decide (cell.logLevel ≤ o.nLogLevel) && decide (Rotates b a o) &&
      a.rename (oldFileName m.m_strLogDir cell) (newPath m.m_strLogDir cell a.tNow)

/-- What `rename` and `_fsopen` make of the files while a record is written. -/
def diskRotated (b : Build) (m : LogManager) (cell : LogCell) (a : Answers) (d : Disk) : Disk :=
  if renames b m cell a then
    let moved :=
      d.rename (oldFileName m.m_strLogDir cell) (newPath m.m_strLogDir cell a.tNow)
    if a.fsopen (oldFileName m.m_strLogDir cell) then
      moved.truncate (oldFileName m.m_strLogDir cell)
    else moved
  else d

/-- The lines go to their files. -/
def diskWritten (d : Disk) (lines : List (Text × Text)) : Disk :=
  lines.foldl (fun d e => d.append e.1 e.2) d

/-- What `_write` adds. -/
def History.write (b : Build) (m : LogManager) (cell : LogCell) (a : Answers)
    (lines : List (Text × Text)) (g : History) : History :=
  { g with
    processed := g.processed ++ [⟨cell, a, m.level cell.key, lines⟩]
    disk := diskWritten (diskRotated b m cell a g.disk) lines
    rotated :=
      if renames b m cell a then
        Function.update g.rotated cell.key
          (g.rotated cell.key ++ [newPath m.m_strLogDir cell a.tNow])
      else g.rotated }

/-- What a call adds; the lines are those the model writes. -/
def History.note (b : Build) (m : LogManager) (c : Call) (g : History) : History :=
  match c with
  | .setLogLevel pszLogName _ _ fsopen =>
      if fsopen then { g with disk := g.disk.truncate (m.m_strLogDir ++ pszLogName.1) } else g
  | .write r alloc =>
      if alloc then { g with accepted := g.accepted ++ [{ r with nLogLevel := logLevelInfo }] }
      else g
  | .writeV r alloc => if alloc then { g with accepted := g.accepted ++ [r] } else g
  | .threadProc a =>
      if m.m_Stop then g
      else
        match m.m_logQueue, m.threadProc b a with
        | cell :: _, some m' =>
            g.write b m cell a (m'.files.written.drop m.files.written.length)
        | _, _ => g

/-- The file that is written for a name. -/
def LogManager.path (m : LogManager) (k : LogName) : Text :=
  m.m_strLogDir ++ k.1

/-- What was written for a name. -/
def LogManager.text (m : LogManager) (k : LogName) : Text :=
  (m.files.written.filter fun e => decide (e.1 = m.path k)).flatMap Prod.snd

/--
File operations succeed, `SetLogLevel` opens a file that is not there yet, and
`rename` does not succeed if its target is there.
-/
def Careful (b : Build) (x : LogManager × History) : Call → Prop
  | .setLogLevel pszLogName _ _ fsopen =>
      fsopen = true → x.2.disk (x.1.m_strLogDir ++ pszLogName.1) = none
  | .threadProc a => FilesSucceed b x.1 (.threadProc a) ∧
      ∀ cell rest, x.1.m_logQueue = cell :: rest →
        a.rename (oldFileName x.1.m_strLogDir cell) (newPath x.1.m_strLogDir cell a.tNow) = true →
          x.2.disk (newPath x.1.m_strLogDir cell a.tNow) = none
  | _ => True

/--
The records that were accepted are processed in their order, each of them is
written if it is within the level of its name, and the files of a name together
hold what was written for it.
-/
structure Complete (disk₀ : Disk) (m : LogManager) (g : History) : Prop where
  queue : g.accepted.map Record.logCell = g.processed.map Processed.cell ++ m.m_logQueue
  filtered : ∀ p ∈ g.processed, p.lines =
    if p.level.any (decide <| p.cell.logLevel ≤ ·) then
      [(m.path p.cell.key, logLine p.cell p.answers)]
    else []
  written : m.files.written = g.processed.flatMap Processed.lines
  spread : Disk.Spread disk₀ g.disk (fun k => m.level k ≠ none) g.rotated m.path m.text

/-- The lines belong to names with a file, and only these have older files. -/
structure Kept (disk₀ : Disk) (m : LogManager) (g : History) : Prop extends Complete disk₀ m g where
  tracks : Tracks m m.level
  unnamed : ∀ k, m.level k = none → g.rotated k = []
  named : ∀ e ∈ m.files.written, ∃ k, m.level k ≠ none ∧ e.1 = m.path k

section Step

variable {b : Build} {m m' : LogManager} {g : History} {disk₀ : Disk}
variable {cell : LogCell} {a : Answers} {o : LogFileObject} {k k' : LogName}

theorem path_injective (h : m.path k = m.path k') : k = k' :=
  Subtype.ext (List.append_cancel_left h)

theorem _write_m_strLogDir (h : m._write b cell a = some m') :
    m'.m_strLogDir = m.m_strLogDir := by
  rw [LogManager._write] at h
  split at h
  · cases h
    rfl
  · split_ifs at h
    · cases h
      rfl
    · grind

theorem renames_eq_true
    (h : renames b m cell a = true) :
    ∃ o, m.m_mapNameToFileObject.lookup cell.key = some o ∧ cell.logLevel ≤ o.nLogLevel ∧
      Rotates b a o ∧
      a.rename (oldFileName m.m_strLogDir cell) (newPath m.m_strLogDir cell a.tNow) = true := by
  obtain ⟨o, hk, hall⟩ := (Option.any_eq_true _ _).mp h
  simp only [Bool.and_eq_true, decide_eq_true_eq] at hall
  exact ⟨o, hk, hall.1.1, hall.1.2, hall.2⟩

/-- The rotation before a line is written. -/
theorem Kept.rotate
    (h : Kept disk₀ m g) {rest : List LogCell} (hq : m.m_logQueue = cell :: rest)
    (hok : Careful b (m, g) (.threadProc a)) :
    Disk.Spread disk₀ (diskRotated b m cell a g.disk) (fun k => m.level k ≠ none)
      (g.write b m cell a []).rotated m.path m.text := by
  rw [diskRotated, History.write]
  dsimp only
  by_cases hr : renames b m cell a = true
  · obtain ⟨o, hk, hlevel, hrot, hrename⟩ := renames_eq_true hr
    obtain ⟨hsmooth, hroom⟩ := hok.1 cell rest hq
    have hactive : m.level cell.key ≠ none := by
      rw [LogManager.level, hk]
      exact Option.some_ne_none _
    have hold : oldFileName m.m_strLogDir cell = m.path cell.key :=
      oldFileName_eq (hroom o hk hlevel hrot)
    rw [if_pos hr, if_pos hr, if_pos (hsmooth o hk hlevel hrot).2, hold]
    exact h.spread.rotate hactive (hok.2 cell rest hq hrename)
  · rw [if_neg hr, if_neg hr]
    exact h.spread

theorem text_append (key : LogName) (line : Text)
    (hpath : m'.path = m.path)
    (hwritten : m'.files.written = m.files.written ++ [(m.path key, line)]) :
    m'.text = Function.update m.text key (m.text key ++ line) := by
  funext k
  rw [LogManager.text, hwritten, hpath, List.filter_append, List.flatMap_append]
  by_cases hk : k = key
  · subst hk
    rw [Function.update_self, List.filter_singleton, decide_eq_true rfl]
    simp [LogManager.text]
  · have hne : decide ((m.path key, line).1 = m.path k) = false :=
      decide_eq_false fun he => hk (path_injective he).symm
    rw [Function.update_of_ne hk, List.filter_singleton, hne]
    simp [LogManager.text]

/-- The writer thread takes a record. -/
theorem Kept.write
    (h : Kept disk₀ m g) {rest : List LogCell} (hq : m.m_logQueue = cell :: rest)
    (hok : Careful b (m, g) (.threadProc a)) (hs : m.threadProc b a = some m') :
    Kept disk₀ m' (g.write b m cell a (m'.files.written.drop m.files.written.length)) := by
  rw [threadProc_cons h.tracks.sound.2 hq] at hs
  have hrest : Tracks { m with m_logQueue := rest } m.level :=
    ⟨h.tracks.sound, h.tracks.level, h.tracks.file⟩
  obtain ⟨m₁, heq, htracks, hqueue, hwritten⟩ :=
    _write_spec hrest (hok.1 cell rest hq).1 (hok.1 cell rest hq).2
  have hdir := _write_m_strLogDir heq
  rw [heq] at hs
  cases hs
  have hlevel : m'.level = m.level := funext htracks.level
  have hpath : m'.path = m.path := by
    funext k
    rw [LogManager.path, hdir]
    rfl
  have hrotate := h.rotate hq hok
  obtain ⟨lines, hall, hlines⟩ : ∃ lines, m'.files.written = m.files.written ++ lines ∧
      lines = if (m.level cell.key).any (decide <| cell.logLevel ≤ ·) then
        [(m.path cell.key, logLine cell a)] else [] := by
    refine ⟨_, ?_, rfl⟩
    rw [hwritten]
    split_ifs
    · rfl
    · exact (List.append_nil _).symm
  have hactive (hpass : (m.level cell.key).any (decide <| cell.logLevel ≤ ·) = true) :
      m.level cell.key ≠ none :=
    fun hnone => by simp [hnone] at hpass
  rw [hall, List.drop_left]
  refine ⟨⟨?_, ?_, ?_, ?_⟩, hlevel ▸ htracks, fun k hk => ?_, ?_⟩
  · rw [hqueue, History.write, List.map_append, List.append_assoc]
    exact h.queue.trans (congrArg _ hq)
  · intro p hp
    rw [hpath]
    rcases List.mem_append.mp hp with hp | hp
    · exact h.filtered p hp
    · rw [List.mem_singleton.mp hp]
      exact hlines
  · rw [hall, h.written, History.write, List.flatMap_append, List.flatMap_singleton]
  · rw [hlevel, hpath]
    split_ifs at hlines with hpass
    · subst hlines
      rw [text_append cell.key (logLine cell a) hpath hall]
      exact hrotate.append (hactive hpass) (logLine cell a)
    · subst hlines
      have htext : m'.text = m.text := by
        funext k
        rw [LogManager.text, hall, hpath, List.append_nil]
        rfl
      rw [htext]
      exact hrotate
  · rw [hlevel] at hk
    rw [History.write]
    dsimp only
    split_ifs with hr
    · obtain ⟨o, ho, -⟩ := renames_eq_true hr
      have hne : k ≠ cell.key := by
        rintro rfl
        rw [LogManager.level, ho] at hk
        exact absurd hk (by simp)
      rw [Function.update_of_ne hne]
      exact h.unnamed k hk
    · exact h.unnamed k hk
  · intro e he
    rw [hall] at he
    rw [hlevel, hpath]
    rcases List.mem_append.mp he with he | he
    · exact h.named e he
    · split_ifs at hlines with hpass
      · rw [hlines, List.mem_singleton] at he
        exact ⟨cell.key, hactive hpass, congrArg Prod.fst he⟩
      · rw [hlines] at he
        exact absurd he List.not_mem_nil

/-- A name gets its file. -/
theorem Kept.setLogLevel
    (h : Kept disk₀ m g) (pszLogName : LogName) (nLogLevel now : Nat)
    (hfree : g.disk (m.path pszLogName) = none) :
    Kept disk₀ (m.setLogLevel pszLogName nLogLevel now true).2
      { g with disk := g.disk.truncate (m.path pszLogName) } := by
  have hnone : m.level pszLogName = none := by
    by_contra hactive
    exact (h.spread.present hactive _
      (List.mem_append_right _ (List.mem_singleton_self _))).1 hfree
  have htracks : Tracks (m.setLogLevel pszLogName nLogLevel now true).2
      (Function.update m.level pszLogName (some ((m.level pszLogName).getD nLogLevel))) :=
    tracks_setLogLevel h.tracks
  rw [hnone, Option.getD_none] at htracks
  have hlevel : (m.setLogLevel pszLogName nLogLevel now true).2.level =
      Function.update m.level pszLogName (some nLogLevel) :=
    funext htracks.level
  have hactive (k : LogName) :
      (m.setLogLevel pszLogName nLogLevel now true).2.level k ≠ none ↔
        m.level k ≠ none ∨ k = pszLogName := by
    rw [hlevel]
    by_cases hk : k = pszLogName
    · subst hk
      simp
    · simp [hk]
  refine ⟨⟨h.queue, h.filtered, h.written, ?_⟩, hlevel ▸ htracks, fun k hk => ?_,
    fun e he => ?_⟩
  · refine h.spread.begin (h.unnamed _ hnone) hfree hactive (fun _ _ => rfl) ?_
    have hempty : m.files.written.filter (fun e => decide (e.1 = m.path pszLogName)) = [] := by
      refine List.filter_eq_nil_iff.mpr fun e he => ?_
      obtain ⟨k, hk, hpath⟩ := h.named e he
      rw [decide_eq_true_eq, hpath]
      intro hkk
      exact hk (path_injective hkk ▸ hnone)
    exact congrArg (List.flatMap Prod.snd) hempty
  · refine h.unnamed k ?_
    by_contra hk'
    exact (hactive k).mpr (Or.inl hk') hk
  · obtain ⟨k, hk, hpath⟩ := h.named e he
    exact ⟨k, (hactive k).mpr (Or.inl hk), hpath⟩

/-- A record is accepted, or the queue has no room. -/
theorem Kept.writeV
    (h : Kept disk₀ m g) (r : Record) (alloc : Bool) :
    Kept disk₀ (m.writeV r alloc).2
      (if alloc then { g with accepted := g.accepted ++ [r] } else g) := by
  cases alloc with
  | false => exact h
  | true =>
      refine ⟨⟨?_, h.filtered, h.written, h.spread⟩,
        ⟨h.tracks.sound, h.tracks.level, h.tracks.file⟩, h.unnamed, h.named⟩
      rw [if_pos rfl, LogManager.writeV, if_pos rfl]
      dsimp only
      rw [List.map_append, h.queue, List.append_assoc]
      rfl

theorem Kept.step
    (h : Kept disk₀ m g) {c : Call} (hok : Careful b (m, g) c) (hs : step b m c = some m') :
    Kept disk₀ m' (History.note b m c g) := by
  cases c with
  | setLogLevel pszLogName nLogLevel now fsopen =>
      cases hs
      cases fsopen with
      | false => exact h
      | true => exact h.setLogLevel pszLogName nLogLevel now (hok rfl)
  | write r alloc =>
      cases hs
      exact h.writeV _ alloc
  | writeV r alloc =>
      cases hs
      exact h.writeV r alloc
  | threadProc a =>
      have hrun : m.m_Stop = false := h.tracks.sound.2
      cases hq : m.m_logQueue with
      | nil =>
          have hnote : History.note b m (.threadProc a) g = g := by
            rw [History.note, hrun, hq]
            rfl
          rw [Logging.step, threadProc_nil hq] at hs
          cases hs
          rw [hnote]
          exact h
      | cons cell rest =>
          have hnote : History.note b m (.threadProc a) g =
              g.write b m cell a (m'.files.written.drop m.files.written.length) := by
            rw [Logging.step] at hs
            rw [History.note, hrun, hq, hs]
            rfl
          rw [hnote]
          exact h.write hq hok hs

end Step

section Examples

end Examples

end Logging
end IocpNetlib
