import IocpNetlib.Baselib.LogManager

/-!
# The streams of the log files

`_write` closes a file before it renames it, and opens it again only when the
rename succeeds.  `no_dead_handle_iff` says which runs never touch a dead
pointer: those in which every rotation goes through.
-/

namespace IocpNetlib
namespace Logging

open Service Stdio Reachability

/-- Each file has a stream of its own, and it is open. -/
structure Owns (map : MapNameToFileObject) (files : Files) : Prop where
  wellFormed : files.WellFormed
  isOpen : ∀ {k : LogName} {o : LogFileObject},
    map.lookup k = some o → files.IsOpen o.pFileHandle
  distinct : ∀ {k k' : LogName} {o o' : LogFileObject},
    map.lookup k = some o → map.lookup k' = some o' → o.pFileHandle = o'.pFileHandle → k = k'

/-- Some file has no stream. -/
def HasNull (map : MapNameToFileObject) : Prop :=
  ∃ k o, map.lookup k = some o ∧ o.pFileHandle = none

/-- The record rotates the file: the check is due, and the file is too large. -/
def Rotates (b : Build) (a : Answers) (o : LogFileObject) : Prop :=
  checkDue b a.now o.lastCheckTime = true ∧ tooLarge a.size = true

/-- `rename` and `_fsopen` succeed on the file of the cell. -/
def GoesThrough (m_strLogDir : List UInt8) (cell : LogCell) (a : Answers) : Prop :=
  a.rename (oldFileName m_strLogDir cell) (newPath m_strLogDir cell a.tNow) = true ∧
    a.fsopen (oldFileName m_strLogDir cell) = true

section Map

variable {map : MapNameToFileObject} {k k' : LogName} {o o' : LogFileObject}

theorem lookup_mapInsert_old (h : map.lookup k' = some o') :
    (mapInsert map k o).lookup k' = some o' := by
  rw [mapInsert]
  split_ifs with hk
  · exact h
  · by_cases hkk : k' = k
    · subst hkk
      rw [AList.lookup_eq_none.mpr hk] at h
      exact absurd h (by simp)
    · rw [AList.lookup_insert_ne hkk]
      exact h

theorem lookup_mapInsert (h : (mapInsert map k o).lookup k' = some o') :
    map.lookup k' = some o' ∨ (map.lookup k = none ∧ k' = k ∧ o' = o) := by
  rw [mapInsert] at h
  split_ifs at h with hk
  · exact Or.inl h
  · by_cases hkk : k' = k
    · subst hkk
      rw [AList.lookup_insert, Option.some_inj] at h
      exact Or.inr ⟨AList.lookup_eq_none.mpr hk, rfl, h.symm⟩
    · rw [AList.lookup_insert_ne hkk] at h
      exact Or.inl h

/-- The map after an assignment through an iterator. -/
theorem lookup_assign (h : (map.insert k o).lookup k' = some o') :
    (k' = k ∧ o' = o) ∨ (k' ≠ k ∧ map.lookup k' = some o') := by
  by_cases hkk : k' = k
  · subst hkk
    rw [AList.lookup_insert, Option.some_inj] at h
    exact Or.inl ⟨rfl, h.symm⟩
  · rw [AList.lookup_insert_ne hkk] at h
    exact Or.inr ⟨hkk, h⟩

end Map

section Rotate

variable {b : Build} {m_strLogDir : List UInt8} {cell : LogCell} {a : Answers}
variable {o o' : LogFileObject} {files files' : Files}

theorem rotate_idle (h : ¬ Rotates b a o) (hopen : files.IsOpen o.pFileHandle) :
    rotate b m_strLogDir cell a o files = some (o, files) := by
  rw [rotate]
  by_cases hdue : checkDue b a.now o.lastCheckTime = true
  · have hsmall : ¬ tooLarge a.size = true := fun hl => h ⟨hdue, hl⟩
    rw [if_pos hdue, Files.ftell, if_pos hopen]
    exact if_neg hsmall
  · rw [if_neg hdue]

/-- A rotation closes the stream; what the file has then depends on the system. -/
theorem rotate_due
    (m_strLogDir : List UInt8) (cell : LogCell)
    (h : Rotates b a o) (hopen : files.IsOpen o.pFileHandle) :
    ∃ closed, files.fclose o.pFileHandle = some closed ∧
      rotate b m_strLogDir cell a o files =
        if a.rename (oldFileName m_strLogDir cell) (newPath m_strLogDir cell a.tNow) then
          let opened :=
            closed.fsopen (a.fsopen (oldFileName m_strLogDir cell)) (oldFileName m_strLogDir cell)
          some ({ o with lastCheckTime := a.now, pFileHandle := opened.1 }, opened.2)
        else some ({ o with lastCheckTime := a.now }, closed) := by
  refine ⟨_, Files.fclose_eq hopen, ?_⟩
  rw [rotate, if_pos h.1, Files.ftell, if_pos hopen]
  simp only [if_pos h.2, Files.fclose_eq hopen]

/-- Without a stream the check fails, and nothing else is touched. -/
theorem rotate_null (hnull : o.pFileHandle = none)
    (h : rotate b m_strLogDir cell a o files = some (o', files')) :
    o' = o ∧ files' = files := by
  rw [rotate] at h
  by_cases hdue : checkDue b a.now o.lastCheckTime = true
  · rw [if_pos hdue, Files.ftell, hnull, if_neg Files.not_isOpen_none] at h
    exact absurd h (by simp)
  · rw [if_neg hdue] at h
    cases h
    exact ⟨rfl, rfl⟩

end Rotate

section Write

variable {b : Build} {m m' : LogManager} {cell : LogCell} {a : Answers} {o : LogFileObject}

/-- The lines are the only thing a write changes. -/
theorem owns_written {map : MapNameToFileObject} {files : Files} {written : List (Text × Text)}
    (h : Owns map files) : Owns map { files with written := written } :=
  ⟨h.wellFormed, h.isOpen, h.distinct⟩

/-- A stream of its own for one file, and the others as they were. -/
theorem owns_assign {map : MapNameToFileObject} {files files' : Files} {k : LogName}
    {o o' : LogFileObject}
    (h : Owns map files) (hk : map.lookup k = some o) (hwf : files'.WellFormed)
    (hopen : files'.IsOpen o'.pFileHandle)
    (hnew : o'.pFileHandle = o.pFileHandle ∨ ¬ files.IsOpen o'.pFileHandle)
    (hothers : ∀ p, p ≠ o.pFileHandle → files.IsOpen p → files'.IsOpen p) :
    Owns (map.insert k o') files' := by
  have hne {k₁ : LogName} {o₁ : LogFileObject} (hk₁ : k₁ ≠ k) (h₁ : map.lookup k₁ = some o₁) :
      o₁.pFileHandle ≠ o'.pFileHandle := by
    intro he
    rcases hnew with hsame | hfresh
    · exact hk₁ (h.distinct h₁ hk (he.trans hsame))
    · exact hfresh (he ▸ h.isOpen h₁)
  refine ⟨hwf, fun {k₁ o₁} h₁ => ?_, fun {k₁ k₂ o₁ o₂} h₁ h₂ he => ?_⟩
  · rcases lookup_assign h₁ with ⟨rfl, rfl⟩ | ⟨hk₁, h₁⟩
    · exact hopen
    · exact hothers _ (fun he => hk₁ (h.distinct h₁ hk he)) (h.isOpen h₁)
  · rcases lookup_assign h₁ with ⟨rfl, rfl⟩ | ⟨hk₁, hl₁⟩
    · rcases lookup_assign h₂ with ⟨rfl, rfl⟩ | ⟨hk₂, hl₂⟩
      · rfl
      · exact absurd he.symm (hne hk₂ hl₂)
    · rcases lookup_assign h₂ with ⟨rfl, rfl⟩ | ⟨hk₂, hl₂⟩
      · exact absurd he (hne hk₁ hl₁)
      · exact h.distinct hl₁ hl₂ he

/--
A rotation that goes through gives the file a new stream, under the path that
was printed for it; without a rotation it keeps the one it has.
-/
theorem rotate_keeps {k : LogName}
    (h : Owns m.m_mapNameToFileObject m.files) (hk : m.m_mapNameToFileObject.lookup k = some o)
    (hok : Rotates b a o → GoesThrough m.m_strLogDir cell a) :
    ∃ o' files', rotate b m.m_strLogDir cell a o m.files = some (o', files') ∧
      Owns (m.m_mapNameToFileObject.insert k o') files' ∧
      o'.nLogLevel = o.nLogLevel ∧ files'.written = m.files.written ∧
      (files'.path o'.pFileHandle = m.files.path o.pFileHandle ∨
        Rotates b a o ∧
          files'.path o'.pFileHandle = some (oldFileName m.m_strLogDir cell)) ∧
      ∀ p, p ≠ o.pFileHandle → m.files.IsOpen p → files'.path p = m.files.path p := by
  have hopen := h.isOpen hk
  by_cases hrot : Rotates b a o
  · obtain ⟨closed, hclosed, heq⟩ := rotate_due m.m_strLogDir cell hrot hopen
    obtain ⟨hrename, hfsopen⟩ := hok hrot
    have hwf := Files.wellFormed_fclose h.wellFormed hclosed
    have hnum : closed.opened = m.files.opened ∧ closed.written = m.files.written := by
      rw [Files.fclose_eq hopen, Option.some_inj] at hclosed
      subst hclosed
      exact ⟨rfl, rfl⟩
    rw [if_pos hrename, hfsopen] at heq
    obtain ⟨-, -, hpath⟩ := Files.fsopen_fresh (oldFileName m.m_strLogDir cell) hwf
    refine ⟨_, _, heq, ?_, rfl, hnum.2, Or.inr ⟨hrot, hpath⟩, fun p hpo hp => ?_⟩
    · refine owns_assign h hk (Files.wellFormed_fsopen hwf) ?_ (Or.inr ?_) ?_
      · rw [Files.IsOpen]
        exact hpath ▸ rfl
      · intro hold
        have hlt := Files.lt_opened h.wellFormed hold
        omega
      · intro p hp hpo
        exact Files.isOpen_fsopen hwf (Files.isOpen_fclose hclosed hpo hp)
    · have hstill := Files.isOpen_fclose hclosed hp hpo
      exact (Files.path_fsopen hwf hstill).trans (Files.path_fclose hclosed hpo)
  · exact ⟨o, m.files, rotate_idle hrot hopen,
      owns_assign h hk h.wellFormed hopen (Or.inl rfl) fun _ _ hp => hp,
      rfl, rfl, Or.inl rfl, fun _ _ _ => rfl⟩

/-- A rotation that does not go through is felt at once, or leaves a file without a stream. -/
theorem rotate_breaks
    (hopen : m.files.IsOpen o.pFileHandle) (hrot : Rotates b a o)
    (hbad : ¬ GoesThrough m.m_strLogDir cell a)
    {o' : LogFileObject} {files' : Files}
    (h : rotate b m.m_strLogDir cell a o m.files = some (o', files')) :
    o'.pFileHandle = none ∨ ¬ files'.IsOpen o'.pFileHandle := by
  obtain ⟨closed, hclosed, heq⟩ := rotate_due m.m_strLogDir cell hrot hopen
  rw [heq] at h
  by_cases hrename :
      a.rename (oldFileName m.m_strLogDir cell) (newPath m.m_strLogDir cell a.tNow) = true
  · have hfsopen : a.fsopen (oldFileName m.m_strLogDir cell) = false := by
      rw [← Bool.not_eq_true]
      exact fun hf => hbad ⟨hrename, hf⟩
    rw [if_pos hrename, hfsopen] at h
    cases h
    exact Or.inl rfl
  · rw [if_neg hrename] at h
    cases h
    exact Or.inr (Files.not_isOpen_fclose hclosed)

/-- What `_write` does for a record that is not filtered out. -/
theorem _write_passed
    (hk : m.m_mapNameToFileObject.lookup cell.key = some o) (hlevel : cell.logLevel ≤ o.nLogLevel)
    {o' : LogFileObject} {files' : Files}
    (hrot : rotate b m.m_strLogDir cell a o m.files = some (o', files')) :
    m._write b cell a =
      if o'.pFileHandle = none then
        some { m with
          files := files'
          m_mapNameToFileObject := m.m_mapNameToFileObject.insert cell.key o' }
      else
        (files'.path o'.pFileHandle).map fun path =>
          { m with
            files := { files' with written := files'.written ++ [(path, logLine cell a)] }
            m_mapNameToFileObject := m.m_mapNameToFileObject.insert cell.key o' } := by
  simp only [LogManager._write, hk, if_neg (Nat.not_lt.mpr hlevel), hrot]
  split_ifs with hnull
  · rfl
  · cases hpath : files'.path o'.pFileHandle with
    | none =>
        have hdead : ¬ files'.IsOpen o'.pFileHandle := by
          rw [Files.IsOpen, hpath]
          exact Bool.false_ne_true
        simp only [Files.fwrite_eq_none hdead, Option.map_none]
    | some path =>
        have hopen : Files.IsOpen
            { files' with written := files'.written ++ [(path, logLine cell a)] }
            o'.pFileHandle := by
          rw [Files.IsOpen]
          exact hpath ▸ rfl
        simp only [Files.fwrite_eq hpath, Files.fflush, if_pos hopen, Option.map_some]

/-- A record that is filtered out, or has no file, changes nothing. -/
theorem _write_dropped
    (h : ∀ o, m.m_mapNameToFileObject.lookup cell.key = some o → o.nLogLevel < cell.logLevel) :
    m._write b cell a = some m := by
  rw [LogManager._write]
  cases hk : m.m_mapNameToFileObject.lookup cell.key with
  | none => rfl
  | some o => exact if_pos (h o hk)

/-- The record that is written next rotates its file only if the rotation goes through. -/
def Smooth (b : Build) (m : LogManager) (cell : LogCell) (a : Answers) : Prop :=
  ∀ o, m.m_mapNameToFileObject.lookup cell.key = some o → cell.logLevel ≤ o.nLogLevel →
    Rotates b a o → GoesThrough m.m_strLogDir cell a

/-- A record within the level of its file is written, and the other files stay as they are. -/
theorem _write_line
    (h : Owns m.m_mapNameToFileObject m.files)
    (hk : m.m_mapNameToFileObject.lookup cell.key = some o) (hlevel : cell.logLevel ≤ o.nLogLevel)
    (hok : Rotates b a o → GoesThrough m.m_strLogDir cell a) :
    ∃ o' files' path,
      m._write b cell a =
        some { m with
          files := { files' with written := m.files.written ++ [(path, logLine cell a)] }
          m_mapNameToFileObject := m.m_mapNameToFileObject.insert cell.key o' } ∧
      Owns (m.m_mapNameToFileObject.insert cell.key o') files' ∧
      o'.nLogLevel = o.nLogLevel ∧ files'.path o'.pFileHandle = some path ∧
      (m.files.path o.pFileHandle = some path ∨
        Rotates b a o ∧ path = oldFileName m.m_strLogDir cell) ∧
      ∀ p, p ≠ o.pFileHandle → m.files.IsOpen p → files'.path p = m.files.path p := by
  obtain ⟨o', files', hrot, howns, hsame, hlines, hpath, hothers⟩ := rotate_keeps h hk hok
  have hopen : files'.IsOpen o'.pFileHandle := howns.isOpen (AList.lookup_insert _)
  obtain ⟨path, hp⟩ := Option.isSome_iff_exists.mp hopen
  have hnull : o'.pFileHandle ≠ none := fun hn => Files.not_isOpen_none (hn ▸ hopen)
  have heq := _write_passed hk hlevel hrot
  rw [if_neg hnull, hp, hlines] at heq
  refine ⟨o', files', path, heq, howns, hsame, hp, ?_, hothers⟩
  rcases hpath with hold | ⟨hdue, hnew⟩
  · exact Or.inl (hold.symm.trans hp)
  · exact Or.inr ⟨hdue, Option.some_inj.mp (hp.symm.trans hnew)⟩

theorem _write_keeps (h : Owns m.m_mapNameToFileObject m.files) (hok : Smooth b m cell a) :
    ∃ m', m._write b cell a = some m' ∧ Owns m'.m_mapNameToFileObject m'.files ∧
      m'.m_Stop = m.m_Stop := by
  by_cases hpass : ∃ o, m.m_mapNameToFileObject.lookup cell.key = some o ∧
      cell.logLevel ≤ o.nLogLevel
  · obtain ⟨o, hk, hlevel⟩ := hpass
    obtain ⟨o', files', path, heq, howns, -⟩ := _write_line h hk hlevel (hok o hk hlevel)
    exact ⟨_, heq, owns_written howns, rfl⟩
  · refine ⟨m, _write_dropped fun o hk => ?_, h, rfl⟩
    by_contra hlevel
    exact hpass ⟨o, hk, Nat.not_lt.mp hlevel⟩

theorem _write_breaks (h : Owns m.m_mapNameToFileObject m.files) (hbad : ¬ Smooth b m cell a)
    (hs : m._write b cell a = some m') :
    HasNull m'.m_mapNameToFileObject ∧ m'.m_Stop = m.m_Stop := by
  simp only [Smooth, not_forall] at hbad
  obtain ⟨o, hk, hlevel, hrot, hfail⟩ := hbad
  cases hr : rotate b m.m_strLogDir cell a o m.files with
  | none => simp [LogManager._write, hk, if_neg (Nat.not_lt.mpr hlevel), hr] at hs
  | some r =>
      obtain ⟨o', files'⟩ := r
      rw [_write_passed hk hlevel hr] at hs
      by_cases hnull : o'.pFileHandle = none
      · rw [if_pos hnull] at hs
        cases hs
        exact ⟨⟨cell.key, o', AList.lookup_insert _, hnull⟩, rfl⟩
      · rcases rotate_breaks (h.isOpen hk) hrot hfail hr with hn | hdead
        · exact absurd hn hnull
        · rw [Files.IsOpen, Option.not_isSome_iff_eq_none] at hdead
          rw [if_neg hnull, hdead] at hs
          exact absurd hs (by simp)

/-- Nothing gives a file without a stream a new one. -/
theorem _write_null (h : HasNull m.m_mapNameToFileObject) (hs : m._write b cell a = some m') :
    HasNull m'.m_mapNameToFileObject ∧ m'.m_Stop = m.m_Stop := by
  by_cases hpass : ∃ o, m.m_mapNameToFileObject.lookup cell.key = some o ∧
      cell.logLevel ≤ o.nLogLevel
  · obtain ⟨o, hk, hlevel⟩ := hpass
    cases hr : rotate b m.m_strLogDir cell a o m.files with
    | none => simp [LogManager._write, hk, if_neg (Nat.not_lt.mpr hlevel), hr] at hs
    | some r =>
        obtain ⟨o', files'⟩ := r
        have hassign : HasNull (m.m_mapNameToFileObject.insert cell.key o') := by
          obtain ⟨k₀, o₀, hk₀, hnull₀⟩ := h
          by_cases hkk : k₀ = cell.key
          · subst hkk
            rw [hk, Option.some_inj] at hk₀
            subst hk₀
            obtain ⟨rfl, -⟩ := rotate_null hnull₀ hr
            exact ⟨_, _, AList.lookup_insert _, hnull₀⟩
          · exact ⟨k₀, o₀, (AList.lookup_insert_ne hkk).trans hk₀, hnull₀⟩
        rw [_write_passed hk hlevel hr] at hs
        split_ifs at hs with hnull
        · cases hs
          exact ⟨hassign, rfl⟩
        · obtain ⟨path, -, rfl⟩ := Option.map_eq_some_iff.mp hs
          exact ⟨hassign, rfl⟩
  · rw [_write_dropped fun o hk => ?_] at hs
    · cases hs
      exact ⟨h, rfl⟩
    · by_contra hlevel
      exact hpass ⟨o, hk, Nat.not_lt.mp hlevel⟩

end Write

section UnInit

variable {m : LogManager}

/-- `UnInit` closes streams that are open and not the same. -/
theorem closeAll_isSome {es : List (Sigma fun _ : LogName => LogFileObject)} {files : Files}
    (hopen : ∀ e ∈ es, files.IsOpen e.2.pFileHandle)
    (hpair : es.Pairwise fun e e' => e.2.pFileHandle ≠ e'.2.pFileHandle) :
    (closeAll es files).isSome = true := by
  induction es generalizing files with
  | nil => rfl
  | cons e es ih =>
      obtain ⟨hhead, htail⟩ := List.pairwise_cons.mp hpair
      have heq := Files.fclose_eq (hopen e List.mem_cons_self)
      simp only [closeAll, heq]
      refine ih (fun e' he' => ?_) htail
      exact Files.isOpen_fclose heq (hopen e' (List.mem_cons_of_mem _ he')) (hhead e' he').symm

theorem closeAll_null {es : List (Sigma fun _ : LogName => LogFileObject)} {files : Files}
    (h : ∃ e ∈ es, e.2.pFileHandle = none) : closeAll es files = none := by
  induction es generalizing files with
  | nil =>
      obtain ⟨e, he, -⟩ := h
      exact absurd he List.not_mem_nil
  | cons e es ih =>
      rw [closeAll]
      cases hclose : files.fclose e.2.pFileHandle with
      | none => rfl
      | some files' =>
          apply ih
          obtain ⟨e', he', hnull⟩ := h
          rcases List.mem_cons.mp he' with rfl | hmem
          · rw [hnull, Files.fclose_eq_none Files.not_isOpen_none] at hclose
            exact absurd hclose (by simp)
          · exact ⟨e', hmem, hnull⟩

theorem mem_entries {map : MapNameToFileObject}
    {e : Sigma fun _ : LogName => LogFileObject} (he : e ∈ map.entries) :
    map.lookup e.1 = some e.2 :=
  AList.mem_lookup_iff.mpr he

theorem unInit_isSome (h : Owns m.m_mapNameToFileObject m.files) : m.unInit.isSome = true := by
  have hclose : (closeAll m.m_mapNameToFileObject.entries m.files).isSome = true := by
    refine closeAll_isSome (fun e he => h.isOpen (mem_entries he)) ?_
    have hkeys := List.nodupKeys_iff_pairwise.mp m.m_mapNameToFileObject.nodupKeys
    exact hkeys.imp_of_mem fun he he' hne heq =>
      hne (h.distinct (mem_entries he) (mem_entries he') heq)
  obtain ⟨files, hfiles⟩ := Option.isSome_iff_exists.mp hclose
  rw [LogManager.unInit, hfiles]
  split_ifs <;> rfl

theorem unInit_null (h : HasNull m.m_mapNameToFileObject) (hstop : m.m_Stop = false) :
    m.unInit = none := by
  obtain ⟨k, o, hk, hnull⟩ := h
  have hclose : closeAll m.m_mapNameToFileObject.entries m.files = none :=
    closeAll_null ⟨⟨k, o⟩, AList.mem_lookup_iff.mp hk, hnull⟩
  rw [LogManager.unInit, hstop, hclose]
  rfl

end UnInit

section Runs

variable {b : Build} {m m' : LogManager}

/-- A turn of the writer thread that rotates a file goes through. -/
def RotationSucceeds (b : Build) (m : LogManager) : Call → Prop
  | .threadProc a => ∀ cell rest, m.m_logQueue = cell :: rest → Smooth b m cell a
  | _ => True

theorem setLogLevel_opened (pszLogName : LogName) (nLogLevel now : Nat) :
    m.setLogLevel pszLogName nLogLevel now true =
      (true,
        { m with
          files := (m.files.fsopen true (m.m_strLogDir ++ pszLogName.1)).2
          m_mapNameToFileObject :=
            mapInsert m.m_mapNameToFileObject pszLogName
              { pFileHandle := some m.files.opened, nLogLevel := nLogLevel,
                lastCheckTime := now } }) :=
  rfl

theorem threadProc_nil {a : Answers} (hq : m.m_logQueue = []) : m.threadProc b a = some m := by
  rw [LogManager.threadProc, hq]
  exact ite_self _

theorem threadProc_cons {a : Answers} {cell : LogCell} {rest : List LogCell}
    (hstop : m.m_Stop = false) (hq : m.m_logQueue = cell :: rest) :
    m.threadProc b a = { m with m_logQueue := rest }._write b cell a := by
  rw [LogManager.threadProc, if_neg (by simp [hstop]), hq]

/-- A file that is opened gets a stream of its own, and so does its name. -/
theorem owns_setLogLevel {pszLogName : LogName} {nLogLevel now : Nat} {fsopen : Bool}
    (h : Owns m.m_mapNameToFileObject m.files) :
    Owns (m.setLogLevel pszLogName nLogLevel now fsopen).2.m_mapNameToFileObject
      (m.setLogLevel pszLogName nLogLevel now fsopen).2.files := by
  cases fsopen with
  | false => exact h
  | true =>
      obtain ⟨-, hfresh, hpath⟩ :=
        Files.fsopen_fresh (m.m_strLogDir ++ pszLogName.1) h.wellFormed
      have hne {k : LogName} {o : LogFileObject} (hk : m.m_mapNameToFileObject.lookup k = some o) :
          o.pFileHandle ≠ some m.files.opened :=
        fun he => hfresh (he ▸ h.isOpen hk)
      rw [setLogLevel_opened]
      refine ⟨Files.wellFormed_fsopen h.wellFormed, fun {k o} hk => ?_,
        fun {k k' o o'} hk hk' he => ?_⟩
      · rcases lookup_mapInsert hk with hl | ⟨-, rfl, rfl⟩
        · exact Files.isOpen_fsopen h.wellFormed (h.isOpen hl)
        · rw [Files.IsOpen]
          exact hpath ▸ rfl
      · rcases lookup_mapInsert hk with hl | ⟨-, rfl, rfl⟩
        · rcases lookup_mapInsert hk' with hl' | ⟨-, rfl, rfl⟩
          · exact h.distinct hl hl' he
          · exact absurd he (hne hl)
        · rcases lookup_mapInsert hk' with hl' | ⟨-, rfl, rfl⟩
          · exact absurd he.symm (hne hl')
          · rfl

theorem setLogLevel_null {pszLogName : LogName} {nLogLevel now : Nat} {fsopen : Bool}
    (h : HasNull m.m_mapNameToFileObject) :
    HasNull (m.setLogLevel pszLogName nLogLevel now fsopen).2.m_mapNameToFileObject := by
  obtain ⟨k, o, hk, hnull⟩ := h
  cases fsopen with
  | false => exact ⟨k, o, hk, hnull⟩
  | true => exact ⟨k, o, lookup_mapInsert_old hk, hnull⟩

/-- The streams do not depend on the queue. -/
theorem writeV_frame (r : Record) (alloc : Bool) :
    (m.writeV r alloc).2.m_mapNameToFileObject = m.m_mapNameToFileObject ∧
      (m.writeV r alloc).2.files = m.files ∧ (m.writeV r alloc).2.m_Stop = m.m_Stop := by
  cases alloc <;> exact ⟨rfl, rfl, rfl⟩

theorem setLogLevel_m_Stop (pszLogName : LogName) (nLogLevel now : Nat) (fsopen : Bool) :
    (m.setLogLevel pszLogName nLogLevel now fsopen).2.m_Stop = m.m_Stop := by
  cases fsopen <;> rfl

/-- While the manager runs, every file has an open stream of its own. -/
def Sound (m : LogManager) : Prop :=
  Owns m.m_mapNameToFileObject m.files ∧ m.m_Stop = false

/-- While the manager runs, some file has lost its stream. -/
def Damaged (m : LogManager) : Prop :=
  HasNull m.m_mapNameToFileObject ∧ m.m_Stop = false

theorem sound_init (m_strLogDir : List UInt8) : Sound (LogManager.init m_strLogDir) :=
  ⟨⟨Files.wellFormed_empty, fun h => by simp [LogManager.init] at h,
    fun h => by simp [LogManager.init] at h⟩, rfl⟩

theorem sound_writeV (h : Sound m) (r : Record) (alloc : Bool) : Sound (m.writeV r alloc).2 := by
  obtain ⟨hmap, hfiles, hstop⟩ := writeV_frame (m := m) r alloc
  exact ⟨by rw [hmap, hfiles]; exact h.1, hstop.trans h.2⟩

theorem damaged_writeV (h : Damaged m) (r : Record) (alloc : Bool) :
    Damaged (m.writeV r alloc).2 := by
  obtain ⟨hmap, -, hstop⟩ := writeV_frame (m := m) r alloc
  exact ⟨by rw [hmap]; exact h.1, hstop.trans h.2⟩

theorem step_keeps {c : Call} (h : Sound m) (hok : RotationSucceeds b m c) :
    ∃ m', step b m c = some m' ∧ Sound m' := by
  cases c with
  | setLogLevel pszLogName nLogLevel now fsopen =>
      exact ⟨_, rfl, owns_setLogLevel h.1, (setLogLevel_m_Stop _ _ _ _).trans h.2⟩
  | write r alloc => exact ⟨_, rfl, sound_writeV h _ alloc⟩
  | writeV r alloc => exact ⟨_, rfl, sound_writeV h r alloc⟩
  | threadProc a =>
      cases hq : m.m_logQueue with
      | nil => exact ⟨m, threadProc_nil hq, h⟩
      | cons cell rest =>
          rw [step, threadProc_cons h.2 hq]
          obtain ⟨m', hs, howns, hstop⟩ :=
            _write_keeps (m := { m with m_logQueue := rest }) h.1 (hok cell rest hq)
          exact ⟨m', hs, howns, hstop.trans h.2⟩

theorem step_breaks {c : Call} (h : Sound m) (hbad : ¬ RotationSucceeds b m c)
    (hs : step b m c = some m') : Damaged m' := by
  cases c with
  | setLogLevel | write | writeV => exact absurd trivial hbad
  | threadProc a =>
      simp only [RotationSucceeds, not_forall] at hbad
      obtain ⟨cell, rest, hq, hfail⟩ := hbad
      rw [step, threadProc_cons h.2 hq] at hs
      obtain ⟨hnull, hstop⟩ := _write_breaks (m := { m with m_logQueue := rest }) h.1 hfail hs
      exact ⟨hnull, hstop.trans h.2⟩

theorem step_damaged {c : Call} (h : Damaged m) (hs : step b m c = some m') : Damaged m' := by
  cases c with
  | setLogLevel pszLogName nLogLevel now fsopen =>
      cases hs
      exact ⟨setLogLevel_null h.1, (setLogLevel_m_Stop _ _ _ _).trans h.2⟩
  | write r alloc =>
      cases hs
      exact damaged_writeV h _ alloc
  | writeV r alloc =>
      cases hs
      exact damaged_writeV h r alloc
  | threadProc a =>
      cases hq : m.m_logQueue with
      | nil =>
          rw [step, threadProc_nil hq] at hs
          cases hs
          exact h
      | cons cell rest =>
          rw [step, threadProc_cons h.2 hq] at hs
          obtain ⟨hnull, hstop⟩ := _write_null (m := { m with m_logQueue := rest }) h.1 hs
          exact ⟨hnull, hstop.trans h.2⟩

/-- `"a"`, with the level `LOG_LEVEL_DEBUG`. -/
def sampleLog : LogName := ⟨[97], by decide⟩

/-- A record for it. -/
def sampleRecord (nLogLevel : Nat) : Record where
  pszLogName := sampleLog
  nLogLevel := nLogLevel
  message := ⟨[], by decide⟩
  threadID := 1
  tickTime := 0

/-- The file has grown to eleven megabytes, and `rename` does not succeed. -/
def sampleRefused : Answers where
  tNow := LocalTime.newYear 124 (by decide)
  now := 20000
  size := 11 * 1024 * 1024
  rename := fun _ _ => false
  fsopen := fun _ => true
  cpuTick := 20000

/--
A run with the `UnInit` behind it uses open streams only, exactly if each of its
rotations goes through.
-/
theorem no_dead_handle_iff (b : Build) (m_strLogDir : List UInt8) (calls : List Call) :
    (∃ m, run (step b) (LogManager.init m_strLogDir) calls = some m ∧ m.unInit.isSome = true) ↔
      AllMeet (step b) (RotationSucceeds b) (LogManager.init m_strLogDir) calls :=
  run_ends_iff step_keeps step_breaks step_damaged
    (fun h => unInit_isSome h.1)
    (fun h => by rw [unInit_null h.1 h.2]; exact Bool.false_ne_true)
    calls (sound_init m_strLogDir)

/-- A file that cannot be renamed is written to after it was closed. -/
theorem dead_handle_written :
    ¬ ∀ (b : Build) (m_strLogDir : List UInt8) (calls : List Call),
      ∃ m, run (step b) (LogManager.init m_strLogDir) calls = some m ∧
        m.unInit.isSome = true := by
  intro h
  obtain ⟨m, hrun, -⟩ := h .tick64 [100, 47]
    [.setLogLevel sampleLog 4 0 true, .writeV (sampleRecord 4) true, .threadProc sampleRefused]
  have hnone : (run (step .tick64) (LogManager.init [100, 47])
      [.setLogLevel sampleLog 4 0 true, .writeV (sampleRecord 4) true,
        .threadProc sampleRefused]).isSome = false := by
    decide
  rw [hrun] at hnone
  exact absurd hnone (by simp)

end Runs

end Logging
end IocpNetlib
