import IocpNetlib.Lib.LocalTime
import IocpNetlib.Lib.Reach
import IocpNetlib.Lib.Stdio
import IocpNetlib.Service.IdleClock
import Mathlib.Data.List.AList

/-!
# `LogManager`

A record goes from `Write` or `WriteV` through the queue to the writer thread,
which looks the name up, filters by level, rotates the file when it has grown
and writes the line.  What the system answers on the way (the clocks, the size
of the file, whether `rename` and `_fsopen` succeed) is an input.  The result
`none` of a call is a run in which a file function is given a dead pointer.
-/

namespace IocpNetlib
namespace Logging

open ByteBlock CFormat LocalTime Service Stdio

/-- A C string: no NUL inside. -/
abbrev LogName := { s : List UInt8 // (0 : UInt8) ∉ s }

/--
A formatted message.  `vsprintf_s` is given `sizeof(content) - 1`, and does not
come back from a longer one.
-/
abbrev Message := { s : List UInt8 // (0 : UInt8) ∉ s ∧ s.length + 1 ≤ 10239 }

/-- `LOG_LEVEL_INFO` -/
def logLevelInfo : Nat := 3

structure LogFileObject where
  pFileHandle : Pointer
  nLogLevel : Nat
  lastCheckTime : Nat
deriving DecidableEq, Repr

/-- `name` is the array of 32 characters, `content` the string in its array. -/
structure LogCell where
  threadID : UInt32
  tickTime : Nat
  name : List UInt8
  logLevel : Nat
  content : List UInt8
deriving DecidableEq, Repr

/-- A `std::map` keeps one object for each name. -/
abbrev MapNameToFileObject := AList fun _ : LogName => LogFileObject

structure LogManager where
  m_strLogDir : List UInt8
  m_mapNameToFileObject : MapNameToFileObject
  m_logQueue : List LogCell
  m_Stop : Bool
  files : Files

/-- After `Init`. -/
def LogManager.init (m_strLogDir : List UInt8) : LogManager where
  m_strLogDir := m_strLogDir
  m_mapNameToFileObject := ∅
  m_logQueue := []
  m_Stop := false
  files := Files.empty

/-- `std::map::insert`, which keeps the object that is there. -/
def mapInsert (m : MapNameToFileObject) (name : LogName) (o : LogFileObject) :
    MapNameToFileObject :=
  if name ∈ m then m else m.insert name o

/-- `SetLogLevel`; `now` is the tick, `fsopen` whether the file can be opened. -/
def LogManager.setLogLevel (m : LogManager) (pszLogName : LogName) (nLogLevel now : Nat)
    (fsopen : Bool) : Bool × LogManager :=
  match m.files.fsopen fsopen (m.m_strLogDir ++ pszLogName.1) with
  | (none, files) => (false, { m with files := files })
  | (some pFile, files) =>
      (true,
        { m with
          files := files
          m_mapNameToFileObject :=
            mapInsert m.m_mapNameToFileObject pszLogName
              { pFileHandle := some pFile, nLogLevel := nLogLevel, lastCheckTime := now } })

/-- `GetLevelName` -/
def getLevelName (nLogLevel : Nat) : List UInt8 :=
  if nLogLevel = 1 then [70, 65, 84, 65, 76]
  else if nLogLevel = 2 then [69, 82, 82, 79, 82]
  else if nLogLevel = 3 then [32, 73, 78, 70, 79]
  else if nLogLevel = 4 then [68, 69, 66, 85, 71]
  else []

/-- `memcpy` of `min(sizeof(name) - 1, strlen(pszLogName))` bytes into the zeroed name. -/
def nameField (pszLogName : LogName) : List UInt8 :=
  memcpy (List.replicate 32 0) 0 (pszLogName.1.take (min (32 - 1) pszLogName.1.length))

/-- What a call of `Write` or `WriteV` brings along. -/
structure Record where
  pszLogName : LogName
  nLogLevel : Nat
  message : Message
  threadID : UInt32
  tickTime : Nat

/-- The cell `WriteV` fills. -/
def Record.logCell (r : Record) : LogCell where
  threadID := r.threadID
  tickTime := r.tickTime
  name := nameField r.pszLogName
  logLevel := r.nLogLevel
  content := r.message.1

/-- `WriteV`; `alloc` is whether the queue has room. -/
def LogManager.writeV (m : LogManager) (r : Record) (alloc : Bool) : Bool × LogManager :=
  if alloc then (true, { m with m_logQueue := m.m_logQueue ++ [r.logCell] })
  else (false, m)

/-- `Write`, which hands `LOG_LEVEL_INFO` on. -/
def LogManager.write (m : LogManager) (r : Record) (alloc : Bool) : Bool × LogManager :=
  m.writeV { r with nLogLevel := logLevelInfo } alloc

/-- What the system answers while one record is written. -/
structure Answers where
  tNow : Tm
  now : Nat
  size : Int
  rename : List UInt8 → List UInt8 → Bool
  fsopen : List UInt8 → Bool
  cpuTick : Nat

/-- The key `cell->name` stands for. -/
def LogCell.key (cell : LogCell) : LogName :=
  ⟨cStr cell.name, zero_notMem_cStr cell.name⟩

/-- `MAX_PATH` -/
def maxPath : Nat := 260

/-- `oldFileName` -/
def oldFileName (m_strLogDir : List UInt8) (cell : LogCell) : List UInt8 :=
  printed (maxPath - 1) (m_strLogDir ++ cell.key.1)

/-- `newPath` -/
def newPath (m_strLogDir : List UInt8) (cell : LogCell) (tNow : Tm) : List UInt8 :=
  printed (maxPath - 1) (m_strLogDir ++ printed 255 tNow.stamp ++ 95 :: cell.key.1)

/-- More than ten seconds since the last check. -/
def checkDue (b : Build) (now lastCheckTime : Nat) : Bool :=
  match b with
  | .tick64 => decide (lastCheckTime < now) && decide (10 * 1000 < now - lastCheckTime)
  | .tick32 => decide (10 * 1000 < getMsInterval now lastCheckTime)

/-- More than ten megabytes. -/
def tooLarge (nSize : Int) : Bool :=
  decide (10 * 1024 * 1024 < nSize)

/-- The check `_write` makes each ten seconds, with the rotation. -/
def rotate (b : Build) (m_strLogDir : List UInt8) (cell : LogCell) (a : Answers)
    (o : LogFileObject) (files : Files) : Option (LogFileObject × Files) :=
  if checkDue b a.now o.lastCheckTime then
    match files.ftell o.pFileHandle a.size with
    | none => none
    | some nSize =>
        if tooLarge nSize then
          match files.fclose o.pFileHandle with
          | none => none
          | some files =>
              if a.rename (oldFileName m_strLogDir cell) (newPath m_strLogDir cell a.tNow) then
                let opened :=
                  files.fsopen (a.fsopen (oldFileName m_strLogDir cell))
                    (oldFileName m_strLogDir cell)
                some ({ o with lastCheckTime := a.now, pFileHandle := opened.1 }, opened.2)
              else some ({ o with lastCheckTime := a.now }, files)
        else some (o, files)
  else some (o, files)

/--
`"[%04d-%02d-%02d %02d:%02d:%02d][%d][%llu_%llu][%d:%s] %s\r\n"`, cut to the
size of `szBuffer`.
-/
def logLine (cell : LogCell) (a : Answers) : List UInt8 :=
  printed 10239
    (91 :: zeroPadded 4 (a.tNow.tm_year + 1900) ++ 45 :: zeroPadded 2 (a.tNow.tm_mon + 1) ++
      45 :: zeroPadded 2 a.tNow.tm_mday ++ 32 :: zeroPadded 2 a.tNow.tm_hour ++
      58 :: zeroPadded 2 a.tNow.tm_min ++ 58 :: zeroPadded 2 a.tNow.tm_sec ++
      93 :: 91 :: signedDecimal (toInt32 cell.threadID.toNat) ++
      93 :: 91 :: decimal cell.tickTime ++ 95 :: decimal a.cpuTick ++
      93 :: 91 :: signedDecimal (toInt32 cell.logLevel) ++ 58 :: getLevelName cell.logLevel ++
      93 :: 32 :: cell.content ++ [13, 10])

/-- `_write` -/
def LogManager._write (b : Build) (m : LogManager) (cell : LogCell) (a : Answers) :
    Option LogManager :=
  match m.m_mapNameToFileObject.lookup cell.key with
  | none => some m
  | some o =>
      if o.nLogLevel < cell.logLevel then some m
      else
        match rotate b m.m_strLogDir cell a o m.files with
        | none => none
        | some (o', files) =>
            let m' :=
              { m with
                files := files
                m_mapNameToFileObject := m.m_mapNameToFileObject.insert cell.key o' }
            if o'.pFileHandle = none then some m'
            else
              match files.fwrite o'.pFileHandle (logLine cell a) with
              | none => none
              | some files =>
                  match files.fflush o'.pFileHandle with
                  | none => none
                  | some files => some { m' with files := files }

/-- One turn of the loop of `ThreadProc`. -/
def LogManager.threadProc (b : Build) (m : LogManager) (a : Answers) : Option LogManager :=
  if m.m_Stop then some m
  else
    match m.m_logQueue with
    | [] => some m
    | cell :: rest => { m with m_logQueue := rest }._write b cell a

/-- The loop of `UnInit` over the files. -/
def closeAll : List (Sigma fun _ : LogName => LogFileObject) → Files → Option Files
  | [], files => some files
  | e :: es, files =>
      match files.fclose e.2.pFileHandle with
      | none => none
      | some files => closeAll es files

/-- `UnInit` -/
def LogManager.unInit (m : LogManager) : Option LogManager :=
  if m.m_Stop then some m
  else
    match closeAll m.m_mapNameToFileObject.entries m.files with
    | none => none
    | some files =>
        some { m with m_Stop := true, m_mapNameToFileObject := ∅, files := files }

/-- What callers and the writer thread do. -/
inductive Call
  | setLogLevel (pszLogName : LogName) (nLogLevel now : Nat) (fsopen : Bool)
  | write (r : Record) (alloc : Bool)
  | writeV (r : Record) (alloc : Bool)
  | threadProc (a : Answers)

/-- One call, or one turn of the writer thread; the lock makes them take turns. -/
def step (b : Build) (m : LogManager) : Call → Option LogManager
  | .setLogLevel pszLogName nLogLevel now fsopen =>
      some (m.setLogLevel pszLogName nLogLevel now fsopen).2
  | .write r alloc => some (m.write r alloc).2
  | .writeV r alloc => some (m.writeV r alloc).2
  | .threadProc a => m.threadProc b a

end Logging
end IocpNetlib
