import IocpNetlib.Baselib.LogManager
import IocpNetlib.Lib.StrCat

/-!
# Paths beside the module

`GetWorkPath` and `GetLogPath` of `CServiceInstance` and `MakeLog` of
`NetCoreIOCP` cut the file name off the path of the module and append to the
directory.  Each `strcat_s` is given `sizeof(szDirBuffer) - strlen(szDirBuffer)`
as the size of its destination, so that what is there counts twice.  The result
`none` of a function is the invalid-parameter handler.

**Results.**
* `catAll_padded`, `catAll_padded_eq_none`: a chain of appends goes through when
  each of them fits, and only then.
* `getWorkPath_eq`, `getLogPath_eq`, `makeLog_eq`: what each function makes of
  a module path.
* `paths_built_iff`: for which directories the paths are right.
-/

namespace IocpNetlib
namespace Paths

open ByteBlock CFormat LocalTime Logging Reachability StrCat

/-- `GetModuleFileName(NULL, szDirBuffer, nSize)`, which may fail, and cuts a long path off. -/
def getModuleFileName (szDirBuffer : List UInt8) (nSize : Nat) (fileName : Option (List UInt8)) :
    Option (List UInt8) :=
  fileName.map fun path => memcpy szDirBuffer 0 (path.take (nSize - 1) ++ [0])

/-- `strDir.substr(0, strDir.find_last_of('\\'))` -/
def dirname (strDir : List UInt8) : List UInt8 :=
  substr strDir (findLastOf 92 strDir)

/-- `szDirBuffer` after its directory is copied back into it. -/
def dirBuffer (szDirBuffer : List UInt8) : List UInt8 :=
  let strDir := dirname (cStr szDirBuffer)
  memcpy (List.replicate szDirBuffer.length 0) 0
    (strDir.take (min szDirBuffer.length strDir.length))

/-- `strcat_s(szDirBuffer, sizeof(szDirBuffer) - strlen(szDirBuffer), src)` for each `src`. -/
def catAll (szDirBuffer : List UInt8) : List (List UInt8) → Option (List UInt8)
  | [] => some szDirBuffer
  | src :: rest =>
      match strcat_s szDirBuffer (szDirBuffer.length - strlen szDirBuffer) src with
      | none => none
      | some szDirBuffer => catAll szDirBuffer rest

structure CServiceInstance where
  m_szWorkPath : List UInt8
  m_szLogPath : List UInt8
deriving DecidableEq, Repr

/-- The constructor. -/
def CServiceInstance.new : CServiceInstance where
  m_szWorkPath := List.replicate 256 0
  m_szLogPath := List.replicate 256 0

/-- `GetWorkPath`: the string it returns, or `NULL`. -/
def CServiceInstance.getWorkPath (s : CServiceInstance) (fileName : Option (List UInt8)) :
    Option (Option (List UInt8) × CServiceInstance) :=
  let m_szWorkPath := s.m_szWorkPath.set (256 - 1) 0
  if 0 < strlen m_szWorkPath then
    some (some (cStr m_szWorkPath), { s with m_szWorkPath := m_szWorkPath })
  else
    match getModuleFileName (List.replicate 256 0) 255 fileName with
    | none => some (none, { s with m_szWorkPath := m_szWorkPath })
    | some szDirBuffer =>
        if 250 < strlen szDirBuffer then
          some (none, { s with m_szWorkPath := m_szWorkPath })
        else
          match catAll (dirBuffer szDirBuffer) [[47]] with
          | none => none
          | some szDirBuffer =>
              let m_szWorkPath := memcpy m_szWorkPath 0 (szDirBuffer.take (min (256 - 1) 256))
              some (some (cStr m_szWorkPath), { s with m_szWorkPath := m_szWorkPath })

/-- `GetLogPath`: the string it returns, or `NULL`. -/
def CServiceInstance.getLogPath (s : CServiceInstance) (tNow : Tm)
    (fileName : Option (List UInt8)) : Option (Option (List UInt8) × CServiceInstance) :=
  let m_szLogPath := List.replicate 256 0
  let szTimeBuffer := printed 63 tNow.stamp
  match getModuleFileName (List.replicate 256 0) 255 fileName with
  | none => some (none, { s with m_szLogPath := m_szLogPath })
  | some szDirBuffer =>
      if 240 < strlen szDirBuffer + szTimeBuffer.length then
        some (none, { s with m_szLogPath := m_szLogPath })
      else
        match catAll (dirBuffer szDirBuffer) [[47, 108, 111, 103, 47], szTimeBuffer, [47]] with
        | none => none
        | some szDirBuffer =>
            let m_szLogPath := memcpy m_szLogPath 0 (szDirBuffer.take (min (256 - 1) 256))
            some (some (cStr m_szLogPath), { s with m_szLogPath := m_szLogPath })

/-- What `Init` makes `m_strLogDir` of the path it is given. -/
def logDir (pszLogPath : List UInt8) : List UInt8 :=
  if pszLogPath.getLast? ≠ some 92 ∧ pszLogPath.getLast? ≠ some 47 then pszLogPath ++ [92]
  else pszLogPath

/-- `"netliblog/"` -/
def netliblog : List UInt8 := [110, 101, 116, 108, 105, 98, 108, 111, 103, 47]

/-- `"system.log"` -/
def systemLog : LogName := ⟨[115, 121, 115, 116, 101, 109, 46, 108, 111, 103], by decide⟩

/-- `LOG_LEVEL_DEBUG` -/
def logLevelDebug : Nat := 4

/--
`MakeLog`: `ret` and `mLogger`.  `alloc` is whether `new` succeeds, `now` and
`fsopen` are what `SetLogLevel` meets.
-/
def makeLog (alloc : Bool) (tNow : Tm) (fileName : Option (List UInt8)) (now : Nat)
    (fsopen : Bool) : Option (Int × Option LogManager) :=
  if alloc then
    let szTimeBuffer := printed 255 tNow.stamp
    match getModuleFileName (List.replicate 512 0) 511 fileName with
    | none => some (-1, some (LogManager.init []))
    | some szDirBuffer =>
        match catAll (dirBuffer szDirBuffer) [[47], netliblog, szTimeBuffer, [47]] with
        | none => none
        | some szDirBuffer =>
            let mLogger := LogManager.init (logDir (cStr szDirBuffer))
            some (0, some (mLogger.setLogLevel systemLog logLevelDebug now fsopen).2)
  else some (0, none)

/-- A module path with a backslash: the directory, and a file name without one. -/
structure ModulePath where
  dir : List UInt8
  name : List UInt8
  dir_nul : 0 ∉ dir
  name_nul : 0 ∉ name
  name_sep : 92 ∉ name

def ModulePath.path (m : ModulePath) : List UInt8 :=
  m.dir ++ 92 :: m.name

/-- Every path with a backslash is one. -/
theorem exists_modulePath {path : List UInt8} (hnul : 0 ∉ path) (hsep : 92 ∈ path) :
    ∃ m : ModulePath, m.path = path := by
  induction path with
  | nil => exact absurd hsep List.not_mem_nil
  | cons b bs ih =>
      rw [List.mem_cons, not_or] at hnul
      by_cases hbs : 92 ∈ bs
      · obtain ⟨m, hm⟩ := ih hnul.2 hbs
        have hdir : (0 : UInt8) ∉ b :: m.dir := by
          rw [List.mem_cons, not_or]
          exact ⟨hnul.1, m.dir_nul⟩
        refine ⟨{ m with dir := b :: m.dir, dir_nul := hdir }, ?_⟩
        rw [ModulePath.path] at hm ⊢
        rw [List.cons_append, hm]
      · have hb : b = 92 := by
          rcases List.mem_cons.mp hsep with h | h
          · exact h.symm
          · exact absurd h hbs
        subst hb
        exact ⟨⟨[], bs, List.not_mem_nil, hnul.2, hbs⟩, rfl⟩

section Directory

variable (m : ModulePath)

theorem zero_notMem_path : 0 ∉ m.path := by
  rw [ModulePath.path, List.mem_append, List.mem_cons, not_or, not_or]
  exact ⟨m.dir_nul, by decide, m.name_nul⟩

theorem length_path : m.path.length = m.dir.length + 1 + m.name.length := by
  rw [ModulePath.path, List.length_append, List.length_cons]
  omega

/-- The directory of a path that is cut off behind the last backslash. -/
theorem dirname_take {k : Nat} (h : m.dir.length < k) : dirname (m.path.take k) = m.dir := by
  obtain ⟨j, rfl⟩ : ∃ j, k = m.dir.length + (j + 1) := ⟨k - m.dir.length - 1, by omega⟩
  have hname : 92 ∉ m.name.take j := fun h => m.name_sep (List.mem_of_mem_take h)
  have htake : m.path.take (m.dir.length + (j + 1)) = m.dir ++ 92 :: m.name.take j := by
    rw [ModulePath.path, List.take_length_add_append, List.take_succ_cons]
  rw [htake, dirname, substr_findLastOf hname]

/-- The buffer after the read of at most `nSize - 1` characters, and after the cut. -/
theorem getModuleFileName_path (size nSize : Nat) (h : nSize ≤ size) (hpos : 0 < nSize) :
    ∃ szDirBuffer,
      getModuleFileName (List.replicate size 0) nSize (some m.path) = some szDirBuffer ∧
        strlen szDirBuffer = min (nSize - 1) m.path.length ∧
        dirBuffer szDirBuffer = padded size (dirname (m.path.take (nSize - 1))) := by
  have hnul : 0 ∉ m.path.take (nSize - 1) :=
    fun h => zero_notMem_path m (List.mem_of_mem_take h)
  have hlen : (m.path.take (nSize - 1)).length + 1 ≤ size := by
    rw [List.length_take]
    omega
  have hdir : (dirname (m.path.take (nSize - 1))).length ≤ (m.path.take (nSize - 1)).length :=
    length_substr_le _ _
  refine ⟨padded size (m.path.take (nSize - 1)), ?_, ?_, ?_⟩
  · rw [getModuleFileName, Option.map_some, memcpy_zeros, padded_append_zero hlen]
  · rw [strlen_padded hnul, List.length_take]
  · rw [dirBuffer, cStr_padded hnul, length_padded (by omega), memcpy_zeros,
      List.take_of_length_le (by omega)]

end Directory

section Appends

/-- Every append fits behind `n` characters: what is there counts twice. -/
def Fits (size : Nat) : Nat → List (List UInt8) → Prop
  | _, [] => True
  | n, src :: rest => 2 * n + src.length + 1 ≤ size ∧ Fits size (n + src.length) rest

variable {size : Nat} {s : List UInt8} {srcs : List (List UInt8)}

/-- The first append of a chain. -/
theorem catAll_cons {src : List UInt8} (hs : 0 ∉ s) (hsize : s.length ≤ size)
    (rest : List (List UInt8)) :
    catAll (padded size s) (src :: rest) =
      if 2 * s.length + src.length + 1 ≤ size then catAll (padded size (s ++ src)) rest
      else none := by
  rw [catAll, length_padded hsize, strlen_padded hs]
  by_cases hfit : 2 * s.length + src.length + 1 ≤ size
  · have happend : strcat_s (padded size s) (size - s.length) src =
        some (padded size (s ++ src)) :=
      strcat_s_padded hs (by omega) (by omega)
    rw [if_pos hfit, happend]
  · rw [if_neg hfit, strcat_s_padded_eq_none hs (by omega)]

/-- A chain of appends that all fit. -/
theorem catAll_padded (hs : 0 ∉ s) (hsrcs : ∀ src ∈ srcs, 0 ∉ src) (hsize : s.length ≤ size)
    (h : Fits size s.length srcs) :
    catAll (padded size s) srcs = some (padded size (s ++ srcs.flatten)) := by
  induction srcs generalizing s with
  | nil => rw [catAll, List.flatten_nil, List.append_nil]
  | cons src rest ih =>
      obtain ⟨hfit, hrest⟩ := h
      rw [List.forall_mem_cons] at hsrcs
      have hlen : (s ++ src).length = s.length + src.length := List.length_append
      rw [catAll_cons hs hsize, if_pos hfit, List.flatten_cons, ← List.append_assoc]
      exact ih (zero_notMem_append hs hsrcs.1) hsrcs.2 (by omega) (hlen ▸ hrest)

/-- A chain with an append that does not fit. -/
theorem catAll_padded_eq_none (hs : 0 ∉ s) (hsrcs : ∀ src ∈ srcs, 0 ∉ src)
    (hsize : s.length ≤ size) (h : ¬ Fits size s.length srcs) :
    catAll (padded size s) srcs = none := by
  induction srcs generalizing s with
  | nil => exact absurd trivial h
  | cons src rest ih =>
      rw [List.forall_mem_cons] at hsrcs
      rw [catAll_cons hs hsize]
      by_cases hfit : 2 * s.length + src.length + 1 ≤ size
      · have hlen : (s ++ src).length = s.length + src.length := List.length_append
        have hrest : ¬ Fits size (s ++ src).length rest := by
          rw [hlen]
          exact fun hrest => h ⟨hfit, hrest⟩
        rw [if_pos hfit]
        exact ih (zero_notMem_append hs hsrcs.1) hsrcs.2 (by omega) hrest
      · rw [if_neg hfit]

/-- A chain of which is known how long a string it fits behind. -/
theorem catAll_eq {k : Nat} (hs : 0 ∉ s) (hsrcs : ∀ src ∈ srcs, 0 ∉ src)
    (hsize : s.length ≤ size) (hfits : ∀ n, Fits size n srcs ↔ n ≤ k) :
    catAll (padded size s) srcs =
      if s.length ≤ k then some (padded size (s ++ srcs.flatten)) else none := by
  by_cases h : s.length ≤ k
  · rw [if_pos h]
    exact catAll_padded hs hsrcs hsize ((hfits _).mpr h)
  · rw [if_neg h]
    exact catAll_padded_eq_none hs hsrcs hsize fun hfit => h ((hfits _).mp hfit)

theorem zero_notMem_append_flatten (hs : 0 ∉ s) (hsrcs : ∀ src ∈ srcs, 0 ∉ src) :
    0 ∉ s ++ srcs.flatten := by
  rw [List.mem_append, List.mem_flatten]
  rintro (h | ⟨src, hsrc, h⟩)
  · exact hs h
  · exact hsrcs src hsrc h

/-- The copy of a path into a member that was zero. -/
theorem memcpy_path (h : s.length ≤ 255) :
    memcpy (List.replicate 256 0) 0 ((padded 256 s).take (min (256 - 1) 256)) = padded 256 s := by
  rw [memcpy_zeros]
  exact padded_take h (by decide)

end Appends

section ServiceInstance

variable {m : ModulePath} {s : CServiceInstance}

/-- What `GetLogPath` appends. -/
def logSuffix (tNow : Tm) : List (List UInt8) :=
  [[47, 108, 111, 103, 47], tNow.stamp, [47]]

/-- What `MakeLog` appends. -/
def netlibSuffix (tNow : Tm) : List (List UInt8) :=
  [[47], netliblog, tNow.stamp, [47]]

theorem fits_work (n : Nat) : Fits 256 n [[47]] ↔ n ≤ 127 := by
  simp only [Fits, List.length_singleton, and_true]
  omega

theorem fits_log (tNow : Tm) (n : Nat) : Fits 256 n (logSuffix tNow) ↔ n ≤ 103 := by
  simp only [logSuffix, Fits, length_stamp, List.length_cons, List.length_nil, and_true]
  omega

theorem fits_netlib (tNow : Tm) (n : Nat) : Fits 512 n (netlibSuffix tNow) ↔ n ≤ 225 := by
  simp only [netlibSuffix, netliblog, Fits, length_stamp, List.length_cons, List.length_nil,
    and_true]
  omega

theorem zero_notMem_logSuffix (tNow : Tm) : ∀ src ∈ logSuffix tNow, 0 ∉ src := by
  simp [logSuffix, zero_notMem_stamp]

theorem zero_notMem_netlibSuffix (tNow : Tm) : ∀ src ∈ netlibSuffix tNow, 0 ∉ src := by
  simp [netlibSuffix, netliblog, zero_notMem_stamp]

theorem length_logSuffix (tNow : Tm) : (logSuffix tNow).flatten.length = 25 := by
  simp [logSuffix, length_stamp]

theorem printed_stamp (n : Nat) (h : 20 ≤ n) (tNow : Tm) : printed n tNow.stamp = tNow.stamp := by
  have hlen := length_stamp tNow
  rw [printed, List.take_of_length_le (by omega)]

theorem zero_notMem_dirname {path : List UInt8} (h : 0 ∉ path) : 0 ∉ dirname path :=
  fun h0 => h (mem_of_mem_substr h0)

/-- A path within the guard is read whole. -/
theorem dirname_read {nSize : Nat} (h : m.path.length < nSize) :
    dirname (m.path.take (nSize - 1)) = m.dir := by
  have hlen := length_path m
  exact dirname_take m (by omega)

/-- The work path is kept from the first call that makes it. -/
theorem getWorkPath_kept {d : List UInt8} (hd : 0 ∉ d) (hpos : 0 < d.length)
    (hlen : d.length ≤ 255) (hs : s.m_szWorkPath = padded 256 d) (fileName : Option (List UInt8)) :
    s.getWorkPath fileName = some (some d, s) := by
  have hset : s.m_szWorkPath.set (256 - 1) 0 = padded 256 d := by rw [hs, padded_set hlen]
  rw [CServiceInstance.getWorkPath]
  simp only [hset]
  rw [strlen_padded hd, if_pos hpos, cStr_padded hd, ← hs]

/-- The first call, and every call after one that returned `NULL`. -/
theorem getWorkPath_first (hs : s.m_szWorkPath = padded 256 [])
    (fileName : Option (List UInt8)) :
    s.getWorkPath fileName =
      match getModuleFileName (List.replicate 256 0) 255 fileName with
      | none => some (none, s)
      | some szDirBuffer =>
          if 250 < strlen szDirBuffer then some (none, s)
          else
            match catAll (dirBuffer szDirBuffer) [[47]] with
            | none => none
            | some szDirBuffer =>
                let m_szWorkPath := memcpy (padded 256 []) 0 (szDirBuffer.take (min (256 - 1) 256))
                some (some (cStr m_szWorkPath), { s with m_szWorkPath := m_szWorkPath }) := by
  have hset : s.m_szWorkPath.set (256 - 1) 0 = padded 256 [] := by
    rw [hs, padded_set (Nat.zero_le _)]
  have hsame : { s with m_szWorkPath := padded 256 [] } = s := by rw [← hs]
  rw [CServiceInstance.getWorkPath]
  simp only [hset, hsame]
  rw [strlen_padded List.not_mem_nil, if_neg (by decide)]

/-- A path the guard refuses. -/
theorem getWorkPath_refused (hs : s.m_szWorkPath = padded 256 []) (h : 250 < m.path.length) :
    s.getWorkPath (some m.path) = some (none, s) := by
  obtain ⟨szDirBuffer, hread, hstrlen, -⟩ :=
    getModuleFileName_path m 256 255 (by decide) (by decide)
  rw [getWorkPath_first hs, hread]
  exact if_pos (by omega)

/-- A path the guard lets through. -/
theorem getWorkPath_accepted (hs : s.m_szWorkPath = padded 256 []) (h : m.path.length ≤ 250) :
    s.getWorkPath (some m.path) =
      if m.dir.length ≤ 127 then
        some (some (m.dir ++ [47]), { s with m_szWorkPath := padded 256 (m.dir ++ [47]) })
      else none := by
  obtain ⟨szDirBuffer, hread, hstrlen, hdir⟩ :=
    getModuleFileName_path m 256 255 (by decide) (by decide)
  have hlen := length_path m
  rw [dirname_read (by omega)] at hdir
  have hcat : catAll (padded 256 m.dir) [[47]] =
      if m.dir.length ≤ 127 then some (padded 256 (m.dir ++ [47])) else none :=
    catAll_eq m.dir_nul (by decide) (by omega) fits_work
  have hnul : 0 ∉ m.dir ++ [47] := zero_notMem_append m.dir_nul (by decide)
  rw [getWorkPath_first hs, hread]
  simp only [hdir, hcat]
  rw [if_neg (by omega)]
  by_cases hfit : m.dir.length ≤ 127
  · have hcopy := memcpy_path (s := m.dir ++ [47]) (by simp; omega)
    rw [if_pos hfit, if_pos hfit]
    simp only [padded_nil, hcopy, cStr_padded hnul]
  · rw [if_neg hfit, if_neg hfit]

/-- `GetLogPath` on a path its guard refuses. -/
theorem getLogPath_refused (tNow : Tm) (h : 240 < m.path.length + 19) :
    s.getLogPath tNow (some m.path) =
      some (none, { s with m_szLogPath := List.replicate 256 0 }) := by
  obtain ⟨szDirBuffer, hread, hstrlen, -⟩ :=
    getModuleFileName_path m 256 255 (by decide) (by decide)
  have hstamp := length_stamp tNow
  rw [CServiceInstance.getLogPath]
  simp only [hread, printed_stamp 63 (by decide)]
  exact if_pos (by omega)

/-- `GetLogPath` on a path its guard lets through. -/
theorem getLogPath_accepted (tNow : Tm) (h : m.path.length + 19 ≤ 240) :
    s.getLogPath tNow (some m.path) =
      if m.dir.length ≤ 103 then
        some (some (m.dir ++ (logSuffix tNow).flatten),
          { s with m_szLogPath := padded 256 (m.dir ++ (logSuffix tNow).flatten) })
      else none := by
  obtain ⟨szDirBuffer, hread, hstrlen, hdir⟩ :=
    getModuleFileName_path m 256 255 (by decide) (by decide)
  have hlen := length_path m
  have hstamp := length_stamp tNow
  rw [dirname_read (by omega)] at hdir
  have hcat := catAll_eq m.dir_nul (zero_notMem_logSuffix tNow) (by omega) (fits_log tNow)
  have hnul := zero_notMem_append_flatten m.dir_nul (zero_notMem_logSuffix tNow)
  rw [CServiceInstance.getLogPath]
  simp only [hread, printed_stamp 63 (by decide), hdir]
  rw [if_neg (by omega)]
  change (match catAll (padded 256 m.dir) (logSuffix tNow) with
    | none => none
    | some szDirBuffer => _) = _
  rw [hcat]
  by_cases hfit : m.dir.length ≤ 103
  · have hcopy := memcpy_path (s := m.dir ++ (logSuffix tNow).flatten) (by
      rw [List.length_append, length_logSuffix]
      omega)
    rw [if_pos hfit, if_pos hfit]
    simp only [hcopy, cStr_padded hnul]
  · rw [if_neg hfit, if_neg hfit]

/-- `GetLogPath` leaves the work path alone. -/
theorem getLogPath_workPath {tNow : Tm} {fileName : Option (List UInt8)}
    {r : Option (List UInt8) × CServiceInstance} (h : s.getLogPath tNow fileName = some r) :
    r.2.m_szWorkPath = s.m_szWorkPath := by
  rw [CServiceInstance.getLogPath] at h
  cases hread : getModuleFileName (List.replicate 256 0) 255 fileName with
  | none =>
      simp only [hread, Option.some.injEq] at h
      rw [← h]
  | some szDirBuffer =>
      simp only [hread] at h
      split_ifs at h
      · rw [← Option.some.inj h]
      · split at h
        · exact absurd h (by simp)
        · rw [← Option.some.inj h]

end ServiceInstance

section Instance

/-- What is asked of an instance; `found` is whether `GetModuleFileName` succeeds. -/
inductive PathCall
  | getWorkPath (found : Bool)
  | getLogPath (tNow : Tm) (found : Bool)

/-- What `GetModuleFileName` finds out about the module. -/
def ModulePath.answer (m : ModulePath) (found : Bool) : Option (List UInt8) :=
  if found then some m.path else none

/-- One call on the instance of a process whose module is `m`. -/
def step (m : ModulePath) (s : CServiceInstance) : PathCall → Option CServiceInstance
  | .getWorkPath found => (s.getWorkPath (m.answer found)).map Prod.snd
  | .getLogPath tNow found => (s.getLogPath tNow (m.answer found)).map Prod.snd

/-- The work path is empty, or the one that was built. -/
def WorkPathOf (m : ModulePath) (s : CServiceInstance) : Prop :=
  s.m_szWorkPath = padded 256 [] ∨
    s.m_szWorkPath = padded 256 (m.dir ++ [47]) ∧ m.path.length ≤ 250 ∧ m.dir.length ≤ 127

variable {m : ModulePath} {s : CServiceInstance}

theorem zero_notMem_workPath (m : ModulePath) : 0 ∉ m.dir ++ [47] :=
  zero_notMem_append m.dir_nul (by decide)

/-- A work path that is there is what the next call returns. -/
theorem getWorkPath_built
    (hs : s.m_szWorkPath = padded 256 (m.dir ++ [47])) (hdir : m.dir.length ≤ 127)
    (fileName : Option (List UInt8)) :
    s.getWorkPath fileName = some (some (m.dir ++ [47]), s) := by
  have hlen : (m.dir ++ [47]).length = m.dir.length + 1 := List.length_append
  exact getWorkPath_kept (zero_notMem_workPath m) (by omega) (by omega) hs fileName

/-- One call keeps the invariant. -/
theorem WorkPathOf.step_inv {s' : CServiceInstance} {c : PathCall}
    (h : WorkPathOf m s) (hstep : step m s c = some s') : WorkPathOf m s' := by
  cases c with
  | getLogPath tNow found =>
      obtain ⟨r, hr, rfl⟩ := Option.map_eq_some_iff.mp hstep
      have hkept := getLogPath_workPath hr
      rw [WorkPathOf, hkept]
      exact h
  | getWorkPath found =>
      obtain ⟨r, hr, rfl⟩ := Option.map_eq_some_iff.mp hstep
      rcases h with hempty | ⟨hbuilt, hlen, hdir⟩
      · cases found with
        | false =>
            rw [getWorkPath_first hempty] at hr
            cases hr
            exact .inl hempty
        | true =>
            by_cases hlen : m.path.length ≤ 250
            · have hcall := getWorkPath_accepted hempty hlen
              by_cases hdir : m.dir.length ≤ 127
              · rw [if_pos hdir] at hcall
                cases hcall.symm.trans hr
                exact .inr ⟨rfl, hlen, hdir⟩
              · rw [if_neg hdir] at hcall
                exact absurd (hcall.symm.trans hr) (by simp)
            · cases (getWorkPath_refused hempty (by omega)).symm.trans hr
              exact .inl hempty
      · cases (getWorkPath_built hbuilt hdir _).symm.trans hr
        exact .inr ⟨hbuilt, hlen, hdir⟩

/-- The instances of runs of calls. -/
def Reached (m : ModulePath) (s : CServiceInstance) : Prop :=
  Reach (step m) (fun _ _ => True) CServiceInstance.new s

theorem workPathOf_of_reached (h : Reached m s) : WorkPathOf m s :=
  h.invariant (.inl rfl) fun hinv _ hstep => hinv.step_inv hstep

end Instance

section Core

variable {m : ModulePath}

/-- A path that ends in a slash is the log directory itself. -/
theorem logDir_slash (path : List UInt8) : logDir (path ++ [47]) = path ++ [47] := by
  rw [logDir, if_neg]
  simp

/-- `MakeLog` with the directory of what it has read of the path. -/
theorem makeLog_eq (tNow : Tm) (now : Nat) (fsopen : Bool) :
    makeLog true tNow (some m.path) now fsopen =
      if (dirname (m.path.take 510)).length ≤ 225 then
        some (0, some ((LogManager.init
          (dirname (m.path.take 510) ++ (netlibSuffix tNow).flatten)).setLogLevel
            systemLog logLevelDebug now fsopen).2)
      else none := by
  obtain ⟨szDirBuffer, hread, -, hdir⟩ :=
    getModuleFileName_path m 512 511 (by decide) (by decide)
  have hnul : 0 ∉ dirname (m.path.take 510) :=
    zero_notMem_dirname fun h => zero_notMem_path m (List.mem_of_mem_take h)
  have hlen : (dirname (m.path.take 510)).length ≤ 510 :=
    (length_substr_le _ _).trans (List.length_take_le 510 _)
  have hcat := catAll_eq hnul (zero_notMem_netlibSuffix tNow) (show _ ≤ 512 by omega)
    (fits_netlib tNow)
  have hpath := zero_notMem_append_flatten hnul (zero_notMem_netlibSuffix tNow)
  have hlog : logDir (dirname (m.path.take 510) ++ (netlibSuffix tNow).flatten) =
      dirname (m.path.take 510) ++ (netlibSuffix tNow).flatten := by
    have hslash : (netlibSuffix tNow).flatten = [47] ++ netliblog ++ tNow.stamp ++ [47] := by
      simp [netlibSuffix]
    rw [hslash, ← List.append_assoc]
    exact logDir_slash _
  rw [makeLog, if_pos rfl]
  simp only [hread, printed_stamp 255 (by decide), hdir]
  change (match catAll (padded 512 (dirname (m.path.take 510))) (netlibSuffix tNow) with
    | none => none
    | some szDirBuffer => _) = _
  rw [hcat]
  by_cases hfit : (dirname (m.path.take 510)).length ≤ 225
  · rw [if_pos hfit, if_pos hfit]
    simp only [cStr_padded hpath, hlog]
  · rw [if_neg hfit, if_neg hfit]

theorem setLogLevel_dir (l : LogManager) (pszLogName : LogName) (nLogLevel now : Nat)
    (fsopen : Bool) :
    (l.setLogLevel pszLogName nLogLevel now fsopen).2.m_strLogDir = l.m_strLogDir := by
  rw [LogManager.setLogLevel]
  split <;> rfl

end Core

/-- `GetWorkPath` on a path its guard accepts: the directory and a slash. -/
def WorkPathBuilt (m : ModulePath) (s : CServiceInstance) : Prop :=
  m.path.length ≤ 250 → ∃ s', s.getWorkPath (some m.path) = some (some (m.dir ++ [47]), s')

/-- `GetLogPath` on a path its guard accepts: the directory, `"/log/"`, the stamp and a slash. -/
def LogPathBuilt (m : ModulePath) (tNow : Tm) (s : CServiceInstance) : Prop :=
  m.path.length + tNow.stamp.length ≤ 240 →
    ∃ s', s.getLogPath tNow (some m.path) =
      some (some (m.dir ++ [47, 108, 111, 103, 47] ++ tNow.stamp ++ [47]), s')

/-- `MakeLog`: the directory, `"/netliblog/"`, the stamp and a slash. -/
def NetlibPathBuilt (m : ModulePath) (tNow : Tm) (now : Nat) (fsopen : Bool) : Prop :=
  ∃ mLogger, makeLog true tNow (some m.path) now fsopen = some (0, some mLogger) ∧
    mLogger.m_strLogDir = m.dir ++ [47] ++ netliblog ++ tNow.stamp ++ [47]

section Built

variable {m : ModulePath} {s : CServiceInstance}

theorem workPathBuilt_iff (h : WorkPathOf m s) :
    WorkPathBuilt m s ↔ (m.path.length ≤ 250 → m.dir.length ≤ 127) := by
  refine imp_congr_right fun hlen => ?_
  rcases h with hempty | ⟨hbuilt, -, hdir⟩
  · have hcall := getWorkPath_accepted hempty hlen
    constructor
    · rintro ⟨s', hs'⟩
      by_contra hdir
      rw [if_neg hdir] at hcall
      exact absurd (hcall.symm.trans hs') (by simp)
    · intro hdir
      rw [if_pos hdir] at hcall
      exact ⟨_, hcall⟩
  · exact iff_of_true ⟨s, getWorkPath_built hbuilt hdir _⟩ hdir

theorem logPathBuilt_iff (tNow : Tm) :
    LogPathBuilt m tNow s ↔
      (m.path.length + tNow.stamp.length ≤ 240 → m.dir.length ≤ 103) := by
  refine imp_congr_right fun hlen => ?_
  have hsuffix : (logSuffix tNow).flatten = [47, 108, 111, 103, 47] ++ (tNow.stamp ++ [47]) := by
    simp [logSuffix]
  rw [length_stamp] at hlen
  have hcall := getLogPath_accepted (s := s) tNow hlen
  rw [hsuffix] at hcall
  constructor
  · rintro ⟨s', hs'⟩
    by_contra hdir
    rw [if_neg hdir] at hcall
    exact absurd (hcall.symm.trans hs') (by simp)
  · intro hdir
    rw [if_pos hdir] at hcall
    simp only [List.append_assoc] at hcall ⊢
    exact ⟨_, hcall⟩

theorem netlibPathBuilt_iff (tNow : Tm) (now : Nat) (fsopen : Bool) :
    NetlibPathBuilt m tNow now fsopen ↔ m.dir.length ≤ 225 := by
  have hsuffix : (netlibSuffix tNow).flatten = [47] ++ netliblog ++ tNow.stamp ++ [47] := by
    simp [netlibSuffix]
  have hcall := makeLog_eq (m := m) tNow now fsopen
  constructor
  · rintro ⟨mLogger, hlog, hpath⟩
    rw [hlog] at hcall
    split_ifs at hcall with hfit
    -- a path that is cut off in front of its last backslash leaves another directory
    cases hcall
    rw [setLogLevel_dir] at hpath
    simp only [LogManager.init, hsuffix, List.append_assoc] at hpath
    rw [List.append_cancel_right hpath] at hfit
    exact hfit
  · intro hdir
    have hsame : dirname (m.path.take 510) = m.dir := dirname_take m (by omega)
    rw [hsame, if_pos hdir] at hcall
    refine ⟨_, hcall, ?_⟩
    rw [setLogLevel_dir]
    simp only [LogManager.init, hsuffix, List.append_assoc]

/--
The paths are right for the directories behind which every append has room by
the size it is given; for the others an append calls the invalid-parameter
handler, or `MakeLog` ends up in another directory.
-/
theorem paths_built_iff (h : Reached m s) (tNow : Tm) (now : Nat) (fsopen : Bool) :
    (WorkPathBuilt m s ↔ (m.path.length ≤ 250 → m.dir.length ≤ 127)) ∧
      (LogPathBuilt m tNow s ↔
        (m.path.length + tNow.stamp.length ≤ 240 → m.dir.length ≤ 103)) ∧
      (NetlibPathBuilt m tNow now fsopen ↔ m.dir.length ≤ 225) :=
  ⟨workPathBuilt_iff (workPathOf_of_reached h), logPathBuilt_iff tNow,
    netlibPathBuilt_iff tNow now fsopen⟩

/-- `C:\d\a.exe` -/
def shortModule : ModulePath where
  dir := [67, 58, 92, 100]
  name := [97, 46, 101, 120, 101]
  dir_nul := by decide
  name_nul := by decide
  name_sep := by decide

def newYear1970 : Tm := newYear 70 (by decide)

/-- All three paths of a short module are right. -/
theorem paths_built_iff_short :
    Reached shortModule CServiceInstance.new ∧
      WorkPathBuilt shortModule CServiceInstance.new ∧
      LogPathBuilt shortModule newYear1970 CServiceInstance.new ∧
      NetlibPathBuilt shortModule newYear1970 0 true := by
  obtain ⟨hwork, hlog, hnetlib⟩ := paths_built_iff (m := shortModule) .start newYear1970 0 true
  refine ⟨.start, hwork.mpr fun _ => ?_, hlog.mpr fun _ => ?_, hnetlib.mpr ?_⟩
  all_goals decide

/-- `C:\` and 125 letters as the directory, `a.exe` in it. -/
def deepModule : ModulePath where
  dir := [67, 58, 92] ++ List.replicate 125 97
  name := [97, 46, 101, 120, 101]
  dir_nul := by decide
  name_nul := by decide
  name_sep := by decide

/-- In a directory of 128 characters the first append does not fit. -/
theorem deep_work_path :
    deepModule.path.length ≤ 250 ∧ CServiceInstance.new.getWorkPath (some deepModule.path) = none ∧
      ¬ ∀ (m : ModulePath) (s : CServiceInstance), Reached m s → WorkPathBuilt m s := by
  have haccepted : deepModule.path.length ≤ 250 := by simp [length_path, deepModule]
  have hcall : CServiceInstance.new.getWorkPath (some deepModule.path) = none := by
    rw [getWorkPath_accepted rfl haccepted, if_neg (by simp [deepModule])]
  refine ⟨haccepted, hcall, fun hall => ?_⟩
  obtain ⟨s', hs'⟩ := hall deepModule CServiceInstance.new .start haccepted
  rw [hcall] at hs'
  exact absurd hs' (by simp)

end Built

end Paths
end IocpNetlib
