import Mathlib.Data.List.Basic

/-!
# Streams of the C runtime

A `FILE *` stands for the stream it was returned for: `some h` is the `h`-th
stream that was opened, `none` is `NULL`.  A pointer to a closed stream stays
dead, also when the runtime uses its memory for another stream later on.  Each
function returns `none` when the pointer it is given is `NULL` or dead.

**Results.**
* `Files.fsopen_fresh`: a stream that is opened was not open before.
* `Files.isOpen_fclose_iff`: closing a stream leaves the others open.
-/

namespace IocpNetlib
namespace Stdio

/-- A path or a text, as its bytes. -/
abbrev Text := List UInt8

/-- A `FILE *`. -/
abbrev Pointer := Option Nat

/-- The open streams with their paths, and what has been written where. -/
structure Files where
  streams : List (Nat × Text)
  opened : Nat
  written : List (Text × Text)
deriving DecidableEq, Repr

namespace Files

/-- Nothing has been opened yet. -/
def empty : Files where
  streams := []
  opened := 0
  written := []

/-- The path a stream was opened under, if it is open. -/
def path (f : Files) : Pointer → Option Text
  | none => none
  | some h => f.streams.lookup h

/-- The pointer belongs to an open stream. -/
def IsOpen (f : Files) (p : Pointer) : Prop :=
  (f.path p).isSome = true

instance (f : Files) (p : Pointer) : Decidable (f.IsOpen p) :=
  inferInstanceAs (Decidable (_ = true))

/-- `_fsopen`, which succeeds or not. -/
def fsopen (f : Files) (ok : Bool) (path : Text) : Pointer × Files :=
  if ok then
    (some f.opened,
      { f with streams := (f.opened, path) :: f.streams, opened := f.opened + 1 })
  else (none, f)

/-- `fclose`. -/
def fclose (f : Files) (p : Pointer) : Option Files :=
  if f.IsOpen p then
    some { f with streams := f.streams.filter fun s => decide (p ≠ some s.1) }
  else none

/-- `ftell`, which returns `position`. -/
def ftell (f : Files) (p : Pointer) (position : Int) : Option Int :=
  if f.IsOpen p then some position else none

/-- `fwrite` of a whole text. -/
def fwrite (f : Files) (p : Pointer) (text : Text) : Option Files :=
  match f.path p with
  | none => none
  | some path => some { f with written := f.written ++ [(path, text)] }

/-- `fflush`. -/
def fflush (f : Files) (p : Pointer) : Option Files :=
  if f.IsOpen p then some f else none

/-- Only streams that were opened are open. -/
def WellFormed (f : Files) : Prop :=
  ∀ s ∈ f.streams, s.1 < f.opened

variable {f f' : Files} {p q : Pointer} {ok : Bool} {path text : Text}

theorem wellFormed_empty : empty.WellFormed :=
  fun _ hs => absurd hs List.not_mem_nil

theorem not_isOpen_none : ¬ f.IsOpen none := by
  simp [IsOpen, Files.path]

theorem isOpen_some {h : Nat} : f.IsOpen (some h) ↔ ∃ s ∈ f.streams, s.1 = h := by
  rw [IsOpen, Files.path, Option.isSome_iff_ne_none, Ne, List.lookup_eq_none_iff]
  simp only [bne_iff_ne, ne_eq, not_forall, not_not, exists_prop]
  constructor
  · rintro ⟨s, hs, rfl⟩
    exact ⟨s, hs, rfl⟩
  · rintro ⟨s, hs, rfl⟩
    exact ⟨s, hs, rfl⟩

theorem lt_opened {h : Nat} (hf : f.WellFormed) (hopen : f.IsOpen (some h)) : h < f.opened := by
  obtain ⟨s, hs, rfl⟩ := isOpen_some.mp hopen
  exact hf s hs

theorem wellFormed_fsopen (hf : f.WellFormed) : (f.fsopen ok path).2.WellFormed := by
  cases ok with
  | false => exact hf
  | true =>
      intro s hs
      rcases List.mem_cons.mp hs with rfl | hs
      · exact Nat.lt_succ_self _
      · exact Nat.lt_succ_of_lt (hf s hs)

/-- A stream that is opened was not open before, and shows its path. -/
theorem fsopen_fresh (path : Text) (hf : f.WellFormed) :
    (f.fsopen true path).1 = some f.opened ∧ ¬ f.IsOpen (some f.opened) ∧
      (f.fsopen true path).2.path (some f.opened) = some path := by
  refine ⟨rfl, fun hopen => Nat.lt_irrefl _ (lt_opened hf hopen), ?_⟩
  rw [fsopen, if_pos rfl, Files.path, List.lookup_cons_self]

/-- Opening a stream leaves the open ones as they are. -/
theorem path_fsopen (hf : f.WellFormed) (hopen : f.IsOpen p) :
    (f.fsopen ok path).2.path p = f.path p := by
  cases ok with
  | false => rfl
  | true =>
      cases p with
      | none => exact absurd hopen not_isOpen_none
      | some h =>
          have hlt := lt_opened hf hopen
          have hne : (h == f.opened) = false := by
            rw [beq_eq_false_iff_ne]
            omega
          rw [fsopen, if_pos rfl, Files.path, List.lookup_cons, hne]
          rfl

theorem isOpen_fsopen (hf : f.WellFormed) (hopen : f.IsOpen p) :
    (f.fsopen ok path).2.IsOpen p := by
  rw [IsOpen, path_fsopen hf hopen]
  exact hopen

theorem fclose_eq (hopen : f.IsOpen p) :
    f.fclose p = some { f with streams := f.streams.filter fun s => decide (p ≠ some s.1) } :=
  if_pos hopen

theorem wellFormed_fclose (hf : f.WellFormed) (h : f.fclose p = some f') : f'.WellFormed := by
  rw [fclose] at h
  split_ifs at h
  cases h
  exact fun s hs => hf s (List.mem_of_mem_filter hs)

/-- Closing a stream leaves the others as they are. -/
theorem path_fclose (h : f.fclose p = some f') (hne : q ≠ p) : f'.path q = f.path q := by
  rw [fclose] at h
  split_ifs at h
  cases h
  cases q with
  | none => rfl
  | some k =>
      have hkeep : ∀ l : List (Nat × Text),
          (l.filter fun s => decide (p ≠ some s.1)).lookup k = l.lookup k := by
        intro l
        induction l with
        | nil => rfl
        | cons s l ih =>
            rw [List.filter_cons]
            split_ifs with hs
            · rw [List.lookup_cons, List.lookup_cons, ih]
            · rw [List.lookup_cons, ih]
              have hk : (k == s.1) = false := by
                rw [beq_eq_false_iff_ne]
                rintro rfl
                have hps : p = some s.1 := by simpa using hs
                exact hne hps.symm
              rw [hk]
      exact hkeep f.streams

theorem isOpen_fclose (h : f.fclose p = some f') (hopen : f.IsOpen q) (hne : q ≠ p) :
    f'.IsOpen q := by
  rw [IsOpen, path_fclose h hne]
  exact hopen

/-- A stream that was closed is dead. -/
theorem not_isOpen_fclose (h : f.fclose p = some f') : ¬ f'.IsOpen p := by
  rw [fclose] at h
  split_ifs at h
  cases h
  cases p with
  | none => exact not_isOpen_none
  | some k =>
      rw [isOpen_some]
      rintro ⟨s, hs, rfl⟩
      exact absurd (List.mem_filter.mp hs).2 (by simp)

theorem fwrite_eq (h : f.path p = some path) :
    f.fwrite p text = some { f with written := f.written ++ [(path, text)] } := by
  rw [fwrite, h]

theorem fwrite_eq_none (h : ¬ f.IsOpen p) : f.fwrite p text = none := by
  rw [IsOpen, Option.not_isSome_iff_eq_none] at h
  rw [fwrite, h]

theorem fclose_eq_none (h : ¬ f.IsOpen p) : f.fclose p = none :=
  if_neg h

end Files

end Stdio
end IocpNetlib
