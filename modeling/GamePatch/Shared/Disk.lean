import Mathlib.Data.List.Basic
import Mathlib.Logic.Function.Basic

/-! # Files and their names

A disk keeps the bytes of numbered files, and a directory that names some of them. A
file that has lost its name keeps its bytes for those who have it open. -/

namespace GamePatch

/-- The files are numbered in the order in which they were made. -/
structure Disk (Path Byte : Type*) where
  directory : Path → Option ℕ
  content : ℕ → List Byte
  files : ℕ
  named_lt : ∀ path file, directory path = some file → file < files

namespace Disk

variable {Path Byte : Type*} {d : Disk Path Byte} {path : Path} {file : ℕ}

/-- The bytes of the file that has this name. -/
def find (d : Disk Path Byte) (path : Path) : Option (List Byte) :=
  (d.directory path).map d.content

/-! ## Writing and reading -/

def setContent (d : Disk Path Byte) (file : ℕ) (bytes : List Byte) : Disk Path Byte :=
  { d with content := Function.update d.content file bytes }

/-- The file with `bytes` written over what it has from `position` on. -/
def writeAt (d : Disk Path Byte) (file position : ℕ) (bytes : List Byte) : Disk Path Byte :=
  d.setContent file
    ((d.content file).take position ++ bytes ++ (d.content file).drop (position + bytes.length))

/-- At most `n` bytes of the file from `position` on. -/
def readAt (d : Disk Path Byte) (file position n : ℕ) : List Byte :=
  ((d.content file).drop position).take n

theorem setContent_self (d : Disk Path Byte) (file : ℕ) (bytes : List Byte) :
    (d.setContent file bytes).content file = bytes := Function.update_self ..

theorem setContent_of_ne {other : ℕ} {bytes : List Byte} (h : other ≠ file) :
    (d.setContent file bytes).content other = d.content other := Function.update_of_ne h ..

theorem writeAt_of_ne {other position : ℕ} {bytes : List Byte} (h : other ≠ file) :
    (d.writeAt file position bytes).content other = d.content other := setContent_of_ne h

/-- A write at the end of a file appends. -/
theorem writeAt_end {position : ℕ} {bytes : List Byte} (h : (d.content file).length = position) :
    (d.writeAt file position bytes).content file = d.content file ++ bytes := by
  rw [writeAt, setContent_self, List.take_of_length_le (Nat.le_of_eq h),
    List.drop_of_length_le (by omega), List.append_nil]

/-- As many bytes as the whole file may have are read only from its start. -/
theorem readAt_eq_content {position n : ℕ} (hle : (d.content file).length ≤ n)
    (hfull : (d.readAt file position n).length = n) (hpos : 0 < n) :
    d.readAt file position n = d.content file ∧ (d.content file).length = n := by
  rw [readAt, List.length_take, List.length_drop] at hfull
  have hposition : position = 0 := by omega
  rw [readAt, hposition, List.drop_zero, List.take_of_length_le hle]
  exact ⟨rfl, by omega⟩

theorem find_setContent_of_ne {bytes : List Byte} (h : d.directory path ≠ some file) :
    (d.setContent file bytes).find path = d.find path := by
  have hnames : (d.setContent file bytes).directory = d.directory := rfl
  rw [find, find, hnames]
  cases hpath : d.directory path with
  | none => rfl
  | some other =>
      have hne : other ≠ file := fun heq => h (heq ▸ hpath)
      exact congrArg some (setContent_of_ne hne)

theorem find_writeAt_of_ne {position : ℕ} {bytes : List Byte}
    (h : d.directory path ≠ some file) : (d.writeAt file position bytes).find path = d.find path :=
  find_setContent_of_ne h

/-! ## Making and unlinking -/

variable [DecidableEq Path]

theorem named_lt_succ (d : Disk Path Byte) (path path' : Path) (file : ℕ)
    (hfile : Function.update d.directory path (some d.files) path' = some file) :
    file < d.files + 1 := by
  by_cases h : path' = path
  · subst h
    rw [Function.update_self, Option.some_inj] at hfile
    omega
  · rw [Function.update_of_ne h] at hfile
    exact Nat.lt_succ_of_lt (d.named_lt path' file hfile)

/-- A file of this name without bytes: the one that has the name already, or a new one. -/
def create (d : Disk Path Byte) (path : Path) : ℕ × Disk Path Byte :=
  match d.directory path with
  | some file => (file, d.setContent file [])
  | none =>
      (d.files,
        { directory := Function.update d.directory path (some d.files)
          content := Function.update d.content d.files []
          files := d.files + 1
          named_lt := d.named_lt_succ path })

def unlink (d : Disk Path Byte) (path : Path) : Disk Path Byte :=
  { d with
    directory := Function.update d.directory path none
    named_lt := by
      intro path' file hfile
      by_cases h : path' = path
      · subst h
        rw [Function.update_self] at hfile
        cases hfile
      · rw [Function.update_of_ne h] at hfile
        exact d.named_lt path' file hfile }

theorem unlink_self (d : Disk Path Byte) (path : Path) : (d.unlink path).directory path = none :=
  Function.update_self ..

/-- What making a file changes. -/
structure Created (d : Disk Path Byte) (path : Path) (file : ℕ) (d' : Disk Path Byte) : Prop where
  named : d'.directory path = some file
  empty : d'.content file = []
  kept : ∀ other ≠ file, d'.content other = d.content other
  grows : d.files ≤ d'.files
  known : ∀ other < d'.files, other = file ∨ other < d.files
  source : d.directory path = some file ∨ file = d.files

theorem created (d : Disk Path Byte) (path : Path) :
    Created d path (d.create path).1 (d.create path).2 := by
  rw [create]
  cases h : d.directory path with
  | some file =>
      exact ⟨h, setContent_self .., fun _ hne => setContent_of_ne hne, Nat.le_refl _,
        fun _ hlt => .inr hlt, .inl h⟩
  | none =>
      refine ⟨Function.update_self .., Function.update_self ..,
        fun _ hne => Function.update_of_ne hne .., Nat.le_succ _, ?_, .inr rfl⟩
      intro other hlt
      rcases Nat.lt_succ_iff_lt_or_eq.mp hlt with hlt | heq
      · exact .inr hlt
      · exact .inl heq

/-! ## Other files -/

/-- No file has two names. -/
def Unshared (d : Disk Path Byte) : Prop :=
  ∀ path path' file, d.directory path = some file → d.directory path' = some file → path = path'

theorem Unshared.create (h : d.Unshared) (path : Path) : (d.create path).2.Unshared := by
  rw [Disk.create]
  cases hpath : d.directory path with
  | some file => exact h
  | none =>
      have hnew {other : Path} {file : ℕ}
          (hother : Function.update d.directory path (some d.files) other = some file) :
          other = path ∧ file = d.files ∨ d.directory other = some file ∧ file < d.files := by
        by_cases heq : other = path
        · rw [heq, Function.update_self, Option.some_inj] at hother
          exact .inl ⟨heq, hother.symm⟩
        · rw [Function.update_of_ne heq] at hother
          exact .inr ⟨hother, d.named_lt other file hother⟩
      intro first second file hfirst hsecond
      rcases hnew hfirst with ⟨rfl, rfl⟩ | ⟨hfirst, hlt⟩
      · rcases hnew hsecond with ⟨rfl, -⟩ | ⟨-, hlt⟩
        · rfl
        · exact absurd hlt (Nat.lt_irrefl _)
      · rcases hnew hsecond with ⟨-, rfl⟩ | ⟨hsecond, -⟩
        · exact absurd hlt (Nat.lt_irrefl _)
        · exact h first second file hfirst hsecond

theorem Unshared.unlink (h : d.Unshared) (path : Path) : (d.unlink path).Unshared := by
  have hold {other : Path} {file : ℕ}
      (hother : Function.update d.directory path none other = some file) :
      d.directory other = some file := by
    by_cases heq : other = path
    · rw [heq, Function.update_self] at hother
      cases hother
    · rwa [Function.update_of_ne heq] at hother
  exact fun first second file hfirst hsecond =>
    h first second file (hold hfirst) (hold hsecond)

theorem find_unlink_of_ne {other : Path} (h : other ≠ path) :
    (d.unlink path).find other = d.find other := by
  simp only [find, unlink, Function.update_of_ne h]

theorem Unshared.find_create_of_ne (h : d.Unshared) {other : Path} (hne : other ≠ path) :
    (d.create path).2.find other = d.find other := by
  rw [Disk.create]
  cases hpath : d.directory path with
  | some file => exact find_setContent_of_ne fun hother => hne (h other path file hother hpath)
  | none =>
      simp only [find, Function.update_of_ne hne]
      cases hother : d.directory other with
      | none => rfl
      | some file' =>
          have hlt := d.named_lt other file' hother
          simp only [Option.map_some, Option.some_inj]
          exact Function.update_of_ne (Nat.ne_of_lt hlt) _ _

end Disk

end GamePatch
