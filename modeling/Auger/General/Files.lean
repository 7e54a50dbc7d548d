import Mathlib.Logic.Function.Basic
import Mathlib.Data.List.Infix

set_option autoImplicit false

/-! A file system seen by its names: files are created or truncated when opened
for writing, written at an offset, and renamed over one another. -/

namespace Auger.General

structure Files (κ α : Type) where
  names : κ → Option Nat
  content : Nat → List α
  /-- Above every file in use. -/
  next : Nat
  below : ∀ name file, names name = some file → file < next
  distinct : ∀ name other file, names name = some file → names other = some file → name = other

namespace Files

variable {κ α : Type} [DecidableEq κ]

def read (files : Files κ α) (name : κ) : Option (List α) := (files.names name).map files.content

def setContent (files : Files κ α) (file : Nat) (bytes : List α) : Files κ α :=
  { files with content := Function.update files.content file bytes }

theorem update_some {names : κ → Option Nat} {name other : κ} {file held : Nat}
    (found : Function.update names name (some file) other = some held) :
    other = name ∧ held = file ∨ other ≠ name ∧ names other = some held := by
  by_cases same : other = name
  · rw [same, Function.update_self, Option.some.injEq] at found
    exact .inl ⟨same, found.symm⟩
  · rw [Function.update_of_ne same] at found
    exact .inr ⟨same, found⟩

def create (files : Files κ α) (name : κ) : Files κ α where
  names := Function.update files.names name (some files.next)
  content := Function.update files.content files.next []
  next := files.next + 1
  below := by
    intro other file found
    rcases update_some found with ⟨-, rfl⟩ | ⟨-, old⟩
    · exact Nat.lt_succ_self _
    · exact Nat.lt_succ_of_lt (files.below other file old)
  distinct := by
    intro first second file found again
    rcases update_some found with ⟨one, fresh⟩ | ⟨-, old⟩ <;>
      rcases update_some again with ⟨two, new⟩ | ⟨-, older⟩
    · rw [one, two]
    · exact absurd (files.below second file older) (by omega)
    · exact absurd (files.below first file old) (by omega)
    · exact files.distinct first second file old older

/-- Opening for writing truncates the file, or creates it. -/
def openTruncated (files : Files κ α) (name : κ) : Files κ α × Nat :=
  match files.names name with
  | some file => (files.setContent file [], file)
  | none => (files.create name, files.next)

/-- Bytes written over a content from an offset on. -/
def overlay (fill : α) (old : List α) (offset : Nat) (bytes : List α) : List α :=
  (old ++ List.replicate (offset - old.length) fill).take offset ++ bytes ++ old.drop (offset + bytes.length)

def writeAt (files : Files κ α) (fill : α) (file offset : Nat) (bytes : List α) : Files κ α :=
  files.setContent file (overlay fill (files.content file) offset bytes)

/-- The names after a file has moved from one to the other. -/
def moveName (names : κ → Option Nat) (source target : κ) (file : Nat) : κ → Option Nat :=
  Function.update (Function.update names source none) target (some file)

theorem moveName_some {names : κ → Option Nat} {source target name : κ} {file held : Nat}
    (found : moveName names source target file name = some held) :
    name = target ∧ held = file ∨ name ≠ source ∧ names name = some held := by
  rcases update_some found with moved | ⟨-, old⟩
  · exact .inl moved
  · by_cases same : name = source
    · rw [same, Function.update_self] at old
      cases old
    · rw [Function.update_of_ne same] at old
      exact .inr ⟨same, old⟩

/-- A file moves to another name and replaces what stood there; `none` without such a file. -/
def rename (files : Files κ α) (source target : κ) : Option (Files κ α) :=
  match found : files.names source with
  | none => none
  | some file => some
      { files with
        names := moveName files.names source target file
        below := by
          intro name held kept
          rcases moveName_some kept with ⟨-, rfl⟩ | ⟨-, old⟩
          · exact files.below source held found
          · exact files.below name held old
        distinct := by
          intro first second held kept again
          rcases moveName_some kept with ⟨one, rfl⟩ | ⟨one, old⟩ <;>
            rcases moveName_some again with ⟨two, same⟩ | ⟨two, older⟩
          · rw [one, two]
          · exact absurd (files.distinct second source held older found) two
          · rw [same] at old
            exact absurd (files.distinct first source file old found) one
          · exact files.distinct first second held old older }

variable {files : Files κ α}

omit [DecidableEq κ] in
theorem read_some {name : κ} {file : Nat} (found : files.names name = some file) :
    files.read name = some (files.content file) := by
  rw [read, found, Option.map_some]

omit [DecidableEq κ] in
theorem read_setContent {name : κ} {file : Nat} (elsewhere : files.names name ≠ some file) (bytes : List α) :
    (files.setContent file bytes).read name = files.read name := by
  cases held : files.names name with
  | none => simp [read, setContent, held]
  | some other =>
      have differ : other ≠ file := by
        intro same
        rw [held, same] at elsewhere
        exact elsewhere rfl
      simp [read, setContent, held, Function.update_of_ne differ]

omit [DecidableEq κ] in
theorem writeAt_content (fill : α) (file offset : Nat) (bytes : List α) :
    (files.writeAt fill file offset bytes).content file = overlay fill (files.content file) offset bytes :=
  Function.update_self ..

/-- What an opened file holds, and that no other name is affected. -/
theorem openTruncated_spec (files : Files κ α) (name : κ) :
    (files.openTruncated name).1.names name = some (files.openTruncated name).2 ∧
      (files.openTruncated name).1.content (files.openTruncated name).2 = [] ∧
      ∀ other, other ≠ name → (files.openTruncated name).1.read other = files.read other := by
  rw [openTruncated]
  split
  case h_1 file found =>
    refine ⟨found, Function.update_self .., ?_⟩
    intro other differ
    exact read_setContent (fun held => differ (files.distinct other name file held found)) []
  case h_2 absent =>
    refine ⟨Function.update_self .., Function.update_self .., ?_⟩
    intro other differ
    cases held : files.names other with
    | none => simp [read, create, Function.update_of_ne differ, held]
    | some file =>
        have bound := files.below other file held
        have old : file ≠ files.next := by omega
        simp [read, create, Function.update_of_ne differ, held, Function.update_of_ne old]

theorem overlay_end (fill : α) (old bytes : List α) : overlay fill old old.length bytes = old ++ bytes := by
  simp [overlay]

theorem rename_none {source : κ} (target : κ) : files.rename source target = none ↔ files.names source = none := by
  rw [rename]
  split
  case h_1 absent => simp [absent]
  case h_2 file found => simp [found]

theorem rename_some {source target : κ} {moved : Files κ α} (differ : source ≠ target)
    (done : files.rename source target = some moved) :
    moved.read target = files.read source ∧ moved.names source = none := by
  rw [rename] at done
  split at done
  case h_1 absent => cases done
  case h_2 file found =>
    cases done
    refine ⟨?_, ?_⟩
    · exact (read_some (Function.update_self ..)).trans (read_some found).symm
    · exact (Function.update_of_ne differ ..).trans (Function.update_self ..)

end Files

end Auger.General
