import Mathlib.Data.List.Basic
import Mathlib.Data.Option.Basic

namespace SysProg

/-! # Descriptor tables

A process's table of descriptors, with what each open one refers to. A new
descriptor is the lowest that is free; an operation on one that is not open
fails.
-/

/-- The entry of a descriptor; beyond the list all are free. -/
structure Descriptors (φ : Type) where
  entries : List (Option φ)
deriving DecidableEq, Repr

namespace Descriptors

variable {φ : Type}

def get (table : Descriptors φ) (fd : Nat) : Option φ := (table.entries[fd]?).join

/-- Makes the descriptor refer to a file, or frees it. -/
def put (table : Descriptors φ) (fd : Nat) (file : Option φ) : Descriptors φ :=
  if fd < table.entries.length then ⟨table.entries.set fd file⟩
  else ⟨table.entries ++ List.replicate (fd - table.entries.length) none ++ [file]⟩

def lowestFree (table : Descriptors φ) : Nat := table.entries.findIdx Option.isNone

def openFile (table : Descriptors φ) (file : φ) : Nat × Descriptors φ :=
  (table.lowestFree, table.put table.lowestFree (some file))

def close (table : Descriptors φ) (fd : Nat) : Option (Descriptors φ) :=
  if (table.get fd).isSome then some (table.put fd none) else none

def dup (table : Descriptors φ) (oldfd : Nat) : Option (Nat × Descriptors φ) :=
  (table.get oldfd).map table.openFile

def dup2 (table : Descriptors φ) (oldfd newfd : Nat) : Option (Descriptors φ) :=
  (table.get oldfd).map fun file => table.put newfd (some file)

/-- Some descriptor refers to the file. -/
def Holds (table : Descriptors φ) (file : φ) : Prop := some file ∈ table.entries

instance [DecidableEq φ] (table : Descriptors φ) (file : φ) : Decidable (table.Holds file) :=
  inferInstanceAs (Decidable (some file ∈ table.entries))

theorem holds_iff {table : Descriptors φ} {file : φ} : table.Holds file ↔ ∃ fd, table.get fd = some file := by
  simp [Holds, get, List.mem_iff_getElem?, Option.join_eq_some_iff]

@[simp] theorem get_put_same (table : Descriptors φ) (fd : Nat) (file : Option φ) :
    (table.put fd file).get fd = file := by
  unfold put get
  split
  · rename_i inside
    simp [inside]
  · rename_i beyond
    rw [List.getElem?_append_right (by simp; omega)]
    have last : fd - (table.entries ++ List.replicate (fd - table.entries.length) none).length = 0 := by
      simp; omega
    rw [last]
    rfl

theorem get_put_other (table : Descriptors φ) {fd other : Nat} (file : Option φ) (different : other ≠ fd) :
    (table.put fd file).get other = table.get other := by
  unfold put get
  split
  · rw [List.getElem?_set_ne different.symm]
  · rename_i beyond
    by_cases inside : other < table.entries.length
    · rw [List.append_assoc, List.getElem?_append_left inside]
    · rw [List.getElem?_eq_none (Nat.not_lt.mp inside)]
      by_cases before : other < fd
      · rw [List.getElem?_append_left (by simp; omega), List.getElem?_append_right (Nat.not_lt.mp inside)]
        rw [List.getElem?_replicate, if_pos (by omega)]
        rfl
      · rw [List.getElem?_eq_none (by simp; omega)]

theorem get_put (table : Descriptors φ) (fd other : Nat) (file : Option φ) :
    (table.put fd file).get other = if other = fd then file else table.get other := by
  split
  · rename_i same
    rw [same, get_put_same]
  · rename_i different
    exact table.get_put_other file different

theorem get_lowestFree (table : Descriptors φ) : table.get table.lowestFree = none := by
  unfold get lowestFree
  by_cases inside : table.entries.findIdx Option.isNone < table.entries.length
  · have free := List.findIdx_getElem (w := inside)
    rw [List.getElem?_eq_getElem inside]
    simpa using free
  · rw [List.getElem?_eq_none (Nat.not_lt.mp inside)]
    rfl

theorem lowestFree_eq {table : Descriptors φ} {fd : Nat} (free : table.get fd = none)
    (lower : ∀ other, other < fd → table.get other ≠ none) : table.lowestFree = fd := by
  rcases Nat.lt_trichotomy table.lowestFree fd with before | same | behind
  · exact absurd table.get_lowestFree (lower _ before)
  · exact same
  · have inside : fd < table.entries.length := Nat.lt_of_lt_of_le behind List.findIdx_le_length
    have taken := List.not_of_lt_findIdx behind
    rw [get, List.getElem?_eq_getElem inside] at free
    simp_all

theorem get_of_lt_lowestFree {table : Descriptors φ} {fd : Nat} (below : fd < table.lowestFree) : table.get fd ≠ none := by
  have inside : fd < table.entries.length := Nat.lt_of_lt_of_le below List.findIdx_le_length
  have taken := List.not_of_lt_findIdx below
  rw [get, List.getElem?_eq_getElem inside, Option.join_some]
  intro free
  simp [free] at taken

/-- The lowest free descriptor depends on what is open only. -/
theorem lowestFree_congr {table other : Descriptors φ} (same : ∀ fd, table.get fd = other.get fd) :
    table.lowestFree = other.lowestFree := by
  apply lowestFree_eq
  · rw [same, get_lowestFree]
  · intro fd below
    rw [same]
    exact get_of_lt_lowestFree below

theorem ne_lowestFree {table : Descriptors φ} {fd : Nat} {file : φ} (isOpen : table.get fd = some file) :
    fd ≠ table.lowestFree := by
  rintro rfl
  rw [get_lowestFree] at isOpen
  contradiction

theorem get_close_getD (table : Descriptors φ) (fd other : Nat) :
    ((table.close fd).getD table).get other = if other = fd then none else table.get other := by
  unfold close
  split
  · exact table.get_put fd other none
  · rename_i free
    have none : table.get fd = none := by simpa using free
    split
    · rename_i same
      rw [same]
      exact none
    · rfl

/-- A descriptor that is closed again leaves the others as they were. -/
theorem close_openFile (table : Descriptors φ) (file : φ) :
    ∃ closed, (table.openFile file).2.close (table.openFile file).1 = some closed ∧
      ∀ fd, closed.get fd = table.get fd := by
  refine ⟨(table.openFile file).2.put table.lowestFree none, ?_, fun fd => ?_⟩
  · simp [close, openFile]
  · rw [get_put, openFile, get_put]
    split
    · rename_i same
      rw [same, get_lowestFree]
    · rfl

end Descriptors

end SysProg
