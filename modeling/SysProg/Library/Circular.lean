import Mathlib.Logic.Function.Basic
import Mathlib.Data.Nat.ModEq
import Mathlib.Data.List.Basic

namespace SysProg

/-! # Circular arrays

A log grows at its end, and an array of `size` cells holds the entries from
`start` on, entry `k` in cell `k % size`.
-/

open Function

variable {α : Type} {size start stop : Nat} {cells : Nat → α} {log : List α}

theorem mod_ne_of_window {first second : Nat} (ordered : first < second) (near : second < first + size) :
    first % size ≠ second % size := by
  intro same
  have congruent : first ≡ second [MOD size] := same
  have divides := (Nat.modEq_iff_dvd' (Nat.le_of_lt ordered)).mp congruent
  have large := Nat.le_of_dvd (by omega) divides
  omega

structure Window (size : Nat) (cells : Nat → α) (log : List α) (start : Nat) : Prop where
  start_le : start ≤ log.length
  length_le : log.length ≤ start + size
  held : ∀ k value, start ≤ k → log[k]? = some value → cells (k % size) = value

theorem Window.push (window : Window size cells log start) (room : log.length < start + size) (value : α) :
    Window size (update cells (log.length % size) value) (log ++ [value]) start where
  start_le := by
    have := window.start_le
    simp
    omega
  length_le := by
    simp
    omega
  held := by
    intro k entry later found
    rcases Nat.lt_trichotomy k log.length with before | here | after
    · rw [List.getElem?_append_left before] at found
      rw [update_of_ne (mod_ne_of_window before (by omega))]
      exact window.held k entry later found
    · subst here
      rw [List.getElem?_concat_length] at found
      cases found
      exact update_self _ _ _
    · rw [List.getElem?_eq_none (by simp; omega)] at found
      contradiction

theorem Window.pop (window : Window size cells log start) (nonempty : start < log.length) :
    Window size cells log (start + 1) where
  start_le := nonempty
  length_le := by
    have := window.length_le
    omega
  held := fun k value later found => window.held k value (by omega) found

theorem Window.first (window : Window size cells log start) (nonempty : start < log.length) :
    log[start]? = some (cells (start % size)) := by
  have found := List.getElem?_eq_getElem nonempty
  rw [found, window.held start _ (Nat.le_refl _) found]

theorem Window.contents (window : Window size cells log start) :
    (List.range (log.length - start)).map (fun k => cells ((start + k) % size)) = log.drop start := by
  apply List.ext_getElem?
  intro k
  rw [List.getElem?_map, List.getElem?_drop]
  by_cases inside : start + k < log.length
  · have found := List.getElem?_eq_getElem inside
    rw [List.getElem?_range (by omega), Option.map_some, found, window.held _ _ (Nat.le_add_right _ _) found]
  · rw [List.getElem?_eq_none (by simp; omega), List.getElem?_eq_none (by omega)]
    rfl

/-- The cells marked are those that hold the entries from `start` to `stop`. -/
def Marked (size start stop : Nat) (marks : Nat → Bool) : Prop :=
  ∀ cell, marks cell = true ↔ ∃ k, start ≤ k ∧ k < stop ∧ k % size = cell

variable {marks : Nat → Bool}

theorem Marked.push (marked : Marked size start stop marks) (ordered : start ≤ stop) :
    Marked size start (stop + 1) (update marks (stop % size) true) := by
  intro cell
  by_cases here : cell = stop % size
  · subst here
    rw [update_self]
    exact ⟨fun _ => ⟨stop, ordered, Nat.lt_succ_self stop, rfl⟩, fun _ => rfl⟩
  · rw [update_of_ne here, marked cell]
    constructor
    · intro known
      obtain ⟨k, lower, upper, same⟩ := known
      exact ⟨k, lower, Nat.lt_succ_of_lt upper, same⟩
    · intro known
      obtain ⟨k, lower, upper, same⟩ := known
      have other : k ≠ stop := fun last => here (same.symm.trans (congrArg (· % size) last))
      exact ⟨k, lower, by omega, same⟩

theorem Marked.pop (marked : Marked size start stop marks) (short : stop ≤ start + size) :
    Marked size (start + 1) stop (update marks (start % size) false) := by
  intro cell
  by_cases here : cell = start % size
  · subst here
    rw [update_self]
    refine ⟨by simp, ?_⟩
    intro known
    obtain ⟨k, lower, upper, same⟩ := known
    exact absurd same.symm (mod_ne_of_window (by omega) (by omega))
  · rw [update_of_ne here, marked cell]
    constructor
    · intro known
      obtain ⟨k, lower, upper, same⟩ := known
      have other : k ≠ start := fun first => here (same.symm.trans (congrArg (· % size) first))
      exact ⟨k, by omega, upper, same⟩
    · intro known
      obtain ⟨k, lower, upper, same⟩ := known
      exact ⟨k, by omega, upper, same⟩

theorem Marked.unmarked (marked : Marked size start stop marks) (room : stop < start + size) :
    marks (stop % size) = false := by
  by_contra marks
  obtain ⟨k, lower, upper, same⟩ := (marked _).mp (by simpa using marks)
  exact mod_ne_of_window upper (by omega) same

theorem Marked.first (marked : Marked size start stop marks) (nonempty : start < stop) :
    marks (start % size) = true :=
  (marked _).mpr ⟨start, Nat.le_refl start, nonempty, rfl⟩

end SysProg
