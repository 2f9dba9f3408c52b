import Mathlib.Data.List.Infix

namespace SysProg

/-! # Borders of words

`IsLongest p bound text k` says that `p.take k` is the longest prefix of `p`,
among those shorter than `bound`, that ends at the end of `text`. With `text`
a prefix of `p` itself this is the longest border; with `text` the part of a
text already scanned it is the state of a prefix-matching automaton.
-/

variable {α : Type}

structure IsLongest (p : List α) (bound : Nat) (text : List α) (k : Nat) : Prop where
  below : k < bound
  ends : p.take k <:+ text
  longest : ∀ other < bound, p.take other <:+ text → other ≤ k

theorem take_suffix_take {p text : List α} {shorter longer : Nat} (le : shorter ≤ longer)
    (short : p.take shorter <:+ text) (long : p.take longer <:+ text) :
    p.take shorter <:+ p.take longer :=
  List.suffix_of_suffix_length_le short long (by simp only [List.length_take]; omega)

theorem suffix_append_singleton_iff {left right : List α} {x y : α} :
    left ++ [x] <:+ right ++ [y] ↔ left <:+ right ∧ x = y := by
  constructor
  · rintro ⟨front, joined⟩
    rw [← List.append_assoc] at joined
    obtain ⟨same, last⟩ := List.append_inj' joined rfl
    exact ⟨⟨front, same⟩, by simpa using last⟩
  · rintro ⟨⟨front, rfl⟩, rfl⟩
    exact ⟨front, by simp⟩

theorem take_succ_suffix_iff {p text : List α} {k : Nat} {c : α} (bound : k < p.length) :
    p.take (k + 1) <:+ text ++ [c] ↔ p.take k <:+ text ∧ p[k] = c := by
  rw [List.take_succ_eq_append_getElem bound]
  exact suffix_append_singleton_iff

end SysProg
