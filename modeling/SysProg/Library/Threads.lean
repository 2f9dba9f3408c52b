import Mathlib.Algebra.BigOperators.Fin
import Mathlib.Algebra.BigOperators.Group.Finset.Piecewise
import Mathlib.Algebra.Order.BigOperators.Group.Finset

namespace SysProg

/-! # Counting threads by phase

An invariant of a group of threads often weighs the phase each of them is in.
`tally_update` says what one thread's move does to the sum.
-/

open Function

variable {ι φ : Type} [Fintype ι]

def tally (weight : φ → Nat) (threads : ι → φ) : Nat := ∑ i, weight (threads i)

variable {weight : φ → Nat} {threads : ι → φ}

theorem le_tally (weight : φ → Nat) (threads : ι → φ) (i : ι) : weight (threads i) ≤ tally weight threads :=
  Finset.single_le_sum (f := fun i => weight (threads i)) (fun _ _ => Nat.zero_le _) (Finset.mem_univ i)

theorem tally_eq_zero : tally weight threads = 0 ↔ ∀ i, weight (threads i) = 0 := by
  simp [tally]

theorem tally_pos : 0 < tally weight threads ↔ ∃ i, 0 < weight (threads i) := by
  simp only [Nat.pos_iff_ne_zero, ne_eq, tally_eq_zero, not_forall]

theorem tally_congr {other : φ → Nat} (same : ∀ i, weight (threads i) = other (threads i)) :
    tally weight threads = tally other threads :=
  Finset.sum_congr rfl fun i _ => same i

theorem tally_le_tally {other : φ → Nat} (le : ∀ phase, weight phase ≤ other phase) :
    tally weight threads ≤ tally other threads :=
  Finset.sum_le_sum fun i _ => le (threads i)

theorem tally_le_card (unit : ∀ phase, weight phase ≤ 1) : tally weight threads ≤ Fintype.card ι := by
  have bound := Finset.sum_le_card_nsmul Finset.univ (fun i => weight (threads i)) 1 fun i _ => unit (threads i)
  rwa [Nat.nsmul_eq_mul, Nat.mul_one] at bound

theorem tally_lt {other : φ → Nat} (le : ∀ i, weight (threads i) ≤ other (threads i)) {i : ι}
    (lt : weight (threads i) < other (threads i)) : tally weight threads < tally other threads :=
  Finset.sum_lt_sum (fun i _ => le i) ⟨i, Finset.mem_univ i, lt⟩

theorem tally_eq_single {i : ι} (others : ∀ j, j ≠ i → weight (threads j) = 0) :
    tally weight threads = weight (threads i) :=
  Finset.sum_eq_single i (fun j _ other => others j other) fun absent => absurd (Finset.mem_univ i) absent

variable [DecidableEq ι]

theorem tally_update (weight : φ → Nat) (threads : ι → φ) (i : ι) (phase : φ) :
    tally weight (update threads i phase) + weight (threads i) = tally weight threads + weight phase := by
  have changed := Finset.sum_update_of_mem (Finset.mem_univ i) (fun i => weight (threads i)) (weight phase)
  have before := Finset.add_sum_erase Finset.univ (fun i => weight (threads i)) (Finset.mem_univ i)
  have same : (fun j => weight (update threads i phase j)) =
      update (fun j => weight (threads j)) i (weight phase) := by
    funext j
    exact apply_update (fun _ => weight) threads i phase j
  rw [Finset.sdiff_singleton_eq_erase] at changed
  simp only [tally, same, changed]
  omega

theorem tally_update_two (weight : φ → Nat) (threads : ι → φ) {i j : ι} (different : j ≠ i) (first second : φ) :
    tally weight (update (update threads i first) j second) + weight (threads i) + weight (threads j) =
      tally weight threads + weight first + weight second := by
  have one := tally_update weight threads i first
  have two := tally_update weight (update threads i first) j second
  rw [update_of_ne different] at two
  omega

end SysProg
