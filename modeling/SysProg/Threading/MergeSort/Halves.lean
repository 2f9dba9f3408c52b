import SysProg.Threading.MergeSort.Correct

namespace SysProg.Threading.MergeSort

open Prog

variable {α : Type} [LinearOrder α]

theorem mergeSort_exec_exists {start stop : Nat} (fuel : Nat) {A : List α} (ordered : start ≤ stop)
    (inside : stop < A.length) (fits : stop < 2 ^ 31 - 1) (enough : stop - start < fuel) :
    ∃ after, (mergeSort fuel start stop).exec A = .ok after ∧ after.length = A.length := by
  obtain ⟨sorted, ran, -⟩ := mergeSort_exec_slice ordered inside fits enough
  exact ⟨_, ran, (exec_frame (mergeSort_confined fuel fits).within ran).length⟩

theorem mergeSort_eq_fork {start stop : Nat} (fuel : Nat) (ordered : start < stop) (fits : stop < 2 ^ 31 - 1) :
    (mergeSort (fuel + 1) start stop : Prog α) =
      .fork (mergeSort fuel start (sortMid start stop)) (mergeSort fuel (sortMid start stop + 1) stop)
        (merge start stop .done) := by
  have started : ¬ start ≥ stop := by omega
  simp only [mergeSort, started, if_false, ofDouble_toDouble (show stop < 2 ^ 52 by omega),
    ofDouble_toDouble (show start < 2 ^ 52 by omega)]

/-- The threads of the two halves keep to their own elements, and so every
interleaving of them is finite, can be continued until both have been joined, and
then leaves what the first half and the second one leave when they run one after
the other. Other threads that run at the same time, as they do below the first
level of the recursion, make no difference. -/
theorem halves_do_not_interfere (start stop fuel : Nat) (A : List α) (ordered : start < stop) (inside : stop < A.length)
    (fits : stop < 2 ^ 31 - 1) (enough : stop - start ≤ fuel) :
    let mid := sortMid start stop
    let first : Prog α := mergeSort fuel start mid
    let second : Prog α := mergeSort fuel (mid + 1) stop
    mergeSort (fuel + 1) start stop = .fork first second (merge start stop .done) ∧
    first.Within (fun index => start ≤ index ∧ index ≤ mid) ∧
    second.Within (fun index => mid + 1 ≤ index ∧ index ≤ stop) ∧
    Acc Becomes (.fork first second .done) ∧
    ∃ middle after, first.exec A = .ok middle ∧ second.exec middle = .ok after ∧
      (∀ prog memory, Reaches (.fork first second .done) A prog memory →
        (prog = .done ∧ memory = after) ∨ ∃ moved later, Step prog memory moved later) ∧
      ∀ memory, Amid (fun index => start ≤ index ∧ index ≤ stop) (.fork first second .done) A .done memory →
        Agree (fun index => start ≤ index ∧ index ≤ stop) memory after := by
  intro mid first second
  have half : mid = (start + stop) / 2 := sortMid_eq (Nat.le_of_lt ordered) (by omega)
  have firstConfined : Confined _ first := mergeSort_confined fuel (show mid < 2 ^ 31 - 1 by omega)
  have secondConfined : Confined _ second := mergeSort_confined fuel fits
  have both : Confined (fun index => start ≤ index ∧ index ≤ stop) (.fork first second .done) := by
    apply firstConfined.fork secondConfined confined_done
    · intro index left right
      omega
    · intro index bounds
      omega
    · intro index bounds
      omega
  obtain ⟨middle, ranFirst, length⟩ := mergeSort_exec_exists fuel (show start ≤ mid by omega)
    (show mid < A.length by omega) (by omega) (by omega)
  obtain ⟨after, ranSecond, -⟩ := mergeSort_exec_exists fuel (show mid + 1 ≤ stop by omega)
    (show stop < middle.length by omega) fits (by omega)
  have ran : (Prog.fork first second .done).exec A = .ok after := by
    simp only [exec, first, second, ranFirst, ranSecond, ok_bind]
  have outcome : ∀ prog memory, Reaches (.fork first second .done) A prog memory →
      (prog = .done ∧ memory = after) ∨ ∃ moved later, Step prog memory moved later :=
    fun _ _ reaches => reaches.outcome both.raceFree ran
  refine ⟨mergeSort_eq_fork fuel ordered fits, firstConfined.within, secondConfined.within,
    becomes_wellFounded.apply _, middle, after, ranFirst, ranSecond, outcome, ?_⟩
  intro memory amid
  obtain ⟨alone, reaches, agree⟩ := amid.reaches both.within ⟨rfl, fun _ _ => rfl⟩
  rcases outcome _ _ reaches with ⟨-, same⟩ | ⟨moved, later, step⟩
  · exact same ▸ agree
  · cases step

theorem halves_do_not_interfere_four :
    ∃ middle after, (mergeSort 3 1 2).exec [9, 3, 1, 4, 2, 0] = .ok middle ∧ (mergeSort 3 3 4).exec middle = .ok after ∧
      ∀ prog memory, Reaches (.fork (mergeSort 3 1 2) (mergeSort 3 3 4) .done) [9, 3, 1, 4, 2, 0] prog memory →
        (prog = .done ∧ memory = after) ∨ ∃ moved later, Step prog memory moved later := by
  have mid : sortMid 1 4 = 2 := sortMid_eq (by decide) (by decide)
  obtain ⟨-, -, -, -, middle, after, first, second, outcome, -⟩ :=
    halves_do_not_interfere 1 4 3 [9, 3, 1, 4, 2, 0] (by decide) (by decide) (by decide) (by decide)
  rw [mid] at first second outcome
  exact ⟨middle, after, first, second, outcome⟩

end SysProg.Threading.MergeSort
