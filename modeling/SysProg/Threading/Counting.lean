import SysProg.Library.Block
import SysProg.Library.Critical

namespace SysProg.Threading.Counting

/-! # `join.c` and `mutex.c` of `05-threading/examples/src`, `05-threading/class/semaphores.c`

In each of them the main thread creates and joins threads that go through one
section. `x++` is a load and a store. What `join.c` prints before the section is
left out.
-/

open Critical

/-- `NUMTHREADS` -/
def numThreads : Nat := 10

/-- `x++`, through a register of the thread -/
def increment : Section Int Int :=
  [fun (x, _) => (x, x), fun (_, register) => (wrapInt (register + 1), register)]

/-- `work` and `main` of `join.c`, for any number of threads. -/
def joinMachine (n : Nat) : Machine (State n Int Int) (Action n) :=
  machine (fun _ => increment) 0 0

/-- `inc` of `mutex.c`, with `x` and the values printed. -/
def incAndPrint : Section (Int × List Int) Int :=
  [fun (shared, _) => (shared, shared.1),
    fun (shared, register) => ((wrapInt (register + 1), shared.2), register),
    fun (shared, register) => ((shared.1, shared.2 ++ [shared.1]), register)]

/-- `inc` and `main` of `mutex.c`, where the number of threads is two. -/
def mutexMachine (n : Nat) : Machine (State n (Int × List Int) Int) (Action n) :=
  machine (fun _ => incAndPrint) 0 (0, [])

inductive Line where
  | entered
  | exiting
deriving DecidableEq

/-- `work` of `semaphores.c`, which sleeps between the two lines. -/
def work : Section (List Line) Unit :=
  [fun (printed, own) => (printed ++ [.entered], own), id, fun (printed, own) => (printed ++ [.exiting], own)]

/-- `work` and `main` of `semaphores.c`, where the number of threads is two. -/
def semaphoreMachine (n : Nat) : Machine (State n (List Line) Unit) (Action n) :=
  machine (fun _ => work) () []

variable {n : Nat}

theorem serial_increment (order : List (Fin n)) (small : order.length < 2 ^ 31) :
    serial (fun _ => increment) 0 0 order = order.length := by
  induction order using List.reverseRecOn with
  | nil => rfl
  | append_singleton order who ih =>
      rw [List.length_append, List.length_singleton] at small
      rw [serial_concat, ih (by omega), List.length_append, List.length_singleton]
      show wrapInt ((order.length : Int) + 1) = _
      rw [wrapInt_of_range (by omega) (by omega)]
      rfl

/-- In every interleaving `x` is the number of threads when they have been joined, and every
interleaving can be carried on until they have. -/
theorem join_counts_all (n : Nat) (small : n < 2 ^ 31) :
    (∀ state, (joinMachine n).Reachable state → state.Joined → state.shared = n) ∧
    (∀ state, (joinMachine n).Reachable state → ¬ state.Joined →
      ∃ action after, (joinMachine n).next state action = some after) ∧
    ∀ actions state, (joinMachine n).run (joinMachine n).init actions = some state → actions.length ≤ n * 6 := by
  refine ⟨?_, fun state reached => (Reachable.ordered reached).goes_on, ?_⟩
  · intro state reached joined
    obtain ⟨order, whole⟩ := (Reachable.ordered reached).serializable joined
    have length : state.entered.length = n := by rw [order.length_eq, List.length_finRange]
    rw [whole, serial_increment _ (by omega), length]
  · exact fun actions state ran => run_bounded (fun _ => Nat.le_refl 2) ran

theorem join_counts_ten : ∃ state, (joinMachine numThreads).Reachable state ∧ state.shared = (10 : Nat) := by
  obtain ⟨state, reached, joined⟩ := exists_joined (fun _ : Fin numThreads => Nat.le_refl increment.length)
  exact ⟨state, reached, (join_counts_all numThreads (by decide)).1 state reached joined⟩

/-- The values one to `count`. -/
def upTo (count : Nat) : List Int := (List.range count).map fun i : Nat => (i : Int) + 1

theorem upTo_succ (count : Nat) : upTo (count + 1) = upTo count ++ [(count : Int) + 1] := by
  simp [upTo, List.range_succ]

theorem serial_incAndPrint (order : List (Fin n)) (small : order.length < 2 ^ 31) :
    serial (fun _ => incAndPrint) 0 (0, []) order = ((order.length : Int), upTo order.length) := by
  induction order using List.reverseRecOn with
  | nil => rfl
  | append_singleton order who ih =>
      rw [List.length_append, List.length_singleton] at small
      have next : wrapInt ((order.length : Int) + 1) = (order.length : Int) + 1 :=
        wrapInt_of_range (by omega) (by omega)
      rw [serial_concat, ih (by omega), List.length_append, List.length_singleton, upTo_succ]
      show ((wrapInt ((order.length : Int) + 1) : Int), upTo order.length ++ [wrapInt ((order.length : Int) + 1)]) = _
      rw [next]
      rfl

theorem upTo_begins {count more : Nat} (le : count ≤ more) : upTo count <+: upTo more := by
  rw [upTo, upTo, ← Nat.add_sub_cancel' le, List.range_add, List.map_append]
  exact List.prefix_append _ _

/-- The value is printed by the last statement of the section. -/
theorem printed_part {made : Section (Int × List Int) Int} (begins : made <+: incAndPrint) (count : Nat)
    (small : count < 2 ^ 31 - 1) :
    (perform made (((count : Int), upTo count), 0)).1.2 <+: upTo (count + 1) := by
  have next : wrapInt ((count : Int) + 1) = (count : Int) + 1 := wrapInt_of_range (by omega) (by omega)
  have shorter := upTo_begins (Nat.le_succ count)
  rw [List.prefix_iff_eq_take.mp begins]
  match made.length with
  | 0 | 1 | 2 => exact shorter
  | length + 3 =>
      rw [List.take_of_length_le (Nat.le_add_left 3 length : incAndPrint.length ≤ length + 3)]
      show upTo count ++ [wrapInt ((count : Int) + 1)] <+: upTo (count + 1)
      rw [next, ← upTo_succ]

/-- In every interleaving `mutex.c` prints the values of `x` in ascending order, each of them once. -/
theorem mutex_prints_in_order (n : Nat) (small : n < 2 ^ 31) :
    (∀ state, (mutexMachine n).Reachable state → state.shared.2 <+: upTo n) ∧
    ∀ state, (mutexMachine n).Reachable state → state.Joined → state.shared = ((n : Int), upTo n) := by
  constructor
  · intro state reached
    obtain ⟨earlier, made, fits, now, part⟩ := (Reachable.ordered reached).part
    rw [serial_incAndPrint _ (by omega)] at now
    rw [now]
    rcases part with rfl | ⟨less, who, begins⟩
    · exact upTo_begins fits
    · exact (printed_part begins earlier.length (by omega)).trans (upTo_begins less)
  · intro state reached joined
    obtain ⟨order, whole⟩ := (Reachable.ordered reached).serializable joined
    have length : state.entered.length = n := by rw [order.length_eq, List.length_finRange]
    rw [whole, serial_incAndPrint _ (by omega), length]

theorem mutex_prints_in_order_two : ∃ state, (mutexMachine 2).Reachable state ∧ state.shared = (((2 : Nat) : Int), upTo 2) := by
  obtain ⟨state, reached, joined⟩ := exists_joined (fun _ : Fin 2 => Nat.le_refl incAndPrint.length)
  exact ⟨state, reached, (mutex_prints_in_order 2 (by decide)).2 state reached joined⟩

/-- The lines of so many sections. -/
def turns (count : Nat) : List Line := (List.replicate count [Line.entered, .exiting]).flatten

theorem turns_succ (count : Nat) : turns (count + 1) = turns count ++ [.entered, .exiting] := by
  simp [turns, List.replicate_succ']

theorem turns_begins {count more : Nat} (le : count ≤ more) : turns count <+: turns more := by
  rw [turns, turns, ← Nat.add_sub_cancel' le, List.replicate_add, List.flatten_append]
  exact List.prefix_append _ _

theorem serial_work (order : List (Fin n)) : serial (fun _ => work) () [] order = turns order.length := by
  induction order using List.reverseRecOn with
  | nil => rfl
  | append_singleton order who ih =>
      rw [serial_concat, ih, List.length_append, List.length_singleton, turns_succ]
      show (turns order.length ++ [Line.entered]) ++ [Line.exiting] = _
      simp

theorem work_part {made : Section (List Line) Unit} (begins : made <+: work) (count : Nat) :
    (perform made (turns count, ())).1 <+: turns (count + 1) := by
  rw [List.prefix_iff_eq_take.mp begins, turns_succ]
  match made.length with
  | 0 => exact List.prefix_append _ _
  | 1 | 2 => exact ⟨[.exiting], by simp [work, perform]⟩
  | length + 3 => exact ⟨[], by simp [work, perform]⟩

/-- In every interleaving the lines of the threads of `semaphores.c` are in pairs: a thread
that has entered exits before another one enters, and all of them come to do so. -/
theorem semaphore_lines_paired (n : Nat) :
    (∀ state, (semaphoreMachine n).Reachable state → state.shared <+: turns n) ∧
    (∀ state, (semaphoreMachine n).Reachable state → state.Joined → state.shared = turns n) ∧
    ∃ state, (semaphoreMachine n).Reachable state ∧ state.Joined := by
  refine ⟨?_, ?_, exists_joined (fun _ : Fin n => Nat.le_refl work.length)⟩
  · intro state reached
    obtain ⟨earlier, made, fits, now, part⟩ := (Reachable.ordered reached).part
    rw [serial_work] at now
    rw [now]
    rcases part with rfl | ⟨less, who, begins⟩
    · exact turns_begins fits
    · exact (work_part begins earlier.length).trans (turns_begins less)
  · intro state reached joined
    obtain ⟨order, whole⟩ := (Reachable.ordered reached).serializable joined
    rw [whole, serial_work, order.length_eq, List.length_finRange]

end SysProg.Threading.Counting
