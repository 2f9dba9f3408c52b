import SysProg.Library.Threads
import SysProg.Threading.CondSemaphore

namespace SysProg.Threading.CondSemaphore

open Function

/-! ## Threads the counter stands for -/

/-- The thread has decremented the counter and not yet incremented it. -/
def Phase.counted : Phase → Nat
  | .testing | .waiting | .woken | .unlocking | .critical | .leaving | .incrementing => 1
  | .entering | .decrementing | .signalling | .releasing => 0

/-- The thread has passed the test of `sem_wait` and not yet incremented the counter. -/
def Phase.passed : Phase → Nat
  | .unlocking | .critical | .leaving | .incrementing => 1
  | _ => 0

theorem Phase.passed_le_counted (phase : Phase) : phase.passed ≤ phase.counted := by
  cases phase <;> decide

theorem Phase.counted_le_one (phase : Phase) : phase.counted ≤ 1 := by
  cases phase <;> decide

variable {ι : Type} [Fintype ι] {k : Nat} {state after : State ι} {who : ι} {phase : Phase}

structure Bounded (k : Nat) (state : State ι) : Prop where
  count : state.count + tally Phase.counted state.threads = k
  passed : tally Phase.passed state.threads ≤ k

theorem bounded_start (k : Nat) : Bounded k (start k : State ι) where
  count := by simp [start, tally, Phase.counted]
  passed := by simp [start, tally, Phase.passed]

variable [DecidableEq ι]

/-- A step after which the counter still stands for the threads, and which is
no passing of the test. -/
theorem Bounded.go (inv : Bounded k state) (moved : after.threads = update state.threads who phase)
    (count : after.count + phase.counted = state.count + (state.threads who).counted)
    (passed : phase.passed ≤ (state.threads who).passed) : Bounded k after := by
  have total := tally_update Phase.counted state.threads who phase
  have through := tally_update Phase.passed state.threads who phase
  have before := inv.count
  have below := inv.passed
  rw [← moved] at total through
  exact ⟨by omega, by omega⟩

/-- With at most one thread more than permits, the counter is `-1` when a
thread would be one too many. -/
theorem Bounded.pass (inv : Bounded k state) (few : Fintype.card ι ≤ k + 1) (testing : state.threads who = .testing)
    (permitted : state.count ≠ -1) : Bounded k (state.go who .unlocking) := by
  have total := tally_update Phase.counted state.threads who .unlocking
  have before := inv.count
  have all : tally Phase.counted state.threads ≤ Fintype.card ι := tally_le_card Phase.counted_le_one
  have through : tally Phase.passed (state.go who .unlocking).threads ≤
      tally Phase.counted (state.go who .unlocking).threads := tally_le_tally Phase.passed_le_counted
  simp only [testing, Phase.counted] at total
  simp only [State.go] at through
  exact ⟨by simp only [State.go]; omega, by simp only [State.go]; omega⟩

theorem Bounded.step (inv : Bounded k state) (few : Fintype.card ι ≤ k + 1) (moved : step state who = some after) :
    Bounded k after := by
  simp only [CondSemaphore.step] at moved
  cases phase : state.threads who <;> simp only [phase, lock] at moved
  case testing =>
      split at moved
      · cases moved
        exact inv.go rfl (by rw [phase]; rfl) (by rw [phase]; decide)
      · rename_i permitted
        cases moved
        exact inv.pass few phase permitted
  case entering | woken | leaving =>
      split at moved <;> try contradiction
      cases moved
      exact inv.go rfl (by rw [phase]; rfl) (by rw [phase]; decide)
  case decrementing | incrementing =>
      cases moved
      exact inv.go rfl (by rw [phase]; simp [Phase.counted]) (by rw [phase]; decide)
  case waiting | signalling => contradiction
  case unlocking | critical | releasing =>
      cases moved
      exact inv.go rfl (by rw [phase]; rfl) (by rw [phase]; decide)

theorem Bounded.wake (inv : Bounded k state) (waiting : state.threads who = .waiting) : Bounded k (state.go who .woken) :=
  inv.go rfl (by rw [waiting]; rfl) (by rw [waiting]; decide)

theorem Bounded.signal (inv : Bounded k state) {waiter : Option ι} (moved : signal state who waiter = some after) :
    Bounded k after := by
  simp only [CondSemaphore.signal] at moved
  split at moved <;> try contradiction
  rename_i signalling
  have released : Bounded k (state.go who .releasing) :=
    inv.go rfl (by rw [signalling]; rfl) (by rw [signalling]; decide)
  split at moved
  · rename_i other
    split at moved <;> try contradiction
    rename_i waiting
    cases moved
    apply released.wake
    have different : other ≠ who := by
      rintro rfl
      rw [signalling] at waiting
      contradiction
    simp only [State.go, update_of_ne different, waiting]
  · split at moved <;> try contradiction
    cases moved
    exact released

theorem Bounded.next (inv : Bounded k state) (few : Fintype.card ι ≤ k + 1) {action : Action ι}
    (moved : next state action = some after) : Bounded k after := by
  cases action with
  | step who => exact inv.step few moved
  | signal who waiter => exact inv.signal moved
  | spurious waiter =>
      simp only [CondSemaphore.next] at moved
      split at moved <;> try contradiction
      rename_i waiting
      cases moved
      exact inv.wake waiting

theorem inside_le (few : Fintype.card ι ≤ k + 1) (reached : (machine ι k).Reachable state) : state.inside.card ≤ k := by
  have inv : Bounded k state := reached.invariant (Bounded k) (bounded_start k) fun inv moved => inv.next few moved
  refine le_trans ?_ inv.passed
  rw [State.inside, Finset.card_filter]
  apply Finset.sum_le_sum
  intro who _
  split
  · rename_i critical
    simp [critical, Phase.passed]
  · exact Nat.zero_le _

/-! ## One thread more -/

/-- The given threads are in the critical section and the others outside. -/
def occupied (k : Nat) (threads : Finset ι) : State ι where
  threads := fun who => if who ∈ threads then .critical else .entering
  count := k - threads.card
  countMut := none

theorem run_enter (outside : state.threads who = .entering) (free : state.countMut = none)
    (permitted : state.count ≠ 0) :
    (machine ι k).run state (List.replicate 4 (.step who)) =
      some { state.go who .critical with count := state.count - 1 } := by
  have positive : state.count - 1 ≠ -1 := by omega
  simp [List.replicate, Machine.run, machine, next, step, lock, State.go, outside, free, positive]

theorem run_block (outside : state.threads who = .entering) (free : state.countMut = none)
    (none : state.count = 0) :
    (machine ι k).run state (List.replicate 3 (.step who)) =
      some { state.go who .waiting with count := -1 } := by
  simp [List.replicate, Machine.run, machine, next, step, lock, State.go, outside, free, none]

theorem reachable_occupied (threads : Finset ι) (room : threads.card ≤ k) :
    (machine ι k).Reachable (occupied k threads) := by
  induction threads using Finset.induction_on with
  | empty =>
      have same : (machine ι k).init = occupied k ∅ := by simp [machine, start, occupied]
      exact same ▸ Machine.reachable_init
  | insert who threads absent ih =>
      rw [Finset.card_insert_of_notMem absent] at room
      have outside : (occupied k threads).threads who = .entering := by simp [occupied, absent]
      have entered := (ih (by omega)).run _ (run_enter outside rfl (by simp only [occupied]; omega))
      have same : { (occupied k threads).go who .critical with count := (occupied k threads).count - 1 } =
          occupied k (insert who threads) := by
        simp only [occupied, State.go, State.mk.injEq, and_true, Finset.card_insert_of_notMem absent]
        refine ⟨?_, by omega⟩
        funext other
        by_cases here : other = who
        · simp [here]
        · simp [here, update_of_ne]
      exact same ▸ entered

/-- `k` threads are in the critical section, one waits with the counter at `-1`,
and the next makes it `-2` and passes the test. -/
theorem reachable_crowded (many : k + 2 ≤ Fintype.card ι) :
    ∃ state, (machine ι k).Reachable state ∧ k < state.inside.card := by
  obtain ⟨threads, -, size⟩ := Finset.exists_subset_card_eq (s := (Finset.univ : Finset ι)) (n := k)
    (by rw [Finset.card_univ]; omega)
  obtain ⟨first, -, absent⟩ := Finset.exists_mem_notMem_of_card_lt_card (s := threads) (t := Finset.univ)
    (by rw [Finset.card_univ]; omega)
  obtain ⟨second, -, beyond⟩ := Finset.exists_mem_notMem_of_card_lt_card (s := insert first threads) (t := Finset.univ)
    (by rw [Finset.card_univ, Finset.card_insert_of_notMem absent]; omega)
  obtain ⟨different, missing⟩ := not_or.mp (mt Finset.mem_insert.mpr beyond)
  have waits : (occupied k threads).threads first = .entering := by simp [occupied, absent]
  have blocked := (reachable_occupied threads size.le).run _ (run_block waits rfl (by simp [occupied, size]))
  have enters : ((occupied k threads).go first .waiting).threads second = .entering := by
    simp [occupied, State.go, update_of_ne different, missing]
  refine ⟨_, blocked.run _ (run_enter enters rfl (by simp)), ?_⟩
  have all : insert second threads ⊆ State.inside { ({ (occupied k threads).go first .waiting with
      count := -1 } : State ι).go second .critical with count := -1 - 1 } := by
    intro who member
    rw [State.inside, Finset.mem_filter]
    refine ⟨Finset.mem_univ who, ?_⟩
    rcases Finset.mem_insert.mp member with rfl | inside
    · simp [State.go]
    · have apart : who ≠ second := fun same => missing (same ▸ inside)
      have other : who ≠ first := fun same => absent (same ▸ inside)
      simp [State.go, apart, other, occupied, inside]
  have card := Finset.card_le_card all
  rwa [Finset.card_insert_of_notMem missing, size] at card

/-- The semaphore lets at most `k` threads in just when there are at most
`k + 1` of them. -/
theorem semaphore_bounds_iff (ι : Type) [Fintype ι] [DecidableEq ι] (k : Nat) :
    (∀ state, (machine ι k).Reachable state → state.inside.card ≤ k) ↔ Fintype.card ι ≤ k + 1 := by
  constructor
  · intro bounded
    by_contra more
    obtain ⟨state, reached, crowded⟩ := reachable_crowded (ι := ι) (k := k) (by omega)
    have few := bounded state reached
    omega
  · intro few state reached
    exact inside_le few reached

/-- Three threads at a semaphore of one: the second makes the counter `-1` and
waits, the third makes it `-2` and goes in. -/
theorem two_of_three_inside : ¬ ∀ state, (machine (Fin 3) 1).Reachable state → state.inside.card ≤ 1 := by
  intro bounded
  let steps (count : Nat) (who : Fin 3) : List (Action (Fin 3)) := List.replicate count (.step who)
  have reached : (machine (Fin 3) 1).Reachable _ := ⟨steps 4 0 ++ steps 3 1 ++ steps 4 2, rfl⟩
  exact absurd (bounded _ reached) (by decide)

end SysProg.Threading.CondSemaphore
