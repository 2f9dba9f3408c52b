import SysProg.Threading.WatchCount.Total

namespace SysProg.Threading.WatchCount

/-! ## The signal is not lost -/

/-- While `watch_count` waits, the threshold is still ahead or the signal is about to be sent. -/
def State.Alert (state : State) : Prop :=
  state.watch = .waiting → state.count < countLimit ∨ ∃ id, (state.incs id).phase = .signalling

variable {state after : State} {id : Fin 2}

theorem State.Alert.incCount (alert : state.Alert) (moved : incCount id state = some after) : after.Alert := by
  have kept : ∀ {inc : Inc}, (state.incs id).phase ≠ .signalling →
      (∃ other, (state.incs other).phase = .signalling) →
      ∃ other, (Function.update state.incs id inc other).phase = .signalling := by
    rintro inc quiet ⟨other, signalling⟩
    have different : other ≠ id := fun same => quiet (same ▸ signalling)
    exact ⟨other, by rwa [Function.update_of_ne different]⟩
  intro waiting
  simp only [WatchCount.incCount] at moved
  cases phase : (state.incs id).phase
  all_goals simp only [phase] at moved
  case signalling =>
      cases moved
      by_cases was : state.watch = .waiting
      · simp [was] at waiting
      · rw [if_neg was] at waiting
        exact absurd waiting was
  case counting =>
      cases moved
      by_cases reached : state.count + 1 = countLimit
      · simp only [reached, if_true]
        exact .inr ⟨id, by simp only [State.put, Function.update_self]⟩
      · rcases alert waiting with below | signalling
        · exact .inl (Nat.lt_of_le_of_ne below reached)
        · exact .inr (kept (by simp [phase]) signalling)
  case locking =>
      split at moved <;> cases moved
      exact (alert waiting).imp_right (kept (by simp [phase]))
  case returned => contradiction
  all_goals
    cases moved
    exact (alert waiting).imp_right (kept (by simp [phase]))

theorem State.Alert.watchCount (moved : watchCount state = some after) : after.Alert := by
  intro waiting
  simp only [WatchCount.watchCount] at moved
  cases phase : state.watch
  all_goals simp only [phase] at moved
  case testing =>
      split at moved
      · rename_i below
        cases moved
        exact .inl below
      · cases moved
        contradiction
  case locking | woken =>
      split at moved <;> cases moved
      contradiction
  case waiting | returned => contradiction
  all_goals
    cases moved
    contradiction

theorem State.Alert.next {action : Action} (alert : state.Alert) (moved : next state action = some after) :
    after.Alert := by
  cases action with
  | inc id => exact alert.incCount moved
  | watch => exact State.Alert.watchCount moved
  | spurious =>
      simp only [WatchCount.next] at moved
      split at moved <;> cases moved
      intro waiting
      contradiction

/-! ## Some thread can go on -/

theorem incCount_enabled (free : state.mutex = none ∨ (state.incs id).phase ≠ .locking)
    (running : (state.incs id).phase ≠ .returned) : ∃ after, incCount id state = some after := by
  simp only [incCount]
  cases phase : (state.incs id).phase
  case locking =>
      have unlocked : state.mutex = none := free.resolve_right fun other => other phase
      simp only [unlocked, if_true]
      exact ⟨_, rfl⟩
  case returned => exact absurd phase running
  all_goals exact ⟨_, rfl⟩

theorem watchCount_enabled (free : state.mutex = none ∨ state.watch.critical = true)
    (running : state.watch ≠ .returned) (notWaiting : state.watch ≠ .waiting) :
    ∃ after, watchCount state = some after := by
  simp only [watchCount]
  cases phase : state.watch
  case locking | woken =>
      have unlocked : state.mutex = none := free.resolve_right (by simp [phase, WatchPhase.critical])
      simp only [unlocked, if_true]
      exact ⟨_, rfl⟩
  case waiting => exact absurd phase notWaiting
  case returned => exact absurd phase running
  case testing =>
      by_cases below : state.count < countLimit
      · simp only [below, if_true]
        exact ⟨_, rfl⟩
      · simp only [below, if_false]
        exact ⟨_, rfl⟩
  all_goals exact ⟨_, rfl⟩

/-- Until the threads can be joined, one of them has a step that needs no spurious wake-up. -/
theorem State.Counts.goes_on (inv : state.Counts) (alert : state.Alert) (unjoined : ¬ state.Joined) :
    ∃ action after, action ≠ .spurious ∧ WatchCount.next state action = some after := by
  by_cases busy : ∃ id, (state.incs id).phase.critical = true
  · obtain ⟨id, critical⟩ := busy
    have inside : (state.incs id).phase ≠ .locking ∧ (state.incs id).phase ≠ .returned := by
      constructor <;> intro phase <;> rw [phase] at critical <;> contradiction
    obtain ⟨after, moved⟩ := incCount_enabled (.inr inside.1) inside.2
    exact ⟨.inc id, after, nofun, moved⟩
  · by_cases watching : state.watch.critical = true
    · have inside : state.watch ≠ .returned ∧ state.watch ≠ .waiting := by
        constructor <;> intro phase <;> rw [phase] at watching <;> contradiction
      obtain ⟨after, moved⟩ := watchCount_enabled (.inr watching) inside.1 inside.2
      exact ⟨.watch, after, nofun, moved⟩
    · have free : state.mutex = none := by
        cases owner : state.mutex with
        | none => rfl
        | some thread =>
            cases thread with
            | watch => exact absurd (inv.watchOwns.mpr owner) watching
            | inc id => exact absurd ⟨id, (inv.incOwns id).mpr owner⟩ busy
      by_cases running : ∃ id, (state.incs id).phase ≠ .returned
      · obtain ⟨id, other⟩ := running
        obtain ⟨after, moved⟩ := incCount_enabled (.inl free) other
        exact ⟨.inc id, after, nofun, moved⟩
      · have all : ∀ id, (state.incs id).phase = .returned := fun id => by
          by_contra other
          exact running ⟨id, other⟩
        have notReturned : state.watch ≠ .returned := fun returned => unjoined ⟨returned, all⟩
        have notWaiting : state.watch ≠ .waiting := by
          intro waiting
          rcases alert waiting with below | ⟨id, signalling⟩
          · have total := State.Counts.returned_count inv all
            rw [countLimit] at below
            omega
          · rw [all id] at signalling
            contradiction
        obtain ⟨after, moved⟩ := watchCount_enabled (.inl free) notReturned notWaiting
        exact ⟨.watch, after, nofun, moved⟩

/-! ## Every run ends -/

/-- The steps that a thread has still to take. -/
def Inc.rank (inc : Inc) : Nat :=
  match inc.phase with
  | .testing => 6 * (tcount - inc.i) + 1
  | .locking => 6 * (tcount - inc.i)
  | .counting => 6 * (tcount - inc.i) - 1
  | .signalling => 6 * (tcount - inc.i) - 2
  | .unlocking => 6 * (tcount - inc.i) - 3
  | .sleeping => 6 * (tcount - inc.i) - 4
  | .returned => 0

/-- `watch_count` waits at most once: after it has added it leaves the loop. -/
def WatchPhase.rank (added : Nat) : WatchPhase → Nat
  | .locking => 7
  | .testing => if added = 0 then 6 else 2
  | .waiting => 5
  | .woken => 4
  | .adding => 3
  | .unlocking => 1
  | .returned => 0

def State.rank (state : State) : Nat := tally Inc.rank state.incs + state.watch.rank state.added

theorem Inc.rank_falls {phase next : IncPhase} {i j : Nat} (moved : (Inc.mk next j).rank + 1 ≤ (Inc.mk phase i).rank)
    (was : state.incs id = Inc.mk phase i) :
    tally Inc.rank (Function.update state.incs id (Inc.mk next j)) + 1 ≤ tally Inc.rank state.incs := by
  have changed := tally_update Inc.rank state.incs id (Inc.mk next j)
  rw [was] at changed
  omega

theorem State.Counts.incCount_rank (inv : state.Counts) (moved : WatchCount.incCount id state = some after) :
    after.rank + 1 ≤ state.rank := by
  have fits := inv.incFits id
  cases thread : state.incs id with
  | mk phase i =>
      simp only [WatchCount.incCount, thread] at moved
      simp only [thread, Inc.Fits] at fits
      have woken : (if state.watch = .waiting then WatchPhase.woken else state.watch).rank state.added ≤
          state.watch.rank state.added := by
        split
        · rename_i waiting
          rw [waiting]
          exact Nat.le_succ 4
        · exact Nat.le_refl _
      have falls : ∀ {next : IncPhase} {j : Nat}, (Inc.mk next j).rank + 1 ≤ (Inc.mk phase i).rank →
          tally Inc.rank (Function.update state.incs id (Inc.mk next j)) + 1 ≤ tally Inc.rank state.incs :=
        fun less => Inc.rank_falls less thread
      cases phase
      all_goals simp only at moved fits
      case locking =>
          split at moved <;> cases moved
          have less := @falls .counting i (by simp only [Inc.rank]; omega)
          simp only [State.rank, State.put]
          omega
      case testing =>
          cases moved
          simp only [State.rank, State.put]
          have less := @falls (if i < tcount then .locking else .returned) i (by split <;> simp only [Inc.rank] <;> omega)
          omega
      case counting =>
          cases moved
          simp only [State.rank, State.put]
          have less := @falls (if state.count + 1 = countLimit then .signalling else .unlocking) i
            (by split <;> simp only [Inc.rank] <;> omega)
          omega
      case signalling =>
          cases moved
          have less := @falls .unlocking i (by simp only [Inc.rank]; omega)
          simp only [State.rank, State.put]
          omega
      case unlocking =>
          cases moved
          have less := @falls .sleeping i (by simp only [Inc.rank]; omega)
          simp only [State.rank, State.put]
          omega
      case sleeping =>
          cases moved
          have less := @falls .testing (i + 1) (by simp only [Inc.rank]; omega)
          simp only [State.rank, State.put]
          omega
      case returned => contradiction

theorem State.Counts.watchCount_rank (inv : state.Counts) (moved : WatchCount.watchCount state = some after) :
    after.rank + 1 ≤ state.rank := by
  have fits := inv.watchFits
  simp only [WatchCount.watchCount] at moved
  cases phase : state.watch
  all_goals
    rw [phase] at fits
    simp only [phase] at moved
  case locking =>
      split at moved <;> cases moved
      simp only [State.rank, phase, WatchPhase.rank]
      split <;> omega
  case woken =>
      split at moved <;> cases moved
      simp only [State.rank, phase, WatchPhase.rank]
      omega
  case testing =>
      split at moved
      · rename_i below
        cases moved
        have total := inv.total
        have none : state.added = 0 := by
          rw [countLimit] at below
          omega
        simp only [State.rank, phase, WatchPhase.rank, none, if_true]
        omega
      · cases moved
        simp only [State.rank, phase, WatchPhase.rank]
        split <;> omega
  case waiting | returned => contradiction
  case adding =>
      cases moved
      simp only [State.rank, phase, WatchPhase.rank, Nat.succ_ne_zero, if_false]
      omega
  case unlocking =>
      cases moved
      simp only [State.rank, phase, WatchPhase.rank]
      omega

theorem State.Counts.next_rank {action : Action} (inv : state.Counts) (moved : WatchCount.next state action = some after) :
    after.rank + 1 ≤ state.rank := by
  cases action with
  | inc id => exact inv.incCount_rank moved
  | watch => exact inv.watchCount_rank moved
  | spurious =>
      simp only [WatchCount.next] at moved
      split at moved <;> cases moved
      rename_i waiting
      simp only [State.rank, waiting, WatchPhase.rank]
      omega

theorem rank_init : machine.init.rank = 129 := by
  simp only [State.rank, tally, Fin.sum_univ_two]
  rfl

/-- The signal is never lost: in every interleaving, with any spurious wake-ups, a thread can go
on until all three can be joined, and after 129 steps at most they can. -/
theorem watch_count_completes :
    (∀ state, machine.Reachable state → ¬ state.Joined → ∃ action after, action ≠ .spurious ∧
      machine.next state action = some after) ∧
    ∀ actions state, machine.run machine.init actions = some state → actions.length ≤ 129 := by
  constructor
  · intro state reached unjoined
    have inv : state.Counts := reached.invariant State.Counts counts_init (fun inv moved => inv.next moved)
    have alert : state.Alert := reached.invariant State.Alert nofun (fun alert moved => alert.next moved)
    exact inv.goes_on alert unjoined
  · intro actions state ran
    have counted := Machine.run_countP_le State.Counts State.rank (fun _ => true)
      (fun inv moved => ⟨inv.next moved, inv.next_rank moved⟩) counts_init ran
    rw [List.countP_true, rank_init] at counted
    omega

/-- `watch_count` waits, and a thread of `inc_count` holds the mutex. -/
theorem watch_count_completes_waiting : ∃ actions state, machine.run machine.init actions = some state ∧
    state.watch = .waiting ∧ state.mutex = some (.inc 0) ∧
    (∃ action after, action ≠ .spurious ∧ machine.next state action = some after) ∧ actions.length ≤ 129 := by
  let actions : List Action := [.watch, .watch, .inc 0, .inc 0]
  obtain ⟨state, ran, seen⟩ := Option.map_eq_some_iff.mp
    (show (machine.run machine.init actions).map (fun state => (state.watch, state.mutex)) =
      some (.waiting, some (.inc 0)) by decide)
  obtain ⟨waits, held⟩ := Prod.mk.inj seen
  have unjoined : ¬ state.Joined := by
    rintro ⟨returned, -⟩
    rw [waits] at returned
    contradiction
  exact ⟨actions, state, ran, waits, held, watch_count_completes.1 state ⟨actions, ran⟩ unjoined,
    watch_count_completes.2 actions state ran⟩

end SysProg.Threading.WatchCount
