import SysProg.Threading.TwoCounters.Turns

namespace SysProg.Threading.TwoCounters

/-! ## The mutex of a thread that has returned -/

/-- No thread that has returned has the mutex. -/
structure State.Released (state : State) : Prop where
  first : state.first = .returned → state.mutex ≠ some .first
  second : state.second = .returned → state.mutex ≠ some .second

/-- The step is the test of `funcCount2` that finds `COUNT_DONE`. -/
def State.Leaves (thresholds : Thresholds) (state : State) (action : Action) : Prop :=
  action = .step .second ∧ state.second = .deciding ∧ state.count = thresholds.done

variable {thresholds : Thresholds} {state after final : State} {action : Action} {actions : List Action}

/-- Only the second thread can have the mutex, and it does. -/
theorem State.Turns.released_iff (inv : state.Turns thresholds) : state.Released ↔ state.second ≠ .returned := by
  constructor
  · intro released returned
    exact released.second returned (inv.secondOwns.mp (by rw [returned]; rfl))
  · intro running
    refine ⟨fun returned owner => ?_, fun returned => absurd returned running⟩
    have inside := inv.firstOwns.mpr owner
    rw [returned] at inside
    contradiction

theorem funcCount1_second (moved : funcCount1 thresholds state = some after) :
    after.second = .returned ↔ state.second = .returned := by
  simp only [funcCount1] at moved
  cases phase : state.first <;> simp only [phase] at moved
  case locking | woken | testing =>
      split at moved <;> cases moved
      all_goals rfl
  case signalling | finishing =>
      cases moved
      by_cases waiting : state.second = .waiting
      · simp [waiting]
      · simp [waiting]
  all_goals cases moved
  all_goals rfl

theorem spuriousStep_second {thread : Thread} (moved : spuriousStep state thread = some after) :
    after.second = .returned ↔ state.second = .returned := by
  cases thread with
  | first =>
      simp only [spuriousStep] at moved
      split at moved <;> cases moved
      rfl
  | second =>
      simp only [spuriousStep] at moved
      split at moved <;> try contradiction
      rename_i waiting
      cases moved
      simp [waiting]

/-- The second thread gets out of its loop only where it finds `COUNT_DONE`. -/
theorem State.Turns.funcCount2_returned (inv : state.Turns thresholds)
    (moved : TwoCounters.funcCount2 thresholds state = some after) :
    after.second = .returned ↔ state.second = .deciding ∧ state.count = thresholds.done := by
  have unmarked := inv.unmarked
  simp only [TwoCounters.funcCount2] at moved
  cases phase : state.second <;> simp only [phase] at moved
  case locking | woken | testing =>
      split at moved <;> cases moved
      all_goals simp
  case leaving =>
      cases moved
      simp [unmarked]
  case checking =>
      cases moved
      simp only [reduceCtorEq, false_and, iff_false]
      split <;> simp
  case deciding =>
      cases moved
      by_cases finished : state.count = thresholds.done
      · simp [finished]
      · simp [finished]
  all_goals cases moved
  all_goals simp

theorem State.Turns.next_returned (inv : state.Turns thresholds)
    (moved : TwoCounters.next thresholds state action = some after) :
    after.second = .returned ↔ state.second = .returned ∨ state.Leaves thresholds action := by
  unfold State.Leaves
  cases action with
  | step thread =>
      cases thread with
      | first => simp [funcCount1_second moved]
      | second =>
          have running : state.second ≠ .returned := by
            intro returned
            simp only [TwoCounters.next, threadStep, TwoCounters.funcCount2, returned] at moved
            contradiction
          simp [inv.funcCount2_returned moved, running]
  | spurious thread => simp [spuriousStep_second moved]

theorem State.Turns.run_returned (inv : state.Turns thresholds)
    (ran : (machine thresholds).run state actions = some final) :
    final.second ≠ .returned ↔ state.second ≠ .returned ∧
      (machine thresholds).Along (fun state action => ¬ state.Leaves thresholds action) state actions := by
  apply Machine.run_along_iff (State.Turns thresholds) (fun state => state.second ≠ .returned) ?_ inv ran
  intro before after action inv moved
  exact ⟨inv.next moved, (inv.next_returned moved).not.trans not_or⟩

/-- No thread returns with the mutex if and only if `funcCount2` never finds `COUNT_DONE`. -/
theorem returned_released_iff (thresholds : Thresholds) (actions : List Action) (state : State)
    (ran : (machine thresholds).run (machine thresholds).init actions = some state) :
    state.Released ↔
      (machine thresholds).Along (fun state action => ¬ state.Leaves thresholds action) (machine thresholds).init actions := by
  have inv : state.Turns thresholds := turns_of_reachable ⟨actions, ran⟩
  have start : (machine thresholds).init.Turns thresholds := turns_start thresholds
  rw [inv.released_iff, start.run_returned ran]
  exact ⟨And.right, fun along => ⟨SecondPhase.noConfusion, along⟩⟩

/-- The two threads take turns until the first has counted to `COUNT_DONE`. -/
def countingTurns : List Action :=
  List.replicate 2 (.step .second) ++ List.replicate 27 (.step .first) ++ List.replicate 39 (.step .second) ++
    List.replicate 25 (.step .first)

theorem returned_released_first : ∃ state, (machine .ofSource).Reachable state ∧ state.first = .returned ∧
    state.Released := by
  obtain ⟨state, ran, observed⟩ := Option.map_eq_some_iff.mp
    (show ((machine .ofSource).run (machine .ofSource).init countingTurns).map
        (fun state => (state.first, state.second)) = some (.returned, .woken) by decide +kernel)
  obtain ⟨returned, woken⟩ := Prod.mk.inj observed
  have start : (machine .ofSource).init.Turns .ofSource := turns_start .ofSource
  have along := ((start.run_returned ran).mp (by simp [woken])).2
  exact ⟨state, ⟨_, ran⟩, returned, (returned_released_iff .ofSource countingTurns state ran).mpr along⟩

/-- The second thread returns with the mutex after the first has counted to `COUNT_DONE`. -/
theorem second_returns_locked : ¬ ∀ (thresholds : Thresholds) (state : State),
    (machine thresholds).Reachable state → state.Released := by
  intro released
  obtain ⟨state, reached, observed⟩ := Machine.exists_reachable (machine .ofSource)
    (fun state => (state.second, state.mutex)) (.returned, some .second)
    (countingTurns ++ List.replicate 3 (.step .second)) (by decide +kernel)
  obtain ⟨returned, owner⟩ := Prod.mk.inj observed
  exact (released .ofSource state reached).second returned owner

end SysProg.Threading.TwoCounters
