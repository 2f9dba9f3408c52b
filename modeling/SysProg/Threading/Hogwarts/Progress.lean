import SysProg.Threading.Hogwarts.Completion

namespace SysProg.Threading.Hogwarts

open Function

variable {totalTasks : Int} {state after : State} {i : Elf} {printfCancels : Bool}

/-! ## Who can be blocked -/

/-- Dobby has created the elf. -/
def DobbyPhase.created : DobbyPhase → Elf → Prop
  | .creating i, j => j < i
  | _, _ => True

/-- The elf has been cancelled and has at most its cleanup left to run. -/
def ElfPhase.ended : ElfPhase → Bool
  | .cleaning | .dead => true
  | _ => false

structure Live (state : State) : Prop where
  holder : ∀ i, state.mutex = some i → (state.elves i).critical = true
  born : ∀ i, state.dobby.created i → state.elves i ≠ .unborn
  pending : ∀ i, state.dobby = .joining i → state.cancelled i = true
  ended : ∀ i, (state.elves i).ended = true → state.cancelled i = true

theorem live_start (totalTasks : Int) : Live (start totalTasks) where
  holder := by simp [start]
  born := by simp [start, DobbyPhase.created]
  pending := by simp [start]
  ended := by simp [start, ElfPhase.ended]

/-- What a step of an elf changes that others can be blocked on. -/
structure Moves (state after : State) (i : Elf) (phase : ElfPhase) : Prop where
  moved : after.elves = update state.elves i phase
  dobby : after.dobby = state.dobby
  cancelled : after.cancelled = state.cancelled
  born : phase ≠ .unborn
  mutex : after.mutex = none ∨ after.mutex = some i ∧ phase.critical = true ∨
    after.mutex = state.mutex ∧ ((state.elves i).critical = true → phase.critical = true)
  ended : phase.ended = true → (state.elves i).ended = true ∨ state.cancelled i = true

theorem elfStep_moves (running : after.process = .running) (moved : elfStep state i = some after) :
    ∃ phase, Moves state after i phase := by
  simp only [elfStep] at moved
  cases phase : state.elves i <;> simp only [phase] at moved <;> try split at moved
  all_goals try contradiction
  all_goals cases moved
  all_goals try contradiction
  all_goals
    exact ⟨_, rfl, rfl, rfl, by simp, by simp [phase, ElfPhase.critical], by simp [phase, ElfPhase.ended]⟩

theorem cancelStep_moves (moved : cancelStep printfCancels state i = some after) :
    ∃ phase, Moves state after i phase := by
  simp only [cancelStep] at moved
  split at moved
  · rename_i cancelled
    split at moved
    · rename_i phase goes
      cases moved
      refine ⟨phase, rfl, rfl, rfl, ?_, .inr (.inr ⟨rfl, ?_⟩), fun _ => .inr cancelled⟩
      · cases was : state.elves i <;> simp [was, ElfPhase.cancelled] at goes <;> simp [← goes]
      · cases was : state.elves i <;> simp [was, ElfPhase.cancelled, ElfPhase.critical] at goes ⊢ <;>
          simp [← goes]
    · contradiction
  · contradiction

theorem Live.elf (live : Live state) {phase : ElfPhase} (step : Moves state after i phase) : Live after where
  holder := by
    intro j holds
    rw [step.moved]
    rcases step.mutex with free | ⟨mine, critical⟩ | ⟨same, stays⟩
    · rw [free] at holds
      contradiction
    · rw [mine] at holds
      cases holds
      rw [update_self]
      exact critical
    · have held := live.holder j (same ▸ holds)
      by_cases here : j = i
      · subst here
        rw [update_self]
        exact stays held
      · rw [update_of_ne here]
        exact held
  born := by
    rw [step.moved, step.dobby]
    intro j created
    by_cases here : j = i
    · subst here
      rw [update_self]
      exact step.born
    · rw [update_of_ne here]
      exact live.born j created
  pending := by
    rw [step.dobby, step.cancelled]
    exact live.pending
  ended := by
    rw [step.moved, step.cancelled]
    intro j gone
    by_cases here : j = i
    · subst here
      rw [update_self] at gone
      rcases step.ended gone with before | cancelled
      · exact live.ended j before
      · exact cancelled
    · rw [update_of_ne here] at gone
      exact live.ended j gone

theorem Live.dobbyStep (live : Live state) (inv : Handoff totalTasks state)
    (moved : dobbyStep state = some after) : Live after := by
  have born := live.born
  have fits := inv.dobby
  simp only [Hogwarts.dobbyStep] at moved
  cases phase : state.dobby with
  | creating i =>
      simp only [phase] at moved
      rw [phase] at born
      split at moved
      · rename_i bound
        cases moved
        have unborn : state.elves ⟨i, bound⟩ = .unborn := by
          rw [phase] at fits
          exact fits ⟨i, bound⟩ (Nat.le_refl i)
        refine ⟨?_, ?_, by simp, ?_⟩
        · intro j holds
          have critical := live.holder j holds
          have other : j ≠ ⟨i, bound⟩ := by
            rintro rfl
            simp [unborn, ElfPhase.critical] at critical
          simpa [update_of_ne other] using critical
        · intro j created
          by_cases here : j = ⟨i, bound⟩
          · simp [here]
          · have lower : (j : Nat) < i + 1 := created
            have older := born j (lt_of_le_of_ne (Nat.le_of_lt_succ lower) fun same => here (Fin.ext same))
            simpa [update_of_ne here] using older
        · intro j gone
          have other : j ≠ ⟨i, bound⟩ := by
            rintro rfl
            simp [ElfPhase.ended] at gone
          simp only [update_of_ne other] at gone
          exact live.ended j gone
      · cases moved
        refine ⟨live.holder, fun j _ => born j (show (j : Nat) < i by omega), by simp, live.ended⟩
  | cancelling i =>
      simp only [phase] at moved
      rw [phase] at born
      split at moved
      · rename_i bound
        cases moved
        refine ⟨live.holder, born, ?_, ?_⟩
        · intro j joining
          cases joining
          exact update_self _ _ _
        · intro j gone
          by_cases here : j = ⟨i, bound⟩
          · subst here
            exact update_self _ _ _
          · simp only [update_of_ne here]
            exact live.ended j gone
      · cases moved
        exact ⟨live.holder, born, by simp, live.ended⟩
  | finished => simp [phase] at moved
  | waiting | checking | posting | signalling | joining =>
      simp only [phase] at moved
      rw [phase] at born
      split at moved <;> try contradiction
      all_goals
        cases moved
        exact ⟨live.holder, born, by simp, live.ended⟩
  | linking | activating =>
      simp only [phase] at moved
      rw [phase] at born
      cases moved
      exact ⟨live.holder, born, by simp, live.ended⟩

theorem live_of_reachable (nonneg : 0 ≤ totalTasks) (reached : (machine printfCancels totalTasks).Reachable state) :
    Live state := by
  suffices both : Handoff totalTasks state ∧ Live state from both.2
  apply reached.invariant fun state => Handoff totalTasks state ∧ Live state
  · exact ⟨handoff_start nonneg, live_start totalTasks⟩
  · intro before after action holds moved
    obtain ⟨inv, live⟩ := holds
    refine ⟨inv.next moved, ?_⟩
    have running := (inv.next moved).running
    simp only [machine, next, inv.running] at moved
    cases action with
    | dobby => exact live.dobbyStep inv moved
    | elf i =>
        obtain ⟨phase, step⟩ := elfStep_moves running moved
        exact live.elf step
    | cancel i =>
        obtain ⟨phase, step⟩ := cancelStep_moves moved
        exact live.elf step

/-! ## Deadlocks -/

/-- Dobby has not finished, and neither he nor any elf can take a step. -/
def Deadlocked (printfCancels : Bool) (totalTasks : Int) (state : State) : Prop :=
  state.process = .running ∧ state.dobby ≠ .finished ∧ (machine printfCancels totalTasks).Stuck state

/-- An elf that cannot take a step waits for a permit that is not there, waits
for the mutex, or is not running. -/
theorem elfStep_eq_none (blocked : elfStep state i = none) :
    state.elves i = .waiting ∧ state.fullList = 0 ∨ state.elves i = .locking ∧ state.mutex ≠ none ∨
      state.elves i = .unborn ∨ state.elves i = .dead := by
  simp only [elfStep] at blocked
  cases phase : state.elves i <;> simp only [phase] at blocked <;> try split at blocked
  all_goals try contradiction
  all_goals simp_all

theorem dobbyStep_eq_none (blocked : dobbyStep state = none) :
    state.dobby = .waiting ∧ state.emptyList = 0 ∨ (∃ i, state.dobby = .joining i ∧ state.elves i ≠ .dead) ∨
      state.dobby = .finished := by
  simp only [dobbyStep] at blocked
  cases phase : state.dobby <;> simp only [phase] at blocked <;> try split at blocked
  all_goals try contradiction
  all_goals simp_all

/-- When nobody can take a step, no elf waits for the mutex. -/
theorem Live.resting (live : Live state) (created : ∀ i, state.dobby.created i)
    (blocked : ∀ i, elfStep state i = none) :
    ∀ i, state.elves i = .waiting ∧ state.fullList = 0 ∨ state.elves i = .dead := by
  intro i
  rcases elfStep_eq_none (blocked i) with waiting | ⟨-, held⟩ | unborn | dead
  · exact .inl waiting
  · obtain ⟨j, holds⟩ := Option.ne_none_iff_exists'.mp held
    have critical := live.holder j holds
    rcases elfStep_eq_none (blocked j) with ⟨phase, -⟩ | ⟨phase, -⟩ | phase | phase <;>
      simp [phase, ElfPhase.critical] at critical
  · exact absurd unborn (live.born i (created i))
  · exact .inr dead

theorem not_deadlocked (nonneg : 0 ≤ totalTasks) (reached : (machine printfCancels totalTasks).Reachable state) :
    ¬ Deadlocked printfCancels totalTasks state := by
  rintro ⟨running, unfinished, stuck⟩
  have inv := handoff_of_reachable nonneg reached
  have live := live_of_reachable nonneg reached
  have dobby := stuck .dobby
  have elves := fun i => stuck (.elf i)
  have cancels := fun i => stuck (.cancel i)
  simp only [machine, next, running] at dobby elves cancels
  rcases dobbyStep_eq_none dobby with ⟨waiting, empty⟩ | ⟨i, joining, alive⟩ | finished
  · have idle := live.resting (by simp [waiting, DobbyPhase.created]) elves
    have present : ∀ i, state.elves i = .waiting ∧ state.fullList = 0 := by
      intro i
      rcases idle i with rests | dead
      · exact rests
      · have left := inv.cancelled i (live.ended i (by simp [dead, ElfPhase.ended]))
        simp [waiting, DobbyPhase.left] at left
    have permits : tally ElfPhase.permit state.elves = 0 :=
      tally_eq_zero.mpr fun i => by simp [(present i).1, ElfPhase.permit, ElfPhase.untaken]
    have wakes : tally ElfPhase.wake state.elves = 0 :=
      tally_eq_zero.mpr fun i => by simp [(present i).1, ElfPhase.wake]
    have tests : tally ElfPhase.test state.elves = 0 :=
      tally_eq_zero.mpr fun i => by simp [(present i).1, ElfPhase.test]
    have active := inv.active
    have token := inv.token
    simp [waiting, DobbyPhase.owed, permits, (present 0).2] at active
    simp [waiting, DobbyPhase.alone, DobbyPhase.left, empty, wakes, tests, active] at token
  · rcases live.resting (by simp [joining, DobbyPhase.created]) elves i with ⟨rests, -⟩ | dead
    · have blocked := cancels i
      simp [cancelStep, live.pending i joining, rests, ElfPhase.cancelled] at blocked
    · exact alive dead
  · exact unfinished finished

/-- Of a negative total Dobby posts no task and sets `active_tasks` below zero,
so that nobody will wake him. -/
theorem reachable_deadlock (negative : totalTasks < 0) :
    ∃ state, (machine printfCancels totalTasks).Reachable state ∧ Deadlocked printfCancels totalTasks state := by
  have few : ¬ 10 ≤ totalTasks := by omega
  have work : totalTasks ≠ 0 := by omega
  have empty : ¬ 0 < totalTasks := by omega
  have arrived : (machine printfCancels totalTasks).Reachable
      { resting 0 0 [] [] with emptyList := 0, activeTasks := totalTasks } := by
    apply (reachable_resting printfCancels totalTasks).run (List.replicate 5 .dobby)
    simp [List.replicate, Machine.run, machine, next, dobbyStep, resting, few, work, empty]
  refine ⟨_, arrived, rfl, by simp [resting], ?_⟩
  intro action
  cases action <;> rfl

/-- Dobby and the elves never deadlock just when the total is not negative. -/
theorem deadlock_free_iff (printfCancels : Bool) (totalTasks : Int) :
    (∀ state, (machine printfCancels totalTasks).Reachable state → ¬ Deadlocked printfCancels totalTasks state) ↔
      0 ≤ totalTasks := by
  constructor
  · intro free
    by_contra negative
    obtain ⟨state, reached, deadlocked⟩ := reachable_deadlock (not_le.mp negative)
    exact free state reached deadlocked
  · intro nonneg state reached
    exact not_deadlocked nonneg reached

/-- With `-1` as the argument everybody waits for a semaphore. -/
theorem minus_one_deadlocks :
    ¬ ∀ state, (machine false (-1)).Reachable state → ¬ Deadlocked false (-1) state := by
  intro free
  obtain ⟨state, reached, deadlocked⟩ := reachable_deadlock (by decide : (-1 : Int) < 0)
  exact free state reached deadlocked

end SysProg.Threading.Hogwarts
