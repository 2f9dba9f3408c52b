import SysProg.Threading.RingBuffer.Wakeup

namespace SysProg.Threading.RingBuffer

open Function

variable {ι : Type} [Fintype ι] [DecidableEq ι] {role : ι → Role} {n : ι → Int} {state after : State ι} {who : ι}

/-! ## What one step does to the threads and the mutex -/

/-- The steps that a thread has still to take. -/
def Thread.rank (thread : Thread) : Nat :=
  let left := 12 * (thread.n.toNat - thread.i)
  match thread.phase with
  | .looping => left + 1
  | .locking | .woken => left
  | .testing => left - 1
  | .waiting | .accessing => left - 2
  | .advancing => left - 3
  | .counting => left - 4
  | .printing => left - 5
  | .signalling => left - 6
  | .unlocking => left - 9
  | .sleeping => left - 10
  | .returned => 0

/-- Only the thread moves, and it keeps the mutex, takes it or gives it back. -/
structure Moves (state after : State ι) (who : ι) (thread : Thread) : Prop where
  threads : after.threads = update state.threads who thread
  owner : after.mutex = none ∨ after.mutex = some who ∧ thread.critical = true ∨
    after.mutex = state.mutex ∧ thread.critical = (state.threads who).critical
  sleeps : thread.phase = .sleeping → thread.role = .producer

omit [Fintype ι] in
theorem producerStep_moves (role : (state.threads who).role = .producer) (inLoop : (state.threads who).InLoop)
    (moved : producerStep state who = some after) :
    ∃ thread, Moves state after who thread ∧ thread.rank + 1 ≤ (state.threads who).rank := by
  simp only [producerStep, lock] at moved
  cases phase : (state.threads who).phase
  all_goals simp only [phase, Thread.InLoop] at moved inLoop
  case waiting | signalling | returned => contradiction
  case locking | woken =>
      split at moved <;> cases moved
      refine ⟨_, ⟨rfl, .inr (.inl ⟨rfl, rfl⟩), fun _ => role⟩, ?_⟩
      simp only [Thread.rank, phase]
      omega
  case looping =>
      cases moved
      refine ⟨_, ⟨rfl, .inr (.inr ⟨rfl, ?_⟩), fun _ => role⟩, ?_⟩
      · by_cases more : ((state.threads who).i : Int) < (state.threads who).n
        · simp [more, Thread.critical, phase]
        · simp [more, Thread.critical, phase]
      · by_cases more : ((state.threads who).i : Int) < (state.threads who).n
        · simp only [more, Thread.rank, phase, if_true]
          omega
        · simp only [more, Thread.rank, phase, if_false]
          omega
  case testing =>
      split at moved
      · cases moved
        refine ⟨_, ⟨rfl, .inl rfl, fun _ => role⟩, ?_⟩
        simp only [Thread.rank, phase]
        omega
      · cases moved
        refine ⟨_, ⟨rfl, .inr (.inr ⟨rfl, by simp [Thread.critical, phase]⟩), fun _ => role⟩, ?_⟩
        simp only [Thread.rank, phase]
        omega
  case unlocking =>
      cases moved
      refine ⟨_, ⟨rfl, .inl rfl, fun _ => role⟩, ?_⟩
      simp only [Thread.rank, phase]
      omega
  all_goals
    cases moved
    refine ⟨_, ⟨rfl, .inr (.inr ⟨rfl, by simp [Thread.critical, phase]⟩), fun _ => role⟩, ?_⟩
    simp only [Thread.rank, phase]
    omega

omit [Fintype ι] in
theorem consumerStep_moves (inLoop : (state.threads who).InLoop) (moved : consumerStep state who = some after) :
    ∃ thread, Moves state after who thread ∧ thread.rank + 1 ≤ (state.threads who).rank := by
  simp only [consumerStep, lock] at moved
  cases phase : (state.threads who).phase
  all_goals simp only [phase, Thread.InLoop] at moved inLoop
  case waiting | signalling | sleeping | returned => contradiction
  case locking | woken =>
      split at moved <;> cases moved
      refine ⟨_, ⟨rfl, .inr (.inl ⟨rfl, rfl⟩), by simp⟩, ?_⟩
      simp only [Thread.rank, phase]
      omega
  case looping =>
      cases moved
      refine ⟨_, ⟨rfl, .inr (.inr ⟨rfl, ?_⟩), ?_⟩, ?_⟩
      · by_cases more : ((state.threads who).i : Int) < (state.threads who).n
        · simp [more, Thread.critical, phase]
        · simp [more, Thread.critical, phase]
      · by_cases more : ((state.threads who).i : Int) < (state.threads who).n
        · simp [more]
        · simp [more]
      · by_cases more : ((state.threads who).i : Int) < (state.threads who).n
        · simp only [more, Thread.rank, phase, if_true]
          omega
        · simp only [more, Thread.rank, phase, if_false]
          omega
  case testing =>
      split at moved
      · cases moved
        refine ⟨_, ⟨rfl, .inl rfl, by simp⟩, ?_⟩
        simp only [Thread.rank, phase]
        omega
      · cases moved
        refine ⟨_, ⟨rfl, .inr (.inr ⟨rfl, by simp [Thread.critical, phase]⟩), by simp⟩, ?_⟩
        simp only [Thread.rank, phase]
        omega
  case unlocking =>
      cases moved
      refine ⟨_, ⟨rfl, .inl rfl, by simp⟩, ?_⟩
      simp only [Thread.rank, phase]
      omega
  all_goals
    cases moved
    refine ⟨_, ⟨rfl, .inr (.inr ⟨rfl, by simp [Thread.critical, phase]⟩), by simp⟩, ?_⟩
    simp only [Thread.rank, phase]
    omega

theorem step_moves (inLoop : (state.threads who).InLoop) (moved : next state (.step who) = some after) :
    ∃ thread, Moves state after who thread ∧ thread.rank + 1 ≤ (state.threads who).rank := by
  simp only [next] at moved
  cases role : (state.threads who).role with
  | producer =>
      rw [role] at moved
      exact producerStep_moves role inLoop moved
  | consumer =>
      rw [role] at moved
      exact consumerStep_moves inLoop moved

omit [Fintype ι] in
theorem go_moves (state : State ι) (who : ι) (phase : Phase)
    (same : Thread.critical { state.threads who with phase } = (state.threads who).critical) (awake : phase ≠ .sleeping) :
    Moves state (state.go who phase) who { state.threads who with phase } :=
  ⟨rfl, .inr (.inr ⟨rfl, same⟩), fun sleeping => absurd sleeping awake⟩

/-! ## The mutex has an owner that can go on -/

/-- A locked mutex is held by a thread inside its critical section, and only producers sleep. -/
structure Owned (state : State ι) : Prop where
  holds : ∀ who, state.mutex = some who → (state.threads who).critical = true
  sleeps : ∀ who, (state.threads who).phase = .sleeping → (state.threads who).role = .producer

omit [Fintype ι] in
theorem Owned.move (owned : Owned state) {thread : Thread} (moves : Moves state after who thread) : Owned after := by
  obtain ⟨threads, owner, sleeps⟩ := moves
  constructor
  · intro other held
    rw [threads]
    by_cases same : other = who
    · rw [same, update_self]
      rcases owner with free | ⟨-, critical⟩ | ⟨kept, critical⟩
      · rw [free] at held
        contradiction
      · exact critical
      · rw [critical]
        exact owned.holds who (by rw [← kept, held, same])
    · rw [update_of_ne same]
      rcases owner with free | ⟨mine, -⟩ | ⟨kept, -⟩
      · rw [free] at held
        contradiction
      · rw [mine] at held
        exact absurd (Option.some.inj held).symm same
      · exact owned.holds other (kept ▸ held)
  · rw [threads]
    exact (forall_update_iff state.threads fun _ thread => thread.phase = .sleeping → thread.role = .producer).mpr
      ⟨sleeps, fun other _ => owned.sleeps other⟩

theorem Owned.next (owned : Owned state) (progress : Progress state) {action : Action ι}
    (moved : next state action = some after) : Owned after := by
  cases action with
  | step who =>
      obtain ⟨thread, moves, -⟩ := step_moves (progress.inLoop who) moved
      exact owned.move moves
  | signal who waiter =>
      obtain ⟨phase, outcome⟩ := signalStep_cases moved
      have signalled := owned.move (go_moves state who .unlocking (by simp [Thread.critical, phase]) (by simp))
      rcases outcome with ⟨woken, different, waits, rfl⟩ | ⟨-, rfl⟩
      · refine signalled.move (go_moves _ woken .woken ?_ (by simp))
        rw [go_threads_of_ne different]
        simp [Thread.critical, waits.2]
      · exact signalled
  | spurious waiter =>
      simp only [RingBuffer.next] at moved
      split at moved <;> cases moved
      rename_i waiting
      exact owned.move (go_moves state waiter .woken (by simp [Thread.critical, waiting]) (by simp))

theorem owned_of_reachable (reached : (machine role n).Reachable state) : Owned state := by
  have both := reached.invariant (fun state => Progress state ∧ Owned state)
    ⟨progress_start role n, ⟨fun who held => absurd held nofun, fun who sleeping => absurd sleeping nofun⟩⟩
    fun inv moved => ⟨inv.1.next moved, inv.2.next inv.1 moved⟩
  exact both.2

/-! ## Some thread can go on -/

theorem step_enabled (free : state.mutex = none ∨ (state.threads who).critical = true)
    (awake : (state.threads who).phase ≠ .waiting) (running : (state.threads who).phase ≠ .returned)
    (quiet : (state.threads who).phase ≠ .signalling) (roles : (state.threads who).phase = .sleeping →
      (state.threads who).role = .producer) : ∃ after, next state (.step who) = some after := by
  simp only [next, producerStep, consumerStep, lock]
  cases phase : (state.threads who).phase
  case waiting => exact absurd phase awake
  case returned => exact absurd phase running
  case signalling => exact absurd phase quiet
  case sleeping =>
      rw [roles phase]
      exact ⟨_, rfl⟩
  case locking | woken =>
      have unlocked : state.mutex = none := free.resolve_right (by simp [Thread.critical, phase])
      cases (state.threads who).role with
      | producer | consumer =>
          simp only [unlocked, if_true]
          exact ⟨_, rfl⟩
  case testing =>
      cases (state.threads who).role with
      | producer =>
          by_cases full : state.count = bufferMax
          · simp only [full, if_true]
            exact ⟨_, rfl⟩
          · simp only [full, if_false]
            exact ⟨_, rfl⟩
      | consumer =>
          by_cases empty : state.count = 0
          · simp only [empty, if_true]
            exact ⟨_, rfl⟩
          · simp only [empty, if_false]
            exact ⟨_, rfl⟩
  all_goals
    cases (state.threads who).role with
    | producer | consumer => exact ⟨_, rfl⟩

theorem signal_enabled (phase : (state.threads who).phase = .signalling) :
    ∃ waiter after, next state (.signal who waiter) = some after := by
  by_cases waits : ∃ other, (state.threads other).waitsFor (state.threads who).role
  · obtain ⟨other, waiting⟩ := waits
    refine ⟨some other, (state.go who .unlocking).go other .woken, ?_⟩
    simp only [next, signalStep, phase, if_true, waiting]
  · refine ⟨none, state.go who .unlocking, ?_⟩
    simp only [next, signalStep, phase, if_true, not_exists.mp waits, not_false_eq_true, implies_true]

/-- The step is one of the thread's own. -/
def Action.own : Action ι → Bool
  | .step _ | .signal _ _ => true
  | .spurious _ => false

/-- The consumers want no more items than are produced, and what they leave fits in the buffer. -/
def Fits (role : ι → Role) (n : ι → Int) : Prop :=
  totalItems role n .consumer ≤ totalItems role n .producer ∧
    totalItems role n .producer ≤ totalItems role n .consumer + bufferMax

def AllReturned (state : State ι) : Prop := ∀ who, (state.threads who).phase = .returned

theorem Stalled.all_returned (stalled : Stalled state) (reached : (machine role n).Reachable state) (fits : Fits role n) :
    AllReturned state := by
  intro who
  by_contra unfinished
  have waiting := stalled who unfinished
  have short := short_of_waiting reached waiting
  have nothing := stalled.nothing reached waiting
  have count := (ring_of_reachable reached).count
  have progress := progress_of_reachable reached
  rw [(stalled.idle .producer).2.2, (stalled.idle .consumer).2.2, progress.puts, progress.gets] at count
  obtain ⟨wanted, room⟩ := fits
  cases kind : (state.threads who).role with
  | producer =>
      have others := all_of_returned reached .consumer fun other consumer =>
        stalled.others_returned reached waiting other (by simp [consumer, kind])
      simp only [kind, slack] at short nothing
      omega
  | consumer =>
      have others := all_of_returned reached .producer fun other producer =>
        stalled.others_returned reached waiting other (by simp [producer, kind])
      simp only [kind, slack] at short nothing
      omega

theorem goes_on (reached : (machine role n).Reachable state) (fits : Fits role n) (unfinished : ¬ AllReturned state) :
    ∃ action after, action.own = true ∧ next state action = some after := by
  have owned := owned_of_reachable reached
  have step : ∀ who, state.mutex = none ∨ (state.threads who).critical = true → (state.threads who).phase ≠ .waiting →
      (state.threads who).phase ≠ .returned → ∃ action after, Action.own action = true ∧ next state action = some after := by
    intro who free awake running
    by_cases signalling : (state.threads who).phase = .signalling
    · obtain ⟨waiter, after, moved⟩ := signal_enabled signalling
      exact ⟨.signal who waiter, after, rfl, moved⟩
    · obtain ⟨after, moved⟩ := step_enabled free awake running signalling (owned.sleeps who)
      exact ⟨.step who, after, rfl, moved⟩
  cases mutex : state.mutex with
  | some holder =>
      have critical := owned.holds holder mutex
      refine step holder (.inr critical) ?_ ?_
      · intro waiting
        simp [Thread.critical, waiting] at critical
      · intro returned
        simp [Thread.critical, returned] at critical
  | none =>
      by_cases stalled : Stalled state
      · exact absurd (stalled.all_returned reached fits) unfinished
      · obtain ⟨who, active⟩ := not_forall.mp stalled
        obtain ⟨running, awake⟩ := Classical.not_imp.mp active
        exact step who (.inl mutex) awake running

/-! ## Every run ends -/

def State.rank (state : State ι) : Nat := tally Thread.rank state.threads

/-- A spurious wake-up sends its thread around the wait loop once more. -/
def Action.gain : Action ι → Nat
  | .spurious _ => 3
  | .step _ | .signal _ _ => 0

theorem Moves.rank {thread : Thread} (moves : Moves state after who thread) :
    after.rank + (state.threads who).rank = state.rank + thread.rank := by
  rw [State.rank, moves.threads]
  exact tally_update Thread.rank state.threads who thread

/-- Waking a thread costs it two steps more. -/
theorem wakes_rank (waiting : (state.threads who).phase = .waiting) : (state.go who .woken).rank ≤ state.rank + 2 := by
  have moved := (go_moves state who .woken (by simp [Thread.critical, waiting]) nofun).rank
  simp only [Thread.rank, waiting] at moved
  omega

theorem next_rank (progress : Progress state) {action : Action ι} (moved : next state action = some after) :
    after.rank + 1 ≤ state.rank + action.gain := by
  cases action with
  | step who =>
      obtain ⟨thread, moves, less⟩ := step_moves (progress.inLoop who) moved
      have changed := moves.rank
      omega
  | signal who waiter =>
      obtain ⟨phase, outcome⟩ := signalStep_cases moved
      have inLoop := progress.inLoop who
      have signalled := (go_moves state who .unlocking (by simp [Thread.critical, phase]) nofun).rank
      simp only [Thread.InLoop, phase] at inLoop
      simp only [Thread.rank, phase] at signalled
      rcases outcome with ⟨woken, different, waits, rfl⟩ | ⟨-, rfl⟩
      · have more : ((state.go who .unlocking).go woken .woken).rank ≤ (state.go who .unlocking).rank + 2 := by
          apply wakes_rank
          rw [go_threads_of_ne different]
          exact waits.2
        omega
      · omega
  | spurious waiter =>
      simp only [next] at moved
      split at moved <;> cases moved
      rename_i waiting
      have more := wakes_rank waiting
      simp only [Action.gain]
      omega

omit [DecidableEq ι] in
/-- The steps of the threads, when no wake-up is needed. -/
theorem rank_start (role : ι → Role) (n : ι → Int) :
    (start role n).rank = 12 * (∑ who, (n who).toNat) + Fintype.card ι := by
  have each : ∀ who, Thread.rank ((start role n).threads who) = 12 * (n who).toNat + 1 := fun who => rfl
  simp only [State.rank, tally, each, Finset.sum_add_distrib, ← Finset.mul_sum, Finset.sum_const, Finset.card_univ,
    smul_eq_mul, mul_one]

/-! ## When all threads return -/

theorem AllReturned.free (returned : AllReturned state) (reached : (machine role n).Reachable state) :
    state.mutex = none := by
  cases mutex : state.mutex with
  | none => rfl
  | some holder =>
      have critical := (owned_of_reachable reached).holds holder mutex
      simp [Thread.critical, returned holder] at critical

theorem AllReturned.lengths (returned : AllReturned state) (reached : (machine role n).Reachable state) :
    state.produced.length = totalItems role n .producer ∧ state.consumed.length = totalItems role n .consumer := by
  have progress := progress_of_reachable reached
  rw [progress.puts, progress.gets]
  exact ⟨all_of_returned reached .producer fun who _ => returned who, all_of_returned reached .consumer fun who _ => returned who⟩

theorem AllReturned.fits (returned : AllReturned state) (reached : (machine role n).Reachable state) : Fits role n := by
  obtain ⟨lower, upper, -, split⟩ := (ring_of_reachable reached).settled (returned.free reached)
  obtain ⟨produced, consumed⟩ := returned.lengths reached
  have length := congrArg List.length split
  rw [List.length_append, State.contents, List.length_map, List.length_range, produced, consumed] at length
  constructor <;> omega

theorem exists_all_returned (progress : ∀ state, (machine role n).Reachable state → ¬ AllReturned state →
    ∃ action after, Action.own action = true ∧ (machine role n).next state action = some after) :
    ∃ state, (machine role n).Reachable state ∧ AllReturned state := by
  refine Machine.reachable_init.exists_done AllReturned State.rank fun before reached unfinished => ?_
  obtain ⟨action, after, own, moved⟩ := progress before reached unfinished
  have less := next_rank (progress_of_reachable reached) moved
  have free : action.gain = 0 := by
    cases action with
    | step | signal => rfl
    | spurious => contradiction
  exact ⟨action, after, moved, by omega⟩

/-- Whatever the numbers of threads and of rounds: in every interleaving a thread can go on until all have
returned if and only if no more items are wanted than are produced, and those that are left fit in the
buffer. A run has twelve steps at most for each round, and one for each thread, not counting
three for each spurious wake-up. When all have returned, the first items have been
consumed in the order in which they were produced, and the others are in the buffer. -/
theorem all_return_iff (role : ι → Role) (n : ι → Int) :
    ((∀ state, (machine role n).Reachable state → ¬ AllReturned state →
      ∃ action after, Action.own action = true ∧ (machine role n).next state action = some after) ↔ Fits role n) ∧
    (∀ actions state, (machine role n).run (machine role n).init actions = some state →
      actions.length ≤ 12 * (∑ who, (n who).toNat) + Fintype.card ι + Machine.gained Action.gain actions) ∧
    ∀ state, (machine role n).Reachable state → AllReturned state →
      state.produced.length = totalItems role n .producer ∧
        state.consumed = state.produced.take (totalItems role n .consumer) ∧
        state.contents = state.produced.drop (totalItems role n .consumer) := by
  refine ⟨⟨fun progress => ?_, fun fits state reached unfinished => goes_on reached fits unfinished⟩, ?_, ?_⟩
  · obtain ⟨state, reached, returned⟩ := exists_all_returned progress
    exact returned.fits reached
  · intro actions state ran
    have bounded := Machine.run_length_le Progress State.rank Action.gain
      (fun progress moved => ⟨progress.next moved, next_rank progress moved⟩) (progress_start role n) ran
    rw [rank_start] at bounded
    omega
  · intro state reached returned
    obtain ⟨produced, consumed⟩ := returned.lengths reached
    have split := ((ring_of_reachable reached).settled (returned.free reached)).2.2.2
    refine ⟨produced, ?_, ?_⟩
    · rw [← split, ← consumed, List.take_left]
    · rw [← split, ← consumed, List.drop_left]

end SysProg.Threading.RingBuffer
