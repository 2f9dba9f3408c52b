import SysProg.Threading.WatchCount

namespace SysProg.Threading.WatchCount

/-! ## What is counted -/

/-- The thread has the mutex. -/
def IncPhase.critical : IncPhase → Bool
  | .counting | .signalling | .unlocking => true
  | .testing | .locking | .sleeping | .returned => false

def WatchPhase.critical : WatchPhase → Bool
  | .testing | .adding | .unlocking => true
  | .locking | .waiting | .woken | .returned => false

/-- How often the thread has incremented `count`. -/
def Inc.done (inc : Inc) : Nat :=
  match inc.phase with
  | .signalling | .unlocking | .sleeping => inc.i + 1
  | .testing | .locking | .counting | .returned => inc.i

def Inc.Fits (inc : Inc) : Prop :=
  match inc.phase with
  | .testing => inc.i ≤ tcount
  | .returned => inc.i = tcount
  | .locking | .counting | .signalling | .unlocking | .sleeping => inc.i < tcount

/-- `watch_count` leaves the loop once it has added. -/
def WatchPhase.Fits (added : Nat) : WatchPhase → Prop
  | .locking | .waiting | .woken | .adding => added = 0
  | .testing | .unlocking | .returned => added ≤ 1

structure Counts (incs : Fin 2 → Inc) (watch : WatchPhase) (mutex : Option Thread) (count added : Nat) : Prop where
  total : count = tally Inc.done incs + 125 * added
  incOwns : ∀ id, (incs id).phase.critical = true ↔ mutex = some (.inc id)
  watchOwns : watch.critical = true ↔ mutex = some .watch
  incFits : ∀ id, (incs id).Fits
  watchFits : watch.Fits added

def State.Counts (state : State) : Prop :=
  WatchCount.Counts state.incs state.watch state.mutex state.count state.added

variable {incs : Fin 2 → Inc} {watch : WatchPhase} {mutex nextMutex : Option Thread} {count added nextCount nextAdded : Nat}
  {state after final : State} {actions : List Action} {id : Fin 2}

theorem counts_init : machine.init.Counts where
  total := by
    have none : tally Inc.done machine.init.incs = 0 := tally_eq_zero.mpr fun _ => rfl
    rw [none]
    rfl
  incOwns id := by simp [machine, IncPhase.critical]
  watchOwns := by simp [machine, WatchPhase.critical]
  incFits id := Nat.zero_le _
  watchFits := rfl

theorem Counts.moveInc (inv : Counts incs watch mutex count added) (id : Fin 2) (next : Inc) (fits : next.Fits)
    (mine : next.phase.critical = true ↔ nextMutex = some (.inc id))
    (others : ∀ thread, thread ≠ .inc id → (nextMutex = some thread ↔ mutex = some thread))
    (counted : nextCount + (incs id).done = count + next.done) :
    Counts (Function.update incs id next) watch nextMutex nextCount added where
  total := by
    have changed := tally_update Inc.done incs id next
    have total := inv.total
    omega
  incOwns other := by
    by_cases same : other = id
    · rw [same, Function.update_self]
      exact mine
    · rw [Function.update_of_ne same, others (.inc other) (by simpa using same)]
      exact inv.incOwns other
  watchOwns := inv.watchOwns.trans (others .watch (by simp)).symm
  incFits other := by
    by_cases same : other = id
    · rw [same, Function.update_self]
      exact fits
    · rw [Function.update_of_ne same]
      exact inv.incFits other
  watchFits := inv.watchFits

/-- A step of `watch_count`, or one that wakes it up. -/
theorem Counts.moveWatch (inv : Counts incs watch mutex count added) (next : WatchPhase) (fits : next.Fits nextAdded)
    (mine : next.critical = true ↔ nextMutex = some .watch)
    (others : ∀ id, nextMutex = some (.inc id) ↔ mutex = some (.inc id))
    (counted : nextCount + 125 * added = count + 125 * nextAdded) :
    Counts incs next nextMutex nextCount nextAdded where
  total := by
    have total := inv.total
    omega
  incOwns id := (inv.incOwns id).trans (others id).symm
  watchOwns := mine
  incFits := inv.incFits
  watchFits := fits

/-- A step that neither takes the mutex nor gives it up. -/
theorem Counts.keeps (inv : Counts incs watch mutex count added) (id : Fin 2) (next : Inc) (fits : next.Fits)
    (same : next.phase.critical = (incs id).phase.critical) (counted : nextCount + (incs id).done = count + next.done) :
    Counts (Function.update incs id next) watch mutex nextCount added :=
  inv.moveInc id next fits (same ▸ inv.incOwns id) (fun _ _ => Iff.rfl) counted

theorem Counts.locks (inv : Counts incs watch none count added) (id : Fin 2) (next : Inc) (fits : next.Fits)
    (inside : next.phase.critical = true) (counted : next.done = (incs id).done) :
    Counts (Function.update incs id next) watch (some (.inc id)) count added := by
  refine inv.moveInc id next fits (iff_of_true inside rfl) (fun thread other => ?_) (by omega)
  simp [Ne.symm other]

theorem Counts.unlocks (inv : Counts incs watch mutex count added) (id : Fin 2) (next : Inc) (fits : next.Fits)
    (was : (incs id).phase.critical = true) (outside : next.phase.critical = false) (counted : next.done = (incs id).done) :
    Counts (Function.update incs id next) watch none count added := by
  have owner := (inv.incOwns id).mp was
  refine inv.moveInc id next fits (by simp [outside]) (fun thread other => ?_) (by omega)
  simp [owner, Ne.symm other]

theorem Counts.wakes (inv : Counts incs watch mutex count added) :
    Counts incs (if watch = .waiting then .woken else watch) mutex count added := by
  split
  · rename_i waiting
    have fits := inv.watchFits
    have owns := inv.watchOwns
    rw [waiting] at fits owns
    exact inv.moveWatch .woken fits owns (fun _ => Iff.rfl) rfl
  · exact inv

/-! ## The steps -/

theorem State.Counts.incCount (inv : state.Counts) (moved : incCount id state = some after) : after.Counts := by
  have fits := inv.incFits id
  simp only [Inc.Fits] at fits
  simp only [WatchCount.incCount] at moved
  cases phase : (state.incs id).phase
  all_goals
    have done := Inc.done.eq_1 (state.incs id)
    rw [phase] at fits done
    simp only [phase] at moved fits done
  case testing =>
      cases moved
      by_cases more : (state.incs id).i < tcount
      · simp only [more, if_true]
        exact Counts.keeps inv id _ more (by rw [phase]; rfl) (by rw [done]; rfl)
      · simp only [more, if_false]
        exact Counts.keeps inv id _ (Nat.le_antisymm fits (Nat.not_lt.mp more)) (by rw [phase]; rfl) (by rw [done]; rfl)
  case locking =>
      split at moved <;> try contradiction
      rename_i free
      cases moved
      rw [State.Counts, free] at inv
      exact Counts.locks inv id _ fits rfl done.symm
  case counting =>
      cases moved
      have more : state.count + 1 + (state.incs id).done = state.count + ((state.incs id).i + 1) := by omega
      by_cases reached : state.count + 1 = countLimit
      · rw [if_pos reached]
        exact Counts.keeps inv id { phase := .signalling, i := (state.incs id).i } fits (by rw [phase]; rfl) more
      · rw [if_neg reached]
        exact Counts.keeps inv id { phase := .unlocking, i := (state.incs id).i } fits (by rw [phase]; rfl) more
  case signalling =>
      cases moved
      have counted : state.count + (state.incs id).done = state.count + (Inc.mk .unlocking (state.incs id).i).done := by
        rw [done]
        rfl
      have kept := Counts.keeps inv id (Inc.mk .unlocking (state.incs id).i) fits (by rw [phase]; rfl) counted
      exact kept.wakes
  case unlocking =>
      cases moved
      exact Counts.unlocks inv id _ fits (by rw [phase]; rfl) rfl done.symm
  case sleeping =>
      cases moved
      exact Counts.keeps inv id _ fits (by rw [phase]; rfl) (by rw [done]; rfl)
  case returned => contradiction

theorem State.Counts.watchCount (inv : state.Counts) (moved : watchCount state = some after) : after.Counts := by
  have fits := inv.watchFits
  have owns := inv.watchOwns
  simp only [WatchCount.watchCount] at moved
  cases phase : state.watch
  all_goals
    rw [phase] at fits owns
    simp only [phase] at moved
  case locking =>
      split at moved <;> try contradiction
      rename_i free
      cases moved
      have once : state.added ≤ 1 := Nat.le_succ_of_le (Nat.le_of_eq fits)
      exact Counts.moveWatch inv .testing once (by simp [WatchPhase.critical]) (by simp [free]) rfl
  case testing =>
      have owner := owns.mp rfl
      split at moved
      · rename_i below
        cases moved
        have total := inv.total
        have none : state.added = 0 := by
          rw [countLimit] at below
          omega
        exact Counts.moveWatch inv .waiting none (by simp [WatchPhase.critical]) (by simp [owner]) rfl
      · cases moved
        exact Counts.moveWatch inv .unlocking fits owns (fun _ => Iff.rfl) rfl
  case waiting => contradiction
  case woken =>
      split at moved <;> try contradiction
      rename_i free
      cases moved
      exact Counts.moveWatch inv .adding fits (by simp [WatchPhase.critical]) (by simp [free]) rfl
  case adding =>
      cases moved
      have once : state.added + 1 ≤ 1 := Nat.le_of_eq (congrArg (· + 1) fits)
      have more : state.count + 125 + 125 * state.added = state.count + 125 * (state.added + 1) := by omega
      exact Counts.moveWatch inv .testing once owns (fun _ => Iff.rfl) more
  case unlocking =>
      have owner := owns.mp rfl
      cases moved
      exact Counts.moveWatch inv .returned fits (by simp [WatchPhase.critical]) (by simp [owner]) rfl
  case returned => contradiction

theorem State.Counts.next {action : Action} (inv : state.Counts) (moved : next state action = some after) :
    after.Counts := by
  cases action with
  | inc id => exact inv.incCount moved
  | watch => exact inv.watchCount moved
  | spurious =>
      simp only [WatchCount.next] at moved
      split at moved <;> try contradiction
      rename_i waiting
      cases moved
      have woken := Counts.wakes inv
      rwa [if_pos waiting] at woken

/-- When the two `inc_count` have returned, they have made twenty increments. -/
theorem State.Counts.returned_count (inv : state.Counts) (all : ∀ id, (state.incs id).phase = .returned) :
    state.count = 20 + 125 * state.added := by
  have twenty : tally Inc.done state.incs = 20 := by
    have ten (id : Fin 2) : (state.incs id).done = 10 := by
      have fits := inv.incFits id
      simp only [Inc.Fits, all id] at fits
      simp only [Inc.done, all id, fits]
      rfl
    rw [tally, Fin.sum_univ_two, ten, ten]
  have total := inv.total
  omega

theorem State.Counts.joined (inv : state.Counts) (joined : state.Joined) : state.count = 20 + 125 * state.added :=
  inv.returned_count joined.2

/-! ## What is added -/

/-- The first time that `watch_count` gets the mutex, the threshold has not been reached. -/
def State.Early (state : State) (action : Action) : Prop :=
  action = .watch → state.watch = .locking → state.count < countLimit

/-- How often `watch_count`, which has had the mutex, will have added to `count` in the end. -/
def State.forecast (state : State) : Nat :=
  match state.watch with
  | .waiting | .woken | .adding => 1
  | .testing => if state.count < countLimit then 1 else state.added
  | .locking | .unlocking | .returned => state.added

theorem State.Counts.incCount_forecast (inv : state.Counts) (moved : WatchCount.incCount id state = some after) :
    after.forecast = state.forecast ∧ (after.watch = .locking ↔ state.watch = .locking) := by
  simp only [WatchCount.incCount] at moved
  cases phase : (state.incs id).phase
  all_goals simp only [phase] at moved
  case locking =>
      split at moved <;> cases moved
      exact ⟨rfl, Iff.rfl⟩
  case counting =>
      cases moved
      refine ⟨?_, Iff.rfl⟩
      have mine := (inv.incOwns id).mp (by rw [phase]; rfl)
      have other : state.watch ≠ .testing := by
        intro testing
        have owner := inv.watchOwns.mp (by rw [testing]; rfl)
        rw [mine] at owner
        exact Thread.noConfusion (Option.some.inj owner)
      cases watch : state.watch <;> simp only [State.forecast, State.put, watch]
      contradiction
  case signalling =>
      cases moved
      by_cases waiting : state.watch = .waiting
      · simp only [State.forecast, waiting, if_true]
        exact ⟨trivial, by simp⟩
      · simp only [State.forecast, State.put, waiting, if_false]
        exact ⟨rfl, trivial⟩
  all_goals cases moved
  all_goals exact ⟨rfl, Iff.rfl⟩

/-- Once `watch_count` has had the mutex, the forecast stays. -/
theorem State.Counts.watchCount_forecast (inv : state.Counts) (started : state.watch ≠ .locking)
    (moved : WatchCount.watchCount state = some after) :
    after.forecast = state.forecast ∧ after.watch ≠ .locking := by
  have fits := inv.watchFits
  simp only [WatchCount.watchCount] at moved
  cases phase : state.watch
  all_goals
    rw [phase] at fits
    simp only [phase] at moved
  case locking => exact absurd phase started
  case testing =>
      split at moved
      · rename_i below
        cases moved
        simp [State.forecast, phase, below]
      · rename_i above
        cases moved
        simp [State.forecast, phase, above]
  case waiting => contradiction
  case woken =>
      split at moved <;> cases moved
      simp [State.forecast, phase]
  case adding =>
      cases moved
      have once : state.added = 0 := fits
      have above : ¬ state.count + 125 < countLimit := by
        rw [countLimit]
        omega
      simp [State.forecast, phase, above, once]
  case unlocking =>
      cases moved
      simp [State.forecast, phase]
  case returned => contradiction

theorem State.Counts.forecast_next {action : Action} (inv : state.Counts) (started : state.watch ≠ .locking)
    (moved : WatchCount.next state action = some after) :
    after.forecast = state.forecast ∧ after.watch ≠ .locking := by
  cases action with
  | inc id =>
      obtain ⟨same, locking⟩ := inv.incCount_forecast moved
      exact ⟨same, locking.not.mpr started⟩
  | watch => exact inv.watchCount_forecast started moved
  | spurious =>
      simp only [WatchCount.next] at moved
      split at moved <;> try contradiction
      rename_i waiting
      cases moved
      simp [State.forecast, waiting]

theorem State.Counts.watchCount_locking (inv : state.Counts) (locking : state.watch = .locking)
    (moved : WatchCount.watchCount state = some after) :
    after.watch = .testing ∧ (after.forecast = 1 ↔ state.count < countLimit) := by
  have fits := inv.watchFits
  rw [locking] at fits
  have none : state.added = 0 := fits
  simp only [WatchCount.watchCount, locking] at moved
  split at moved <;> cases moved
  refine ⟨rfl, ?_⟩
  simp only [State.forecast, none]
  split <;> simp_all

/-- `watch_count` adds to `count`, if it has had the mutex. -/
def State.Adds (state : State) : Prop := state.watch ≠ .locking → state.forecast = 1

theorem State.Counts.next_adds {action : Action} (inv : state.Counts) (moved : WatchCount.next state action = some after) :
    after.Adds ↔ state.Adds ∧ state.Early action := by
  by_cases locking : state.watch = .locking
  · have adds : state.Adds := fun started => absurd locking started
    cases action with
    | inc id =>
        obtain ⟨-, still⟩ := inv.incCount_forecast moved
        have later : after.Adds := fun started => absurd (still.mpr locking) started
        exact iff_of_true later ⟨adds, Action.noConfusion⟩
    | watch =>
        obtain ⟨testing, forecast⟩ := inv.watchCount_locking locking moved
        have started : after.watch ≠ .locking := by simp [testing]
        exact ⟨fun later => ⟨adds, fun _ _ => forecast.mp (later started)⟩,
          fun early _ => forecast.mpr (early.2 rfl locking)⟩
    | spurious =>
        simp only [WatchCount.next, locking] at moved
        contradiction
  · obtain ⟨same, started⟩ := inv.forecast_next locking moved
    rw [State.Adds, State.Adds, same]
    exact ⟨fun later => ⟨fun _ => later started, fun _ first => absurd first locking⟩, fun adds _ => adds.1 locking⟩

/-! ## Whole runs -/

theorem run_adds (ran : machine.run machine.init actions = some final) :
    final.Adds ↔ machine.Along State.Early machine.init actions := by
  have start : machine.init.Adds := fun started => absurd rfl started
  have along := Machine.run_along_iff State.Counts State.Adds
    (fun inv moved => ⟨inv.next moved, inv.next_adds moved⟩) counts_init ran
  exact along.trans (and_iff_right start)

theorem State.Joined.adds_iff (joined : state.Joined) : state.Adds ↔ state.added = 1 := by
  have ended : state.forecast = state.added := by rw [State.forecast, joined.1]
  have started : state.watch ≠ .locking := by simp [joined.1]
  rw [State.Adds, ended]
  exact ⟨fun adds => adds started, fun once _ => once⟩

/-- `count` is 145 when the threads have been joined if and only if `watch_count` has got
the mutex for the first time before the threshold was reached. -/
theorem count_ends_iff (actions : List Action) (state : State) (ran : machine.run machine.init actions = some state)
    (joined : state.Joined) : state.count = 145 ↔ machine.Along State.Early machine.init actions := by
  have inv : state.Counts := Machine.run_invariant State.Counts (fun inv moved => inv.next moved) counts_init ran
  rw [← run_adds ran, joined.adds_iff, inv.joined joined]
  omega

/-- One `inc_count` after the other, the second of which reaches the threshold. -/
def counting : List Action := List.replicate 51 (.inc 0) ++ List.replicate 52 (.inc 1)

/-- `watch_count` waits before the first increment. -/
theorem count_ends_waiting : ∃ state, machine.Reachable state ∧ state.Joined ∧ state.count = 145 := by
  let actions : List Action := [.watch, .watch] ++ counting ++ List.replicate 4 .watch
  obtain ⟨state, ran, observed⟩ := Option.map_eq_some_iff.mp
    (show (machine.run machine.init actions).map
        (fun state => (state.added, state.watch, (state.incs 0).phase, (state.incs 1).phase)) =
      some (1, .returned, .returned, .returned) by decide +kernel)
  obtain ⟨once, threads⟩ := Prod.mk.inj observed
  obtain ⟨returned, incs⟩ := Prod.mk.inj threads
  have joined : state.Joined := ⟨returned, Fin.forall_fin_two.mpr (Prod.mk.inj incs)⟩
  have early := (run_adds ran).mp (joined.adds_iff.mpr once)
  exact ⟨state, ⟨_, ran⟩, joined, (count_ends_iff actions state ran joined).mpr early⟩

/-- Both `inc_count` return before `watch_count` gets the mutex. -/
theorem count_ends_at_twenty : ¬ ∀ state, machine.Reachable state → state.Joined → state.count = 145 := by
  intro ends
  obtain ⟨state, ran, observed⟩ := Option.map_eq_some_iff.mp
    (show (machine.run machine.init (counting ++ List.replicate 3 .watch)).map
        (fun state => (state.count, state.watch, (state.incs 0).phase, (state.incs 1).phase)) =
      some (20, .returned, .returned, .returned) by decide +kernel)
  obtain ⟨twenty, threads⟩ := Prod.mk.inj observed
  obtain ⟨returned, incs⟩ := Prod.mk.inj threads
  have all := ends state ⟨_, ran⟩ ⟨returned, Fin.forall_fin_two.mpr (Prod.mk.inj incs)⟩
  rw [twenty] at all
  contradiction

end SysProg.Threading.WatchCount
