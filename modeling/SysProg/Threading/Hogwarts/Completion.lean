import SysProg.Threading.Hogwarts.Handoff

namespace SysProg.Threading.Hogwarts

open Function

variable {totalTasks : Int} {state after : State} {i : Elf}

/-! ## Where `printf` is no cancellation point -/

/-- The task that an elf has taken, or is about to. -/
def ElfPhase.todo : ElfPhase → Option Nat
  | .following todo | .advancing todo _ | .loading todo | .storing todo _ | .testing todo | .announcing todo
  | .waking todo | .unlocking todo | .working todo | .reporting todo | .freeing todo => some todo
  | _ => none

/-- Dobby has joined the elf. -/
def DobbyPhase.joined : DobbyPhase → Elf → Prop
  | .cancelling i, j => j < i
  | .joining i, j => j < i
  | .finished, _ => True
  | _, _ => False

structure Tracked (state : State) : Prop where
  held : ∀ id ∈ state.taken, id ∈ state.completed ∨ ∃ i, (state.elves i).todo = some id
  joined : ∀ j, state.dobby.joined j → state.elves j = .dead

/-- An elf keeps its task until it has completed it. -/
structure Keeps (state after : State) (i : Elf) (phase : ElfPhase) : Prop where
  moved : after.elves = update state.elves i phase
  dobby : after.dobby = state.dobby
  alive : state.elves i ≠ .dead
  taken : ∀ id ∈ after.taken, id ∈ state.taken ∨ phase.todo = some id
  completed : ∀ id ∈ state.completed, id ∈ after.completed
  keeps : ∀ id, (state.elves i).todo = some id → phase.todo = some id ∨ id ∈ after.completed

theorem elfStep_keeps (running : after.process = .running) (moved : elfStep state i = some after) :
    ∃ phase, Keeps state after i phase := by
  simp only [elfStep] at moved
  cases phase : state.elves i <;> simp only [phase] at moved <;> try split at moved
  all_goals try contradiction
  all_goals cases moved
  all_goals try contradiction
  all_goals
    exact ⟨_, rfl, rfl, by simp [phase], by simp +contextual [ElfPhase.todo, or_imp],
      by simp +contextual, by simp +contextual [phase, ElfPhase.todo]⟩

theorem Tracked.elf (tracked : Tracked state) {phase : ElfPhase} (step : Keeps state after i phase) :
    Tracked after where
  held := by
    have holds : ∀ id, phase.todo = some id → ∃ j, (after.elves j).todo = some id := by
      intro id has
      refine ⟨i, ?_⟩
      rw [step.moved, update_self]
      exact has
    intro id member
    rcases step.taken id member with before | now
    · rcases tracked.held id before with done | ⟨j, has⟩
      · exact .inl (step.completed id done)
      · by_cases same : j = i
        · rw [same] at has
          rcases step.keeps id has with still | done
          · exact .inr (holds id still)
          · exact .inl done
        · refine .inr ⟨j, ?_⟩
          rw [step.moved, update_of_ne same]
          exact has
    · exact .inr (holds id now)
  joined := by
    intro j ended
    rw [step.dobby] at ended
    have dead := tracked.joined j ended
    have other : j ≠ i := by
      intro same
      exact step.alive (same ▸ dead)
    rw [step.moved, update_of_ne other]
    exact dead

theorem cancelStep_keeps (moved : cancelStep false state i = some after) : Keeps state after i .dead := by
  simp only [cancelStep] at moved
  split at moved
  · cases phase : state.elves i <;> simp [phase, ElfPhase.cancelled] at moved
    subst moved
    exact ⟨rfl, rfl, by simp [phase], fun _ => .inl, fun _ => id, by simp [phase, ElfPhase.todo]⟩
  · contradiction

theorem Tracked.dobbyStep (tracked : Tracked state) (inv : Handoff totalTasks state)
    (moved : dobbyStep state = some after) : Tracked after := by
  have fits := inv.dobby
  have joined := tracked.joined
  simp only [Hogwarts.dobbyStep] at moved
  cases phase : state.dobby with
  | creating i =>
      simp only [phase] at moved
      rw [phase] at fits
      split at moved
      · rename_i bound
        cases moved
        refine ⟨?_, fun _ ended => False.elim ended⟩
        intro id member
        rcases tracked.held id member with done | ⟨j, has⟩
        · exact .inl done
        · have other : j ≠ ⟨i, bound⟩ := by
            intro same
            rw [same, fits ⟨i, bound⟩ (Nat.le_refl _)] at has
            contradiction
          refine .inr ⟨j, ?_⟩
          simp only [update_of_ne other]
          exact has
      · cases moved
        exact ⟨tracked.held, fun _ ended => False.elim ended⟩
  | cancelling i =>
      simp only [phase] at moved
      rw [phase] at joined
      split at moved
      · cases moved
        exact ⟨tracked.held, joined⟩
      · cases moved
        exact ⟨tracked.held, fun j _ => joined j (show (j : Nat) < i by omega)⟩
  | joining i =>
      simp only [phase] at moved
      rw [phase] at joined
      split at moved
      · rename_i dead
        cases moved
        refine ⟨tracked.held, ?_⟩
        intro j before
        by_cases same : j = i
        · rw [same]
          exact dead
        · apply joined j
          simp only [DobbyPhase.joined] at before ⊢
          exact lt_of_le_of_ne (Nat.le_of_lt_succ before) same
      · contradiction
  | finished => simp [phase] at moved
  | waiting | checking | posting | signalling =>
      simp only [phase] at moved
      split at moved <;> try contradiction
      all_goals
        cases moved
        exact ⟨tracked.held, by simp [DobbyPhase.joined]⟩
  | linking | activating =>
      simp only [phase] at moved
      cases moved
      exact ⟨tracked.held, by simp [DobbyPhase.joined]⟩

theorem tracked_of_reachable (nonneg : 0 ≤ totalTasks) (reached : (machine false totalTasks).Reachable state) :
    Tracked state := by
  suffices both : Handoff totalTasks state ∧ Tracked state from both.2
  apply reached.invariant fun state => Handoff totalTasks state ∧ Tracked state
  · exact ⟨handoff_start nonneg, by simp [machine, start], fun _ ended => False.elim ended⟩
  · intro before after action holds moved
    obtain ⟨inv, tracked⟩ := holds
    refine ⟨inv.next moved, ?_⟩
    have running := (inv.next moved).running
    simp only [machine, next, inv.running] at moved
    cases action with
    | dobby => exact tracked.dobbyStep inv moved
    | elf i =>
        obtain ⟨phase, step⟩ := elfStep_keeps running moved
        exact tracked.elf step
    | cancel i => exact tracked.elf (cancelStep_keeps moved)

/-- All the day's work is done once Dobby is: every task has been completed. -/
def DayDone (totalTasks : Int) (state : State) : Prop :=
  ∀ id : Nat, 1 ≤ id → (id : Int) ≤ totalTasks → id ∈ state.completed

theorem day_done (nonneg : 0 ≤ totalTasks) (reached : (machine false totalTasks).Reachable state)
    (finished : state.dobby = .finished) : DayDone totalTasks state := by
  have inv := handoff_of_reachable nonneg reached
  have tracked := tracked_of_reachable nonneg reached
  have joined := tracked.joined
  rw [finished] at joined
  intro id lower upper
  have taken : id ∈ state.taken := by
    rw [(inv.all_taken (by rw [finished]; rfl)).mem_iff, List.mem_range'_1]
    omega
  rcases tracked.held id taken with done | ⟨i, has⟩
  · exact done
  · rw [joined i trivial] at has
    contradiction

/-! ## Where `printf` is one -/

/-- Dobby waits, `list` is left of his last batch, and every elf waits for a permit. -/
def resting (totalTasks : Int) (counter : Nat) (list done : List Nat) : State where
  process := .running
  dobby := .waiting
  elves := fun _ => .waiting
  cancelled := fun _ => false
  listHead := list
  taskIdCounter := counter
  totalTasks := totalTasks
  activeTasks := list.length
  mutex := none
  emptyList := if list = [] then 1 else 0
  fullList := list.length
  taken := done
  completed := done

variable {rest : Int} {counter : Nat} {list done : List Nat} {printfCancels : Bool}

theorem reachable_resting (printfCancels : Bool) (totalTasks : Int) :
    (machine printfCancels totalTasks).Reachable (resting totalTasks 0 [] []) := by
  refine ⟨List.replicate 6 .dobby, ?_⟩
  have all : update (update (update (update (update (fun _ => ElfPhase.unborn) (0 : Elf) .waiting) 1 .waiting) 2
      .waiting) 3 .waiting) 4 .waiting = fun _ => .waiting := by decide
  exact congrArg (fun elves => some { resting totalTasks 0 [] [] with elves }) all

theorem reachable_task (id : Nat)
    (reached : (machine printfCancels totalTasks).Reachable (resting rest counter (id :: list) done)) :
    (machine printfCancels totalTasks).Reachable (resting rest counter list (done ++ [id])) := by
  have tested : (machine printfCancels totalTasks).Reachable
      { resting rest counter list (done ++ [id]) with
        elves := update (fun _ => .waiting) 0 (.testing id)
        emptyList := 0
        mutex := some 0
        completed := done } := by
    have arrived := reached.run (List.replicate 8 (.elf 0)) rfl
    simpa [resting] using arrived
  cases list with
  | nil =>
      have finished := tested.run (List.replicate 7 (.elf 0)) rfl
      simpa [resting] using finished
  | cons other list =>
      have more : (list.length : Int) + 1 ≠ 0 := by omega
      have passed : (machine printfCancels totalTasks).Reachable
          { resting rest counter (other :: list) (done ++ [id]) with
            elves := update (fun _ => .waiting) 0 (.unlocking id)
            mutex := some 0
            completed := done } := by
        apply tested.next (.elf 0)
        simp [machine, next, elfStep, resting, more]
      have finished := passed.run (List.replicate 4 (.elf 0)) rfl
      simpa [resting] using finished

theorem reachable_tasks (batch : List Nat)
    (reached : (machine printfCancels totalTasks).Reachable (resting rest counter (batch ++ list) done)) :
    (machine printfCancels totalTasks).Reachable (resting rest counter list (done ++ batch)) := by
  induction batch generalizing done with
  | nil => simpa using reached
  | cons id batch ih => simpa using ih (reachable_task id reached)

theorem reachable_posted {n : Int} {i : Nat} (more : Nat) (size : i + more = n)
    (reached : (machine printfCancels totalTasks).Reachable
      { resting rest counter [] done with dobby := .posting n i, listHead := list, emptyList := 0 }) :
    ∃ posted, posted.length = list.length + more ∧ (machine printfCancels totalTasks).Reachable
      { resting rest (counter + more) [] done with dobby := .activating n, listHead := posted, emptyList := 0 } := by
  induction more generalizing i counter list with
  | zero =>
      have last : ¬ (i : Int) < n := by omega
      refine ⟨list, rfl, reached.next .dobby ?_⟩
      simp [machine, next, dobbyStep, resting, last]
  | succ more ih =>
      have another : (i : Int) < n := by omega
      have linked : (machine printfCancels totalTasks).Reachable
          { resting rest (counter + 1) [] done with
            dobby := .posting n (i + 1), listHead := (counter + 1) :: list, emptyList := 0 } := by
        apply reached.run [.dobby, .dobby]
        simp [Machine.run, machine, next, dobbyStep, resting, another]
      obtain ⟨posted, length, arrived⟩ := ih (by push_cast; omega) linked
      refine ⟨posted, ?_, ?_⟩
      · rw [length, List.length_cons]
        omega
      · rwa [show counter + (more + 1) = counter + 1 + more by omega]

theorem reachable_signalled {i : Nat} (more : Nat) (size : i + more = list.length)
    (reached : (machine printfCancels totalTasks).Reachable
      { resting rest counter list done with dobby := .signalling list.length i, fullList := i }) :
    (machine printfCancels totalTasks).Reachable (resting rest counter list done) := by
  induction more generalizing i with
  | zero =>
      have last : ¬ (i : Int) < list.length := by omega
      apply reached.next .dobby
      simp [machine, next, dobbyStep, resting, last]
      omega
  | succ more ih =>
      have another : (i : Int) < list.length := by omega
      apply ih (i := i + 1) (by omega)
      apply reached.next .dobby
      simp only [machine, next, dobbyStep, resting, another, if_true]

theorem reachable_batch (n : Nat) (positive : 0 < n) (size : (n : Int) = if rest ≥ 10 then 10 else rest)
    (reached : (machine printfCancels totalTasks).Reachable (resting rest counter [] done)) :
    ∃ batch, batch.length = n ∧
      (machine printfCancels totalTasks).Reachable (resting (rest - n) (counter + n) batch done) := by
  have work : rest ≠ 0 := by
    split at size <;> omega
  have begun : (machine printfCancels totalTasks).Reachable
      { resting (rest - n) counter [] done with dobby := .posting n 0, listHead := [], emptyList := 0 } := by
    apply reached.run [.dobby, .dobby]
    simp [Machine.run, machine, next, dobbyStep, resting, work, size]
  obtain ⟨batch, length, posted⟩ := reachable_posted n (by simp) begun
  rw [List.length_nil, Nat.zero_add] at length
  subst length
  have filled : batch ≠ [] := List.length_pos_iff.mp positive
  refine ⟨batch, rfl, reachable_signalled (i := 0) batch.length (by simp) ?_⟩
  apply posted.next .dobby
  simp [machine, next, dobbyStep, resting, filled]

theorem reachable_last (left : Nat) (positive : 0 < left)
    (reached : (machine printfCancels totalTasks).Reachable (resting left counter [] done)) :
    ∃ id done, (machine printfCancels totalTasks).Reachable (resting 0 (counter + left) [id] done) := by
  induction left using Nat.strongRecOn generalizing counter done with
  | _ left ih =>
      by_cases many : left ≤ 10
      · obtain ⟨batch, length, posted⟩ := reachable_batch left positive (by split <;> omega) reached
        have filled : batch ≠ [] := List.length_pos_iff.mp (by omega)
        rw [← List.dropLast_append_getLast filled, Int.sub_self] at posted
        exact ⟨_, _, reachable_tasks batch.dropLast posted⟩
      · obtain ⟨batch, length, posted⟩ := reachable_batch 10 (by omega) (by split <;> omega) reached
        rw [← List.append_nil batch, show ((left : Int) - (10 : Nat)) = ((left - 10 : Nat) : Int) by omega] at posted
        have again := ih (left - 10) (by omega) (by omega) (reachable_tasks batch posted)
        rwa [show counter + 10 + (left - 10) = counter + left by omega] at again

/-- Dobby leaves his loop when the last task is taken, and cancels the elf that is about to print its result. -/
theorem reachable_unfinished (id : Nat)
    (reached : (machine true totalTasks).Reachable (resting 0 counter [id] done)) :
    ∃ state, (machine true totalTasks).Reachable state ∧ state.dobby = .finished ∧ state.completed = done := by
  have left : (machine true totalTasks).Reachable
      { resting 0 counter [] (done ++ [id]) with
        dobby := .cancelling 0
        elves := update (fun _ => .waiting) 0 (.reporting id)
        emptyList := 0
        completed := done } := by
    let work : List Action := List.replicate 13 (.elf 0)
    have arrived := reached.run (work ++ [Action.dobby, Action.dobby]) rfl
    simpa [resting] using arrived
  have joined := left.run [.dobby, .cancel 0, .dobby, .dobby, .cancel 1, .dobby, .dobby, .cancel 2, .dobby,
    .dobby, .cancel 3, .dobby, .dobby, .cancel 4, .dobby, .dobby] rfl
  exact ⟨_, joined, rfl, rfl⟩

/-- The day's work is done in every run just when there is none, or no elf can
be cancelled while it prints the result of its task. -/
theorem day_done_iff (printfCancels : Bool) (totalTasks : Int) (nonneg : 0 ≤ totalTasks) :
    (∀ state, (machine printfCancels totalTasks).Reachable state → state.dobby = .finished →
      DayDone totalTasks state) ↔ totalTasks = 0 ∨ printfCancels = false := by
  constructor
  · intro always
    by_contra either
    obtain ⟨work, cancels⟩ := not_or.mp either
    rw [Bool.not_eq_false] at cancels
    subst cancels
    obtain ⟨left, rfl⟩ := Int.eq_ofNat_of_zero_le nonneg
    obtain ⟨id, done, lastTaken⟩ := reachable_last left (by omega) (reachable_resting true left)
    obtain ⟨state, reached, finished, completed⟩ := reachable_unfinished id lastTaken
    have ids := (handoff_of_reachable nonneg lastTaken).ids
    simp only [resting, Nat.zero_add] at ids
    have inRange : id ∈ List.range' 1 left := ids.subset (by simp)
    have distinct : (done ++ [id]).Nodup := ids.nodup_iff.mpr List.nodup_range'
    rw [List.mem_range'_1] at inRange
    have member := always state reached finished id inRange.1 (by omega)
    rw [completed] at member
    exact (List.nodup_append.mp distinct).2.2 id member id (List.mem_singleton_self id) rfl
  · intro condition state reached finished
    rcases condition with none | atomic
    · intro id lower upper
      omega
    · subst atomic
      exact day_done nonneg reached finished

/-- Two elves take a task each, the second of them wakes Dobby, and he cancels all five. -/
theorem day_done_quiet_printf : ∃ state, (machine false 2).Reachable state ∧ state.dobby = .finished ∧
    state.completed = [2, 1] ∧ DayDone 2 state := by
  let cancelled : List Action := (List.finRange 5).flatMap fun i => [.dobby, .cancel i, .dobby]
  have reached : (machine false 2).Reachable _ :=
    ⟨List.replicate 17 .dobby ++ List.replicate 13 (.elf 0) ++ List.replicate 15 (.elf 1) ++ [.dobby, .dobby] ++
      cancelled ++ [.dobby], rfl⟩
  exact ⟨_, reached, rfl, rfl, (day_done_iff false 2 (by decide)).mpr (.inr rfl) _ reached rfl⟩

/-- A single task, whose elf is cancelled in the `printf` of `do_work`. -/
theorem one_task_cut_short :
    ¬ ∀ state, (machine true 1).Reachable state → state.dobby = .finished → DayDone 1 state := by
  intro always
  have posted : (machine true 1).Reachable (resting 0 1 [1] []) := by
    have begun := reachable_resting true 1
    have arrived := begun.run (List.replicate 8 .dobby) rfl
    simpa [resting] using arrived
  obtain ⟨state, reached, finished, completed⟩ := reachable_unfinished 1 posted
  have member := always state reached finished 1 (by decide) (by decide)
  rw [completed] at member
  contradiction

end SysProg.Threading.Hogwarts
