import SysProg.Network.SelectClient.Wakeup

namespace SysProg.Network.SelectClient

variable {μ : Type} {capacity : ℕ+} {lines : List μ} {before after : State μ}

/-! ## The mutex, and what has been typed -/

def MainPhase.critical : MainPhase μ → Bool
  | .appending _ | .releasing => true
  | .input | .acquiring _ | .sending | .exited => false

def LoopPhase.critical : LoopPhase μ → Bool
  | .testing | .releasing | .draining | .popped _ | .sendall | .unlocking => true
  | _ => false

/-- The message that has been typed and not yet appended. -/
def MainPhase.inHand : MainPhase μ → List μ
  | .acquiring msg | .appending msg => [msg]
  | .input | .releasing | .sending | .exited => []

/-- `select` has found `read_ind`, and it has not been read. -/
def LoopPhase.found : LoopPhase μ → Bool
  | .receiving found _ | .indicated found _ => found
  | _ => false

/-- The step's call on the connection returns. -/
def Action.returns : Action → Bool
  | .recv returns | .sendall returns => returns
  | .main | .interrupt | .loop | .select _ _ _ => true

structure Guarded (lines : List μ) (state : State μ) : Prop where
  main : state.mutex = some .main ↔ state.main.critical = true
  loop : state.mutex = some .loop ↔ state.loop.critical = true
  unread : state.loop.found = true → 0 < state.unread
  alive : state.loop ≠ .dead
  typed : lines = state.appended ++ state.main.inHand ++ state.lines

theorem Guarded.mainStep (guarded : Guarded lines before) (moved : mainStep capacity before = some after) :
    Guarded lines after := by
  obtain ⟨main, loop, unread, alive, typed⟩ := guarded
  simp only [SelectClient.mainStep] at moved
  cases phase : before.main with
  | input =>
      rw [phase] at main typed
      simp only [phase] at moved
      split at moved
      · rename_i ended
        cases moved
        exact ⟨main, loop, unread, alive, typed⟩
      · rename_i msg rest next
        cases moved
        rw [next] at typed
        exact ⟨main, loop, unread, alive, by simpa [MainPhase.inHand] using typed⟩
  | acquiring msg =>
      rw [phase] at typed
      simp only [phase] at moved
      split at moved <;> cases moved
      rename_i free
      rw [free] at loop
      exact ⟨by simp [MainPhase.critical], by simpa using loop, unread, alive, typed⟩
  | appending msg =>
      rw [phase] at main typed
      simp only [phase] at moved
      cases moved
      exact ⟨main, loop, unread, alive, by simpa [MainPhase.inHand] using typed⟩
  | releasing =>
      rw [phase] at main typed
      simp only [phase] at moved
      cases moved
      rw [main.mpr rfl] at loop
      exact ⟨by simp [MainPhase.critical], by simpa using loop, unread, alive, typed⟩
  | sending =>
      rw [phase] at main typed
      simp only [phase] at moved
      split at moved
      · cases moved
        exact ⟨main, loop, fun _ => Nat.succ_pos _, alive, typed⟩
      · cases moved
        exact ⟨main, loop, unread, alive, typed⟩
  | exited =>
      simp only [phase] at moved
      cases moved

/-- The loop takes the mutex, gives it back or leaves it alone. -/
theorem Guarded.moveLoop (guarded : Guarded lines before) {phase : LoopPhase μ} (current : before.loop = phase)
    (loop : LoopPhase μ) (mutex : Option Party) (unread : Nat) (wlist : Bool) (writeQueue sent : List μ)
    (holds : mutex = if loop.critical then some .loop else if phase.critical then none else before.mutex)
    (free : loop.critical = true → phase.critical = false → before.mutex = none)
    (found : loop.found = true → 0 < unread) (alive : loop ≠ .dead) :
    Guarded lines { before with loop, mutex, unread, wlist, writeQueue, sent } := by
  obtain ⟨main, own, -, -, typed⟩ := guarded
  rw [current] at own
  cases entered : loop.critical with
  | true => cases inside : phase.critical <;> exact ⟨by simp_all, by simp_all, found, alive, typed⟩
  | false => cases inside : phase.critical <;> exact ⟨by simp_all, by simp_all, found, alive, typed⟩

theorem Guarded.loopStep (guarded : Guarded lines before) (moved : loopStep before = some after) : Guarded lines after := by
  have unread := guarded.unread
  simp only [SelectClient.loopStep] at moved
  cases phase : before.loop with
  | acquiring | locking =>
      simp only [phase] at moved
      split at moved <;> cases moved
      rename_i free
      exact guarded.moveLoop phase _ _ _ _ _ _ rfl
        (fun _ _ => free) (by simp [LoopPhase.found]) (by simp)
  | testing =>
      simp only [phase] at moved
      cases moved
      exact guarded.moveLoop phase .releasing _ _ _ _ _ (guarded.loop.mpr (by rw [phase]; rfl))
        (by simp [LoopPhase.critical]) (by simp [LoopPhase.found]) (by simp)
  | releasing | unlocking =>
      simp only [phase] at moved
      cases moved
      exact guarded.moveLoop phase _ _ _ _ _ _ rfl
        (by simp [LoopPhase.critical]) (by simp [LoopPhase.found]) (by simp)
  | indicated found writable =>
      rw [phase] at unread
      simp only [phase] at moved
      split at moved
      · rename_i indicated
        split at moved
        · cases moved
          exact guarded.moveLoop phase (.writing true) _ _ _ _ _ rfl
            (by simp [LoopPhase.critical]) (by simp [LoopPhase.found]) (by simp)
        · rename_i none
          exact absurd (unread indicated.1) none
      · cases moved
        exact guarded.moveLoop phase (.writing writable) _ _ _ _ _ rfl
          (by simp [LoopPhase.critical]) (by simp [LoopPhase.found]) (by simp)
  | writing writable =>
      simp only [phase] at moved
      cases moved
      cases writable with
      | true =>
          exact guarded.moveLoop phase .locking _ _ _ _ _ rfl
            (by simp [LoopPhase.critical]) (by simp [LoopPhase.found]) (by simp)
      | false =>
          exact guarded.moveLoop phase .acquiring _ _ _ _ _ rfl
            (by simp [LoopPhase.critical]) (by simp [LoopPhase.found]) (by simp)
  | draining =>
      have held := guarded.loop.mpr (by rw [phase]; rfl)
      simp only [phase] at moved
      split at moved
      · cases moved
        exact guarded.moveLoop phase .unlocking _ _ _ _ _ held
          (by simp [LoopPhase.critical]) (by simp [LoopPhase.found]) (by simp)
      · rename_i msg rest _
        cases moved
        exact guarded.moveLoop phase (.popped msg) _ _ _ _ _ held
          (by simp [LoopPhase.critical]) (by simp [LoopPhase.found]) (by simp)
  | popped msg =>
      simp only [phase] at moved
      cases moved
      exact guarded.moveLoop phase .sendall _ _ _ _ _ (guarded.loop.mpr (by rw [phase]; rfl))
        (by simp [LoopPhase.critical]) (by simp [LoopPhase.found]) (by simp)
  | clearing =>
      simp only [phase] at moved
      cases moved
      exact guarded.moveLoop phase .acquiring _ _ _ _ _ rfl
        (by simp [LoopPhase.critical]) (by simp [LoopPhase.found]) (by simp)
  | select | receiving | sendall | dead =>
      simp only [phase] at moved
      cases moved

theorem Guarded.next (guarded : Guarded lines before) {action : Action} (returns : action.returns = true)
    (moved : next capacity before action = some after) : Guarded lines after := by
  cases action with
  | main => exact guarded.mainStep moved
  | loop => exact guarded.loopStep moved
  | interrupt =>
      simp only [SelectClient.next] at moved
      split at moved <;> cases moved
      rename_i phase
      obtain ⟨main, loop, unread, alive, typed⟩ := guarded
      rw [phase] at main typed
      exact ⟨main, loop, unread, alive, typed⟩
  | select readable indicated writable =>
      simp only [SelectClient.next] at moved
      split at moved
      · rename_i phase
        split at moved <;> cases moved
        rename_i ready
        cases readable with
        | true =>
            exact guarded.moveLoop phase (.receiving indicated writable) _ _ _ _ _ rfl
              (by simp [LoopPhase.critical]) ready.2.1 (by simp)
        | false =>
            exact guarded.moveLoop phase (.indicated indicated writable) _ _ _ _ _ rfl
              (by simp [LoopPhase.critical]) ready.2.1 (by simp)
      · cases moved
  | recv result =>
      cases returns
      simp only [SelectClient.next] at moved
      split at moved <;> cases moved
      rename_i indicated writable phase
      have unread := guarded.unread
      rw [phase] at unread
      exact guarded.moveLoop phase (.indicated indicated writable) _ _ _ _ _ rfl
        (by simp [LoopPhase.critical]) unread (by simp)
  | sendall result =>
      cases returns
      simp only [SelectClient.next] at moved
      split at moved <;> cases moved
      rename_i phase
      exact guarded.moveLoop phase .draining _ _ _ _ _ (guarded.loop.mpr (by rw [phase]; rfl))
        (by simp [LoopPhase.critical]) (by simp [LoopPhase.found]) (by simp)

/-! ## What is queued gets sent -/

/-- The steps in which the main thread holds the mutex or owes its byte; the message that it appends is
counted with them. -/
def MainPhase.rank : MainPhase μ → Nat
  | .appending _ => 6
  | .releasing => 2
  | .sending => 1
  | .input | .acquiring _ | .exited => 0

/-- The steps to the head of the inner loop. -/
def LoopPhase.rank : LoopPhase μ → Nat
  | .receiving found writable => if found || writable then 4 else 11
  | .indicated found writable => if found || writable then 3 else 10
  | .writing writable => if writable then 2 else 9
  | .unlocking => 10
  | .clearing => 9
  | .acquiring => 8
  | .testing => 7
  | .releasing => 6
  | .select => 5
  | .popped _ => 2
  | .locking | .sendall => 1
  | .draining | .dead => 0

def State.rank (state : State μ) : Nat := 3 * state.writeQueue.length + state.main.rank + state.loop.rank

/-- Everything that has been appended has been sent. -/
def State.Delivered (state : State μ) : Prop := state.writeQueue = [] ∧ state.loop.inHand = []

/-- There is a step that leads to it. -/
def State.GoesOn (capacity : ℕ+) (before : State μ) : Prop :=
  ∃ action after, action.returns = true ∧ next capacity before action = some after ∧ after.rank < before.rank

/-- A main thread that has the mutex, or owes its byte, goes on. -/
theorem mainStep_goes_on (capacity : ℕ+) (busy : before.main.critical = true ∨ before.main.owes = true) :
    before.GoesOn capacity := by
  cases phase : before.main with
  | appending msg =>
      refine ⟨.main, _, rfl, by rw [next, mainStep, phase], ?_⟩
      simp only [State.rank, phase, MainPhase.rank, List.length_append, List.length_singleton]
      omega
  | releasing =>
      refine ⟨.main, _, rfl, by rw [next, mainStep, phase], ?_⟩
      simp only [State.rank, phase, MainPhase.rank]
      omega
  | sending =>
      by_cases room : before.unread < capacity
      · refine ⟨.main, _, rfl, by rw [next, mainStep, phase]; exact if_pos room, ?_⟩
        simp only [State.rank, phase, MainPhase.rank]
        omega
      · refine ⟨.main, _, rfl, by rw [next, mainStep, phase]; exact if_neg room, ?_⟩
        simp only [State.rank, phase, MainPhase.rank]
        omega
  | input | acquiring _ | exited =>
      rw [phase] at busy
      rcases busy with critical | owes
      · cases critical
      · cases owes

/-- A mutex that the loop waits for is free, or the main thread is about to give it back. -/
theorem Guarded.waits (guarded : Guarded lines before) (outside : before.loop.critical = false) :
    before.mutex = none ∨ before.main.critical = true := by
  cases held : before.mutex with
  | none => exact .inl rfl
  | some party =>
      cases party with
      | main => exact .inr (guarded.main.mp held)
      | loop =>
          rw [guarded.loop.mp held] at outside
          cases outside

/-- Until all is delivered a step leads there, whatever the other choices have been. -/
theorem Guarded.goes_on (guarded : Guarded lines before) (wakeful : Wakeful before) (undone : ¬ before.Delivered)
    (capacity : ℕ+) : before.GoesOn capacity := by
  cases phase : before.loop with
  | acquiring | locking =>
      rcases guarded.waits (by rw [phase]; rfl) with free | busy
      · refine ⟨.loop, _, rfl, by rw [SelectClient.next, SelectClient.loopStep, phase]; exact if_pos free, ?_⟩
        simp only [State.rank, phase, LoopPhase.rank]
        omega
      · exact mainStep_goes_on capacity (.inl busy)
  | testing | releasing | unlocking | clearing | popped _ =>
      refine ⟨.loop, _, rfl, by rw [SelectClient.next, SelectClient.loopStep, phase], ?_⟩
      simp only [State.rank, phase, LoopPhase.rank]
      omega
  | select =>
      have waiting : before.writeQueue ≠ [] := fun empty => undone ⟨empty, by rw [phase]; rfl⟩
      rcases wakeful.wakes (by rw [phase]; rfl) waiting with listed | unread | owes
      · refine ⟨.select false false true, _, rfl, by rw [SelectClient.next, phase]; exact if_pos (by simp [listed]), ?_⟩
        simp [State.rank, phase, LoopPhase.rank]
      · refine ⟨.select false true false, _, rfl, by rw [SelectClient.next, phase]; exact if_pos (by simp [unread]), ?_⟩
        simp [State.rank, phase, LoopPhase.rank]
      · exact mainStep_goes_on capacity (.inr owes)
  | receiving found writable =>
      refine ⟨.recv true, _, rfl, by rw [SelectClient.next, phase], ?_⟩
      simp only [State.rank, phase, LoopPhase.rank]
      cases found <;> cases writable <;> simp
  | indicated found writable =>
      have unread := guarded.unread
      rw [phase] at unread
      by_cases wakes : found = true ∧ writable = false
      · obtain ⟨rfl, rfl⟩ := wakes
        refine ⟨.loop, _, rfl, by rw [SelectClient.next, SelectClient.loopStep, phase]; exact if_pos (unread rfl), ?_⟩
        simp [State.rank, phase, LoopPhase.rank]
      · refine ⟨.loop, _, rfl, by rw [SelectClient.next, SelectClient.loopStep, phase]; exact if_neg wakes, ?_⟩
        cases found <;> cases writable <;> simp_all [State.rank, LoopPhase.rank]
  | writing writable =>
      refine ⟨.loop, _, rfl, by rw [SelectClient.next, SelectClient.loopStep, phase], ?_⟩
      cases writable <;> simp [State.rank, phase, LoopPhase.rank]
  | draining =>
      cases queue : before.writeQueue with
      | nil => exact absurd ⟨queue, by rw [phase]; rfl⟩ undone
      | cons msg rest =>
          refine ⟨.loop, _, rfl, by rw [SelectClient.next, SelectClient.loopStep, phase]; simp only [queue]; rfl, ?_⟩
          simp only [State.rank, phase, queue, LoopPhase.rank, List.length_cons]
          omega
  | sendall =>
      refine ⟨.sendall true, _, rfl, by rw [SelectClient.next, phase]; rfl, ?_⟩
      simp only [State.rank, phase, LoopPhase.rank]
      omega
  | dead => exact absurd phase guarded.alive

theorem MainPhase.rank_le (phase : MainPhase μ) : phase.rank ≤ 6 := by
  cases phase <;> simp [rank]

theorem LoopPhase.rank_le (phase : LoopPhase μ) : phase.rank ≤ 11 := by
  cases phase with
  | receiving found writable | indicated found writable =>
      simp only [rank]
      split <;> decide
  | writing writable =>
      simp only [rank]
      split <;> decide
  | _ => simp [rank]

/-- The client, as long as its calls on the connection return. -/
def connected (capacity : ℕ+) (lines : List μ) : Machine (State μ) Action :=
  (machine capacity lines).restrict fun _ action => action.returns = true

end SysProg.Network.SelectClient
