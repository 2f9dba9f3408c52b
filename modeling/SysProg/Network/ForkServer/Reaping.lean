import SysProg.Network.ForkServer

namespace SysProg.Network.ForkServer

/-- `waitpid` has not yet said that there is no zombie left. -/
def HandlerPhase.looking : HandlerPhase → Bool
  | .saving | .waiting _ => true
  | .restoring _ => false

/-- A zombie has a signal pending for it, or a handler that still looks for it. -/
def Heard (state : State) : Prop :=
  ChildPhase.zombie ∈ state.children → state.pending = true ∨ state.handler.any HandlerPhase.looking = true

variable {state after : State}

theorem heard_mainStep {failure : Option Int} (heard : Heard state) (moved : mainStep state failure = some after) :
    Heard after := by
  simp only [mainStep] at moved
  split at moved <;> try contradiction
  cases phase : state.main with
  | accepting | printing | closing =>
      rw [phase] at moved
      cases moved
      exact heard
  | forking =>
      rw [phase] at moved
      cases failure with
      | some number =>
          cases moved
          exact heard
      | none =>
          cases moved
          exact fun zombie => heard (by simpa using zombie)

theorem heard_deliver (moved : deliver state = some after) : Heard after := by
  simp only [deliver] at moved
  split at moved <;> try contradiction
  cases moved
  exact fun _ => .inr rfl

theorem heard_handlerStep {found : Option Nat} (heard : Heard state) (moved : handlerStep state found = some after) :
    Heard after := by
  simp only [handlerStep] at moved
  cases handler : state.handler with
  | none => simp [handler] at moved
  | some phase =>
      rw [handler] at moved
      cases phase with
      | saving =>
          cases moved
          exact fun _ => .inr rfl
      | waiting tmp =>
          cases found with
          | some i =>
              simp only at moved
              split at moved <;> try contradiction
              cases moved
              intro _
              exact .inr (by simp [HandlerPhase.looking])
          | none =>
              simp only at moved
              split at moved <;> try contradiction
              rename_i noZombie
              cases moved
              exact fun zombie => absurd zombie noZombie
      | restoring tmp =>
          cases moved
          intro zombie
          have earlier := heard zombie
          simpa [handler, HandlerPhase.looking] using earlier

theorem heard_exit (state : State) (i : Nat) : Heard (exit state i) := fun _ => .inl rfl

theorem heard_set {i : Nat} {phase : ChildPhase} (heard : Heard state) (running : phase.running = true) :
    Heard { state with children := state.children.set i phase } := by
  intro zombie
  apply heard
  rcases List.mem_or_eq_of_mem_set zombie with before | now
  · exact before
  · rw [← now] at running
    contradiction

theorem heard_childStep {i : Nat} (heard : Heard state) (moved : childStep state i = some after) : Heard after := by
  simp only [childStep] at moved
  split at moved <;> try contradiction
  all_goals cases moved
  · exact heard_set heard rfl
  · exact heard_set heard rfl
  · exact heard_set heard rfl
  · exact heard_exit state i

theorem heard_next {action : Action} (heard : Heard state) (moved : next state action = some after) : Heard after := by
  cases action with
  | main failure => exact heard_mainStep heard moved
  | deliver => exact heard_deliver moved
  | handler found => exact heard_handlerStep heard moved
  | child i => exact heard_childStep heard moved
  | kill i =>
      simp only [next] at moved
      split at moved <;> try contradiction
      cases moved
      exact heard_exit state i
  | stop i =>
      simp only [next] at moved
      split at moved <;> try contradiction
      cases moved
      exact fun _ => .inl rfl

/-- While no signal is pending and the handler does not run, every child that
has exited has been reaped. -/
theorem no_zombie_left (errno : Int) (state : State) (reached : (machine errno).Reachable state)
    (quiet : state.pending = false) (idle : state.handler = none) :
    ∀ child ∈ state.children, child.exited = true → child = .reaped := by
  have heard : Heard state := by
    apply reached.invariant Heard
    · intro zombie
      simp [machine, start] at zombie
    · intro before after action heard moved
      exact heard_next heard moved
  intro child member exited
  cases child with
  | zombie =>
      have told := heard member
      simp [quiet, idle] at told
  | reaped => rfl
  | closingServer | sending | closingClient | returning => contradiction

/-- Two children exit under one signal, one of them while the handler looks. -/
theorem no_zombie_left_merged : ∃ state, (machine 0).Reachable state ∧ state.children = [.reaped, .reaped, .sending] ∧
    state.pending = false ∧ state.handler = none ∧
    ∀ child ∈ state.children, child.exited = true → child = .reaped := by
  let fork : List Action := List.replicate 4 (.main none)
  let reap : List Action := [.child 2, .kill 0, .deliver, .handler none, .handler (some 0), .kill 1,
    .handler (some 1), .handler none, .handler none, .deliver, .handler none, .handler none, .handler none]
  have reached : (machine 0).Reachable _ := ⟨fork ++ fork ++ fork ++ reap, rfl⟩
  exact ⟨_, reached, rfl, rfl, rfl, no_zombie_left 0 _ reached rfl rfl⟩

end SysProg.Network.ForkServer
