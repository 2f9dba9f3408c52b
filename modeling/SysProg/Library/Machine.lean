import Mathlib.Logic.Function.Basic

namespace SysProg

/-! # Labelled machines

A machine is an executable transition function. An action names the party that
moves and the choice its environment makes for it, so that one list of actions
is one interleaving. A step that is not enabled is `none`.
-/

structure Machine (σ α : Type) where
  init : σ
  next : σ → α → Option σ

namespace Machine

variable {σ α : Type} (machine : Machine σ α)

def run : σ → List α → Option σ
  | state, [] => some state
  | state, action :: rest => (machine.next state action).bind (run · rest)

/-- The states of all interleavings from the initial state. -/
def Reachable (state : σ) : Prop :=
  ∃ actions, machine.run machine.init actions = some state

/-- Every step of the run is taken from a state that `holds` admits for the action. -/
def Along (holds : σ → α → Prop) : σ → List α → Prop
  | _, [] => True
  | state, action :: rest =>
      holds state action ∧ ∀ after, machine.next state action = some after → Along holds after rest

/-- No step is enabled. -/
def Stuck (state : σ) : Prop := ∀ action, machine.next state action = none

/-- The machine all of whose steps are taken from states that `allowed` admits
for the action. -/
def restrict (allowed : σ → α → Prop) [∀ state action, Decidable (allowed state action)] :
    Machine σ α where
  init := machine.init
  next state action := if allowed state action then machine.next state action else none

variable {machine}

theorem run_cons {state final : σ} {action : α} {rest : List α} : machine.run state (action :: rest) = some final ↔
    ∃ after, machine.next state action = some after ∧ machine.run after rest = some final :=
  Option.bind_eq_some_iff

theorem run_append {first second : List α} {state middle : σ}
    (begun : machine.run state first = some middle) :
    machine.run state (first ++ second) = machine.run middle second := by
  induction first generalizing state with
  | nil => cases begun; rfl
  | cons action rest ih =>
      obtain ⟨next, moved, continued⟩ := run_cons.mp begun
      simp only [List.cons_append, run, moved, Option.bind_some, ih continued]

theorem run_invariant (holds : σ → Prop) {state final : σ} {actions : List α}
    (preserved : ∀ {before after action}, holds before →
      machine.next before action = some after → holds after)
    (start : holds state) (ran : machine.run state actions = some final) : holds final := by
  induction actions generalizing state with
  | nil => cases ran; exact start
  | cons action rest ih =>
      obtain ⟨next, moved, continued⟩ := run_cons.mp ran
      exact ih (preserved start moved) continued

theorem along_cons {holds : σ → α → Prop} {state after : σ} {action : α} {rest : List α}
    (moved : machine.next state action = some after) :
    machine.Along holds state (action :: rest) ↔ holds state action ∧ machine.Along holds after rest := by
  simp [Along, moved]

theorem along_of_forall {holds : σ → α → Prop} {state : σ} {actions : List α}
    (all : ∀ action, action ∈ actions → ∀ state, holds state action) : machine.Along holds state actions := by
  induction actions generalizing state with
  | nil => trivial
  | cons action rest ih =>
      exact ⟨all action List.mem_cons_self state, fun _ _ => ih fun later member => all later (List.mem_cons_of_mem _ member)⟩

/-- What a step keeps just where it is admitted, a run keeps just where all its steps are. -/
theorem run_along_iff {holds : σ → α → Prop} (inv good : σ → Prop) {state final : σ} {actions : List α}
    (stepped : ∀ {before after action}, inv before → machine.next before action = some after →
      inv after ∧ (good after ↔ good before ∧ holds before action))
    (start : inv state) (ran : machine.run state actions = some final) :
    good final ↔ good state ∧ machine.Along holds state actions := by
  induction actions generalizing state with
  | nil =>
      cases ran
      exact ⟨fun kept => ⟨kept, trivial⟩, And.left⟩
  | cons action rest ih =>
      obtain ⟨next, moved, continued⟩ := run_cons.mp ran
      obtain ⟨kept, step⟩ := stepped start moved
      rw [along_cons moved, ih kept continued, step, and_assoc]

theorem reachable_init : machine.Reachable machine.init := ⟨[], rfl⟩

theorem Reachable.next {before after : σ} (reached : machine.Reachable before) (action : α)
    (moved : machine.next before action = some after) :
    machine.Reachable after := by
  obtain ⟨actions, ran⟩ := reached
  refine ⟨actions ++ [action], ?_⟩
  rw [run_append ran]
  simp only [run, moved, Option.bind_some]

theorem Reachable.run {before after : σ} (reached : machine.Reachable before) (actions : List α)
    (ran : machine.run before actions = some after) :
    machine.Reachable after := by
  obtain ⟨earlier, arrived⟩ := reached
  exact ⟨earlier ++ actions, (run_append arrived).trans ran⟩

/-- A run whose outcome has been computed in part. -/
theorem exists_reachable {β : Type} (machine : Machine σ α) (observe : σ → β) (value : β) (actions : List α)
    (ran : (machine.run machine.init actions).map observe = some value) :
    ∃ state, machine.Reachable state ∧ observe state = value := by
  obtain ⟨state, arrived, observed⟩ := Option.map_eq_some_iff.mp ran
  exact ⟨state, ⟨actions, arrived⟩, observed⟩

/-- The invariant rule for every reachable state. -/
theorem Reachable.invariant {state : σ} (reached : machine.Reachable state) (holds : σ → Prop)
    (initial : holds machine.init)
    (preserved : ∀ {before after action}, holds before →
      machine.next before action = some after → holds after) : holds state := by
  obtain ⟨actions, ran⟩ := reached
  exact run_invariant holds preserved initial ran

/-- A rank that no step raises and every counted step lowers bounds the counted
steps of a run. -/
theorem run_countP_le (holds : σ → Prop) (rank : σ → Nat) (counted : α → Bool) {state final : σ} {actions : List α}
    (lowered : ∀ {before after action}, holds before → machine.next before action = some after →
      holds after ∧ rank after + (if counted action then 1 else 0) ≤ rank before)
    (start : holds state) (ran : machine.run state actions = some final) :
    rank final + actions.countP counted ≤ rank state := by
  induction actions generalizing state with
  | nil => cases ran; simp
  | cons action rest ih =>
      obtain ⟨next, moved, continued⟩ := run_cons.mp ran
      obtain ⟨kept, less⟩ := lowered start moved
      have remaining := ih kept continued
      rw [List.countP_cons]
      omega

/-- What the actions of a run gain together. -/
def gained (gain : α → Nat) : List α → Nat
  | [] => 0
  | action :: rest => gain action + gained gain rest

/-- A rank that every step lowers, except for what its action gains, bounds the length of a run. -/
theorem run_length_le (holds : σ → Prop) (rank : σ → Nat) (gain : α → Nat) {state final : σ} {actions : List α}
    (lowered : ∀ {before after action}, holds before → machine.next before action = some after →
      holds after ∧ rank after + 1 ≤ rank before + gain action)
    (start : holds state) (ran : machine.run state actions = some final) :
    rank final + actions.length ≤ rank state + gained gain actions := by
  induction actions generalizing state with
  | nil => cases ran; exact Nat.le_refl _
  | cons action rest ih =>
      obtain ⟨next, moved, continued⟩ := run_cons.mp ran
      obtain ⟨kept, less⟩ := lowered start moved
      have remaining := ih kept continued
      rw [List.length_cons, gained]
      omega

/-- A machine that can always go on until it is done, but not for ever, gets done. -/
theorem exists_final (done : σ → Prop) {bound : Nat}
    (progress : ∀ state, machine.Reachable state → ¬ done state → ∃ action after, machine.next state action = some after)
    (bounded : ∀ actions state, machine.run machine.init actions = some state → actions.length ≤ bound) :
    ∃ state, machine.Reachable state ∧ done state := by
  by_contra never
  have longer : ∀ count, ∃ actions state, machine.run machine.init actions = some state ∧ actions.length = count := by
    intro count
    induction count with
    | zero => exact ⟨[], machine.init, rfl, rfl⟩
    | succ count ih =>
        obtain ⟨actions, state, ran, length⟩ := ih
        have undone : ¬ done state := fun finished => never ⟨state, ⟨actions, ran⟩, finished⟩
        obtain ⟨action, after, moved⟩ := progress state ⟨actions, ran⟩ undone
        refine ⟨actions ++ [action], after, ?_, by simp [length]⟩
        rw [run_append ran]
        simp only [run, moved, Option.bind_some]
  obtain ⟨actions, state, ran, length⟩ := longer (bound + 1)
  have := bounded actions state ran
  omega

/-- A machine with a step that lowers the rank, wherever it is not done, can get done in as many
steps as the rank has. -/
theorem exists_run_done (holds done : σ → Prop) (rank : σ → Nat)
    (progress : ∀ before, holds before → ¬ done before →
      ∃ action after, machine.next before action = some after ∧ holds after ∧ rank after < rank before)
    {state : σ} (start : holds state) :
    ∃ actions final, machine.run state actions = some final ∧ holds final ∧ done final ∧ actions.length ≤ rank state := by
  induction size : rank state using Nat.strongRecOn generalizing state with
  | _ count ih =>
      by_cases finished : done state
      · exact ⟨[], state, rfl, start, finished, Nat.zero_le _⟩
      · obtain ⟨action, after, moved, kept, less⟩ := progress state start finished
        obtain ⟨actions, final, ran, last, ended, short⟩ := ih (rank after) (size ▸ less) kept rfl
        refine ⟨action :: actions, final, run_cons.mpr ⟨after, moved, ran⟩, last, ended, ?_⟩
        rw [List.length_cons]
        omega

theorem Reachable.exists_done {state : σ} (reached : machine.Reachable state) (done : σ → Prop) (rank : σ → Nat)
    (progress : ∀ before, machine.Reachable before → ¬ done before →
      ∃ action after, machine.next before action = some after ∧ rank after < rank before) :
    ∃ final, machine.Reachable final ∧ done final := by
  obtain ⟨_, final, _, arrived, finished, _⟩ := exists_run_done machine.Reachable done rank (fun before known undone => by
    obtain ⟨action, after, moved, less⟩ := progress before known undone
    exact ⟨action, after, moved, known.next action moved, less⟩) reached
  exact ⟨final, arrived, finished⟩

theorem restrict_next {allowed : σ → α → Prop} [∀ state action, Decidable (allowed state action)]
    {before after : σ} {action : α} (moved : (machine.restrict allowed).next before action = some after) :
    allowed before action ∧ machine.next before action = some after := by
  simp only [restrict] at moved
  split at moved
  · exact ⟨‹_›, moved⟩
  · contradiction

theorem restrict_step {allowed : σ → α → Prop} [∀ state action, Decidable (allowed state action)]
    {before after : σ} {action : α} (permitted : allowed before action) (moved : machine.next before action = some after) :
    (machine.restrict allowed).next before action = some after := by
  simp only [restrict, permitted, if_true, moved]

end Machine

end SysProg
