import SysProg.Library.Machine
import SysProg.Library.Threads

namespace SysProg.Critical

/-! # Critical sections

A main thread creates `n` threads one after the other and then joins them in the
same order. Each of them goes once through a section that a lock guards, in
steps that read and write what is shared and variables of its own. The lock is a
semaphore that starts at one, as a mutex is.
-/

open Function

variable {n : Nat} {σ τ : Type}

/-- The statements of one section. -/
abbrev Section (σ τ : Type) := List (σ × τ → σ × τ)

def perform (statements : Section σ τ) (start : σ × τ) : σ × τ :=
  statements.foldl (fun now statement => statement now) start

inductive Phase (σ τ : Type) where
  | outside
  | inside (left : Section σ τ) (own : τ)
  | finished

/-- `entered` lists the threads in the order in which they got the lock. -/
structure State (n : Nat) (σ τ : Type) where
  created : Nat
  joined : Nat
  threads : Fin n → Phase σ τ
  sem : Nat
  shared : σ
  entered : List (Fin n)

inductive Action (n : Nat) where
  | main
  | thread (who : Fin n)
deriving DecidableEq

def mainStep (state : State n σ τ) : Option (State n σ τ) :=
  if state.created < n then some { state with created := state.created + 1 }
  else if more : state.joined < n then
    match state.threads ⟨state.joined, more⟩ with
    | .finished => some { state with joined := state.joined + 1 }
    | .outside | .inside _ _ => none
  else none

def threadStep (body : Fin n → Section σ τ) (own : τ) (state : State n σ τ) (who : Fin n) : Option (State n σ τ) :=
  match state.threads who with
  | .outside =>
      if who < state.created ∧ 0 < state.sem then
        some { state with
          threads := update state.threads who (.inside (body who) own)
          sem := state.sem - 1
          entered := state.entered ++ [who] }
      else none
  | .inside (statement :: left) own =>
      let (shared, own) := statement (state.shared, own)
      some { state with threads := update state.threads who (.inside left own), shared }
  | .inside [] _ => some { state with threads := update state.threads who .finished, sem := state.sem + 1 }
  | .finished => none

def machine (body : Fin n → Section σ τ) (own : τ) (shared : σ) : Machine (State n σ τ) (Action n) where
  init := { created := 0, joined := 0, threads := fun _ => .outside, sem := 1, shared, entered := [] }
  next state
    | .main => mainStep state
    | .thread who => threadStep body own state who

/-- The sections one after the other. -/
def serial (body : Fin n → Section σ τ) (own : τ) (shared : σ) (order : List (Fin n)) : σ :=
  order.foldl (fun shared who => (perform (body who) (shared, own)).1) shared

/-- The main thread has joined all the others. -/
def State.Joined (state : State n σ τ) : Prop := state.joined = n

/-! ## At most one thread is inside -/

def Phase.Outside : Phase σ τ → Prop
  | .inside _ _ => False
  | .outside | .finished => True

section

variable {body : Fin n → Section σ τ} {own : τ} {shared : σ} {state after : State n σ τ} {who : Fin n}

theorem perform_concat (statements : Section σ τ) (statement : σ × τ → σ × τ) (start : σ × τ) :
    perform (statements ++ [statement]) start = statement (perform statements start) :=
  List.foldl_concat ..

theorem serial_concat (order : List (Fin n)) : serial body own shared (order ++ [who]) =
    (perform (body who) (serial body own shared order, own)).1 := by
  rw [serial, List.foldl_append]
  rfl

/-- Nobody is in a section, or one thread is part of the way through its own. -/
inductive Turn (body : Fin n → Section σ τ) (own : τ) (shared : σ) (state : State n σ τ) : Prop
  | free (open_ : state.sem = 1) (nobody : ∀ who, (state.threads who).Outside)
      (whole : state.shared = serial body own shared state.entered)
  | held (who : Fin n) (earlier : List (Fin n)) (made left : Section σ τ) (mine : τ)
      (closed : state.sem = 0) (inside : state.threads who = .inside left mine)
      (others : ∀ other, other ≠ who → (state.threads other).Outside)
      (order : state.entered = earlier ++ [who]) (part : body who = made ++ left)
      (now : (state.shared, mine) = perform made (serial body own shared earlier, own))

structure Ordered (body : Fin n → Section σ τ) (own : τ) (shared : σ) (state : State n σ τ) : Prop where
  turn : Turn body own shared state
  once : state.entered.Nodup
  entered : ∀ who, who ∈ state.entered ↔ state.threads who ≠ .outside
  joined : ∀ who : Fin n, who < state.joined → state.threads who = .finished
  most : state.joined ≤ n

theorem ordered_init : Ordered body own shared (machine body own shared).init where
  turn := .free rfl (fun _ => trivial) rfl
  once := List.nodup_nil
  entered _ := by simp [machine]
  joined _ less := absurd less (Nat.not_lt_zero _)
  most := Nat.zero_le n

/-- The thread that is in its section is the one whose turn it is. -/
theorem Turn.mine (turn : Turn body own shared state) {left : Section σ τ} {mine : τ}
    (inside : state.threads who = .inside left mine) :
    state.sem = 0 ∧ (∀ other, other ≠ who → (state.threads other).Outside) ∧
      ∃ earlier made, state.entered = earlier ++ [who] ∧ body who = made ++ left ∧
        (state.shared, mine) = perform made (serial body own shared earlier, own) := by
  cases turn with
  | free open_ nobody whole =>
      have outside := nobody who
      rw [inside] at outside
      exact outside.elim
  | held holder earlier made rest theirs closed holds others order part now =>
      by_cases same : who = holder
      · subst same
        rw [inside] at holds
        cases holds
        exact ⟨closed, others, earlier, made, order, part, now⟩
      · have outside := others who same
        rw [inside] at outside
        exact outside.elim

theorem Ordered.mainStep (ordered : Ordered body own shared state) (moved : mainStep state = some after) :
    Ordered body own shared after := by
  obtain ⟨turn, once, entered, joined, most⟩ := ordered
  have keeps : ∀ created count : Nat, (∀ who : Fin n, who < count → state.threads who = .finished) → count ≤ n →
      Ordered body own shared { state with created, joined := count } := by
    intro created count all bound
    refine ⟨?_, once, entered, all, bound⟩
    cases turn with
    | free open_ nobody whole => exact .free open_ nobody whole
    | held who earlier made left mine closed inside others order part now =>
        exact .held who earlier made left mine closed inside others order part now
  simp only [Critical.mainStep] at moved
  split at moved
  · cases moved
    exact keeps (state.created + 1) state.joined joined most
  · split at moved
    · rename_i more
      split at moved <;> cases moved
      rename_i finished
      refine keeps state.created (state.joined + 1) (fun who less => ?_) more
      rcases Nat.lt_succ_iff_lt_or_eq.mp less with before | now
      · exact joined who before
      · rw [← finished]
        exact congrArg state.threads (Fin.ext now)
    · contradiction

theorem Ordered.threadStep (ordered : Ordered body own shared state) (moved : threadStep body own state who = some after) :
    Ordered body own shared after := by
  obtain ⟨turn, once, entered, joined, most⟩ := ordered
  have stays : ∀ {phase : Phase σ τ}, state.threads who ≠ .finished →
      ∀ other : Fin n, other < state.joined → update state.threads who phase other = .finished := by
    intro phase unfinished other less
    have different : other ≠ who := fun same => unfinished (same ▸ joined other less)
    rw [update_of_ne different]
    exact joined other less
  have away : ∀ {phase : Phase σ τ}, (∀ other, other ≠ who → (state.threads other).Outside) →
      ∀ other, other ≠ who → (update state.threads who phase other).Outside := by
    intro phase others other different
    rw [update_of_ne different]
    exact others other different
  have marks : ∀ {phase : Phase σ τ}, state.threads who ≠ .outside → phase ≠ .outside →
      ∀ other, other ∈ state.entered ↔ update state.threads who phase other ≠ .outside := by
    intro phase was is other
    by_cases same : other = who
    · rw [same, update_self]
      exact iff_of_true ((entered who).mpr was) is
    · rw [update_of_ne same]
      exact entered other
  simp only [Critical.threadStep] at moved
  split at moved
  · rename_i outside
    split at moved <;> cases moved
    rename_i admitted
    have new : who ∉ state.entered := fun member => (entered who).mp member outside
    refine ⟨?_, List.nodup_append.mpr ⟨once, List.nodup_singleton _, ?_⟩, ?_, stays (by rw [outside]; nofun), most⟩
    · cases turn with
      | free open_ nobody whole =>
          exact .held who state.entered [] (body who) own (by simp [open_]) (update_self ..) (away fun other _ => nobody other)
            rfl rfl (by rw [whole]; rfl)
      | held _ _ _ _ _ closed =>
          rw [closed] at admitted
          exact absurd admitted.2 (Nat.lt_irrefl 0)
    · intro other member last only same
      rw [same, List.mem_singleton.mp only] at member
      exact new member
    · intro other
      by_cases same : other = who
      · simp [same]
      · simp [same, entered other]
  · rename_i statement left mine inside
    cases moved
    obtain ⟨closed, others, earlier, made, order, part, now⟩ := turn.mine inside
    refine ⟨?_, once, marks (by rw [inside]; nofun) nofun, stays (by rw [inside]; nofun), most⟩
    refine .held who earlier (made ++ [statement]) left (statement (state.shared, mine)).2 closed (update_self ..) (away others)
      order (by simp [part]) ?_
    rw [perform_concat, ← now]
  · rename_i mine inside
    cases moved
    obtain ⟨closed, others, earlier, made, order, part, now⟩ := turn.mine inside
    refine ⟨?_, once, marks (by rw [inside]; nofun) nofun, ?_, most⟩
    · refine .free (by simp [closed]) (fun other => ?_) ?_
      · by_cases same : other = who
        · rw [same]
          simp only [update_self]
          trivial
        · exact away others other same
      · rw [List.append_nil] at part
        show state.shared = serial body own shared state.entered
        rw [order, serial_concat, part, ← now]
    · exact stays (by rw [inside]; nofun)
  · contradiction

theorem Reachable.ordered (reached : (machine body own shared).Reachable state) : Ordered body own shared state := by
  refine reached.invariant (Ordered body own shared) ordered_init ?_
  intro before after action ordered moved
  cases action with
  | main => exact ordered.mainStep moved
  | thread who => exact ordered.threadStep moved

/-- Mutual exclusion. -/
theorem Ordered.alone (ordered : Ordered body own shared state) {one other : Fin n} {left rest : Section σ τ} {mine theirs : τ}
    (first : state.threads one = .inside left mine) (second : state.threads other = .inside rest theirs) : one = other := by
  by_contra different
  have outside := (ordered.turn.mine first).2.1 other (Ne.symm different)
  rw [second] at outside
  exact outside

/-- When all threads have been joined, what is shared is what the sections leave one after the
other, in the order in which the threads got the lock. -/
theorem Ordered.serializable (ordered : Ordered body own shared state) (joined : state.Joined) :
    state.entered.Perm (List.finRange n) ∧ state.shared = serial body own shared state.entered := by
  have all : ∀ who, state.threads who = .finished := fun who =>
    ordered.joined who (Nat.lt_of_lt_of_eq who.isLt joined.symm)
  constructor
  · refine (List.perm_ext_iff_of_nodup ordered.once (List.nodup_finRange n)).mpr fun who => ?_
    rw [ordered.entered who, all who]
    simp
  · cases ordered.turn with
    | free open_ nobody whole => exact whole
    | held who earlier made left mine closed inside others order part now =>
        rw [all who] at inside
        contradiction

/-- At any time what is shared is what some whole sections leave, and the first statements of one more. -/
theorem Ordered.part (ordered : Ordered body own shared state) :
    ∃ (earlier : List (Fin n)) (made : Section σ τ), earlier.length ≤ n ∧
      state.shared = (perform made (serial body own shared earlier, own)).1 ∧
      (made = [] ∨ earlier.length < n ∧ ∃ who, made <+: body who) := by
  have fits : state.entered.length ≤ n := by
    have bound := ordered.once.length_le_card
    rwa [Fintype.card_fin] at bound
  cases ordered.turn with
  | free open_ nobody whole => exact ⟨state.entered, [], fits, whole, .inl rfl⟩
  | held who earlier made left mine closed inside others order part now =>
      rw [order, List.length_append, List.length_singleton] at fits
      refine ⟨earlier, made, by omega, congrArg Prod.fst now, .inr ⟨by omega, who, ?_⟩⟩
      rw [part]
      exact List.prefix_append made left

/-! ## Progress -/

/-- Until all threads have been joined, the main thread or the one whose turn it is can go on. -/
theorem Ordered.goes_on (ordered : Ordered body own shared state) (unjoined : ¬ state.Joined) :
    ∃ action after, (machine body own shared).next state action = some after := by
  have more : state.joined < n := Nat.lt_of_le_of_ne ordered.most unjoined
  by_cases creating : state.created < n
  · refine ⟨.main, ?_⟩
    simp only [machine, Critical.mainStep, creating, if_true]
    exact ⟨_, rfl⟩
  · cases ordered.turn with
    | free open_ nobody whole =>
        have outside := nobody ⟨state.joined, more⟩
        cases phase : state.threads ⟨state.joined, more⟩ with
        | outside =>
            have started : state.joined < state.created := by omega
            refine ⟨.thread ⟨state.joined, more⟩, ?_⟩
            simp only [machine, Critical.threadStep, phase, started, open_, Nat.one_pos, and_self, if_true]
            exact ⟨_, rfl⟩
        | inside left mine =>
            rw [phase] at outside
            exact outside.elim
        | finished =>
            refine ⟨.main, ?_⟩
            simp only [machine, Critical.mainStep, creating, if_false, more, dite_true, phase]
            exact ⟨_, rfl⟩
    | held who earlier made left mine closed inside others order part now =>
        refine ⟨.thread who, ?_⟩
        cases left <;> simp only [machine, Critical.threadStep, inside] <;> exact ⟨_, rfl⟩

/-- The steps that a thread has still to take, where no section has more than `length` statements. -/
def Phase.rank (length : Nat) : Phase σ τ → Nat
  | .outside => length + 2
  | .inside left _ => left.length + 1
  | .finished => 0

def State.rank (length : Nat) (state : State n σ τ) : Nat :=
  (n - state.created) + (n - state.joined) + tally (Phase.rank length) state.threads

theorem next_rank {length : Nat} (short : ∀ who, (body who).length ≤ length) {action : Action n}
    (moved : (machine body own shared).next state action = some after) :
    after.rank length + 1 ≤ state.rank length := by
  cases action with
  | main =>
      simp only [machine, Critical.mainStep] at moved
      split at moved
      · cases moved
        simp only [State.rank]
        omega
      · split at moved
        · split at moved <;> cases moved
          simp only [State.rank]
          omega
        · contradiction
  | thread who =>
      have falls : ∀ {phase : Phase σ τ}, phase.rank length + 1 ≤ (state.threads who).rank length →
          tally (Phase.rank length) (update state.threads who phase) + 1 ≤ tally (Phase.rank length) state.threads := by
        intro phase less
        have changed := tally_update (Phase.rank length) state.threads who phase
        omega
      simp only [machine, Critical.threadStep] at moved
      split at moved
      · rename_i outside
        split at moved <;> cases moved
        have fits := short who
        have less := @falls (.inside (body who) own) (by rw [outside]; simp only [Phase.rank]; omega)
        simp only [State.rank]
        omega
      · rename_i statement left mine inside
        cases moved
        have less := @falls (.inside left (statement (state.shared, mine)).2)
          (by rw [inside]; simp only [Phase.rank, List.length_cons]; omega)
        simp only [State.rank]
        omega
      · rename_i mine inside
        cases moved
        have less := @falls .finished (by rw [inside]; simp only [Phase.rank]; omega)
        simp only [State.rank]
        omega
      · contradiction

theorem run_bounded {length : Nat} (short : ∀ who, (body who).length ≤ length) {actions : List (Action n)}
    (ran : (machine body own shared).run (machine body own shared).init actions = some state) :
    actions.length ≤ n * (length + 4) := by
  have counted := Machine.run_countP_le (fun _ => True) (State.rank length) (fun _ => true)
    (fun _ moved => ⟨trivial, next_rank short moved⟩) trivial ran
  have begun : (machine body own shared).init.rank length = n + n + n * (length + 2) := by
    simp [State.rank, machine, tally, Phase.rank]
  have product : n + n + n * (length + 2) = n * (length + 4) := by
    rw [Nat.mul_add, Nat.mul_add]
    omega
  rw [List.countP_true, begun, product] at counted
  omega

/-- Every interleaving can be carried on until all threads have been joined. -/
theorem exists_joined {length : Nat} (short : ∀ who, (body who).length ≤ length) :
    ∃ state, (machine body own shared).Reachable state ∧ state.Joined :=
  Machine.exists_final State.Joined (fun _ reached unjoined => (Reachable.ordered reached).goes_on unjoined)
    (fun _ _ ran => run_bounded short ran)

end

end SysProg.Critical
