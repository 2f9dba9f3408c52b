import SysProg.Library.Machine

namespace SysProg.Threading.MyJoin

/-! # `05-threading/examples/src/myjoin.c`

The main thread, which waits in `thr_join`, and the child, which reports in
`thr_exit`; `m` guards `done`. A parent in `waiting` is blocked in
`pthread_cond_wait`, and the signal or a spurious wake-up takes it to `woken`,
where it waits for the mutex again.
-/

inductive Thread where
  | parent
  | child
deriving DecidableEq

inductive ParentPhase where
  | creating
  | locking
  | testing
  | waiting
  | woken
  | unlocking
  | printing
  | returned
deriving DecidableEq

inductive ChildPhase where
  | unborn
  | printing
  | locking
  | setting
  | signalling
  | unlocking
  | returned
deriving DecidableEq

inductive Line where
  | parent
  | child
  | joined
deriving DecidableEq

structure State where
  parent : ParentPhase
  child : ChildPhase
  m : Option Thread
  done : Bool
  printed : List Line
deriving DecidableEq

inductive Action where
  | parent
  | child
  | spurious
deriving DecidableEq

/-- `main` and, from `locking` to `unlocking`, `thr_join` -/
def thrJoin (state : State) : Option State :=
  match state.parent with
  | .creating => some { state with parent := .locking, child := .printing }
  | .locking | .woken =>
      if state.m = none then some { state with parent := .testing, m := some .parent } else none
  | .testing =>
      if state.done then some { state with parent := .unlocking }
      else some { state with parent := .waiting, m := none }
  | .waiting => none
  | .unlocking => some { state with parent := .printing, m := none }
  | .printing => some { state with parent := .returned, printed := state.printed ++ [.joined] }
  | .returned => none

/-- `child` and, from `locking` to `unlocking`, `thr_exit`. When the main thread
has returned, the process is over. -/
def thrExit (state : State) : Option State :=
  if state.parent = .returned then none
  else
    match state.child with
    | .unborn => none
    | .printing => some { state with child := .locking, printed := state.printed ++ [.child] }
    | .locking => if state.m = none then some { state with child := .setting, m := some .child } else none
    | .setting => some { state with child := .signalling, done := true }
    | .signalling =>
        some { state with
          child := .unlocking
          parent := if state.parent = .waiting then .woken else state.parent }
    | .unlocking => some { state with child := .returned, m := none }
    | .returned => none

def next (state : State) : Action → Option State
  | .parent => thrJoin state
  | .child => thrExit state
  | .spurious => if state.parent = .waiting then some { state with parent := .woken } else none

/-- `main` has printed its first line. -/
def machine : Machine State Action where
  init := { parent := .creating, child := .unborn, m := none, done := false, printed := [.parent] }
  next := next

/-! ## The lock and the flag -/

def ParentPhase.critical : ParentPhase → Bool
  | .testing | .unlocking => true
  | .creating | .locking | .waiting | .woken | .printing | .returned => false

def ChildPhase.critical : ChildPhase → Bool
  | .setting | .signalling | .unlocking => true
  | .unborn | .printing | .locking | .returned => false

/-- The child has set `done`. -/
def ChildPhase.hasSet : ChildPhase → Bool
  | .signalling | .unlocking | .returned => true
  | .unborn | .printing | .locking | .setting => false

def ChildPhase.lines : ChildPhase → List Line
  | .unborn | .printing => []
  | .locking | .setting | .signalling | .unlocking | .returned => [.child]

def ParentPhase.lines : ParentPhase → List Line
  | .returned => [.joined]
  | .creating | .locking | .testing | .waiting | .woken | .unlocking | .printing => []

structure State.Sound (state : State) : Prop where
  parentOwns : state.parent.critical = true ↔ state.m = some .parent
  childOwns : state.child.critical = true ↔ state.m = some .child
  set : state.done = state.child.hasSet
  created : state.parent = .creating ↔ state.child = .unborn
  joins : state.parent = .unlocking ∨ state.parent = .printing ∨ state.parent = .returned → state.done = true
  /-- The signal is not lost. -/
  waits : state.parent = .waiting → state.done = false ∨ state.child = .signalling
  lines : state.printed = [.parent] ++ state.child.lines ++ state.parent.lines

variable {state after : State}

theorem sound_init : machine.init.Sound where
  parentOwns := by decide
  childOwns := by decide
  set := rfl
  created := by decide
  joins := by decide
  waits := by decide
  lines := rfl

/-- A parent that goes on with the lock, and with what is printed, as they are. -/
theorem State.Sound.thrJoin (sound : state.Sound) (moved : thrJoin state = some after) : after.Sound := by
  obtain ⟨parentOwns, childOwns, set, created, joins, waits, lines⟩ := sound
  cases phase : state.parent
  all_goals simp only [MyJoin.thrJoin, phase] at moved parentOwns created joins waits lines
  case creating =>
      cases moved
      have unborn := created.mp trivial
      simp only [unborn] at childOwns set lines
      exact ⟨parentOwns, childOwns, set, by simp, by simp, by simp, lines⟩
  case locking | woken =>
      split at moved <;> cases moved
      rename_i free
      rw [free] at childOwns
      refine ⟨by simp [ParentPhase.critical], ?_, set, by simpa using created, by simp, by simp, lines⟩
      simpa using childOwns
  case testing =>
      split at moved
      · rename_i finished
        cases moved
        exact ⟨parentOwns, childOwns, set, by simpa using created, fun _ => finished, by simp, lines⟩
      · rename_i unfinished
        have owner := parentOwns.mp rfl
        rw [owner] at childOwns
        cases moved
        refine ⟨by simp [ParentPhase.critical], ?_, set, by simpa using created, by simp, ?_, lines⟩
        · simpa using childOwns
        · exact fun _ => .inl (Bool.eq_false_iff.mpr unfinished)
  case waiting | returned => contradiction
  case unlocking =>
      have owner := parentOwns.mp rfl
      rw [owner] at childOwns
      cases moved
      refine ⟨by simp [ParentPhase.critical], ?_, set, by simpa using created, fun _ => joins (.inl trivial), by simp, lines⟩
      simpa using childOwns
  case printing =>
      cases moved
      refine ⟨parentOwns, childOwns, set, by simpa using created, fun _ => joins (.inr (.inl trivial)), by simp, ?_⟩
      simp [lines, ParentPhase.lines]

theorem State.Sound.thrExit (sound : state.Sound) (moved : thrExit state = some after) : after.Sound := by
  obtain ⟨parentOwns, childOwns, set, created, joins, waits, lines⟩ := sound
  simp only [MyJoin.thrExit] at moved
  split at moved <;> try contradiction
  rename_i running
  have quiet : state.parent.lines = [] := by
    cases phase : state.parent <;> first | rfl | exact absurd phase running
  cases phase : state.child
  all_goals simp only [phase] at moved childOwns set created waits lines
  case unborn | returned => contradiction
  case printing =>
      cases moved
      refine ⟨parentOwns, childOwns, set, by simpa using created, joins, by simpa using waits, ?_⟩
      simp [lines, quiet, ChildPhase.lines]
  case locking =>
      split at moved <;> cases moved
      rename_i free
      rw [free] at parentOwns
      refine ⟨by simpa using parentOwns, by simp [ChildPhase.critical], set, by simpa using created, joins, ?_, lines⟩
      simpa using waits
  case setting =>
      cases moved
      exact ⟨parentOwns, childOwns, rfl, by simpa using created, fun _ => rfl, fun _ => .inr rfl, lines⟩
  case signalling =>
      cases moved
      by_cases waiting : state.parent = .waiting
      · simp only [waiting, if_true]
        rw [waiting] at parentOwns lines
        exact ⟨parentOwns, childOwns, set, by simp, by simp, by simp, lines⟩
      · simp only [waiting, if_false]
        exact ⟨parentOwns, childOwns, set, by simpa using created, joins, fun still => absurd still waiting, lines⟩
  case unlocking =>
      have owner := childOwns.mp rfl
      rw [owner] at parentOwns
      cases moved
      refine ⟨by simpa using parentOwns, by simp [ChildPhase.critical], set, by simpa using created, joins, ?_, lines⟩
      simpa using waits

theorem State.Sound.next {action : Action} (sound : state.Sound) (moved : next state action = some after) :
    after.Sound := by
  cases action with
  | parent => exact sound.thrJoin moved
  | child => exact sound.thrExit moved
  | spurious =>
      obtain ⟨parentOwns, childOwns, set, created, joins, waits, lines⟩ := sound
      simp only [MyJoin.next] at moved
      split at moved <;> cases moved
      rename_i waiting
      rw [waiting] at parentOwns created lines
      exact ⟨parentOwns, childOwns, set, by simpa using created, by simp, by simp, lines⟩

/-! ## Progress -/

theorem thrJoin_enabled (free : state.m = none ∨ state.parent.critical = true) (running : state.parent ≠ .returned)
    (notWaiting : state.parent ≠ .waiting) : ∃ after, thrJoin state = some after := by
  simp only [thrJoin]
  cases phase : state.parent
  case locking | woken =>
      have unlocked : state.m = none := free.resolve_right (by simp [phase, ParentPhase.critical])
      simp only [unlocked, if_true]
      exact ⟨_, rfl⟩
  case testing =>
      by_cases finished : state.done = true
      · simp only [finished, if_true]
        exact ⟨_, rfl⟩
      · simp only [finished]
        exact ⟨_, rfl⟩
  case waiting => exact absurd phase notWaiting
  case returned => exact absurd phase running
  all_goals exact ⟨_, rfl⟩

theorem thrExit_enabled (free : state.m = none ∨ state.child.critical = true) (running : state.parent ≠ .returned)
    (born : state.child ≠ .unborn) (alive : state.child ≠ .returned) : ∃ after, thrExit state = some after := by
  simp only [thrExit, running, if_false]
  cases phase : state.child
  case locking =>
      have unlocked : state.m = none := free.resolve_right (by simp [phase, ChildPhase.critical])
      simp only [unlocked, if_true]
      exact ⟨_, rfl⟩
  case unborn => exact absurd phase born
  case returned => exact absurd phase alive
  all_goals exact ⟨_, rfl⟩

/-- Until the main thread has returned, one of the two has a step that needs no spurious wake-up. -/
theorem State.Sound.goes_on (sound : state.Sound) (running : state.parent ≠ .returned) :
    ∃ action after, action ≠ .spurious ∧ MyJoin.next state action = some after := by
  by_cases inside : state.child.critical = true
  · have alive : state.child ≠ .unborn ∧ state.child ≠ .returned := by
      constructor <;> intro phase <;> rw [phase] at inside <;> contradiction
    obtain ⟨after, moved⟩ := thrExit_enabled (.inr inside) running alive.1 alive.2
    exact ⟨.child, after, nofun, moved⟩
  · by_cases waiting : state.parent = .waiting
    · have unlocked : state.m = none := by
        have parentOwns := sound.parentOwns
        rw [waiting] at parentOwns
        cases owner : state.m with
        | none => rfl
        | some thread =>
            cases thread with
            | parent => exact absurd (parentOwns.mpr owner) (by decide)
            | child => exact absurd (sound.childOwns.mpr owner) inside
      have born : state.child ≠ .unborn := fun unborn => by
        have creating := sound.created.mpr unborn
        rw [waiting] at creating
        contradiction
      have alive : state.child ≠ .returned := by
        intro returned
        rcases sound.waits waiting with unset | signalling
        · rw [sound.set, returned] at unset
          contradiction
        · rw [returned] at signalling
          contradiction
      obtain ⟨after, moved⟩ := thrExit_enabled (.inl unlocked) running born alive
      exact ⟨.child, after, nofun, moved⟩
    · have free : state.m = none ∨ state.parent.critical = true := by
        cases owner : state.m with
        | none => exact .inl rfl
        | some thread =>
            cases thread with
            | parent => exact .inr (sound.parentOwns.mpr owner)
            | child => exact absurd (sound.childOwns.mpr owner) inside
      obtain ⟨after, moved⟩ := thrJoin_enabled free running waiting
      exact ⟨.parent, after, nofun, moved⟩

/-- A spurious wake-up sends the parent around its loop once more. -/
def ParentPhase.rank : ParentPhase → Nat
  | .creating => 8
  | .locking | .woken => 7
  | .testing => 6
  | .waiting => 5
  | .unlocking => 2
  | .printing => 1
  | .returned => 0

def ChildPhase.rank : ChildPhase → Nat
  | .unborn | .printing => 7
  | .locking => 6
  | .setting => 5
  | .signalling => 4
  | .unlocking => 1
  | .returned => 0

def Action.gain : Action → Nat
  | .spurious => 3
  | .parent | .child => 0

theorem next_rank {action : Action} (sound : state.Sound) (moved : next state action = some after) :
    after.parent.rank + after.child.rank + 1 ≤ state.parent.rank + state.child.rank + action.gain := by
  cases action with
  | parent =>
      have created := sound.created
      cases phase : state.parent
      all_goals simp only [next, thrJoin, phase] at moved created
      case locking | woken =>
          split at moved <;> cases moved
          simp only [ParentPhase.rank, Action.gain]
          omega
      case testing =>
          split at moved
          all_goals
            cases moved
            simp only [ParentPhase.rank, Action.gain]
            omega
      case waiting | returned => contradiction
      case creating =>
          cases moved
          rw [created.mp trivial]
          exact Nat.le_refl 15
      all_goals
        cases moved
        simp only [ParentPhase.rank, Action.gain]
        omega
  | child =>
      simp only [next, thrExit] at moved
      split at moved <;> try contradiction
      cases phase : state.child
      all_goals simp only [phase] at moved
      case locking =>
          split at moved <;> cases moved
          simp only [ChildPhase.rank, Action.gain]
          omega
      case signalling =>
          cases moved
          by_cases waiting : state.parent = .waiting
          · simp only [waiting, if_true]
            decide
          · simp only [waiting, if_false, ChildPhase.rank, Action.gain]
            omega
      case unborn | returned => contradiction
      all_goals
        cases moved
        simp only [ChildPhase.rank, Action.gain]
        omega
  | spurious =>
      simp only [next] at moved
      split at moved <;> cases moved
      rename_i waiting
      simp only [waiting, ParentPhase.rank, Action.gain]
      omega

/-- In every interleaving, and with any spurious wake-ups, the main thread returns only after the
child has run, one of them can go on until then, and that takes fifteen steps at most, not counting
three for each spurious wake-up. -/
theorem my_join_returns :
    (∀ state, machine.Reachable state → state.parent = .returned →
      state.done = true ∧ state.printed = [.parent, .child, .joined]) ∧
    (∀ state, machine.Reachable state → state.parent ≠ .returned → ∃ action after, action ≠ .spurious ∧
      machine.next state action = some after) ∧
    ∀ actions state, machine.run machine.init actions = some state →
      actions.length ≤ 15 + Machine.gained Action.gain actions := by
  have sound : ∀ state, machine.Reachable state → state.Sound := fun state reached =>
    reached.invariant State.Sound sound_init (fun sound moved => sound.next moved)
  refine ⟨?_, fun state reached running => (sound state reached).goes_on running, ?_⟩
  · intro state reached returned
    have finished := (sound state reached).joins (.inr (.inr returned))
    refine ⟨finished, ?_⟩
    have set := (sound state reached).set
    rw [(sound state reached).lines, returned]
    rw [finished] at set
    cases phase : state.child <;> rw [phase] at set <;> first | rfl | contradiction
  · intro actions state ran
    have length := Machine.run_length_le State.Sound (fun state => state.parent.rank + state.child.rank) Action.gain
      (fun sound moved => ⟨sound.next moved, next_rank sound moved⟩) sound_init ran
    have begun : machine.init.parent.rank + machine.init.child.rank = 15 := rfl
    omega

/-- The parent waits, is woken for nothing, and waits again until the child signals. -/
def wokenTwice : List Action :=
  [.parent, .parent, .parent, .spurious, .parent, .parent, .child, .child, .child, .child, .child,
    .parent, .parent, .parent, .parent]

theorem my_join_returns_woken : ∃ state, machine.Reachable state ∧ state.printed = [.parent, .child, .joined] ∧
    wokenTwice.length ≤ 18 := by
  obtain ⟨state, ran, observed⟩ := Option.map_eq_some_iff.mp
    (show (machine.run machine.init wokenTwice).map (fun state => state.parent) = some .returned by decide)
  exact ⟨state, ⟨_, ran⟩, (my_join_returns.1 state ⟨_, ran⟩ observed).2, my_join_returns.2.2 _ state ran⟩

end SysProg.Threading.MyJoin
