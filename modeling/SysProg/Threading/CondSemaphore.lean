import SysProg.Library.Machine
import Mathlib.Data.Fintype.Basic

namespace SysProg.Threading.CondSemaphore

/-! # `05-threading/examples/src/semaphore.txt`

A semaphore made of a counter, a mutex and a condition. Any number of threads
run `sem_wait`, a critical section and `sem_post` over and over. `waiting` is
blocked in `wait(inc_cond, count_mut)`, and `woken` waits for the mutex again.
-/

open Function

/-- The lines of `semaphore.txt`, from the `lock` of `sem_wait` in `entering` to
the `unlock` of `sem_post` in `releasing`. -/
inductive Phase where
  | entering
  | decrementing
  | testing
  | waiting
  | woken
  | unlocking
  | critical
  | leaving
  | incrementing
  | signalling
  | releasing
deriving DecidableEq

structure State (ι : Type) where
  threads : ι → Phase
  count : Int
  countMut : Option ι

inductive Action (ι : Type) where
  | step (who : ι)
  | signal (who : ι) (waiter : Option ι)
  | spurious (waiter : ι)

variable {ι : Type} [DecidableEq ι]

def State.go (state : State ι) (who : ι) (phase : Phase) : State ι :=
  { state with threads := update state.threads who phase }

def lock (state : State ι) (who : ι) (phase : Phase) : Option (State ι) :=
  if state.countMut = none then some { state.go who phase with countMut := some who } else none

def step (state : State ι) (who : ι) : Option (State ι) :=
  match state.threads who with
  | .entering => lock state who .decrementing
  | .decrementing => some { state.go who .testing with count := state.count - 1 }
  | .testing =>
      if state.count = -1 then some { state.go who .waiting with countMut := none }
      else some (state.go who .unlocking)
  | .waiting => none
  | .woken => lock state who .testing
  | .unlocking => some { state.go who .critical with countMut := none }
  | .critical => some (state.go who .leaving)
  | .leaving => lock state who .incrementing
  | .incrementing => some { state.go who .signalling with count := state.count + 1 }
  | .signalling => none
  | .releasing => some { state.go who .entering with countMut := none }

/-- `signal(inc_cond)`, which wakes a waiter if there is one -/
def signal [Fintype ι] (state : State ι) (who : ι) (waiter : Option ι) : Option (State ι) :=
  if state.threads who = .signalling then
    match waiter with
    | some waiter =>
        if state.threads waiter = .waiting then some ((state.go who .releasing).go waiter .woken) else none
    | none =>
        if ∀ other, state.threads other ≠ .waiting then some (state.go who .releasing) else none
  else none

def next [Fintype ι] (state : State ι) : Action ι → Option (State ι)
  | .step who => step state who
  | .signal who waiter => signal state who waiter
  | .spurious waiter => if state.threads waiter = .waiting then some (state.go waiter .woken) else none

def start (k : Nat) : State ι where
  threads := fun _ => .entering
  count := k
  countMut := none

def machine (ι : Type) [Fintype ι] [DecidableEq ι] (k : Nat) : Machine (State ι) (Action ι) where
  init := start k
  next := next

/-- The threads in the critical section. -/
def State.inside [Fintype ι] (state : State ι) : Finset ι := {who | state.threads who = .critical}

end SysProg.Threading.CondSemaphore
