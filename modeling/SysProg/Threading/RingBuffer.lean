import SysProg.Library.Machine
import Mathlib.Data.Fintype.Basic

namespace SysProg.Threading.RingBuffer

/-! # `05-threading/examples/src/producer_consumer2.c`

Any number of threads run `producer` or `consumer`, each with its own loop
count. A thread in `waiting` is blocked in `pthread_cond_wait`; a signal or a
spurious wake-up takes it to `woken`, where it waits for the mutex again.
-/

open Function

/-- `MAX`, the number of slots -/
def bufferMax : Nat := 10

inductive Role where
  | producer
  | consumer
deriving DecidableEq

/-- The phases of both loops. `accessing`, `advancing` and `counting` are the
three statements of `put` or `get`. -/
inductive Phase where
  | looping
  | locking
  | testing
  | waiting
  | woken
  | accessing
  | advancing
  | counting
  | printing
  | signalling
  | unlocking
  | sleeping
  | returned
deriving DecidableEq

structure Thread where
  role : Role
  n : Int
  i : Nat
  tmp : Int
  phase : Phase
deriving DecidableEq

variable {ι : Type}

/-- `unread` marks the slots that hold a value which no `get` has read.
`produced` and `consumed` list the values put and got, in order. -/
structure State (ι : Type) where
  threads : ι → Thread
  mutex : Option ι
  buffer : Nat → Int
  fillPtr : Nat
  usePtr : Nat
  count : Int
  printed : List String
  unread : Nat → Bool
  produced : List Int
  consumed : List Int

inductive Action (ι : Type) where
  | step (thread : ι)
  | signal (thread : ι) (waiter : Option ι)
  | spurious (waiter : ι)

variable [DecidableEq ι]

def State.set (state : State ι) (who : ι) (thread : Thread) : State ι :=
  { state with threads := update state.threads who thread }

def State.go (state : State ι) (who : ι) (phase : Phase) : State ι :=
  state.set who { state.threads who with phase }

/-- `pthread_mutex_lock`, and the end of `pthread_cond_wait` -/
def lock (state : State ι) (who : ι) : Option (State ι) :=
  if state.mutex = none then some { state.go who .testing with mutex := some who } else none

def producerStep (state : State ι) (who : ι) : Option (State ι) :=
  let thread := state.threads who
  match thread.phase with
  | .looping => some (state.go who (if thread.i < thread.n then .locking else .returned))
  | .locking | .woken => lock state who
  | .testing =>
      if state.count = bufferMax then some { state.go who .waiting with mutex := none }
      else some (state.go who .accessing)
  | .accessing =>
      some { state.go who .advancing with
        buffer := update state.buffer state.fillPtr thread.i
        unread := update state.unread state.fillPtr true
        produced := state.produced ++ [(thread.i : Int)] }
  | .advancing => some { state.go who .counting with fillPtr := (state.fillPtr + 1) % bufferMax }
  | .counting => some { state.go who .printing with count := state.count + 1 }
  | .printing =>
      some { state.go who .signalling with
        printed := state.printed ++ ["produced: " ++ toString thread.i ++ "\n"] }
  | .unlocking => some { state.go who .sleeping with mutex := none }
  | .sleeping => some (state.set who { thread with i := thread.i + 1, phase := .looping })
  | .waiting | .signalling | .returned => none

def consumerStep (state : State ι) (who : ι) : Option (State ι) :=
  let thread := state.threads who
  match thread.phase with
  | .looping => some (state.go who (if thread.i < thread.n then .locking else .returned))
  | .locking | .woken => lock state who
  | .testing =>
      if state.count = 0 then some { state.go who .waiting with mutex := none }
      else some (state.go who .accessing)
  | .accessing =>
      let tmp := state.buffer state.usePtr
      some { state.set who { thread with tmp, phase := .advancing } with
        unread := update state.unread state.usePtr false
        consumed := state.consumed ++ [tmp] }
  | .advancing => some { state.go who .counting with usePtr := (state.usePtr + 1) % bufferMax }
  | .counting => some { state.go who .printing with count := state.count - 1 }
  | .printing =>
      some { state.go who .signalling with
        printed := state.printed ++ ["consumed: " ++ toString thread.tmp ++ "\n"] }
  | .unlocking =>
      some { state.set who { thread with i := thread.i + 1, phase := .looping } with mutex := none }
  | .waiting | .signalling | .sleeping | .returned => none

/-- The thread waits on the condition that a thread of the given role signals. -/
def Thread.waitsFor (thread : Thread) (role : Role) : Prop := thread.role ≠ role ∧ thread.phase = .waiting

instance (thread : Thread) (role : Role) : Decidable (thread.waitsFor role) :=
  inferInstanceAs (Decidable (thread.role ≠ role ∧ thread.phase = .waiting))

/-- `pthread_cond_signal`, which wakes a waiter if there is one -/
def signalStep [Fintype ι] (state : State ι) (who : ι) (waiter : Option ι) : Option (State ι) :=
  let thread := state.threads who
  if thread.phase = .signalling then
    match waiter with
    | some waiter =>
        if (state.threads waiter).waitsFor thread.role then some ((state.go who .unlocking).go waiter .woken)
        else none
    | none =>
        if ∀ other, ¬ (state.threads other).waitsFor thread.role then some (state.go who .unlocking) else none
  else none

def next [Fintype ι] (state : State ι) : Action ι → Option (State ι)
  | .step who =>
      match (state.threads who).role with
      | .producer => producerStep state who
      | .consumer => consumerStep state who
  | .signal who waiter => signalStep state who waiter
  | .spurious waiter => if (state.threads waiter).phase = .waiting then some (state.go waiter .woken) else none

/-- Every thread is about to enter its loop; the statics are zero. -/
def start (role : ι → Role) (n : ι → Int) : State ι where
  threads := fun who => { role := role who, n := n who, i := 0, tmp := 0, phase := .looping }
  mutex := none
  buffer := fun _ => 0
  fillPtr := 0
  usePtr := 0
  count := 0
  printed := []
  unread := fun _ => false
  produced := []
  consumed := []

def machine [Fintype ι] (role : ι → Role) (n : ι → Int) : Machine (State ι) (Action ι) where
  init := start role n
  next := next

end SysProg.Threading.RingBuffer
