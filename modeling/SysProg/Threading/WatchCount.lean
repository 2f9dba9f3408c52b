import SysProg.Library.Machine
import SysProg.Library.Threads

namespace SysProg.Threading.WatchCount

/-! # `05-threading/class/condition.c`

Two threads run `inc_count` and one runs `watch_count`; `mutex` guards `count`. A
`watch_count` in `waiting` is blocked in `pthread_cond_wait`, and a signal or a spurious
wake-up takes it to `woken`, where it waits for the mutex again.
-/

/-- `TCOUNT` -/
def tcount : Nat := 10

/-- `COUNT_LIMIT` -/
def countLimit : Nat := 12

inductive Thread where
  | watch
  | inc (id : Fin 2)
deriving DecidableEq

/-- `testing` is the head of the `for` loop, `signalling` the call where the threshold has
been reached. -/
inductive IncPhase where
  | testing
  | locking
  | counting
  | signalling
  | unlocking
  | sleeping
  | returned
deriving DecidableEq

structure Inc where
  phase : IncPhase
  i : Nat
deriving DecidableEq

inductive WatchPhase where
  | locking
  | testing
  | waiting
  | woken
  | adding
  | unlocking
  | returned
deriving DecidableEq

/-- `added` is how often `watch_count` has added to `count`. -/
structure State where
  incs : Fin 2 → Inc
  watch : WatchPhase
  mutex : Option Thread
  count : Nat
  added : Nat

inductive Action where
  | inc (id : Fin 2)
  | watch
  | spurious
deriving DecidableEq

def State.put (state : State) (id : Fin 2) (inc : Inc) : State :=
  { state with incs := Function.update state.incs id inc }

def incCount (id : Fin 2) (state : State) : Option State :=
  let inc := state.incs id
  match inc.phase with
  | .testing => some (state.put id { inc with phase := if inc.i < tcount then .locking else .returned })
  | .locking =>
      if state.mutex = none then some { state.put id { inc with phase := .counting } with mutex := some (.inc id) }
      else none
  | .counting =>
      some { state.put id { inc with phase := if state.count + 1 = countLimit then .signalling else .unlocking } with
        count := state.count + 1 }
  | .signalling =>
      some { state.put id { inc with phase := .unlocking } with
        watch := if state.watch = .waiting then .woken else state.watch }
  | .unlocking => some { state.put id { inc with phase := .sleeping } with mutex := none }
  | .sleeping => some (state.put id { phase := .testing, i := inc.i + 1 })
  | .returned => none

def watchCount (state : State) : Option State :=
  match state.watch with
  | .locking => if state.mutex = none then some { state with watch := .testing, mutex := some .watch } else none
  | .testing =>
      if state.count < countLimit then some { state with watch := .waiting, mutex := none }
      else some { state with watch := .unlocking }
  | .waiting => none
  | .woken => if state.mutex = none then some { state with watch := .adding, mutex := some .watch } else none
  | .adding => some { state with watch := .testing, count := state.count + 125, added := state.added + 1 }
  | .unlocking => some { state with watch := .returned, mutex := none }
  | .returned => none

def next (state : State) : Action → Option State
  | .inc id => incCount id state
  | .watch => watchCount state
  | .spurious => if state.watch = .waiting then some { state with watch := .woken } else none

/-- The three threads have been created. -/
def machine : Machine State Action where
  init := {
    incs := fun _ => { phase := .testing, i := 0 }
    watch := .locking
    mutex := none
    count := 0
    added := 0 }
  next := next

/-- The calls of `pthread_join` in `main` have returned. -/
def State.Joined (state : State) : Prop := state.watch = .returned ∧ ∀ id, (state.incs id).phase = .returned

end SysProg.Threading.WatchCount
