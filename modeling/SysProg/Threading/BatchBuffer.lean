import SysProg.Library.Machine

namespace SysProg.Threading.BatchBuffer

/-! # `05-threading/examples/src/producer_consumer1.c`

One thread runs `produce`, one `consume`. As in the ring buffer, a thread in
`waiting` is blocked in `pthread_cond_wait`, and a signal or a spurious wake-up
takes it to `woken`, where it waits for the mutex again. Each condition has one
thread that waits on it. `BUFCAP` and `FILLS` are parameters.
-/

open Function

inductive Role where
  | producer
  | consumer
deriving DecidableEq

/-- `printing`, `storing` and `advancing` are the statements of `insert_one`. -/
inductive ProducerPhase where
  | locking
  | testing
  | waiting
  | woken
  | counting
  | deciding
  | printing
  | storing
  | advancing
  | checking
  | signalling
  | unlocking
  | leaving
  | returned
deriving DecidableEq

/-- `emptying` is in the loop of `remove_all`, which `removing` is about to call. -/
inductive ConsumerPhase where
  | locking
  | testing
  | waiting
  | woken
  | removing
  | emptying
  | signalling
  | unlocking
deriving DecidableEq

/-- `i` and `done` are the producer's own. `filled` and `emptied` count how
often `insert_one` has filled the buffer and `remove_all` has emptied it. -/
structure State where
  producer : ProducerPhase
  consumer : ConsumerPhase
  mutex : Option Role
  n : Int
  buf : Int → Int
  i : Nat
  done : Bool
  printed : List String
  filled : Nat
  emptied : Nat

inductive Action where
  | produce
  | consume
  | spurious (role : Role)
deriving DecidableEq

/-- `produce` -/
def producerStep (bufcap fills : Nat) (state : State) : Option State :=
  match state.producer with
  | .locking =>
      if state.mutex = none then some { state with producer := .testing, mutex := some .producer } else none
  | .testing =>
      if state.n = bufcap then some { state with producer := .waiting, mutex := none }
      else some { state with producer := .deciding }
  | .waiting => none
  | .woken =>
      if state.mutex = none then some { state with producer := .counting, mutex := some .producer } else none
  | .counting =>
      some { state with
        producer := .testing
        i := state.i + 1
        done := if state.i + 1 = fills then true else state.done }
  | .deciding => some { state with producer := if state.done then .unlocking else .printing }
  | .printing =>
      some { state with
        producer := .storing
        printed := state.printed ++ ["adding at: " ++ toString state.n ++ "\n"] }
  | .storing => some { state with producer := .advancing, buf := update state.buf state.n state.n }
  | .advancing =>
      some { state with
        producer := .checking
        n := state.n + 1
        filled := if state.n + 1 = bufcap then state.filled + 1 else state.filled }
  | .checking => some { state with producer := if state.n = bufcap then .signalling else .unlocking }
  | .signalling =>
      some { state with
        producer := .unlocking
        consumer := if state.consumer = .waiting then .woken else state.consumer }
  | .unlocking => some { state with producer := .leaving, mutex := none }
  | .leaving => some { state with producer := if state.done then .returned else .locking }
  | .returned => none

/-- `consume` -/
def consumerStep (bufcap : Nat) (state : State) : Option State :=
  match state.consumer with
  | .locking | .woken =>
      if state.mutex = none then some { state with consumer := .testing, mutex := some .consumer } else none
  | .testing =>
      if state.n < bufcap then some { state with consumer := .waiting, mutex := none }
      else some { state with consumer := .removing }
  | .waiting => none
  | .removing => some { state with consumer := .emptying }
  | .emptying =>
      if state.n > 0 then
        some { state with
          printed := state.printed ++ ["n: " ++ toString state.n ++ "\n"]
          n := state.n - 1 }
      else some { state with consumer := .signalling, emptied := state.emptied + 1 }
  | .signalling =>
      some { state with
        consumer := .unlocking
        producer := if state.producer = .waiting then .woken else state.producer }
  | .unlocking => some { state with consumer := .locking, mutex := none }

def spuriousStep (state : State) : Role → Option State
  | .producer => if state.producer = .waiting then some { state with producer := .woken } else none
  | .consumer => if state.consumer = .waiting then some { state with consumer := .woken } else none

def next (bufcap fills : Nat) (state : State) : Action → Option State
  | .produce => producerStep bufcap fills state
  | .consume => consumerStep bufcap state
  | .spurious role => spuriousStep state role

/-- Both threads have been created; the buffer is empty. -/
def start : State where
  producer := .locking
  consumer := .locking
  mutex := none
  n := 0
  buf := fun _ => 0
  i := 0
  done := false
  printed := []
  filled := 0
  emptied := 0

def machine (bufcap fills : Nat) : Machine State Action where
  init := start
  next := next bufcap fills

end SysProg.Threading.BatchBuffer
