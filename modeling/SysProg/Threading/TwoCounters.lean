import SysProg.Library.Machine

namespace SysProg.Threading.TwoCounters

/-! # `05-threading/examples/src/condition.c`

One thread runs `funcCount1` and waits on `cond1`, one runs `funcCount2` and
waits on `cond2`; `cond1_mutex` guards `count`. A thread in `waiting` is blocked
in `pthread_cond_wait`, and a signal or a spurious wake-up takes it to `woken`,
where it waits for the mutex again.
-/

inductive Thread where
  | first
  | second
deriving DecidableEq

/-- `COUNT_HALT1`, `COUNT_HALT2` and `COUNT_DONE` -/
structure Thresholds where
  halt1 : Nat
  halt2 : Nat
  done : Nat
  ordered : halt1 ≤ halt2
  apart : halt2 + 1 < done

/-- `finishing` is the signal after the mutex has been given up. -/
inductive FirstPhase where
  | locking
  | testing
  | waiting
  | woken
  | printing
  | counting
  | marking
  | checking
  | signalling
  | unlocking
  | leaving
  | finishing
  | returned
deriving DecidableEq

/-- `deciding` is the test for `COUNT_DONE`, from which the thread returns
without giving up the mutex. -/
inductive SecondPhase where
  | locking
  | testing
  | waiting
  | woken
  | deciding
  | printing
  | counting
  | marking
  | checking
  | signalling
  | unlocking
  | leaving
  | returned
deriving DecidableEq

/-- `done1` and `done2` are the threads' own variables `done`. -/
structure State where
  first : FirstPhase
  second : SecondPhase
  mutex : Option Thread
  count : Nat
  done1 : Bool
  done2 : Bool
  printed : List String

inductive Action where
  | step (thread : Thread)
  | spurious (thread : Thread)
deriving DecidableEq

variable (thresholds : Thresholds)

def funcCount1 (state : State) : Option State :=
  match state.first with
  | .locking | .woken =>
      if state.mutex = none then some { state with first := .testing, mutex := some .first } else none
  | .testing =>
      if state.count ≥ thresholds.halt1 ∧ state.count ≤ thresholds.halt2 then
        some { state with first := .waiting, mutex := none }
      else some { state with first := .printing }
  | .waiting => none
  | .printing =>
      some { state with
        first := .counting
        printed := state.printed ++ ["funcCount1: " ++ toString state.count ++ "\n"] }
  | .counting => some { state with first := .marking, count := state.count + 1 }
  | .marking =>
      some { state with
        first := .checking
        done1 := if state.count ≥ thresholds.done then true else state.done1 }
  | .checking =>
      some { state with
        first := if state.count ≥ thresholds.halt1 ∧ state.count ≤ thresholds.halt2 then .signalling else .unlocking }
  | .signalling =>
      some { state with
        first := .unlocking
        second := if state.second = .waiting then .woken else state.second }
  | .unlocking => some { state with first := .leaving, mutex := none }
  | .leaving => some { state with first := if state.done1 then .finishing else .locking }
  | .finishing =>
      some { state with
        first := .returned
        second := if state.second = .waiting then .woken else state.second }
  | .returned => none

def funcCount2 (state : State) : Option State :=
  match state.second with
  | .locking | .woken =>
      if state.mutex = none then some { state with second := .testing, mutex := some .second } else none
  | .testing =>
      if state.count < thresholds.halt1 ∨ state.count > thresholds.halt2 ∧ state.count < thresholds.done then
        some { state with second := .waiting, mutex := none }
      else some { state with second := .deciding }
  | .waiting => none
  | .deciding => some { state with second := if state.count = thresholds.done then .returned else .printing }
  | .printing =>
      some { state with
        second := .counting
        printed := state.printed ++ ["func2: " ++ toString state.count ++ "\n"] }
  | .counting => some { state with second := .marking, count := state.count + 1 }
  | .marking =>
      some { state with
        second := .checking
        done2 := if state.count ≥ thresholds.done then true else state.done2 }
  | .checking =>
      some { state with
        second := if state.count < thresholds.halt1 ∨ state.count > thresholds.halt2 then .signalling else .unlocking }
  | .signalling =>
      some { state with
        second := .unlocking
        first := if state.first = .waiting then .woken else state.first }
  | .unlocking => some { state with second := .leaving, mutex := none }
  | .leaving => some { state with second := if state.done2 then .returned else .locking }
  | .returned => none

def threadStep (state : State) : Thread → Option State
  | .first => funcCount1 thresholds state
  | .second => funcCount2 thresholds state

def spuriousStep (state : State) : Thread → Option State
  | .first => if state.first = .waiting then some { state with first := .woken } else none
  | .second => if state.second = .waiting then some { state with second := .woken } else none

def next (state : State) : Action → Option State
  | .step thread => threadStep thresholds state thread
  | .spurious thread => spuriousStep state thread

/-- Both threads have been created. -/
def start : State where
  first := .locking
  second := .locking
  mutex := none
  count := 0
  done1 := false
  done2 := false
  printed := []

def machine : Machine State Action where
  init := start
  next := next thresholds

end SysProg.Threading.TwoCounters
