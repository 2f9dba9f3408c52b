import SysProg.Library.Machine
import Mathlib.Data.PNat.Basic

namespace SysProg.Network.SelectClient

/-! # `00-network-programming/examples/select_client.py`

The main thread appends each line to `write_queue` and sends a byte on
`write_ind`; `loop_forever` runs in a daemon thread. A message is an encoded
line. The indicator holds up to `capacity` bytes that have been sent and not
yet read, and `write_ind.send` either adds one or fails with `EAGAIN`.
-/

variable {μ : Type}

inductive Party where
  | main
  | loop
deriving DecidableEq

inductive MainPhase (μ : Type) where
  | input
  | acquiring (msg : μ)
  | appending (msg : μ)
  | releasing
  | sending
  | exited
deriving DecidableEq

/-- `loop_forever`. A phase after `select` carries whether `read_ind` is in
`selected[0]` and `sock` in `selected[1]`; `dead` is after an exception. -/
inductive LoopPhase (μ : Type) where
  | acquiring
  | testing
  | releasing
  | select
  | receiving (indicated writable : Bool)
  | indicated (indicated writable : Bool)
  | writing (writable : Bool)
  | locking
  | draining
  | popped (msg : μ)
  | sendall
  | unlocking
  | clearing
  | dead
deriving DecidableEq

/-- `wlist` is whether it contains `sock`. `appended` and `sent` list the
messages put on the queue and passed to `sock.sendall`. -/
structure State (μ : Type) where
  main : MainPhase μ
  loop : LoopPhase μ
  lines : List μ
  writeQueue : List μ
  mutex : Option Party
  unread : Nat
  wlist : Bool
  appended : List μ
  sent : List μ

/-- The choices of the environment: what `select` finds ready, and whether
`recv` and `sendall` on the connection return or raise. -/
inductive Action where
  | main
  | interrupt
  | loop
  | select (readable indicated writable : Bool)
  | recv (returns : Bool)
  | sendall (returns : Bool)
deriving DecidableEq

/-- The `while` loop of the main thread. -/
def mainStep (capacity : ℕ+) (state : State μ) : Option (State μ) :=
  match state.main with
  | .input =>
      match state.lines with
      | [] => some { state with main := .exited }
      | msg :: rest => some { state with main := .acquiring msg, lines := rest }
  | .acquiring msg =>
      if state.mutex = none then some { state with main := .appending msg, mutex := some .main } else none
  | .appending msg =>
      some { state with
        main := .releasing
        writeQueue := state.writeQueue ++ [msg]
        appended := state.appended ++ [msg] }
  | .releasing => some { state with main := .sending, mutex := none }
  | .sending =>
      if state.unread < capacity then some { state with main := .input, unread := state.unread + 1 }
      else some { state with main := .input }
  | .exited => none

/-- What `loop_forever` does between its calls on the connection and `select`. -/
def loopStep (state : State μ) : Option (State μ) :=
  match state.loop with
  | .acquiring =>
      if state.mutex = none then some { state with loop := .testing, mutex := some .loop } else none
  | .testing => some { state with loop := .releasing, wlist := decide (0 < state.writeQueue.length) }
  | .releasing => some { state with loop := .select, mutex := none }
  | .indicated indicated writable =>
      if indicated = true ∧ writable = false then
        if 0 < state.unread then some { state with loop := .writing true, unread := state.unread - 1 }
        else some { state with loop := .dead }
      else some { state with loop := .writing writable }
  | .writing writable => some { state with loop := if writable then .locking else .acquiring }
  | .locking =>
      if state.mutex = none then some { state with loop := .draining, mutex := some .loop } else none
  | .draining =>
      match state.writeQueue with
      | [] => some { state with loop := .unlocking }
      | msg :: rest => some { state with loop := .popped msg, writeQueue := rest }
  | .popped msg => some { state with loop := .sendall, sent := state.sent ++ [msg] }
  | .unlocking => some { state with loop := .clearing, mutex := none }
  | .clearing => some { state with loop := .acquiring, wlist := false }
  | .select | .receiving _ _ | .sendall | .dead => none

def next (capacity : ℕ+) (state : State μ) : Action → Option (State μ)
  | .main => mainStep capacity state
  | .interrupt =>
      match state.main with
      | .input => some { state with main := .exited }
      | _ => none
  | .loop => loopStep state
  | .select readable indicated writable =>
      match state.loop with
      | .select =>
          if (readable || indicated || writable) = true ∧ (indicated = true → 0 < state.unread) ∧
              (writable = true → state.wlist = true) then
            some { state with
              loop := if readable then .receiving indicated writable else .indicated indicated writable }
          else none
      | _ => none
  | .recv returns =>
      match state.loop with
      | .receiving indicated writable =>
          some { state with loop := if returns then .indicated indicated writable else .dead }
      | _ => none
  | .sendall returns =>
      match state.loop with
      | .sendall =>
          if returns then some { state with loop := .draining }
          else some { state with loop := .dead, mutex := none }
      | _ => none

def start (lines : List μ) : State μ where
  main := .input
  loop := .acquiring
  lines := lines
  writeQueue := []
  mutex := none
  unread := 0
  wlist := false
  appended := []
  sent := []

def machine (capacity : ℕ+) (lines : List μ) : Machine (State μ) Action where
  init := start lines
  next := next capacity

end SysProg.Network.SelectClient
