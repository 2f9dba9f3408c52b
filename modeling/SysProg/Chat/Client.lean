import SysProg.Library.Machine
import SysProg.Chat.Deque.Behaviour

namespace SysProg.Chat.Client

/-! # `chat/client.c`

`main` reads lines, appends each to the queue and writes one byte to a pipe;
the thread of `run_eloop` selects on the pipe and the connection, and for each
byte takes one message from the queue and sends it. Each `llist` call is one
step, and `sendall` sends its whole message. A message is what one `fgets`
returns, as a string.
-/

variable {μ : Type}

inductive MainPhase (μ : Type) where
  | fgets
  | adding (msg : μ)
  | writing
  | stopping
  | ended
  | crashed
deriving DecidableEq

/-- The event loop. `sending none` has `msg == NULL`; `crashed`, in either
thread, is after a step that C leaves undefined. -/
inductive LoopPhase (μ : Type) where
  | select
  | reading
  | removing
  | sending (msg : Option μ)
  | receiving
  | returned
  | crashed
deriving DecidableEq

structure State (μ : Type) where
  main : MainPhase μ
  loop : LoopPhase μ
  input : List μ
  store : Store μ
  pipe : Nat
  typed : List μ
  sent : List μ

inductive Action where
  | fgets
  | addl (node : Nat)
  | write
  | join
  | selectPipe
  | selectSocket
  | selectFailed
  | read
  | remf
  | send
  | recv (received : Bool)
  | cancelled
deriving DecidableEq

/-- Calls at which a cancelled event loop may end. -/
def LoopPhase.cancellable : LoopPhase μ → Bool
  | .select | .reading | .sending _ | .receiving => true
  | .removing | .returned | .crashed => false

def next (capacity : Nat) (state : State μ) : Action → Option (State μ)
  | .fgets =>
      match state.main, state.input with
      | .fgets, [] => some { state with main := .stopping }
      | .fgets, line :: rest =>
          some { state with main := .adding line, input := rest, typed := state.typed ++ [line] }
      | _, _ => none
  | .addl node =>
      match state.main with
      | .adding msg =>
          if (state.store.heap node).isNone then
            match llistAddl state.store (some msg) (some node) with
            | .ok (_, store) => some { state with main := .writing, store }
            | .error _ => some { state with main := .crashed }
          else none
      | _ => none
  | .write =>
      match state.main with
      | .writing =>
          if state.pipe < capacity then some { state with main := .fgets, pipe := state.pipe + 1 } else none
      | _ => none
  | .join =>
      match state.main, state.loop with
      | .stopping, .returned => some { state with main := .ended }
      | _, _ => none
  | .selectPipe =>
      match state.loop with
      | .select => if 0 < state.pipe then some { state with loop := .reading } else none
      | _ => none
  | .selectSocket =>
      match state.loop with
      | .select => if state.pipe = 0 then some { state with loop := .receiving } else none
      | _ => none
  | .selectFailed =>
      match state.loop with
      | .select => some { state with loop := .returned }
      | _ => none
  | .read =>
      match state.loop with
      | .reading =>
          if 0 < state.pipe then some { state with loop := .removing, pipe := state.pipe - 1 } else none
      | _ => none
  | .remf =>
      match state.loop with
      | .removing =>
          match llistRemf state.store with
          | .ok (msg, store) => some { state with loop := .sending msg, store }
          | .error _ => some { state with loop := .crashed }
      | _ => none
  | .send =>
      match state.loop with
      | .sending (some msg) => some { state with loop := .select, sent := state.sent ++ [msg] }
      | .sending none => some { state with loop := .crashed }
      | _ => none
  | .recv received =>
      match state.loop with
      | .receiving => some { state with loop := if received then .select else .returned }
      | _ => none
  | .cancelled =>
      match state.main with
      | .stopping => if state.loop.cancellable then some { state with loop := .returned } else none
      | _ => none

def start (lines : List μ) : State μ where
  main := .fgets
  loop := .select
  input := lines
  store := llistInit
  pipe := 0
  typed := []
  sent := []

def machine (capacity : Nat) (lines : List μ) : Machine (State μ) Action where
  init := start lines
  next := next capacity

end SysProg.Chat.Client
