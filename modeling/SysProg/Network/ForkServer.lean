import SysProg.Library.Machine
import Mathlib.Data.List.Basic

namespace SysProg.Network.ForkServer

/-! # `00-network-programming/examples/server.c`

The server from the end of `reap_zombies` on, its children, and the part of the
kernel that tells the one of the other. `SIGCHLD` is a single pending bit, which
is set whenever a child ends or stops. It is delivered between any two steps of
`main`, but not while `sigchld_handler` runs, and `main` does not go on before
the handler has returned. A call that fails leaves its number in `errno`.
-/

inductive MainPhase where
  | accepting
  | printing
  | forking
  | closing
deriving DecidableEq, Repr

/-- `tmp` is what the handler found in `errno`. -/
inductive HandlerPhase where
  | saving
  | waiting (tmp : Int)
  | restoring (tmp : Int)
deriving DecidableEq, Repr

/-- The child's branch of `main`. A `zombie` has exited and has not been waited for. -/
inductive ChildPhase where
  | closingServer
  | sending
  | closingClient
  | returning
  | zombie
  | reaped
deriving DecidableEq, Repr

def ChildPhase.running : ChildPhase → Bool
  | .closingServer | .sending | .closingClient | .returning => true
  | .zombie | .reaped => false

/-- The child exists for `waitpid`. -/
def ChildPhase.waitable : ChildPhase → Bool
  | .reaped => false
  | _ => true

def ChildPhase.exited : ChildPhase → Bool
  | .zombie | .reaped => true
  | _ => false

/-- The children are listed in the order of the forks. -/
structure State where
  main : MainPhase
  handler : Option HandlerPhase
  pending : Bool
  children : List ChildPhase
  errno : Int
deriving DecidableEq, Repr

/-- `main` makes a call, which fails with the given `errno` or succeeds; the
handler makes a step, in which `waitpid` may find the child `i`; or the child
`i` makes a step, is killed or is stopped. -/
inductive Action where
  | main (failure : Option Int)
  | deliver
  | handler (found : Option Nat)
  | child (i : Nat)
  | kill (i : Nat)
  | stop (i : Nat)
deriving DecidableEq

def echild : Int := 10

/-- The loop of `main`. The result of `accept` is not looked at. -/
def mainStep (state : State) (failure : Option Int) : Option State :=
  if state.handler = none then
    let called := { state with errno := failure.getD state.errno }
    match state.main with
    | .accepting => some { called with main := .printing }
    | .printing => some { called with main := .forking }
    | .forking =>
        match failure with
        | some _ => some { called with main := .closing }
        | none => some { called with main := .closing, children := state.children ++ [.closingServer] }
    | .closing => some { called with main := .accepting }
  else none

def deliver (state : State) : Option State :=
  if state.pending = true ∧ state.handler = none then
    some { state with handler := some .saving, pending := false }
  else none

/-- `sigchld_handler`. `waitpid` returns a zombie if there is one, `0` if there
are only running children, and `-1` if there are none. -/
def handlerStep (state : State) (found : Option Nat) : Option State :=
  match state.handler with
  | none => none
  | some .saving => some { state with handler := some (.waiting state.errno) }
  | some (.waiting tmp) =>
      match found with
      | some i =>
          if state.children[i]? = some .zombie then some { state with children := state.children.set i .reaped }
          else none
      | none =>
          if ChildPhase.zombie ∈ state.children then none
          else
            some { state with
              handler := some (.restoring tmp)
              errno := if state.children.any ChildPhase.waitable then state.errno else echild }
  | some (.restoring tmp) => some { state with handler := none, errno := tmp }

/-- The child ends, and the kernel sends `SIGCHLD`. -/
def exit (state : State) (i : Nat) : State :=
  { state with children := state.children.set i .zombie, pending := true }

def childStep (state : State) (i : Nat) : Option State :=
  match state.children[i]? with
  | some .closingServer => some { state with children := state.children.set i .sending }
  | some .sending => some { state with children := state.children.set i .closingClient }
  | some .closingClient => some { state with children := state.children.set i .returning }
  | some .returning => some (exit state i)
  | _ => none

def next (state : State) : Action → Option State
  | .main failure => mainStep state failure
  | .deliver => deliver state
  | .handler found => handlerStep state found
  | .child i => childStep state i
  | .kill i => if (state.children[i]?.map ChildPhase.running) = some true then some (exit state i) else none
  | .stop i =>
      if (state.children[i]?.map ChildPhase.running) = some true then some { state with pending := true } else none

def start (errno : Int) : State where
  main := .accepting
  handler := none
  pending := false
  children := []
  errno := errno

def machine (errno : Int) : Machine State Action where
  init := start errno
  next := next

end SysProg.Network.ForkServer
