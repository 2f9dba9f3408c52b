import SysProg.Library.Block
import SysProg.Library.Machine
import Mathlib.Data.PNat.Basic

namespace SysProg.Process.Pipe

/-! # `04-process-management/pipe.c`

The parent writes a string into the pipe and the child reads it into a buffer
that it doubles. `pipe`, `fork`, the `close` calls and the allocations of a
possible size succeed. The parent keeps its read end open while it writes, so
that no write meets a pipe without a reader.
-/

/-- `BUFSIZE` -/
def bufsize : Nat := 2

/-- The most bytes that one `write` transfers. -/
def maxCount : Nat := 0x7ffff000

/-- `strlen` -/
def strlen (array : List UInt8) : Nat := (array.takeWhile (· ≠ 0)).length

inductive ParentPhase where
  | writing
  | closingRead
  | closingWrite
  | exited (code : Nat)
deriving DecidableEq, Repr

structure Parent where
  phase : ParentPhase
  n : Int
deriving DecidableEq, Repr

/-- `printing` is after the terminator has been stored, and `crashed` after a
step that C leaves undefined. -/
inductive ChildPhase where
  | closing
  | reading
  | terminating
  | printing
  | exited (code : Nat)
  | crashed
deriving DecidableEq, Repr

/-- `buf` is `none` for `NULL`. -/
structure Child where
  phase : ChildPhase
  cap : Int
  n : Int
  buf : Option (Block UInt8)
deriving DecidableEq, Repr

structure State where
  parent : Parent
  child : Child
  pipe : List UInt8
deriving DecidableEq, Repr

/-- `write` and `read` carry what the call returns. -/
inductive Action where
  | parent
  | write (result : IoResult)
  | child
  | read (result : IoResult)
deriving DecidableEq

/-- `n < cap`, where `cap` is a `size_t` -/
def Parent.Unsent (parent : Parent) (buf : List UInt8) : Prop := parent.n % 2 ^ 64 < strlen buf

instance (parent : Parent) (buf : List UInt8) : Decidable (parent.Unsent buf) :=
  inferInstanceAs (Decidable (_ < _))

def State.setParent (state : State) (phase : ParentPhase) : State :=
  { state with parent := { state.parent with phase } }

def State.setChild (state : State) (phase : ChildPhase) : State :=
  { state with child := { state.child with phase } }

def parentStep (buf : List UInt8) (state : State) : Option State :=
  match state.parent.phase with
  | .writing => if state.parent.Unsent buf then none else some (state.setParent .closingRead)
  | .closingRead => some (state.setParent .closingWrite)
  | .closingWrite => some (state.setParent (.exited 0))
  | .exited _ => none

/-- One iteration of the parent's loop. -/
def writeStep (capacity : ℕ+) (buf : List UInt8) (state : State) (result : IoResult) : Option State :=
  if state.parent.phase = .writing ∧ state.parent.Unsent buf then
    match result with
    | .done m =>
        if 0 < m ∧ state.parent.n + m ≤ strlen buf ∧ m ≤ maxCount ∧ state.pipe.length + m ≤ capacity then
          some { state with
            parent := { state.parent with n := wrapInt (state.parent.n + m) }
            pipe := state.pipe ++ (buf.drop state.parent.n.toNat).take m }
        else none
    | .interrupted => some state
    | .failed => some (state.setParent (.exited 1))
  else none

def Child.grow (child : Child) (block : Block UInt8) : Child :=
  if child.n > child.cap - bufsize then
    { child with
      cap := wrapInt (child.cap * 2)
      buf := block.realloc (wrapInt (wrapInt (child.cap * 2) + 1)) }
  else { child with buf := some block }

/-- What follows when `read` has found the bytes of `chunk`. -/
def Child.receive (child : Child) (chunk : List UInt8) : Child :=
  match child.buf with
  | none => { child with phase := .crashed }
  | some block =>
      match block.storeFrom child.n chunk with
      | .error _ => { child with phase := .crashed }
      | .ok block => Child.grow { child with n := wrapInt (child.n + chunk.length) } block

/-- `buf[n] = 0` -/
def Child.terminate (child : Child) : Child :=
  match child.buf with
  | none => { child with phase := .crashed }
  | some block =>
      match block.store child.n 0 with
      | .error _ => { child with phase := .crashed }
      | .ok block => { child with phase := .printing, buf := some block }

/-- Some process can still write into the pipe. -/
def State.WriteOpen (state : State) : Prop :=
  state.child.phase = .closing ∨ state.parent.phase = .writing ∨ state.parent.phase = .closingRead ∨
    state.parent.phase = .closingWrite

instance (state : State) : Decidable state.WriteOpen := inferInstanceAs (Decidable (_ ∨ _))

/-- The child's `read`, which blocks while the pipe is empty and may yet be written to. -/
def readStep (state : State) (result : IoResult) : Option State :=
  if state.child.phase = .reading then
    match result with
    | .done m =>
        if state.pipe = [] then
          if m = 0 ∧ ¬ state.WriteOpen then some (state.setChild .terminating) else none
        else if 0 < m ∧ m ≤ bufsize ∧ m ≤ state.pipe.length then
          some { state with child := state.child.receive (state.pipe.take m), pipe := state.pipe.drop m }
        else none
    | .interrupted | .failed => some (state.setChild (.exited 1))
  else none

def childStep (state : State) : Option State :=
  match state.child.phase with
  | .closing =>
      some { state with
        child := { phase := .reading, cap := bufsize, n := 0, buf := some (Block.malloc (bufsize + 1)) } }
  | .terminating => some { state with child := state.child.terminate }
  | .printing => some (state.setChild (.exited 0))
  | .reading | .exited _ | .crashed => none

/-- The array `buf` of the parent ends with the NUL of its literal. -/
def machine (capacity : ℕ+) (message : List UInt8) : Machine State Action where
  init :=
    { parent := { phase := .writing, n := 0 }
      child := { phase := .closing, cap := 0, n := 0, buf := none }
      pipe := [] }
  next state
    | .parent => parentStep (message ++ [0]) state
    | .write result => writeStep capacity (message ++ [0]) state result
    | .child => childStep state
    | .read result => readStep state result

/-- Calls may be short, and `write` may be interrupted. -/
def Action.Clean : Action → Prop
  | .write result => result ≠ .failed
  | .read result => result ≠ .interrupted ∧ result ≠ .failed
  | .parent | .child => True

instance : (action : Action) → Decidable action.Clean
  | .write result => inferInstanceAs (Decidable (result ≠ .failed))
  | .read result => inferInstanceAs (Decidable (result ≠ .interrupted ∧ result ≠ .failed))
  | .parent => isTrue trivial
  | .child => isTrue trivial

/-- The runs in which no call fails but for `EINTR` of `write`. -/
def clean (capacity : ℕ+) (message : List UInt8) : Machine State Action :=
  (machine capacity message).restrict fun _ action => action.Clean

end SysProg.Process.Pipe
