import SysProg.Library.Machine
import SysProg.Library.Descriptors

namespace SysProg.Process.ShellPipe

/-! # `04-process-management/shell_pipe.c`

The shell, the two commands it starts one after the other, and the pipe between
them. The first command writes `output` to its standard output in pieces of any
size, the second reads its standard input in pieces of any size up to the end
of the file. A pipe holds at most `capacity` bytes; a write to a pipe that
nobody can read from ends the writer, and a read finds the end of the file when
nobody can write any more. A call fails where its descriptor is not open; `fork`
and `execvp` succeed.
-/

/-- What a descriptor refers to: an end of the pipe, or a file that the shell
was started with. -/
inductive File where
  | pipeRead
  | pipeWrite
  | inherited (id : Nat)
deriving DecidableEq, Repr

inductive Command where
  | first
  | second
deriving DecidableEq, Repr

/-- The statements of `cmd_try` -/
inductive CmdTry where
  | redirecting
  | forking
  | waiting
  | restoring
  | closing
deriving DecidableEq, Repr

inductive ShellPhase where
  | dupIn
  | dupOut
  | piping
  | trying (command : Command) (statement : CmdTry)
  | exited (code : Nat)
deriving DecidableEq, Repr

/-- A command's process, with its own table of descriptors while it runs. -/
inductive Child where
  | unborn
  | running (table : Descriptors File)
  | zombie
  | waited
deriving DecidableEq, Repr

/-- `rest` is what the first command has still to write, and `received` what the
second has read. -/
structure State where
  shell : ShellPhase
  table : Descriptors File
  inD : Nat
  outD : Nat
  readEnd : Nat
  writeEnd : Nat
  first : Child
  second : Child
  rest : List UInt8
  pipe : List UInt8
  received : List UInt8
deriving DecidableEq, Repr

inductive Action where
  | shell
  | wait (command : Command)
  | write (count : Nat)
  | read (count : Nat)
deriving DecidableEq

/-- `struct Descriptors` -/
structure Redirection where
  pd : Nat
  sd : Nat
  bd : Nat

def State.des (state : State) : Command → Redirection
  | .first => { pd := state.writeEnd, sd := 1, bd := state.outD }
  | .second => { pd := state.readEnd, sd := 0, bd := state.inD }

def State.child (state : State) : Command → Child
  | .first => state.first
  | .second => state.second

def State.setChild (state : State) (command : Command) (child : Child) : State :=
  match command with
  | .first => { state with first := child }
  | .second => { state with second := child }

def Child.alive : Child → Bool
  | .running _ | .zombie => true
  | .unborn | .waited => false

/-- `cmd_try`, and what `main` does after it. `wait` is an action of its own,
except that it fails at once where there is no child. -/
def cmdTry (state : State) (command : Command) : CmdTry → Option State
  | .redirecting =>
      match state.table.dup2 (state.des command).pd (state.des command).sd with
      | none => some { state with shell := .exited 1 }
      | some table => some { state with shell := .trying command .forking, table }
  | .forking =>
      some { state.setChild command (.running state.table) with shell := .trying command .waiting }
  | .waiting =>
      if state.first.alive ∨ state.second.alive then none else some { state with shell := .exited 1 }
  | .restoring =>
      match state.table.dup2 (state.des command).bd (state.des command).sd with
      | none => some { state with shell := .exited 1 }
      | some table => some { state with shell := .trying command .closing, table }
  | .closing =>
      match state.table.close (state.des command).pd with
      | none => some { state with shell := .exited 1 }
      | some table =>
          match command with
          | .first => some { state with shell := .trying .second .redirecting, table }
          | .second => some { state with shell := .exited 0, table }

/-- `main` -/
def shellStep (state : State) : Option State :=
  match state.shell with
  | .dupIn =>
      match state.table.dup 0 with
      | none => some { state with shell := .exited 1 }
      | some (inD, table) => some { state with shell := .dupOut, inD, table }
  | .dupOut =>
      match state.table.dup 1 with
      | none => some { state with shell := .exited 1 }
      | some (outD, table) => some { state with shell := .piping, outD, table }
  | .piping =>
      let (readEnd, table) := state.table.openFile .pipeRead
      let (writeEnd, table) := table.openFile .pipeWrite
      some { state with shell := .trying .first .redirecting, readEnd, writeEnd, table }
  | .trying command statement => cmdTry state command statement
  | .exited _ => none

/-- `wait_try`, when `wait` returns the given command -/
def waitStep (state : State) (command : Command) : Option State :=
  match state.shell with
  | .trying current .waiting =>
      if state.child command = .zombie then
        some { state.setChild command .waited with shell := .trying current .restoring }
      else none
  | _ => none

def Child.Holds (file : File) : Child → Prop
  | .running table => table.Holds file
  | _ => False

instance (file : File) (child : Child) : Decidable (child.Holds file) :=
  match child with
  | .running table => inferInstanceAs (Decidable (table.Holds file))
  | .unborn | .zombie | .waited => inferInstanceAs (Decidable False)

def ShellPhase.running : ShellPhase → Bool
  | .exited _ => false
  | _ => true

/-- Some process has the file open. -/
def State.Open (state : State) (file : File) : Prop :=
  state.shell.running = true ∧ state.table.Holds file ∨ state.first.Holds file ∨ state.second.Holds file

instance (state : State) (file : File) : Decidable (state.Open file) :=
  inferInstanceAs (Decidable (_ ∨ _))

/-- The first command, which ends when it has written all its output. -/
def writeStep (capacity : Nat) (state : State) (count : Nat) : Option State :=
  match state.first with
  | .running table =>
      if state.rest = [] then some { state with first := .zombie }
      else
        match table.get 1 with
        | some .pipeWrite =>
            if ¬ state.Open .pipeRead then some { state with first := .zombie }
            else if 0 < count ∧ count ≤ state.rest.length ∧ state.pipe.length + count ≤ capacity then
              some { state with pipe := state.pipe ++ state.rest.take count, rest := state.rest.drop count }
            else none
        | _ => some { state with rest := state.rest.drop count }
  | _ => none

/-- The second command, which ends at the end of its input. -/
def readStep (state : State) (count : Nat) : Option State :=
  match state.second with
  | .running table =>
      match table.get 0 with
      | some .pipeRead =>
          if state.pipe = [] then
            if state.Open .pipeWrite then none else some { state with second := .zombie }
          else if 0 < count ∧ count ≤ state.pipe.length then
            some { state with received := state.received ++ state.pipe.take count, pipe := state.pipe.drop count }
          else none
      | _ => some { state with second := .zombie }
  | _ => none

def next (capacity : Nat) (state : State) : Action → Option State
  | .shell => shellStep state
  | .wait command => waitStep state command
  | .write count => writeStep capacity state count
  | .read count => readStep state count

/-- Standard input and output are open; `others` are the descriptors from `2` on. -/
def start (others : List (Option Nat)) (output : List UInt8) : State where
  shell := .dupIn
  table := ⟨some (.inherited 0) :: some (.inherited 1) :: others.map (Option.map .inherited)⟩
  inD := 0
  outD := 0
  readEnd := 0
  writeEnd := 0
  first := .unborn
  second := .unborn
  rest := output
  pipe := []
  received := []

def machine (capacity : Nat) (others : List (Option Nat)) (output : List UInt8) : Machine State Action where
  init := start others output
  next := next capacity

end SysProg.Process.ShellPipe
