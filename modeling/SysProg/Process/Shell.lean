import SysProg.Library.Machine
import SysProg.Library.Strtok
import Mathlib.Data.PNat.Basic

namespace SysProg.Process.Shell

/-! # `04-process-management/shell.c`

`fork` and `waitpid` succeed, and so do the allocations of a possible size. The
bytes of the input are those that `fgetc` returns before the end of file; the
commands leave it alone. The `exit` of a child whose `execvp` has failed does not:
it moves the offset of a seekable stdin, which the shell shares, back over what
is still in the buffer, so that the shell gets these bytes once more. Whether
`realloc` moves a block is a parameter.
-/

/-- `CAPINIT` -/
def capInit : Nat := 8

/-- `DELIMS` -/
def isDelim (byte : UInt8) : Bool := [32, 9, 13, 10, 7].contains byte

/-! ## `ezsh_read_line` -/

/-- `make_buffer_or_exit`, which exits where the size is not that of an object. -/
def makeBufferOrExit (n : Int) : Option (Block UInt8) :=
  if n % 2 ^ 64 < 2 ^ 63 then some (Block.malloc (n % 2 ^ 64).toNat) else none

/-- `for(int i=0; i<len; ++i) tmp[i] = buf[i];` with `rest` iterations left. -/
def copyFrom (buf : Block UInt8) : Nat → Nat → Block UInt8 → Except Trap (Block UInt8)
  | 0, _, tmp => .ok tmp
  | rest + 1, i, tmp => do copyFrom buf rest (i + 1) (← tmp.store i (← buf.load i))

/-- The line with what is left of the input, or a call of `exit`. -/
inductive ReadLine where
  | line (buf : Block UInt8) (rest : List UInt8)
  | exit (code : Int) (rest : List UInt8)

/-- The loop of `ezsh_read_line`, and what follows it. -/
def readLoop : List UInt8 → Int → Int → Block UInt8 → Except Trap ReadLine
  | [], _, _, _ => .ok (.exit 0 [])
  | c :: rest, cap, len, buf =>
      if c = 10 then do return .line (← buf.store len 0) rest
      else if len = cap then
        match makeBufferOrExit (wrapInt (wrapInt (cap * 2) + 1)) with
        | none => .ok (.exit 1 rest)
        | some tmp => do
            let tmp ← copyFrom buf len.toNat 0 tmp
            readLoop rest (wrapInt (cap * 2)) (wrapInt (len + 1)) (← tmp.store len c)
      else do readLoop rest cap (wrapInt (len + 1)) (← buf.store len c)

def ezshReadLine (input : List UInt8) : Except Trap ReadLine :=
  readLoop input capInit 0 (Block.malloc (capInit + 1))

/-! ## `ezsh_split_line` -/

/-- A `char *`: into the line, or to the block of the tokens. -/
inductive Pointer where
  | null
  | line (offset : Nat)
  | tokens
deriving DecidableEq, Repr

/-- The block that `tokens` points to, with its size in elements. -/
structure Tokens where
  cap : Int
  n : Int
  block : Block Pointer

/-- The array that is returned, with the line that its elements point into. -/
structure Split where
  line : Block UInt8
  tokens : Block Pointer

/-- An iteration of the loop. What `realloc` returns is assigned to `token`: when
the block has moved, `tokens` still points to the freed one. -/
def Tokens.push (moves : Int → Bool) (tokens : Tokens) (token : Pointer) : Except Trap Tokens :=
  if tokens.n ≥ tokens.cap then
    let cap := wrapInt (tokens.cap * 2)
    match tokens.block.realloc cap with
    | none => do return { cap, n := wrapInt (tokens.n + 1), block := ← tokens.block.store tokens.n .null }
    | some grown =>
        if moves cap then .error .freed
        else do return { cap, n := wrapInt (tokens.n + 1), block := ← grown.store tokens.n .tokens }
  else do return { tokens with n := wrapInt (tokens.n + 1), block := ← tokens.block.store tokens.n token }

/-- The calls of `strtok` from the position it has kept. -/
def splitLoop (moves : Int → Bool) : Nat → Block UInt8 → Nat → Tokens → Except Trap Split
  | 0, _, _, _ => .error .diverged
  | fuel + 1, line, save, tokens => do
      let (line, save, token) ← strtok isDelim line save
      match token with
      | none => return { line, tokens := ← tokens.block.store tokens.n .null }
      | some offset => splitLoop moves fuel line save (← tokens.push moves (.line offset))

/-- `ezsh_split_line`. Every call of `strtok` that returns a token passes a byte of the line. -/
def ezshSplitLine (moves : Int → Bool) (line : Block UInt8) : Except Trap Split :=
  splitLoop moves (line.length + 1) line 0 { cap := capInit, n := 0, block := Block.malloc capInit }

/-! ## `ezsh_execute` -/

inductive Builtin where
  | cd
  | help
  | exit
deriving DecidableEq, Repr

/-- `builtin_names` with `builtin_fps` -/
def builtins : List (List UInt8 × Builtin) :=
  [([99, 100], .cd), ([104, 101, 108, 112], .help), ([101, 120, 105, 116], .exit)]

/-- The string that an element of the array points to. -/
def Split.string (argv : Split) : Pointer → Except Trap (List UInt8)
  | .line offset => Block.cString (argv.line.drop offset)
  | .null | .tokens => .error .indeterminate

/-- The value that a builtin returns; `ezsh_cd` looks at its argument first. -/
def Builtin.run (argv : Split) : Builtin → Except Trap Int
  | .cd => do
      let _ ← argv.tokens.load 1
      return 1
  | .help => .ok 1
  | .exit => .ok 0

/-- What `ezsh_execute` does: it returns, or goes on to `ezsh_launch`. -/
inductive Execution where
  | returns (status : Int)
  | launch
deriving DecidableEq, Repr

def ezshExecute (argv : Split) : Except Trap Execution := do
  match ← argv.tokens.load 0 with
  | .null => return .returns 1
  | pointer =>
      let name ← argv.string pointer
      match builtins.lookup name with
      | some builtin => return .returns (← builtin.run argv)
      | none => return .launch

/-! ## `ezsh_loop` and `ezsh_launch` -/

/-- Where a process that runs this program is. `forking` to `waiting` are in
`ezsh_launch`: a child goes on from `execing`, its parent from `waiting`.
`running` is another program, after `execvp` has succeeded, and `crashed` is
after a step that C leaves undefined. -/
inductive Phase where
  | reading
  | splitting (line : Block UInt8)
  | executing (argv : Split)
  | forking (argv : Split)
  | execing (argv : Split)
  | failing
  | waiting
  | freeing (status : Int)
  | running
  | exited (code : Int)
  | crashed

/-- The two processes that run the program after a `fork`. -/
inductive Copy where
  | shell
  | child
deriving DecidableEq, Repr

/-- A regular file is seekable; a terminal or a pipe is not. `block` is how many
bytes a `read` of stdin asks for. -/
structure Stdin where
  seekable : Bool
  block : ℕ+

/-- `calls` are the calls of `ezsh_execute` and `forked` those of `fork`, with
their arguments. The first `buffered` bytes of the input have been read into the
buffer of stdin. -/
structure State where
  input : List UInt8
  buffered : Nat
  shell : Phase
  child : Option Phase
  calls : List (Copy × Split)
  forked : List Split

/-- A step of the shell, or of its child with the outcome of `execvp`. -/
inductive Action where
  | shell
  | child (found : Bool)
deriving DecidableEq, Repr

/-- How many bytes are in the buffer when `rest` is left of the input: a part of
what was there, or of the last block that had to be read. -/
def Stdin.refill (stdin : Stdin) (state : State) (rest : List UInt8) : Nat :=
  let taken := state.input.length - rest.length
  if taken ≤ state.buffered then state.buffered - taken
  else min rest.length ((stdin.block - (taken - state.buffered) % stdin.block) % stdin.block)

/-- Calls of `fgetc` that leave `rest` of the input. -/
def Stdin.read (stdin : Stdin) (state : State) (rest : List UInt8) : State :=
  { state with input := rest, buffered := stdin.refill state rest }

/-- `exit(1)` in a child -/
def Stdin.rewind (stdin : Stdin) (state : State) : State :=
  if stdin.seekable then { state with input := state.input.take state.buffered ++ state.input } else state

/-- A step of one process, by the same program for the shell and its child. -/
def processStep (stdin : Stdin) (moves : Nat → Int → Bool) (copy : Copy) (found : Bool) (state : State) :
    Phase → Option (Phase × State)
  | .reading =>
      match ezshReadLine state.input with
      | .error _ => some (.crashed, state)
      | .ok (.exit code rest) => some (.exited code, stdin.read state rest)
      | .ok (.line buf rest) => some (.splitting buf, stdin.read state rest)
  | .splitting line =>
      match ezshSplitLine (moves state.calls.length) line with
      | .error _ => some (.crashed, state)
      | .ok argv => some (.executing argv, state)
  | .executing argv =>
      let called := { state with calls := state.calls ++ [(copy, argv)] }
      match ezshExecute argv with
      | .error _ => some (.crashed, called)
      | .ok (.returns status) => some (.freeing status, called)
      | .ok .launch => some (.forking argv, called)
  | .forking argv =>
      some (.waiting, { state with child := some (.execing argv), forked := state.forked ++ [argv] })
  | .execing _ => some (if found then .running else .failing, state)
  | .failing => some (.exited 1, stdin.rewind state)
  | .running => some (.exited 0, state)
  | .waiting =>
      match state.child with
      | some (.exited _) => some (.freeing 1, { state with child := none })
      | _ => none
  | .freeing status => some (if status = 0 then .exited 0 else .reading, state)
  | .exited _ | .crashed => none

def next (stdin : Stdin) (moves : Nat → Int → Bool) (state : State) : Action → Option State
  | .shell =>
      (processStep stdin moves .shell false state state.shell).map fun after => { after.2 with shell := after.1 }
  | .child found =>
      state.child.bind fun phase =>
        (processStep stdin moves .child found state phase).map fun after => { after.2 with child := some after.1 }

def start (input : List UInt8) : State where
  input
  buffered := 0
  shell := .reading
  child := none
  calls := []
  forked := []

def machine (stdin : Stdin) (moves : Nat → Int → Bool) (input : List UInt8) : Machine State Action where
  init := start input
  next := next stdin moves

end SysProg.Process.Shell
