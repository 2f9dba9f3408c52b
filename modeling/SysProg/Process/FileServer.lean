import SysProg.Library.Block
import SysProg.Library.Descriptors
import SysProg.Library.Machine

namespace SysProg.Process.FileServer

/-! # `04-process-management/file_server.c`

`handle_client` with `read_line` and `send_file`, from a connection that has
been accepted to the return to `main`. Each call on a descriptor is one step,
with the result that the environment chooses. The client sends the bytes of
its stream and then no more. `files` is what `open` finds; the allocations of
a possible size succeed.
-/

/-- `SERV_BUF` -/
def servBuf : Nat := 8

/-- What a descriptor refers to. -/
inductive File where
  | listener
  | connection
  | regular (path : List UInt8)
deriving DecidableEq, Repr

/-- `testing` to `terminating` are the statements of `read_line`, `opening` to
`sending` those of `send_file`. `returning` has the value that `send_file`
returns, `returned` is after `handle_client`, and `crashed` after a step that C
leaves undefined. -/
inductive Phase where
  | testing
  | receiving
  | terminating
  | opening
  | reading
  | sending
  | returning (ret : Int)
  | returned
  | crashed
deriving DecidableEq, Repr

/-- `sd` is the client's descriptor and `input` what of its stream has not been
received. `path` is what `open` was called with, `rest` what follows the offset
of the open file, and `sent` what `send` has accepted. `reported` is whether
`handle_client` has printed its message. -/
structure State where
  phase : Phase
  table : Descriptors File
  sd : Nat
  input : List UInt8
  cap : Int
  len : Int
  buf : Block UInt8
  path : Option (List UInt8)
  fd : Nat
  rest : List UInt8
  c : UInt8
  sent : List UInt8
  reported : Bool
deriving DecidableEq, Repr

inductive Action where
  | compute
  | recv (result : IoResult)
  | read (result : IoResult)
  | send (result : IoResult)
deriving DecidableEq

/-- The start of an iteration of `read_line`, which returns `NULL` where
`realloc` does. -/
def growStep (state : State) : State :=
  if state.len = state.cap then
    match state.buf.realloc (wrapInt (state.cap * 2)) with
    | none => { state with phase := .returned }
    | some buf => { state with phase := .receiving, cap := wrapInt (state.cap * 2), buf }
  else { state with phase := .receiving }

/-- `recv` of one byte, and the rest of the iteration. -/
def recvStep (state : State) (result : IoResult) : Option State :=
  match result, state.input with
  | .done 1, byte :: input =>
      match state.buf.store state.len byte with
      | .error _ => some { state with phase := .crashed }
      | .ok buf =>
          some { state with
            phase := if byte = 10 then .terminating else .testing
            len := wrapInt (state.len + 1)
            buf
            input }
  | .done 0, [] | .interrupted, _ | .failed, _ => some { state with phase := .returned }
  | .done _, _ => none

/-- `buf[len - 1] = '\0'` -/
def terminateStep (state : State) : State :=
  match state.buf.store (state.len - 1) 0 with
  | .error _ => { state with phase := .crashed }
  | .ok buf => { state with phase := .opening, buf }

def openStep (files : List UInt8 → Option (List UInt8)) (state : State) : State :=
  match state.buf.cString with
  | .error _ => { state with phase := .crashed }
  | .ok path =>
      match files path with
      | none => { state with phase := .returning (-1), path := some path }
      | some contents =>
          { state with
            phase := .reading
            path := some path
            fd := (state.table.openFile (.regular path)).1
            table := (state.table.openFile (.regular path)).2
            rest := contents }

/-- `read` of one byte of the file. -/
def readStep (state : State) (result : IoResult) : Option State :=
  match result, state.rest with
  | .done 1, c :: rest => some { state with phase := .sending, c, rest }
  | .done 0, [] => some { state with phase := .returning 1 }
  | .interrupted, _ => some state
  | .failed, _ => some { state with phase := .returning (-1) }
  | .done _, _ => none

/-- `send` of one byte. -/
def sendStep (state : State) (result : IoResult) : Option State :=
  match result with
  | .done 0 => some state
  | .done 1 => some { state with phase := .reading, sent := state.sent ++ [state.c] }
  | .done _ => none
  | .interrupted | .failed => some { state with phase := .returning 1 }

def next (files : List UInt8 → Option (List UInt8)) (state : State) (action : Action) : Option State :=
  match state.phase, action with
  | .testing, .compute => some (growStep state)
  | .receiving, .recv result => recvStep state result
  | .terminating, .compute => some (terminateStep state)
  | .opening, .compute => some (openStep files state)
  | .reading, .read result => readStep state result
  | .sending, .send result => sendStep state result
  | .returning ret, .compute => some { state with phase := .returned, reported := decide (ret = -1) }
  | _, _ => none

/-- `accept` has taken the lowest free descriptor for the connection. -/
def start (table : Descriptors File) (stream : List UInt8) : State where
  phase := .testing
  table := (table.openFile .connection).2
  sd := (table.openFile .connection).1
  input := stream
  cap := servBuf
  len := 0
  buf := Block.malloc servBuf
  path := none
  fd := 0
  rest := []
  c := 0
  sent := []
  reported := false

def machine (files : List UInt8 → Option (List UInt8)) (table : Descriptors File) (stream : List UInt8) :
    Machine State Action where
  init := start table stream
  next := next files

/-! ## The loop of `main` -/

/-- At the head of the loop, or in a session with what `open` finds during it. -/
inductive Server where
  | accepting (table : Descriptors File)
  | handling (files : List UInt8 → Option (List UInt8)) (session : State)

inductive ServerAction where
  | accept (files : List UInt8 → Option (List UInt8)) (stream : List UInt8)
  | acceptFailed
  | session (action : Action)
  | close

/-- When `accept` fails the session runs with the descriptor `-1`, on which
`recv` and `close` fail at once. -/
def serverNext : Server → ServerAction → Option Server
  | .accepting table, .accept files stream => some (.handling files (start table stream))
  | .accepting table, .acceptFailed => some (.accepting table)
  | .handling files session, .session action => (next files session action).map (.handling files)
  | .handling _ session, .close =>
      if session.phase = .returned then
        some (.accepting ((session.table.close session.sd).getD session.table))
      else none
  | _, _ => none

def server (table : Descriptors File) : Machine Server ServerAction where
  init := .accepting table
  next := serverNext

/-- `recv` delivers a byte in each call, `read` may be interrupted, and `send`
may accept nothing. -/
def Action.Clean : Action → Prop
  | .compute => True
  | .recv result => result = .done 1
  | .read result => result ≠ .failed
  | .send result => result ≠ .interrupted ∧ result ≠ .failed

instance : (action : Action) → Decidable action.Clean
  | .compute => isTrue trivial
  | .recv result => inferInstanceAs (Decidable (result = .done 1))
  | .read result => inferInstanceAs (Decidable (result ≠ .failed))
  | .send result => inferInstanceAs (Decidable (result ≠ .interrupted ∧ result ≠ .failed))

def clean (files : List UInt8 → Option (List UInt8)) (table : Descriptors File) (stream : List UInt8) :
    Machine State Action :=
  (machine files table stream).restrict fun _ action => action.Clean

end SysProg.Process.FileServer
