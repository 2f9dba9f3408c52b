import SysProg.Network.Client1
import SysProg.Network.ForkServer

namespace SysProg.Network.ForkServer

/-! # `00-network-programming/examples/server.c` and `client1.c`

The server with the descriptors of its processes, what they send, and a client in
`request` at the other end of every connection. `close` fails only where its
descriptor is not open, and a process that ends closes all of its own.
-/

/-- `"hello world"` -/
def greeting : List UInt8 := [104, 101, 108, 108, 111, 32, 119, 111, 114, 108, 100]

/-- What a descriptor refers to. -/
inductive File where
  | listening
  | connection (number : Nat)
  | other (id : Nat)
deriving DecidableEq

/-- `cd` is `none` for `-1`. `number` is the number of the connection that `accept` has
returned. -/
structure Process where
  table : Descriptors File
  cd : Option Nat
  number : Option Nat

/-- `request`, from its call of `recv` on. -/
inductive Client where
  | receiving
  | printed (text : List UInt8)
  | disconnected
  | failed
  | crashed
deriving DecidableEq

structure Connection where
  sent : List UInt8
  client : Client
deriving DecidableEq

/-- `reported` has what `perror` is given. -/
structure Served where
  control : State
  main : Process
  children : List Process
  connections : List Connection
  reported : List String

/-- `sent` is what a child's `send` accepts, `none` where it fails; and so is `count` for a
client's `recv`. -/
inductive Call where
  | server (action : Action) (sent : Option Nat)
  | recv (number : Nat) (count : Option Nat)
deriving DecidableEq

/-- `try_close`, with what `perror` is given. -/
def Process.tryClose (process : Process) (fd : Option Nat) : Process × List String :=
  match fd.bind process.table.close with
  | some table => ({ process with table }, [])
  | none => (process, ["close"])

def Process.holds (process : Process) (number : Nat) : Bool := decide (process.table.Holds (.connection number))

/-- Some process has a descriptor for the connection. -/
def Served.held (served : Served) (number : Nat) : Bool :=
  served.main.holds number || served.children.any fun child => child.holds number

def Served.setChild (served : Served) (i : Nat) (child : Process) : Served :=
  { served with children := served.children.set i child }

/-- The calls of `main`. -/
def Served.mainCall (served : Served) (failure : Option Int) : Option Served :=
  match served.control.main with
  | .accepting =>
      match failure with
      | none =>
          let number := served.connections.length
          let (cd, table) := served.main.table.openFile (.connection number)
          some { served with
            main := { table, cd := some cd, number := some number }
            connections := served.connections ++ [{ sent := [], client := .receiving }] }
      | some _ => some { served with main := { served.main with cd := none, number := none } }
  | .printing => some served
  | .forking =>
      match failure with
      | none => some { served with children := served.children ++ [served.main] }
      | some _ => some { served with reported := served.reported ++ ["fork"] }
  | .closing =>
      let (main, reported) := served.main.tryClose served.main.cd
      if failure.isSome = decide (reported ≠ []) then
        some { served with main, reported := served.reported ++ reported }
      else none

/-- `send(cd, buf, strlen(buf), 0)` -/
def Served.send (served : Served) (child : Process) : Option Nat → Option Served
  | none => some { served with reported := served.reported ++ ["send"] }
  | some count =>
      match child.cd.bind child.table.get with
      | some (.connection number) =>
          if 0 < count ∧ count ≤ greeting.length then
            some { served with
              connections := served.connections.modify number fun connection =>
                { connection with sent := connection.sent ++ greeting.take count } }
          else none
      | _ => none

/-- The calls of the child `i`. -/
def Served.childCall (sd : Nat) (served : Served) (i : Nat) (sent : Option Nat) : Option Served :=
  match served.control.children[i]?, served.children[i]? with
  | some .closingServer, some child =>
      let (child, reported) := child.tryClose (some sd)
      some { served.setChild i child with reported := served.reported ++ reported }
  | some .sending, some child => served.send child sent
  | some .closingClient, some child =>
      let (child, reported) := child.tryClose child.cd
      some { served.setChild i child with reported := served.reported ++ reported }
  | some .returning, some child => some (served.setChild i { child with table := ⟨[]⟩ })
  | _, _ => none

def Served.kill (served : Served) (i : Nat) : Option Served :=
  (served.children[i]?).map fun child => served.setChild i { child with table := ⟨[]⟩ }

def Served.call (sd : Nat) (served : Served) (sent : Option Nat) : Action → Option Served
  | .main failure => served.mainCall failure
  | .child i => served.childCall sd i sent
  | .kill i => served.kill i
  | .deliver | .handler _ | .stop _ => some served

/-- A client that has not received anything finds the end of the stream when the connection
is closed and empty. -/
def Connection.recv (connection : Connection) (held : Bool) : Option Nat → Option Client
  | none => some .failed
  | some count =>
      if 0 < count ∧ count ≤ connection.sent.length then
        match Client1.terminated ((connection.sent.take count).take Client1.recvSize) with
        | .ok text => some (.printed text)
        | .error _ => some .crashed
      else if count = 0 ∧ connection.sent = [] ∧ held = false then some .disconnected
      else none

def Served.recv (served : Served) (number : Nat) (count : Option Nat) : Option Served :=
  match served.connections[number]? with
  | some connection =>
      if connection.client = .receiving then
        (connection.recv (served.held number) count).map fun client =>
          { served with connections := served.connections.set number { connection with client } }
      else none
  | none => none

def greet (sd : Nat) (served : Served) : Call → Option Served
  | .server action sent =>
      match next served.control action, served.call sd sent action with
      | some control, some after => some { after with control }
      | _, _ => none
  | .recv number count => served.recv number count

def greeter (sd : Nat) (table : Descriptors File) (errno : Int) : Machine Served Call where
  init := {
    control := start errno
    main := { table, cd := none, number := none }
    children := []
    connections := []
    reported := [] }
  next := greet sd

end SysProg.Network.ForkServer
