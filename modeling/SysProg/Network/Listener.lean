import SysProg.Library.Sockets

namespace SysProg.Network.Listener

/-! # `00-network-programming/examples/listener.c`

`input_reply` reads the bytes that `fgetc` returns before the end of stdin or an
error; allocations of a possible size succeed.
-/

/-- `BUFINIT` -/
def bufInit : Nat := 8

/-! ## `input_reply` -/

/-- The buffer with what is left of stdin, or a call of `exit` after `perror` has
been given the names. -/
inductive InputReply where
  | returned (buf : Block UInt8) (rest : List UInt8)
  | exit (code : Int) (reported : List String)
deriving DecidableEq

/-- The buffer that the next byte is stored to, with `cap`. -/
def growBuffer (n cap : Int) (buf : Block UInt8) : Except Trap (Int × Block UInt8) :=
  if n = cap then
    match buf.realloc (wrapInt (cap * 2)) with
    | none => .error .outOfBounds
    | some buf => .ok (wrapInt (cap * 2), buf)
  else .ok (cap, buf)

/-- The loop of `input_reply`, and what follows it. `error` is whether stdin ends
with an error. -/
def replyLoop (error : Bool) : List UInt8 → Int → Int → Block UInt8 → Except Trap InputReply
  | [], _, _, _ => .ok (if error then .exit 1 ["fgetc"] else .exit 0 [])
  | c :: rest, n, cap, buf => do
      let (cap, buf) ← growBuffer n cap buf
      let buf ← buf.store n c
      if c = 10 then return .returned (← buf.store (wrapInt (n + 1)) 0) rest
      else replyLoop error rest (wrapInt (n + 1)) cap buf

def inputReply (error : Bool) (stdin : List UInt8) : Except Trap InputReply :=
  replyLoop error stdin 0 bufInit (Block.malloc bufInit)

/-! ## `init_with_first` -/

/-- `struct ServerSock`. The descriptor is `none` before it is set. -/
structure ServerSock where
  sd : Option Nat
  addr : SockaddrStorage

/-- What is printed, where `perror` is given a name. -/
inductive Message where
  | addrinfo (info : AddrInfo)
  | perror (name : String)
  | success

/-- The outcomes of the calls of `socket`, `bind` and `close` for each entry of the
list. -/
structure Host where
  sockets : Nat → Bool
  binds : Nat → Bool
  closes : Nat → Bool

structure State where
  table : Descriptors SocketFile
  serv : ServerSock
  messages : List Message

def State.print (state : State) (message : Message) : State :=
  { state with messages := state.messages ++ [message] }

/-- `try_close`. A descriptor that is not closed stays open. -/
def tryClose (closes : Bool) (fd : Nat) (state : State) : State :=
  match if closes then state.table.close fd else none with
  | some table => { state with table }
  | none => state.print (.perror "close")

/-- An iteration of `init_with_first`, and whether it returns. -/
def tryEntry (host : Host) (i : Nat) (info : AddrInfo) (state : State) : Except Trap (State × Bool) :=
  let state := state.print (.addrinfo info)
  if host.sockets i then
    let (sd, table) := state.table.socket info
    let state := { state with table, serv := { state.serv with sd := some sd } }
    match if host.binds i then state.table.bind sd info.addr else none with
    | some table => do
        let addr ← state.serv.addr.memcpy info.addr
        return ({ state with table, serv := { state.serv with addr } }.print .success, true)
    | none => .ok (tryClose (host.closes i) sd (state.print (.perror "bind")), false)
  else .ok (state.print (.perror "close"), false)

/-- The loop of `init_with_first` from the entry with the number `i`. -/
def firstLoop (host : Host) : Nat → List AddrInfo → State → Except Trap (Int × State)
  | _, [], state => .ok (0, state)
  | i, info :: res, state => do
      let (state, success) ← tryEntry host i info state
      if success then return (1, state) else firstLoop host (i + 1) res state

/-- `init_with_first`. `udp_serv` has checked that `serv` is not `NULL`. -/
def initWithFirst (host : Host) (serv : ServerSock) (res : List AddrInfo) (table : Descriptors SocketFile) :
    Except Trap (Int × State) :=
  firstLoop host 0 res { table, serv, messages := [] }

end SysProg.Network.Listener
