import Mathlib.Data.Nat.Find
import Mathlib.Logic.Function.Basic
import SysProg.Network.Listener.Turns

namespace SysProg.Network.Talker

/-! # `00-network-programming/examples/talker.c`

Any number of talkers and one listener, which is in `serve_forever`. The network
delivers a datagram at any time and in any order, or loses it.
-/

open Function Listener

/-- `RECVSIZE` -/
def recvSize : Nat := 2048

/-- `sendto_buf`, with its terminator: `"hello world from a udp client\n"` -/
def sendtoBuf : List UInt8 :=
  [104, 101, 108, 108, 111, 32, 119, 111, 114, 108, 100, 32, 102, 114, 111, 109, 32, 97, 32, 117, 100, 112, 32,
    99, 108, 105, 101, 110, 116, 10, 0]

/-! ## `init_with_first` -/

/-- `struct ClientSock`. The descriptor is `none` before it is set. -/
structure ClientSock where
  sd : Option Nat
  addr : SockaddrStorage

/-- The loop of `init_with_first` from the entry with the number `i`, which is
told whether `socket` succeeds for each of them; `failed` counts the calls of
`perror`. -/
def initWithFirst (sockets : Nat → Bool) : Nat → List AddrInfo → ClientSock → Descriptors SocketFile → Nat →
    Except Trap (Int × ClientSock × Descriptors SocketFile × Nat)
  | _, [], client, table, failed => .ok (0, client, table, failed)
  | i, info :: res, client, table, failed =>
      if sockets i then do
        let (sd, table) := table.socket info
        let addr ← client.addr.memcpy info.addr
        return (1, { sd := some sd, addr }, table, failed)
      else initWithFirst sockets (i + 1) res client table (failed + 1)

/-- What a talker's calls of `getaddrinfo` and `socket` return. There are no entries if
`getaddrinfo` fails; `table` is what the talker is started with. -/
structure Setup where
  res : Option (List AddrInfo)
  sockets : Nat → Bool
  table : Descriptors SocketFile

def initUdpClient (setup : Setup) (client : ClientSock) :
    Except Trap (Int × ClientSock × Descriptors SocketFile × Nat) :=
  match setup.res with
  | none => .ok (0, client, setup.table, 0)
  | some res => initWithFirst setup.sockets 0 res client setup.table 0

/-- The string in `recvfrom_buf`, from a datagram of any length. -/
def received (bytes : List UInt8) : Except Trap (List UInt8) := do
  let bytes := bytes.take recvSize
  let buf ← (Block.malloc (recvSize + 1)).storeFrom 0 bytes
  let buf ← buf.store bytes.length 0
  buf.cString

inductive Phase where
  | starting
  | waiting
  | exited (code : Nat)
  | crashed
deriving DecidableEq

/-- `printed` has the text of the datagram. -/
structure Client where
  phase : Phase
  printed : List (List UInt8)
deriving DecidableEq

/-- `main` up to its call of `sendto`. -/
def Setup.client (setup : Setup) : Client where
  phase :=
    match initUdpClient setup { sd := none, addr := ⟨Block.malloc sockaddrStorageSize, Block.length_malloc _⟩ } with
    | .ok (code, _) => if code = 0 then .exited 1 else .starting
    | .error _ => .crashed
  printed := []

/-- `recvfrom` has returned the datagram. -/
def Client.receive (talker : Client) (bytes : List UInt8) : Client :=
  match received bytes with
  | .ok text => { phase := .exited 0, printed := talker.printed ++ [text] }
  | .error _ => { talker with phase := .crashed }

/-! ## The network -/

variable {ι : Type}

/-- `requests` and `replies` are the datagrams on their way to the listener and from it. -/
structure Exchange (ι : Type) where
  server : Server
  talkers : ι → Client
  requests : List Datagram
  replies : List (List UInt8 × Peer)

inductive Action (ι : Type) where
  | send (who : ι) (succeeds : Bool)
  | receive (who : ι) (index : Option Nat)
  | arrive (index : Option Nat)
  | reply
  | answer (succeeds : Bool)
  | loseRequest (index : Nat)
  | loseReply (index : Nat)

variable [DecidableEq ι]

def Exchange.setTalker (exchange : Exchange ι) (who : ι) (talker : Client) : Exchange ι :=
  { exchange with talkers := update exchange.talkers who talker }

def next (address : ι → Peer) (error : Bool) (exchange : Exchange ι) : Action ι → Option (Exchange ι)
  | .send who succeeds =>
      match (exchange.talkers who).phase with
      | .starting =>
          if succeeds then
            some { exchange.setTalker who { exchange.talkers who with phase := .waiting } with
              requests := exchange.requests ++ [⟨sendtoBuf, address who⟩] }
          else some (exchange.setTalker who { exchange.talkers who with phase := .exited 1 })
      | _ => none
  | .receive who none =>
      match (exchange.talkers who).phase with
      | .waiting => some (exchange.setTalker who { exchange.talkers who with phase := .exited 1 })
      | _ => none
  | .receive who (some index) =>
      match (exchange.talkers who).phase, exchange.replies[index]? with
      | .waiting, some (bytes, peer) =>
          if peer = address who then
            some { exchange.setTalker who ((exchange.talkers who).receive bytes) with
              replies := exchange.replies.eraseIdx index }
          else none
      | _, _ => none
  | .arrive none => (serverNext error exchange.server (.recvfrom none)).map fun server => { exchange with server }
  | .arrive (some index) =>
      match exchange.requests[index]? with
      | some datagram =>
          (serverNext error exchange.server (.recvfrom (some datagram))).map fun server =>
            { exchange with server, requests := exchange.requests.eraseIdx index }
      | none => none
  | .reply => (serverNext error exchange.server .reply).map fun server => { exchange with server }
  | .answer succeeds =>
      (serverNext error exchange.server (.sendto succeeds)).map fun server =>
        { exchange with
          server
          replies := exchange.replies ++ (server.sent.drop exchange.server.sent.length).map fun call => (call.1, call.2.1) }
  | .loseRequest index => some { exchange with requests := exchange.requests.eraseIdx index }
  | .loseReply index => some { exchange with replies := exchange.replies.eraseIdx index }

def machine (address : ι → Peer) (setup : ι → Setup) (error : Bool) (stdin : List UInt8) :
    Machine (Exchange ι) (Action ι) where
  init := {
    server := (serveForever error stdin).init
    talkers := fun who => (setup who).client
    requests := []
    replies := [] }
  next := next address error

end SysProg.Network.Talker
