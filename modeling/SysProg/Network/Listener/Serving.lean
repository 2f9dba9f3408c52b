import SysProg.Library.Machine
import SysProg.Network.Listener

namespace SysProg.Network.Listener

/-! ## `serve_forever` -/

/-- `RECVSIZE` -/
def recvSize : Nat := 2048

/-- `AF_INET` -/
def afInet : Int := 2

/-- `AF_INET6` -/
def afInet6 : Int := 10

/-- The family and the bytes of the sender's address. -/
structure Peer where
  family : Int
  addr : List UInt8
deriving DecidableEq

structure Datagram where
  bytes : List UInt8
  peer : Peer
deriving DecidableEq

/-- What is printed, where `perror` is given a name. -/
inductive Printed where
  | received (text : List UInt8)
  | sockaddr (peer : Peer)
  | prompt
  | perror (name : String)
deriving DecidableEq

/-- `replying` and `sending` are the calls of `input_reply` and `sendto`, `exited` is after
`exit`, and `crashed` after a step that C leaves undefined. -/
inductive Serving where
  | receiving
  | replying (peer : Peer)
  | sending (peer : Peer) (buf : Block UInt8)
  | exited (code : Int)
  | crashed
deriving DecidableEq

/-- `terminators` has the index of each store of `handle_message`, `sent` what `sendto` has
passed on, with the size of the address. -/
structure Server where
  phase : Serving
  stdin : List UInt8
  printed : List Printed
  terminators : List Nat
  sent : List (List UInt8 × Peer × Nat)

/-- The result of `recvfrom` is `none` where it fails. -/
inductive ServerAction where
  | recvfrom (result : Option Datagram)
  | reply
  | sendto (succeeds : Bool)
deriving DecidableEq

/-- `recvfrom(serv->sd, buf, size, ...)`: the bytes that are stored. -/
def Datagram.stored (datagram : Datagram) (size : Nat) : List UInt8 := datagram.bytes.take size

/-- `print_sockaddr` -/
def printSockaddr (peer : Peer) : Printed :=
  if peer.family = afInet ∨ peer.family = afInet6 then .sockaddr peer else .perror "inet_ntop"

/-- The string in `buf`, which is terminated at the number of bytes received. -/
def terminated (received : List UInt8) : Except Trap (List UInt8) := do
  let buf ← (Block.malloc (recvSize + 1)).storeFrom 0 received
  let buf ← buf.store received.length 0
  buf.cString

/-- `handle_message`, up to the call of `reply_message`. -/
def receiveMessage (server : Server) (datagram : Datagram) : Server :=
  let received := datagram.stored (recvSize + 1)
  let server := { server with terminators := server.terminators ++ [received.length] }
  match terminated received with
  | .error _ => { server with phase := .crashed }
  | .ok text =>
      { server with
        phase := .replying datagram.peer
        printed := server.printed ++ [.received text, printSockaddr datagram.peer] }

/-- The call of `input_reply`. `error` is whether stdin ends with an error. -/
def replyMessage (error : Bool) (peer : Peer) (server : Server) : Server :=
  let server := { server with printed := server.printed ++ [Printed.prompt] }
  match inputReply error server.stdin with
  | .error _ => { server with phase := .crashed }
  | .ok (.exit code reported) =>
      { server with phase := .exited code, printed := server.printed ++ reported.map Printed.perror }
  | .ok (.returned buf rest) => { server with phase := .sending peer buf, stdin := rest }

/-- `sizeof` the address that `sendto` is given. -/
def sockaddrSize (peer : Peer) : Nat := if peer.family = afInet then 16 else 28

def sendReply (succeeds : Bool) (peer : Peer) (buf : Block UInt8) (server : Server) : Server :=
  match buf.cString with
  | .error _ => { server with phase := .crashed }
  | .ok text =>
      if succeeds then
        { server with phase := .receiving, sent := server.sent ++ [(text, peer, sockaddrSize peer)] }
      else { server with phase := .receiving, printed := server.printed ++ [.perror "sendto"] }

def serverNext (error : Bool) (server : Server) (action : ServerAction) : Option Server :=
  match server.phase, action with
  | .receiving, .recvfrom none => some { server with printed := server.printed ++ [.perror "recvfrom"] }
  | .receiving, .recvfrom (some datagram) => some (receiveMessage server datagram)
  | .replying peer, .reply => some (replyMessage error peer server)
  | .sending peer buf, .sendto succeeds => some (sendReply succeeds peer buf server)
  | _, _ => none

/-- `serve_forever`, with what is on stdin. -/
def serveForever (error : Bool) (stdin : List UInt8) : Machine Server ServerAction where
  init := { phase := .receiving, stdin, printed := [], terminators := [], sent := [] }
  next := serverNext error

/-! ## The terminators -/

/-- The index that the step stores a terminator to. -/
def ServerAction.terminator : ServerAction → Option Nat
  | .recvfrom (some datagram) => some (min (recvSize + 1) datagram.bytes.length)
  | .recvfrom none | .reply | .sendto _ => none

variable {error : Bool} {stdin : List UInt8} {server after : Server} {action : ServerAction} {actions : List ServerAction}

theorem receiveMessage_terminators (server : Server) (datagram : Datagram) :
    (receiveMessage server datagram).terminators =
      server.terminators ++ [min (recvSize + 1) datagram.bytes.length] := by
  simp only [receiveMessage, Datagram.stored, List.length_take]
  split <;> rfl

theorem replyMessage_terminators (error : Bool) (peer : Peer) (server : Server) :
    (replyMessage error peer server).terminators = server.terminators := by
  simp only [replyMessage]
  split <;> rfl

theorem sendReply_terminators (succeeds : Bool) (peer : Peer) (buf : Block UInt8) (server : Server) :
    (sendReply succeeds peer buf server).terminators = server.terminators := by
  unfold sendReply
  repeat' split
  all_goals rfl

theorem serverNext_terminators (moved : serverNext error server action = some after) :
    after.terminators = server.terminators ++ action.terminator.toList := by
  unfold serverNext at moved
  split at moved <;> cases moved
  · exact (List.append_nil _).symm
  · exact receiveMessage_terminators server _
  · exact (replyMessage_terminators error _ server).trans (List.append_nil _).symm
  · exact (sendReply_terminators _ _ _ server).trans (List.append_nil _).symm

theorem run_terminators (ran : (serveForever error stdin).run server actions = some after) :
    after.terminators = server.terminators ++ actions.filterMap ServerAction.terminator := by
  induction actions generalizing server with
  | nil =>
      cases ran
      exact (List.append_nil _).symm
  | cons action rest ih =>
      obtain ⟨next, moved, continued⟩ := Machine.run_cons.mp ran
      have added := serverNext_terminators moved
      rw [ih continued, added, List.append_assoc]
      cases index : action.terminator with
      | none => rw [List.filterMap_cons_none index]; rfl
      | some index' => rw [List.filterMap_cons_some index]; rfl

/-- The terminators of a run are all stored inside the buffer if and only if every datagram
that has been received has at most `RECVSIZE` bytes. -/
theorem terminators_inside_iff (error : Bool) (stdin : List UInt8) (actions : List ServerAction) (server : Server)
    (ran : (serveForever error stdin).run (serveForever error stdin).init actions = some server) :
    (∀ index, index ∈ server.terminators → index < recvSize + 1) ↔
      ∀ datagram, .recvfrom (some datagram) ∈ actions → datagram.bytes.length < recvSize + 1 := by
  have stores : server.terminators = actions.filterMap ServerAction.terminator := run_terminators ran
  rw [stores]
  constructor
  · intro inside datagram member
    have stored := inside _ (List.mem_filterMap.mpr ⟨_, member, rfl⟩)
    omega
  · intro short index member
    obtain ⟨action, received, same⟩ := List.mem_filterMap.mp member
    cases action with
    | recvfrom result =>
        cases result with
        | none => contradiction
        | some datagram =>
            have less := short datagram received
            cases same
            omega
    | reply | sendto _ => contradiction

theorem terminators_inside_two_bytes :
    let datagram : Datagram := { bytes := [104, 105], peer := { family := afInet, addr := [2, 0] } }
    ∀ index, index ∈ (receiveMessage (serveForever false [97, 10]).init datagram).terminators → index < recvSize + 1 := by
  intro datagram
  refine (terminators_inside_iff false [97, 10] [.recvfrom (some datagram)] _ rfl).mpr ?_
  intro other member
  cases List.mem_singleton.mp member
  decide

/-- The terminator of a datagram that fills the buffer is stored behind it. -/
theorem full_datagram_overruns : ¬ ∀ (error : Bool) (stdin : List UInt8) (server : Server),
    (serveForever error stdin).Reachable server → ∀ index, index ∈ server.terminators → index < recvSize + 1 := by
  intro inside
  let datagram : Datagram := {
    bytes := List.replicate (recvSize + 1) 97
    peer := { family := afInet, addr := [2, 0] } }
  let start := (serveForever false []).init
  have stored : recvSize + 1 ∈ (receiveMessage start datagram).terminators := by
    rw [receiveMessage_terminators, List.length_replicate, Nat.min_self]
    exact List.mem_concat_self
  have less := inside false [] (receiveMessage start datagram) ⟨[.recvfrom (some datagram)], rfl⟩ _ stored
  exact absurd less (Nat.lt_irrefl _)

end SysProg.Network.Listener
