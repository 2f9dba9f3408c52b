import SysProg.Library.Sockets

namespace SysProg.Network.Client1

/-! # `00-network-programming/examples/client1.c`

The calls for each entry of the list have the outcomes that the host gives them. The
bytes that `recv` finds are those that have arrived from the server, none once it has
disconnected.
-/

/-- `RECVSIZE` -/
def recvSize : Nat := 512

/-- `AF_INET` -/
def afInet : Int := 2

/-- What is printed. `perror` is given a name, `inet_ntop` a family and an address. -/
inductive Message where
  | perror (name : String)
  | fprintf (text : String)
  | printf (text : List UInt8)
  | connected (family : Int) (address : List UInt8)
deriving DecidableEq

/-- The outcomes of the calls for each entry of the list. `arrived` is `none` where
`recv` fails. -/
structure Host where
  sockets : Nat → Bool
  connects : Nat → Bool
  arrived : Nat → Option (List UInt8)
  closes : Nat → Bool

structure State where
  table : Descriptors SocketFile
  messages : List Message

def State.print (state : State) (message : Message) : State :=
  { state with messages := state.messages ++ [message] }

/-- `init_hints` -/
def hints : AddrInfo where
  family := 0
  socktype := 1
  protocol := 6
  addr := []
  fits := Nat.zero_le _

/-- The bytes at `get_address`: those of `sin_addr`, or of `sin6_addr`. -/
def getAddress (info : AddrInfo) : List UInt8 :=
  if info.family = afInet then (info.addr.drop 4).take 4 else (info.addr.drop 8).take 16

def printServer (info : AddrInfo) (state : State) : State :=
  state.print (.connected info.family (getAddress info))

/-- `try_close`. A descriptor that is not closed stays open. -/
def tryClose (closes : Bool) (sd : Nat) (state : State) : State :=
  match if closes then state.table.close sd else none with
  | some table => { state with table }
  | none => state.print (.perror "close")

/-- `recv(sd, buf, RECVSIZE, 0)`, with the bytes that it stores. -/
def Host.recv (host : Host) (i : Nat) : Option (List UInt8) := (host.arrived i).map (List.take recvSize)

/-- The string in `buf`. -/
def terminated (received : List UInt8) : Except Trap (List UInt8) := do
  let buf ← (Block.malloc (recvSize + 1)).storeFrom 0 received
  let buf ← buf.store received.length 0
  buf.cString

def request (host : Host) (i : Nat) (info : AddrInfo) (state : State) : Except Trap (Int × State) :=
  if host.sockets i then
    let (sd, table) := state.table.socket info
    let state := { state with table }
    if host.connects i then
      let state := printServer info state
      match host.recv i with
      | none => .ok (-1, state.print (.perror "recv"))
      | some [] => .ok (-1, state.print (.fprintf "request: server disconnected"))
      | some received => do
          let text ← terminated received
          return (0, tryClose (host.closes i) sd (state.print (.printf text)))
    else .ok (-1, (tryClose (host.closes i) sd state).print (.perror "connect"))
  else .ok (-1, state.print (.perror "socket"))

/-- The loop of `main` from the entry with the number `i`, and whether `ptr` is not
`NULL` after it. -/
def requestLoop (host : Host) : Nat → List AddrInfo → State → Except Trap (Bool × State)
  | _, [], state => .ok (false, state)
  | i, info :: res, state => do
      let (code, state) ← request host i info state
      if code = 0 then return (true, state) else requestLoop host (i + 1) res state

/-- `main`, where `getaddrinfo` has a list or the text of an error. -/
def main (host : Host) (getaddrinfo : String → String → AddrInfo → Except String (List AddrInfo))
    (argv : List String) (table : Descriptors SocketFile) : Except Trap (Int × State) :=
  let state : State := { table, messages := [] }
  match argv with
  | [] => .error .outOfBounds
  | [_, name, port] =>
      match getaddrinfo name port hints with
      | .error reason => .ok (1, state.print (.fprintf ("getaddrinfo: " ++ reason ++ "\n")))
      | .ok res => do
          let (found, state) ← requestLoop host 0 res state
          if found then return (0, state) else return (1, state.print (.fprintf "request: Failed\n"))
  | program :: _ => .ok (1, state.print (.fprintf ("usage: " ++ program ++ " <host> <port>\n")))

/-! ## The descriptors of the entries -/

/-- The entry's server has sent something. -/
def Host.Serves (host : Host) (i : Nat) : Prop :=
  host.sockets i = true ∧ host.connects i = true ∧ (host.recv i).getD [] ≠ []

/-- The entry's server is connected, but nothing is received from it. -/
def Host.Drops (host : Host) (i : Nat) : Prop :=
  host.sockets i = true ∧ host.connects i = true ∧ (host.recv i).getD [] = []

instance (host : Host) (i : Nat) : Decidable (host.Serves i) :=
  inferInstanceAs (Decidable (host.sockets i = true ∧ host.connects i = true ∧ (host.recv i).getD [] ≠ []))

instance (host : Host) (i : Nat) : Decidable (host.Drops i) :=
  inferInstanceAs (Decidable (host.sockets i = true ∧ host.connects i = true ∧ (host.recv i).getD [] = []))

/-- No earlier entry's server has sent something. -/
def Host.Tries (host : Host) (i : Nat) : Prop := ∀ earlier, earlier < i → ¬ host.Serves earlier

variable {host : Host} {info : AddrInfo} {res : List AddrInfo} {state after : State} {i : Nat}

/-- The state in which the socket for the entry has been created. -/
def State.opened (state : State) (info : AddrInfo) : State := { state with table := (state.table.socket info).2 }

/-- A socket that is closed again leaves no descriptor behind. -/
theorem tryClose_restores (opened : State) (same : opened.table = (state.table.socket info).2) :
    ∀ fd, (tryClose true (state.table.socket info).1 opened).table.get fd = state.table.get fd := by
  intro fd
  obtain ⟨closed, done, restored⟩ := state.table.close_openFile (.socket info.unbound)
  have closing : opened.table.close (state.table.socket info).1 = some closed := by
    rw [same]
    exact done
  rw [tryClose, if_pos rfl, closing]
  exact restored fd

theorem Host.length_recv {received : List UInt8} (result : host.recv i = some received) :
    received.length ≤ recvSize := by
  obtain ⟨arrived, -, rfl⟩ := Option.map_eq_some_iff.mp result
  exact List.length_take_le _ _

theorem terminated_exists {received : List UInt8} (short : received.length ≤ recvSize) :
    ∃ text, terminated received = .ok text := by
  have empty : (Block.malloc (recvSize + 1) : Block UInt8).Begins [] := List.nil_prefix
  have room : received.length < (Block.malloc (recvSize + 1) : Block UInt8).length := by
    rw [Block.length_malloc]
    omega
  obtain ⟨buf, filled, size, begins⟩ := empty.storeFrom received (by simpa using Nat.le_of_lt room)
  rw [List.nil_append] at begins
  obtain ⟨whole, ended, -, string⟩ := begins.store (size ▸ room) 0
  refine ⟨received.takeWhile (· ≠ 0), ?_⟩
  have stored : (Block.malloc (recvSize + 1)).storeFrom 0 received = .ok buf := filled
  rw [terminated, stored, ok_bind, ended, ok_bind]
  exact string.cString

/-- An entry whose server drops the connection keeps its socket; every other one leaves
the descriptors as they were. -/
theorem request_exists (closes : host.closes i = true) (info : AddrInfo) (state : State) :
    ∃ code after, request host i info state = .ok (code, after) ∧ (code = 0 ↔ host.Serves i) ∧
      (host.Drops i → after.table = (state.table.socket info).2) ∧
      (¬ host.Drops i → ∀ fd, after.table.get fd = state.table.get fd) := by
  unfold Host.Serves Host.Drops
  cases created : host.sockets i with
  | false => exact ⟨-1, state.print (.perror "socket"), by simp [request, created], by simp, by simp, fun _ fd => rfl⟩
  | true =>
      cases connected : host.connects i with
      | false =>
          have restored := tryClose_restores (state.opened info) rfl
          refine ⟨-1, (tryClose true (state.table.socket info).1 (state.opened info)).print (.perror "connect"), ?_,
            by simp, by simp, fun _ => restored⟩
          simp only [request, created, connected, closes, if_true, if_false, Bool.false_eq_true]
          rfl
      | true =>
          cases result : host.recv i with
          | none =>
              refine ⟨-1, (printServer info (state.opened info)).print (.perror "recv"), ?_, by simp, fun _ => rfl, by simp⟩
              simp only [request, created, connected, result, if_true]
              rfl
          | some received =>
              cases received with
              | nil =>
                  refine ⟨-1, (printServer info (state.opened info)).print (.fprintf "request: server disconnected"), ?_,
                    by simp, fun _ => rfl, by simp⟩
                  simp only [request, created, connected, result, if_true]
                  rfl
              | cons byte received =>
                  obtain ⟨text, terminates⟩ := terminated_exists (Host.length_recv result)
                  have restored := tryClose_restores
                    ((printServer info (state.opened info)).print (.printf text)) rfl
                  refine ⟨0, tryClose true (state.table.socket info).1
                    ((printServer info (state.opened info)).print (.printf text)), ?_, by simp, by simp, fun _ => restored⟩
                  simp only [request, created, connected, result, closes, terminates, if_true, ok_bind, pure_eq_ok]
                  rfl

theorem request_keeps {code : Int} {fd : Nat} {file : SocketFile} (closes : host.closes i = true)
    (returned : request host i info state = .ok (code, after)) (isOpen : state.table.get fd = some file) :
    after.table.get fd = some file := by
  obtain ⟨_, _, result, -, leaves, restores⟩ := request_exists closes info state
  obtain ⟨rfl, rfl⟩ := Prod.mk.inj (Except.ok.inj (result.symm.trans returned))
  by_cases drops : host.Drops i
  · rw [leaves drops]
    exact (Descriptors.get_put_other _ _ (Descriptors.ne_lowestFree isOpen)).trans isOpen
  · rw [restores drops]
    exact isOpen

theorem requestLoop_request {code : Int} (returned : request host i info state = .ok (code, after)) :
    requestLoop host i (info :: res) state =
      if code = 0 then .ok (true, after) else requestLoop host (i + 1) res after := by
  rw [requestLoop, returned]
  rfl

theorem Host.Tries.succ (tries : host.Tries i) (other : ¬ host.Serves i) : host.Tries (i + 1) := by
  intro earlier before
  by_cases last : earlier = i
  · rwa [last]
  · exact tries earlier (by omega)

theorem requestLoop_exists (closes : ∀ i, host.closes i = true) (start : Nat) (tries : host.Tries start)
    (res : List AddrInfo) (state : State) :
    ∃ found after, requestLoop host start res state = .ok (found, after) ∧
      (∀ fd file, state.table.get fd = some file → after.table.get fd = some file) ∧
      ((∀ fd, after.table.get fd = state.table.get fd) ↔
        ∀ i, i < res.length → host.Tries (start + i) → ¬ host.Drops (start + i)) := by
  induction res generalizing start state with
  | nil =>
      refine ⟨false, state, rfl, fun _ _ isOpen => isOpen, fun _ i inside => ?_, fun _ _ => rfl⟩
      exact absurd inside (Nat.not_lt_zero i)
  | cons info res ih =>
      obtain ⟨code, next, returned, zero, leaves, restores⟩ := request_exists (closes start) info state
      rw [requestLoop_request returned]
      by_cases serves : host.Serves start
      · have kept : ¬ host.Drops start := fun drops => serves.2.2 drops.2.2
        rw [if_pos (zero.mpr serves)]
        refine ⟨true, next, rfl, fun fd file isOpen => request_keeps (closes start) returned isOpen,
          fun _ i _ reached => ?_, fun _ => restores kept⟩
        cases i with
        | zero => exact kept
        | succ i => exact absurd serves (reached start (by omega))
      · rw [if_neg fun success => serves (zero.mp success)]
        obtain ⟨found, after, looped, keeps, same⟩ := ih (start + 1) (tries.succ serves) next
        refine ⟨found, after, looped, fun fd file isOpen => keeps fd file (request_keeps (closes start) returned isOpen), ?_⟩
        by_cases drops : host.Drops start
        · refine ⟨fun all => ?_, fun none => absurd drops (none 0 (Nat.zero_lt_succ _) tries)⟩
          have opened : next.table.get state.table.lowestFree = some (.socket info.unbound) := by
            rw [leaves drops]
            exact Descriptors.get_put_same _ _ _
          have free := (all _).trans state.table.get_lowestFree
          rw [keeps _ _ opened] at free
          contradiction
        · have shift (i : Nat) : start + (i + 1) = start + 1 + i := by omega
          have step : (∀ fd, after.table.get fd = state.table.get fd) ↔ ∀ fd, after.table.get fd = next.table.get fd :=
            forall_congr' fun fd => by rw [restores drops fd]
          rw [step, same]
          refine ⟨fun none i inside reached => ?_, fun none i inside reached => ?_⟩
          · cases i with
            | zero => exact drops
            | succ i =>
                rw [shift] at reached ⊢
                exact none i (Nat.lt_of_succ_lt_succ inside) reached
          · rw [← shift] at reached ⊢
            exact none (i + 1) (Nat.succ_lt_succ inside) reached

/-- The sockets that the loop has opened are all closed after it if and only if no server
that is connected, before one that sends something, drops the connection. -/
theorem requestLoop_restores_iff (host : Host) (closes : ∀ i, host.closes i = true) (res : List AddrInfo)
    (table : Descriptors SocketFile) :
    ∃ found after, requestLoop host 0 res { table, messages := [] } = .ok (found, after) ∧
      ((∀ fd, after.table.get fd = table.get fd) ↔ ∀ i, i < res.length → host.Tries i → ¬ host.Drops i) := by
  obtain ⟨found, after, looped, -, same⟩ :=
    requestLoop_exists closes 0 (fun earlier before => absurd before (Nat.not_lt_zero earlier)) res { table, messages := [] }
  simp only [Nat.zero_add] at same
  exact ⟨found, after, looped, same⟩

theorem requestLoop_restores_second :
    let host : Host := {
      sockets := fun _ => true
      connects := fun i => i == 1
      arrived := fun _ => some [104, 105]
      closes := fun _ => true }
    let first : AddrInfo := { family := 10, socktype := 1, protocol := 6, addr := [10, 0], fits := by decide }
    let second : AddrInfo := { family := 2, socktype := 1, protocol := 6, addr := [2, 0], fits := by decide }
    let table : Descriptors SocketFile := ⟨[some (.other 0)]⟩
    ∃ found after, requestLoop host 0 [first, second] { table, messages := [] } = .ok (found, after) ∧
      ∀ fd, after.table.get fd = table.get fd := by
  intro host first second table
  obtain ⟨found, after, looped, same⟩ := requestLoop_restores_iff host (fun _ => rfl) [first, second] table
  refine ⟨found, after, looped, same.mpr fun i _ _ drops => ?_⟩
  exact absurd drops.2.2 (List.cons_ne_nil _ _)

/-- The socket of a server that disconnects at once stays open. -/
theorem disconnected_stays_open : ¬ ∀ (host : Host), (∀ i, host.closes i = true) →
    ∀ (res : List AddrInfo) (table : Descriptors SocketFile) (found : Bool) (after : State),
      requestLoop host 0 res { table, messages := [] } = .ok (found, after) →
      ∀ fd, after.table.get fd = table.get fd := by
  intro restores
  let host : Host := {
    sockets := fun _ => true
    connects := fun _ => true
    arrived := fun _ => some []
    closes := fun _ => true }
  let info : AddrInfo := { family := 2, socktype := 1, protocol := 6, addr := [2, 0], fits := by decide }
  have still := restores host (fun _ => rfl) [info] ⟨[]⟩ _ _ rfl 0
  contradiction

end SysProg.Network.Client1
