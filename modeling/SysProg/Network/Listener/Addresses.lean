import SysProg.Network.Listener

namespace SysProg.Network.Listener

/-! ## The entries that `init_with_first` tries -/

/-- Both calls for the entry succeed. -/
def Host.Works (host : Host) (i : Nat) : Prop := host.sockets i = true ∧ host.binds i = true

instance (host : Host) (i : Nat) : Decidable (host.Works i) :=
  inferInstanceAs (Decidable (host.sockets i = true ∧ host.binds i = true))

/-- `serv` has a new socket, which is bound to the entry's address, and every other
descriptor is as it was. -/
structure BoundTo (before : Descriptors SocketFile) (info : AddrInfo) (after : State) (sd : Nat) : Prop where
  serv : after.serv.sd = some sd
  addr : after.serv.addr.bytes.Begins info.addr
  free : before.get sd = none
  bound : after.table.get sd = some (.socket { info.unbound with bound := some info.addr })
  others : ∀ fd, fd ≠ sd → after.table.get fd = before.get fd

variable {host : Host} {info : AddrInfo} {res : List AddrInfo} {state after : State} {i sd : Nat}

theorem BoundTo.congr {before earlier : Descriptors SocketFile} (bound : BoundTo before info after sd)
    (same : ∀ fd, before.get fd = earlier.get fd) : BoundTo earlier info after sd where
  serv := bound.serv
  addr := bound.addr
  free := (same sd).symm.trans bound.free
  bound := bound.bound
  others fd other := (bound.others fd other).trans (same fd)

/-- The state in which the socket for the entry has been created. -/
def State.opened (state : State) (info : AddrInfo) : State :=
  { state.print (.addrinfo info) with
    table := (state.table.socket info).2
    serv := { state.serv with sd := some (state.table.socket info).1 } }

/-- An entry that does not work leaves no descriptor behind. -/
theorem tryEntry_fails (closes : host.closes i = true) (fails : ¬ host.Works i) (info : AddrInfo) (state : State) :
    ∃ next, tryEntry host i info state = .ok (next, false) ∧ ∀ fd, next.table.get fd = state.table.get fd := by
  cases opened : host.sockets i with
  | false =>
      refine ⟨(state.print (.addrinfo info)).print (.perror "close"), ?_, fun fd => rfl⟩
      simp only [tryEntry, opened, Bool.false_eq_true, if_false]
  | true =>
      cases bound : host.binds i with
      | true => exact absurd ⟨opened, bound⟩ fails
      | false =>
          obtain ⟨closed, done, same⟩ := state.table.close_openFile (.socket info.unbound)
          refine ⟨{ (state.opened info).print (.perror "bind") with table := closed }, ?_, same⟩
          have closing : tryClose true (state.table.socket info).1 ((state.opened info).print (.perror "bind")) =
              { (state.opened info).print (.perror "bind") with table := closed } := by
            simp only [tryClose, State.print, State.opened, Descriptors.socket, if_true, done]
          rw [← closing]
          simp only [tryEntry, opened, bound, closes, Bool.false_eq_true, if_true, if_false]
          rfl

/-- An entry that works is the one that is used. -/
theorem tryEntry_works (works : host.Works i) (info : AddrInfo) (state : State) :
    ∃ after sd, tryEntry host i info state = .ok (after, true) ∧ BoundTo state.table info after sd := by
  obtain ⟨opened, binds⟩ := works
  obtain ⟨table, bound, named, others⟩ := state.table.bind_socket info info.addr
  obtain ⟨copied, stored, begins⟩ := info.memcpy state.serv.addr
  refine ⟨{ state.opened info with table, serv := { (state.opened info).serv with addr := copied } }.print .success,
    (state.table.socket info).1, ?_, ?_⟩
  · simp only [tryEntry, State.print, opened, binds, if_true, bound, stored, ok_bind, pure_eq_ok]
    rfl
  · exact {
      serv := rfl
      addr := begins
      free := state.table.get_lowestFree
      bound := named
      others := others }

theorem firstLoop_returns (closes : ∀ i, host.closes i = true) (start : Nat) (res : List AddrInfo) (state : State) :
    ∃ code after, firstLoop host start res state = .ok (code, after) ∧
      (code = 0 ∧ (∀ i, i < res.length → ¬ host.Works (start + i)) ∧
          (∀ fd, after.table.get fd = state.table.get fd) ∨
        code = 1 ∧ ∃ i info sd, res[i]? = some info ∧ host.Works (start + i) ∧
          (∀ earlier, earlier < i → ¬ host.Works (start + earlier)) ∧ BoundTo state.table info after sd) := by
  induction res generalizing start state with
  | nil => exact ⟨0, state, rfl, .inl ⟨rfl, by simp, fun fd => rfl⟩⟩
  | cons info res ih =>
      have shift (i : Nat) : start + (i + 1) = start + 1 + i := by omega
      by_cases works : host.Works start
      · obtain ⟨after, sd, tried, bound⟩ := tryEntry_works works info state
        refine ⟨1, after, ?_, .inr ⟨rfl, 0, info, sd, rfl, works, by simp, bound⟩⟩
        rw [firstLoop, tried]
        rfl
      · obtain ⟨next, tried, same⟩ := tryEntry_fails (closes start) works info state
        obtain ⟨code, after, returned, outcome⟩ := ih (start + 1) next
        refine ⟨code, after, ?_, ?_⟩
        · rw [firstLoop, tried]
          exact returned
        rcases outcome with ⟨zero, none, kept⟩ | ⟨one, i, found, sd, member, usable, first, bound⟩
        · refine .inl ⟨zero, fun i bound => ?_, fun fd => (kept fd).trans (same fd)⟩
          cases i with
          | zero => exact works
          | succ i =>
              rw [shift]
              exact none i (by simpa using bound)
        · refine .inr ⟨one, i + 1, found, sd, by simpa using member, ?_, fun earlier before => ?_, bound.congr same⟩
          · rw [shift]
            exact usable
          · cases earlier with
            | zero => exact works
            | succ earlier =>
                rw [shift]
                exact first earlier (by omega)

/-- `init_with_first` returns `1` if and only if an entry works. Then `serv` has the
socket that is bound to the first of these, and no other descriptor has been left
open; otherwise none has. -/
theorem initWithFirst_binds_first (host : Host) (closes : ∀ i, host.closes i = true) (serv : ServerSock)
    (res : List AddrInfo) (table : Descriptors SocketFile) :
    ∃ code after, initWithFirst host serv res table = .ok (code, after) ∧
      (code = 1 ↔ ∃ i, i < res.length ∧ host.Works i) ∧
      (code = 1 → ∃ i info sd, res[i]? = some info ∧ host.Works i ∧ (∀ earlier, earlier < i → ¬ host.Works earlier) ∧
        BoundTo table info after sd) ∧
      (code ≠ 1 → code = 0 ∧ ∀ fd, after.table.get fd = table.get fd) := by
  obtain ⟨code, after, returned, outcome⟩ := firstLoop_returns closes 0 res { table, serv, messages := [] }
  simp only [Nat.zero_add] at outcome
  refine ⟨code, after, returned, ?_⟩
  rcases outcome with ⟨rfl, none, kept⟩ | ⟨rfl, i, info, sd, member, usable, first, bound⟩
  · refine ⟨⟨by simp, ?_⟩, by simp, fun _ => ⟨rfl, kept⟩⟩
    rintro ⟨i, inside, works⟩
    exact absurd works (none i inside)
  · have inside : i < res.length := (List.getElem?_eq_some_iff.mp member).1
    exact ⟨⟨fun _ => ⟨i, inside, usable⟩, fun _ => rfl⟩, fun _ => ⟨i, info, sd, member, usable, first, bound⟩, by simp⟩

theorem initWithFirst_binds_second :
    let host : Host := { sockets := fun _ => true, binds := fun i => i == 1, closes := fun _ => true }
    let serv : ServerSock := { sd := none, addr := ⟨Block.malloc sockaddrStorageSize, Block.length_malloc _⟩ }
    let first : AddrInfo := { family := 2, socktype := 2, protocol := 17, addr := [2, 0], fits := by decide }
    let second : AddrInfo := { family := 10, socktype := 2, protocol := 17, addr := [10, 0], fits := by decide }
    let table : Descriptors SocketFile := ⟨[some (.other 0)]⟩
    ∃ after sd, initWithFirst host serv [first, second] table = .ok (1, after) ∧ BoundTo table second after sd := by
  intro host serv first second table
  obtain ⟨code, after, returned, one, bound, -⟩ :=
    initWithFirst_binds_first host (fun _ => rfl) serv [first, second] table
  have used : code = 1 := one.mpr ⟨1, by decide, rfl, rfl⟩
  subst used
  obtain ⟨i, info, sd, member, works, -, fresh⟩ := bound rfl
  have same : i = 1 := eq_of_beq works.2
  subst same
  cases member
  exact ⟨after, sd, returned, fresh⟩

end SysProg.Network.Listener
