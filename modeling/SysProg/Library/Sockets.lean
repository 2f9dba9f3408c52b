import SysProg.Library.Block
import SysProg.Library.Descriptors

namespace SysProg

/-! # Sockets

Sockets among the files that the descriptors of a process refer to, and the
addresses that they are bound to, as their bytes.
-/

/-- `sizeof(struct sockaddr_storage)` -/
def sockaddrStorageSize : Nat := 128

/-- `struct sockaddr_storage` -/
structure SockaddrStorage where
  bytes : Block UInt8
  size : bytes.length = sockaddrStorageSize

/-- `struct addrinfo`. Every address fits in a `struct sockaddr_storage`. -/
structure AddrInfo where
  family : Int
  socktype : Int
  protocol : Int
  addr : List UInt8
  fits : addr.length ≤ sockaddrStorageSize

structure Socket where
  family : Int
  socktype : Int
  protocol : Int
  bound : Option (List UInt8)
deriving DecidableEq, Repr

/-- What a descriptor refers to. -/
inductive SocketFile where
  | socket (socket : Socket)
  | other (inode : Nat)
deriving DecidableEq, Repr

/-- A socket for the address, which is not bound yet. -/
def AddrInfo.unbound (info : AddrInfo) : Socket where
  family := info.family
  socktype := info.socktype
  protocol := info.protocol
  bound := none

/-- `memcpy(storage, source, size)` -/
def SockaddrStorage.memcpy (storage : SockaddrStorage) (source : List UInt8) : Except Trap SockaddrStorage :=
  if fits : source.length ≤ sockaddrStorageSize then
    .ok ⟨Block.ofList source ++ storage.bytes.drop source.length, by
      rw [List.length_append, List.length_drop, storage.size, Block.length_ofList, Nat.add_sub_cancel' fits]⟩
  else .error .outOfBounds

theorem AddrInfo.memcpy (info : AddrInfo) (storage : SockaddrStorage) :
    ∃ copied, storage.memcpy info.addr = .ok copied ∧ copied.bytes.Begins info.addr := by
  rw [SockaddrStorage.memcpy, dif_pos info.fits]
  exact ⟨_, rfl, List.prefix_append _ _⟩

namespace Descriptors

/-- `socket`, where it succeeds. -/
def socket (table : Descriptors SocketFile) (info : AddrInfo) : Nat × Descriptors SocketFile :=
  table.openFile (.socket info.unbound)

/-- `bind`, where the address can be used. -/
def bind (table : Descriptors SocketFile) (sd : Nat) (addr : List UInt8) : Option (Descriptors SocketFile) :=
  match table.get sd with
  | some (.socket socket) => some (table.put sd (some (.socket { socket with bound := some addr })))
  | _ => none

theorem bind_socket (table : Descriptors SocketFile) (info : AddrInfo) (addr : List UInt8) :
    ∃ after, (table.socket info).2.bind (table.socket info).1 addr = some after ∧
      after.get (table.socket info).1 = some (.socket { info.unbound with bound := some addr }) ∧
      ∀ fd, fd ≠ (table.socket info).1 → after.get fd = table.get fd := by
  have created : (table.socket info).2.get (table.socket info).1 = some (.socket info.unbound) := get_put_same _ _ _
  refine ⟨_, by rw [bind, created], get_put_same _ _ _, fun fd other => ?_⟩
  exact (get_put_other _ _ other).trans (get_put_other _ _ other)

end Descriptors

end SysProg
