import SysProg.Library.Block
import SysProg.Library.Segment

namespace SysProg.Chat

/-! # `chat/llist.c`

The list lives in an explicit heap. Reading or freeing a node that is not
allocated is `Trap.freed`. The list pointer itself is a valid one, as it is for
every caller; `data` and the result of `malloc` may be `NULL`. A size that
leaves the range of `int` is `Trap.overflow`.
-/

variable {δ : Type}

structure LNode (δ : Type) where
  data : δ
  next : Ptr
  prev : Ptr

structure LList where
  head : Ptr
  tail : Ptr
  size : Int

structure Store (δ : Type) where
  list : LList
  heap : Heap (LNode δ)

/-- `INT_MAX` -/
def intMax : Int := 2 ^ 31 - 1

/-- `++list->size` -/
def increment (size : Int) : Except Trap Int := if size < intMax then .ok (size + 1) else .error .overflow

/-- `--list->size` -/
def decrement (size : Int) : Except Trap Int := if -2 ^ 31 < size then .ok (size - 1) else .error .overflow

def llistInit : Store δ where
  list := { head := none, tail := none, size := 0 }
  heap := fun _ => none

/-- `llist_destroy`: the nodes it frees, and the list, whose fields it does not
change. -/
def llistDestroy (fuel : Nat) (store : Store δ) : Except Trap (List Nat × Store δ) := do
  let (freed, heap) ← store.heap.freeChain LNode.next fuel store.list.head
  return (freed, { store with heap })

/-- `llist_addf`, with `node` the result of its `malloc`. -/
def llistAddf (store : Store δ) (data : Option δ) (node : Ptr) : Except Trap (Int × Store δ) :=
  match data, node with
  | some data, some node => do
      let size ← increment store.list.size
      return (0, {
        heap := store.heap.write node { data, next := store.list.head, prev := none }
        list := { head := some node, tail := if size = 1 then some node else store.list.tail, size } })
  | _, _ => .ok (-1, store)

/-- `llist_addl`, with `node` the result of its `malloc`. -/
def llistAddl (store : Store δ) (data : Option δ) (node : Ptr) : Except Trap (Int × Store δ) :=
  match data, node with
  | some data, some node => do
      let size ← increment store.list.size
      return (0, {
        heap := store.heap.write node { data, next := none, prev := store.list.tail }
        list := { head := if size = 1 then some node else store.list.head, tail := some node, size } })
  | _, _ => .ok (-1, store)

def llistRemf (store : Store δ) : Except Trap (Option δ × Store δ) :=
  match store.list.head with
  | none => .ok (none, store)
  | some address =>
      match store.heap address with
      | none => .error .freed
      | some node => do
          let size ← decrement store.list.size
          return (some node.data, {
            heap := store.heap.free address
            list := { head := node.next, tail := if size = 0 then none else store.list.tail, size } })

def llistReml (store : Store δ) : Except Trap (Option δ × Store δ) :=
  match store.list.tail with
  | none => .ok (none, store)
  | some address =>
      match store.heap address with
      | none => .error .freed
      | some node => do
          let size ← decrement store.list.size
          return (some node.data, {
            heap := store.heap.free address
            list := { head := if size = 0 then none else store.list.head, tail := node.prev, size } })

/-- One call on the list, with non-`NULL` data. -/
inductive Call (δ : Type) where
  | addf (data : δ)
  | addl (data : δ)
  | remf
  | reml
deriving DecidableEq

def Call.allocates : Call δ → Bool
  | .addf _ | .addl _ => true
  | .remf | .reml => false

theorem increment_eq_ok {size : Int} (room : size < intMax) : increment size = .ok (size + 1) := if_pos room

theorem decrement_eq_ok {size : Int} (positive : 0 < size) : decrement size = .ok (size - 1) :=
  if_pos (Int.lt_trans (by decide) positive)

/-- A call together with the address its `malloc` returns, if it makes one.
The first component of the result is what a removal returns. -/
def perform (store : Store δ) : Call δ × Nat → Except Trap (Option δ × Store δ)
  | (.addf data, node) => do return (none, (← llistAddf store (some data) (some node)).2)
  | (.addl data, node) => do return (none, (← llistAddl store (some data) (some node)).2)
  | (.remf, _) => llistRemf store
  | (.reml, _) => llistReml store

/-- The value returned by each call and the `size` field after it. -/
def observe : Store δ → List (Call δ × Nat) → Except Trap (List (Option δ × Int))
  | _, [] => .ok []
  | store, call :: rest => do
      let (answer, after) ← perform store call
      return (answer, after.list.size) :: (← observe after rest)

/-- Every `malloc` of the run succeeds: it returns an address not in use. -/
def Served : Store δ → List (Call δ × Nat) → Prop
  | _, [] => True
  | store, call :: rest =>
      (call.1.allocates = true → store.heap call.2 = none) ∧
        ∀ answer after, perform store call = .ok (answer, after) → Served after rest

end SysProg.Chat
