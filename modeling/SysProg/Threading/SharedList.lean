import SysProg.Library.Machine
import SysProg.Library.Segment

namespace SysProg.Threading.SharedList

/-! # `05-threading/class/linkedlist.c`

Any number of threads call `push_front` on one list, each any number of times
and with any object. Every statement is a step of its own. What a block holds
when `malloc` returns it is part of the action that allocates it.
-/

open Function

variable {ι δ : Type}

structure SingleNode (δ : Type) where
  element : δ
  next : Ptr

/-- A thread in `push_front`, or outside of it in `idle`. `crashed` is after a
step that C leaves undefined: an access to a block that is not allocated, or an
overflow of `size`. -/
inductive Phase (δ : Type) where
  | idle
  | allocating (obj : δ)
  | filling (obj : δ) (tmp : Nat)
  | waiting (obj : δ) (tmp : Nat)
  | linking (obj : δ) (tmp : Nat)
  | heading (obj : δ) (tmp : Nat)
  | testing (obj : δ) (tmp : Nat)
  | tailing (obj : δ) (tmp : Nat)
  | counting (obj : δ) (tmp : Nat)
  | posting (obj : δ) (tmp : Nat)
  | crashed
deriving DecidableEq

/-- `pushed` lists the node and the object of each push whose `sem_post` has
been executed, the latest first. -/
structure State (ι δ : Type) where
  threads : ι → Phase δ
  heap : Heap (SingleNode δ)
  head : Ptr
  tail : Ptr
  size : Int
  sem : Nat
  pushed : List (Nat × δ)

inductive Action (ι δ : Type) where
  | call (who : ι) (obj : δ)
  | malloc (who : ι) (block : Option (Nat × SingleNode δ))
  | step (who : ι)

/-- `INT_MAX` -/
def intMax : Int := 2 ^ 31 - 1

variable [DecidableEq ι]

def State.go (state : State ι δ) (who : ι) (phase : Phase δ) : State ι δ :=
  { state with threads := update state.threads who phase }

/-- A store into the node `tmp`, after which the thread is in `phase`. -/
def State.store (state : State ι δ) (who : ι) (phase : Phase δ) (tmp : Nat)
    (change : SingleNode δ → SingleNode δ) : State ι δ :=
  match state.heap tmp with
  | none => state.go who .crashed
  | some node => { state.go who phase with heap := state.heap.write tmp (change node) }

/-- `malloc`, and the return of `0` when it fails -/
def mallocStep (state : State ι δ) (who : ι) (block : Option (Nat × SingleNode δ)) : Option (State ι δ) :=
  match state.threads who, block with
  | .allocating _, none => some (state.go who .idle)
  | .allocating obj, some (address, garbage) =>
      if (state.heap address).isNone then
        some { state.go who (.filling obj address) with heap := state.heap.write address garbage }
      else none
  | _, _ => none

/-- The statements of `push_front` after its `malloc` -/
def pushFront (state : State ι δ) (who : ι) : Option (State ι δ) :=
  match state.threads who with
  | .idle | .allocating _ | .crashed => none
  | .filling obj tmp => some (state.store who (.waiting obj tmp) tmp fun node => { node with element := obj })
  | .waiting obj tmp =>
      if 0 < state.sem then some { state.go who (.linking obj tmp) with sem := state.sem - 1 } else none
  | .linking obj tmp => some (state.store who (.heading obj tmp) tmp fun node => { node with next := state.head })
  | .heading obj tmp => some { state.go who (.testing obj tmp) with head := some tmp }
  | .testing obj tmp => some (state.go who (if state.size = 0 then .tailing obj tmp else .counting obj tmp))
  | .tailing obj tmp => some { state.go who (.counting obj tmp) with tail := some tmp }
  | .counting obj tmp =>
      if state.size < intMax then some { state.go who (.posting obj tmp) with size := state.size + 1 }
      else some (state.go who .crashed)
  | .posting obj tmp =>
      some { state.go who .idle with sem := state.sem + 1, pushed := (tmp, obj) :: state.pushed }

def next (state : State ι δ) : Action ι δ → Option (State ι δ)
  | .call who obj =>
      match state.threads who with
      | .idle => some (state.go who (.allocating obj))
      | _ => none
  | .malloc who block => mallocStep state who block
  | .step who => pushFront state who

/-- `single_list_init`, and no thread in `push_front` -/
def singleListInit : State ι δ where
  threads := fun _ => .idle
  heap := fun _ => none
  head := none
  tail := none
  size := 0
  sem := 1
  pushed := []

def machine (ι δ : Type) [DecidableEq ι] : Machine (State ι δ) (Action ι δ) where
  init := singleListInit
  next := next

end SysProg.Threading.SharedList
