import SysProg.Chat.LinkedList
import Mathlib.Data.List.TakeWhile

namespace SysProg.Chat

variable {δ : Type}

/-! # The list against a double-ended queue

An abstract deque is a list of values. `llist_addf` stores only the `next` link
of its node and `llist_addl` only the `prev` link, so each end can be followed
just as far as the nodes that were put in at that end.
-/

def Call.answer : Call δ → List δ → Option δ
  | .addf _, _ | .addl _, _ => none
  | .remf, values => values.head?
  | .reml, values => values.getLast?

def Call.effect : Call δ → List δ → List δ
  | .addf data, values => data :: values
  | .addl data, values => values ++ [data]
  | .remf, values => values.tail
  | .reml, values => values.dropLast

/-- The answers and sizes of the abstract deque. -/
def dequeObserve : List δ → List (Call δ) → List (Option δ × Int)
  | _, [] => []
  | values, call :: rest =>
      (call.answer values, ((call.effect values).length : Int)) :: dequeObserve (call.effect values) rest

/-- Whatever unused addresses `malloc` returns, the calls made on a new list
return the values and leave the sizes of the abstract deque. -/
def BehavesAsDeque (calls : List (Call δ)) : Prop :=
  ∀ nodes : List Nat, nodes.length = calls.length → Served llistInit (calls.zip nodes) →
    observe llistInit (calls.zip nodes) = .ok (dequeObserve [] calls)

/-! ## How the elements went in -/

/-- An element went in alone, or in front of others, or behind others. -/
inductive Origin where
  | sole
  | front
  | back
deriving DecidableEq, Repr

/-- The origins of the elements from front to back, and whether an end pointer
of the list, or the link its last node leads to, is left on a freed node: this
happens when the element that went in alone is removed from the other end
while elements remain, until that end is set again with the list empty. -/
structure Shape where
  origins : List Origin
  staleHead : Bool
  staleTail : Bool
deriving DecidableEq, Repr

def Shape.empty : Shape := { origins := [], staleHead := false, staleTail := false }

/-- A removal finds its end: the element there did not go in behind others (in
front of others, for `llist_reml`), and an empty list has no stale pointer. An
addition leaves the size in the range of `int`. -/
def Shape.admits (shape : Shape) : Call δ → Bool
  | .addf _ | .addl _ => decide (shape.origins.length < intMax)
  | .remf =>
      match shape.origins.head? with
      | none => !shape.staleHead
      | some origin => origin != .back
  | .reml =>
      match shape.origins.getLast? with
      | none => !shape.staleTail
      | some origin => origin != .front

def Shape.after (shape : Shape) : Call δ → Shape
  | .addf _ => {
      origins := (if shape.origins = [] then .sole else .front) :: shape.origins
      staleHead := shape.staleHead
      staleTail := decide (shape.origins ≠ []) && shape.staleTail }
  | .addl _ => {
      origins := shape.origins ++ [if shape.origins = [] then .sole else .back]
      staleHead := decide (shape.origins ≠ []) && shape.staleHead
      staleTail := shape.staleTail }
  | .remf => {
      origins := shape.origins.tail
      staleHead := shape.staleHead
      staleTail := if shape.origins = [] then shape.staleTail
        else decide (shape.origins.tail ≠ []) && (shape.staleTail || decide (shape.origins.head? = some .sole)) }
  | .reml => {
      origins := shape.origins.dropLast
      staleHead := if shape.origins = [] then shape.staleHead
        else decide (shape.origins.dropLast ≠ []) &&
          (shape.staleHead || decide (shape.origins.getLast? = some .sole))
      staleTail := shape.staleTail }

/-- Every removal in the sequence finds its end, and every addition has room. -/
def Shape.linked : Shape → List (Call δ) → Bool
  | _, [] => true
  | shape, call :: rest => shape.admits call && (shape.after call).linked rest

end SysProg.Chat
