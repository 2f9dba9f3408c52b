import SysProg.Library.Block
import Mathlib.Data.List.FinRange
import Mathlib.Logic.Function.Basic

namespace SysProg.Memory.Feast

/-! # `09-memory/feast.c`

Five platters, replaced least-frequently-used first. The source of the orders is
a parameter of `serve_dishes`, whose loop takes fuel.
-/

open Function

/-- `TABLE_SPACE` -/
abbrev tableSpace : Nat := 5

structure Platter where
  dish : Int
  uses : Int
deriving DecidableEq

abbrev Platters := Fin tableSpace → Platter

/-- The `for` loop of `serve_dishes`: `exists` and `least`. -/
def scan (platters : Platters) (orderId : Int) : Fin tableSpace → List (Fin tableSpace) →
    Option (Fin tableSpace) × Fin tableSpace
  | least, [] => (none, least)
  | least, i :: rest =>
      if (platters i).dish = orderId then (some i, least)
      else scan platters orderId (if (platters least).uses > (platters i).uses then i else least) rest

def printPlatter (platter : Platter) : String :=
  if platter.uses = -1 then "- []" else toString platter.dish ++ " [" ++ toString platter.uses ++ "]"

def printState (platters : Platters) : String :=
  "(" ++ String.intercalate ", " ((List.finRange tableSpace).map fun i => printPlatter (platters i)) ++ ")\n"

/-- The platters, what `serve_dishes` counts, and what has been printed. -/
structure Table where
  platters : Platters
  fetches : Int
  printed : List String

/-- The body of the loop of `serve_dishes`. -/
def serveDish (table : Table) (orderId : Int) : Table :=
  match scan table.platters orderId 0 (List.finRange tableSpace) with
  | (some found, _) =>
      let platter := table.platters found
      let platters := update table.platters found { platter with uses := wrapInt (platter.uses + 1) }
      { table with platters, printed := table.printed ++ [printState platters] }
  | (none, least) =>
      let platters := update table.platters least { dish := orderId, uses := 0 }
      { platters, fetches := wrapInt (table.fetches + 1), printed := table.printed ++ [printState platters] }

/-- `serve_dishes`, which returns the `fetches` of the result. -/
def serveDishes {σ : Type} (getNextDishOrder : σ → Int × σ) : Nat → σ → Table → Except Trap Table
  | 0, _, _ => .error .diverged
  | fuel + 1, source, table =>
      let (orderId, source) := getNextDishOrder source
      if orderId ≠ -1 then serveDishes getNextDishOrder fuel source (serveDish table orderId) else .ok table

/-- The table that `main` lays. -/
def laid : Table where
  platters := fun _ => { dish := -1, uses := -1 }
  fetches := 0
  printed := []

def main {σ : Type} (getNextDishOrder : σ → Int × σ) (fuel : Nat) (source : σ) : Except Trap (List String) := do
  let table ← serveDishes getNextDishOrder fuel source laid
  return table.printed ++ ["Bilbo had to fetch dishes " ++ toString table.fetches ++ " times using LFU.\n"]

end SysProg.Memory.Feast
