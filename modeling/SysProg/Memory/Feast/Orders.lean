import SysProg.Library.Scanf
import SysProg.Memory.Feast

namespace SysProg.Memory.Feast

/-! ## `get_next_dish_order` -/

/-- The standard input, and how often `scanf` has been called. -/
structure Stdin where
  stream : Stream
  calls : Nat
deriving DecidableEq, Repr

def Stdin.ofText (text : List UInt8) : Stdin := { stream := { input := text, eof := false }, calls := 0 }

/-- `get_next_dish_order`. By the number of the call, `held` is the value of the
variable that `scanf` is to set, where it does not set it or C leaves undefined
what it sets it to. -/
def getNextDishOrder (held : Nat → Int) (stdin : Stdin) : Int × Stdin :=
  if stdin.stream.eof then (-1, stdin)
  else
    match scanInt stdin.stream.input with
    | (.stored value, stream) => (value, { stream, calls := stdin.calls + 1 })
    | (.unrepresentable, stream) | (.failed, stream) => (held stdin.calls, { stream, calls := stdin.calls + 1 })

/-! ## The orders that `serve_dishes` processes -/

/-- The loop ends after it has run its body for these orders. -/
inductive Processes {σ : Type} (getNext : σ → Int × σ) : σ → List Int → Prop
  | ended {source after : σ} (ended : getNext source = (-1, after)) : Processes getNext source []
  | order {source after : σ} {order : Int} {rest : List Int} (ordered : getNext source = (order, after))
      (real : order ≠ -1) (later : Processes getNext after rest) : Processes getNext source (order :: rest)

section

variable {σ : Type} {getNext : σ → Int × σ} {source : σ} {orders others : List Int}

theorem Processes.unique (one : Processes getNext source orders) (other : Processes getNext source others) :
    orders = others := by
  induction one generalizing others with
  | ended ended =>
      cases other with
      | ended => rfl
      | order ordered real =>
          cases ended.symm.trans ordered
          contradiction
  | order ordered real later ih =>
      cases other with
      | ended ended =>
          cases ended.symm.trans ordered
          contradiction
      | order again _ rest =>
          cases ordered.symm.trans again
          rw [ih rest]

theorem Processes.serveDishes (processes : Processes getNext source orders) :
    ∃ fuel, ∀ table, serveDishes getNext fuel source table = .ok (orders.foldl serveDish table) := by
  induction processes with
  | ended ended => exact ⟨1, fun table => by simp [Feast.serveDishes, ended]⟩
  | order ordered real later ih =>
      obtain ⟨fuel, ran⟩ := ih
      refine ⟨fuel + 1, fun table => ?_⟩
      simp only [Feast.serveDishes, ordered, ne_eq, real, not_false_eq_true, if_true, ran, List.foldl_cons]

end

variable {held : Nat → Int} {text rest trailing : List UInt8} {values : List Int} {calls : Nat} {scan : Scan}

/-- The value that the call yields. -/
def orderOf (scan : Scan) (held : Int) : Int :=
  match scan with
  | .stored value => value
  | .unrepresentable | .failed => held

theorem getNextDishOrder_eq (scans : Scans text scan rest) :
    getNextDishOrder held ⟨⟨text, false⟩, calls⟩ = (orderOf scan (held calls), ⟨⟨rest, rest.isEmpty⟩, calls + 1⟩) := by
  simp only [getNextDishOrder, Bool.false_eq_true, if_false, scans.scanInt_eq]
  cases scan <;> rfl

theorem processes_eof (held : Nat → Int) (rest : List UInt8) (calls : Nat) :
    Processes (getNextDishOrder held) ⟨⟨rest, true⟩, calls⟩ [] :=
  .ended rfl

/-! ## Texts of integers -/

/-- The text spells the integers, with blanks and newlines between them, and
`trailing` follows the last one. -/
inductive Spelled : List UInt8 → List Int → List UInt8 → Prop
  | blank {trailing : List UInt8} (spaces : ∀ byte ∈ trailing, isSpace byte = true) : Spelled trailing [] trailing
  | integer {spaces sign digits rest trailing : List UInt8} {values : List Int}
      (skipped : ∀ byte ∈ spaces, isSpace byte = true) (signed : SignOrNone sign) (some : digits ≠ [])
      (all : ∀ byte ∈ digits, isDigit byte = true)
      (separated : rest = [] ∨ ∃ byte later, rest = byte :: later ∧ isSpace byte = true)
      (later : Spelled rest values trailing) :
      Spelled (spaces ++ (sign ++ (digits ++ rest)))
        ((if sign = [45] then -(digitsValue digits : Int) else digitsValue digits) :: values) trailing

theorem Spelled.of_nil (spelled : Spelled text values trailing) (empty : text = []) : values = [] ∧ trailing = [] := by
  cases spelled with
  | blank => exact ⟨rfl, empty⟩
  | integer skipped signed some => simp [some] at empty

theorem Spelled.trailing_eq (spelled : Spelled text values trailing) (none : values = []) : trailing = text := by
  cases spelled with
  | blank => rfl
  | integer => contradiction

/-- What is processed after the integers is nothing, or the value of a variable
that has not been set. -/
theorem Spelled.processes (spelled : Spelled text values trailing)
    (range : ∀ value ∈ values, -2 ^ 31 ≤ value ∧ value < 2 ^ 31 ∧ value ≠ -1) (calls : Nat) :
    ∃ more, Processes (getNextDishOrder held) ⟨⟨text, false⟩, calls⟩ (values ++ more) ∧
      (more = [] ↔ (values ≠ [] ∧ trailing = []) ∨ held (calls + values.length) = -1) := by
  induction spelled generalizing calls with
  | blank spaces =>
      have given : getNextDishOrder held ⟨⟨_, false⟩, calls⟩ = _ := getNextDishOrder_eq (.blank spaces)
      by_cases real : held calls = -1
      · exact ⟨[], .ended (given.trans (by rw [orderOf, real])), by simp [real]⟩
      · exact ⟨[held calls], .order given real (processes_eof held [] _), by simp [real]⟩
  | @integer spaces sign digits rest trailing values skipped signed some all separated later ih =>
      obtain ⟨⟨lower, upper, real⟩, others⟩ := List.forall_mem_cons.mp range
      have ends : DigitsEnd rest := by
        rcases separated with none | ⟨byte, behind, split, space⟩
        · exact .inl none
        · refine .inr ⟨byte, behind, split, ?_⟩
          cases digit : isDigit byte with
          | false => rfl
          | true => rw [isSpace_of_isDigit digit] at space; contradiction
      have given : getNextDishOrder held ⟨⟨_, false⟩, calls⟩ = _ :=
        getNextDishOrder_eq (.number skipped signed some all ends)
      simp only [convert, decide_eq_true_eq, lower, upper, and_self, if_true, orderOf] at given
      by_cases empty : rest = []
      · subst empty
        obtain ⟨rfl, rfl⟩ := later.of_nil rfl
        exact ⟨[], .order given real (processes_eof held [] _), by simp⟩
      · have going : rest.isEmpty = false := List.isEmpty_eq_false_iff.mpr empty
        rw [going] at given
        obtain ⟨more, processes, exact⟩ := ih others (calls + 1)
        refine ⟨more, .order given real processes, exact.trans ?_⟩
        have same : calls + 1 + values.length = calls + (values.length + 1) := by omega
        rw [List.length_cons, same]
        by_cases none : values = []
        · simp [none, later.trailing_eq none, empty]
        · simp [none]

/-- `serve_dishes` processes exactly the integers of its input if and only if the
last byte of the input belongs to one, or the variable happens to hold `-1` when
`scanf` runs into the end of the input without setting it. -/
theorem orders_exact_iff (held : Nat → Int) (text : List UInt8) (values : List Int) (trailing : List UInt8)
    (spelled : Spelled text values trailing)
    (range : ∀ value ∈ values, -2 ^ 31 ≤ value ∧ value < 2 ^ 31 ∧ value ≠ -1) :
    (Processes (getNextDishOrder held) (.ofText text) values ↔
      (values ≠ [] ∧ trailing = []) ∨ held values.length = -1) ∧
    ∀ orders, Processes (getNextDishOrder held) (.ofText text) orders →
      ∃ fuel, ∀ table, serveDishes (getNextDishOrder held) fuel (.ofText text) table =
        .ok (orders.foldl serveDish table) := by
  refine ⟨?_, fun orders processes => processes.serveDishes⟩
  obtain ⟨more, processes, exact⟩ := spelled.processes range 0
  rw [Nat.zero_add] at exact
  rw [← exact]
  constructor
  · intro only
    simpa using processes.unique only
  · intro none
    rw [none, List.append_nil] at processes
    exact processes

/-- `7` and `-2`, and nothing behind them. -/
theorem spelled_two : Spelled [55, 10, 45, 50] [7, -2] [] := by
  have last : Spelled [10, 45, 50] [-2] [] := @Spelled.integer [10] [45] [50] [] [] []
    (List.forall_mem_singleton.mpr rfl) (.inr ⟨45, rfl, rfl⟩) (by decide) (List.forall_mem_singleton.mpr rfl) (.inl rfl)
    (.blank (List.forall_mem_nil _))
  exact @Spelled.integer [] [] [55] [10, 45, 50] [] [-2] (List.forall_mem_nil _) (.inl rfl) (by decide)
    (List.forall_mem_singleton.mpr rfl) (.inr ⟨10, [45, 50], rfl, rfl⟩) last

theorem orders_exact_two : Processes (getNextDishOrder fun _ => 0) (.ofText [55, 10, 45, 50]) [7, -2] :=
  (orders_exact_iff (fun _ => 0) [55, 10, 45, 50] [7, -2] [] spelled_two (by decide)).1.mpr (.inl (by decide))

/-- `7` and a newline, as the order files end: the variable is processed as well. -/
theorem newline_is_an_order : ¬ ∀ (held : Nat → Int) (text : List UInt8) (values : List Int) (trailing : List UInt8),
    Spelled text values trailing → (∀ value ∈ values, -2 ^ 31 ≤ value ∧ value < 2 ^ 31 ∧ value ≠ -1) →
      Processes (getNextDishOrder held) (.ofText text) values := by
  intro exact
  have spelled : Spelled [55, 10] [7] [10] := @Spelled.integer [] [] [55] [10] [10] [] (List.forall_mem_nil _)
    (.inl rfl) (by decide) (List.forall_mem_singleton.mpr rfl) (.inr ⟨10, [], rfl, rfl⟩)
    (.blank (List.forall_mem_singleton.mpr rfl))
  have only := exact (fun _ => 7) [55, 10] [7] [10] spelled (by decide)
  have twice : Processes (getNextDishOrder fun _ => 7) (.ofText [55, 10]) [7, 7] :=
    .order rfl (by decide) (.order rfl (by decide) (.ended rfl))
  exact absurd (only.unique twice) (by decide)

end SysProg.Memory.Feast
