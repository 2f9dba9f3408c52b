import SysProg.Chat.Deque.Behaviour

namespace SysProg.Chat

variable {δ : Type}

/-! # The list as a stack

Calls at one end only. The links from that end lead through all the nodes,
whatever those from the other end do.
-/

inductive StackCall (δ : Type) where
  | push (data : δ)
  | pop
deriving DecidableEq

/-- `llist_addf` and `llist_remf` -/
def StackCall.front : StackCall δ → Call δ
  | .push data => .addf data
  | .pop => .remf

/-- `llist_addl` and `llist_reml` -/
def StackCall.back : StackCall δ → Call δ
  | .push data => .addl data
  | .pop => .reml

/-- The answers and sizes of a last-in first-out stack, its top first. -/
def stackObserve : List δ → List (StackCall δ) → List (Option δ × Int)
  | _, [] => []
  | values, .push data :: rest => (none, values.length + 1) :: stackObserve (data :: values) rest
  | [], .pop :: rest => (none, 0) :: stackObserve [] rest
  | top :: values, .pop :: rest => (some top, values.length) :: stackObserve values rest

/-- Whatever unused addresses `malloc` returns, the calls made on a new list at
one end return the values and leave the sizes of the stack, whichever end it is. -/
def BehavesAsStack (calls : List (StackCall δ)) : Prop :=
  ∀ nodes : List Nat, nodes.length = calls.length →
    (Served llistInit ((calls.map StackCall.front).zip nodes) →
      observe llistInit ((calls.map StackCall.front).zip nodes) = .ok (stackObserve [] calls)) ∧
    (Served llistInit ((calls.map StackCall.back).zip nodes) →
      observe llistInit ((calls.map StackCall.back).zip nodes) = .ok (stackObserve [] calls))

/-- No push is made on a stack of `INT_MAX` values. -/
def hasRoom : Nat → List (StackCall δ) → Bool
  | _, [] => true
  | depth, .push _ :: rest => decide (depth < intMax) && hasRoom (depth + 1) rest
  | depth, .pop :: rest => hasRoom (depth - 1) rest

theorem dequeObserve_front (values : List δ) (calls : List (StackCall δ)) :
    dequeObserve values (calls.map StackCall.front) = stackObserve values calls := by
  induction calls generalizing values with
  | nil => rfl
  | cons call calls ih =>
      cases call with
      | push data => simp [dequeObserve, stackObserve, StackCall.front, Call.answer, Call.effect, ih]
      | pop =>
          cases values with
          | nil => simp [dequeObserve, stackObserve, StackCall.front, Call.answer, Call.effect, ih]
          | cons top values => simp [dequeObserve, stackObserve, StackCall.front, Call.answer, Call.effect, ih]

/-- No element went in behind others, and the head is not stale. -/
def Shape.FrontOnly (shape : Shape) : Prop := shape.staleHead = false ∧ ∀ origin ∈ shape.origins, origin ≠ .back

theorem Shape.FrontOnly.push {shape : Shape} (front : shape.FrontOnly) (data : δ) :
    (shape.after (.addf data : Call δ)).FrontOnly := by
  obtain ⟨clear, linked⟩ := front
  refine ⟨clear, ?_⟩
  intro origin member
  obtain rfl | earlier := List.mem_cons.mp member
  · split <;> simp
  · exact linked origin earlier

theorem Shape.FrontOnly.pop {shape : Shape} (front : shape.FrontOnly) :
    shape.admits (.remf : Call δ) = true ∧ (shape.after (.remf : Call δ)).FrontOnly := by
  obtain ⟨clear, linked⟩ := front
  refine ⟨?_, clear, fun origin member => linked origin (List.mem_of_mem_tail member)⟩
  simp only [Shape.admits]
  cases head : shape.origins.head? with
  | none => simp [clear]
  | some origin => simpa using linked origin (List.mem_of_mem_head? head)

theorem Shape.FrontOnly.linked {shape : Shape} (front : shape.FrontOnly) (calls : List (StackCall δ)) :
    shape.linked (calls.map StackCall.front) = hasRoom shape.origins.length calls := by
  induction calls generalizing shape with
  | nil => rfl
  | cons call calls ih =>
      cases call with
      | push data =>
          have depth : (shape.after (.addf data : Call δ)).origins.length = shape.origins.length + 1 := List.length_cons
          simp only [List.map_cons, StackCall.front, Shape.linked, hasRoom, ih (front.push data), depth]
          rfl
      | pop =>
          obtain ⟨admitted, next⟩ := front.pop (δ := δ)
          have depth : (shape.after (.remf : Call δ)).origins.length = shape.origins.length - 1 := List.length_tail
          simp only [List.map_cons, StackCall.front, Shape.linked, hasRoom, admitted, Bool.true_and, ih next, depth]

/-! The other end is the mirror image. -/

theorem StackCall.mirror_front (call : StackCall δ) : call.front.mirror = call.back := by
  cases call <;> rfl

theorem Shape.linked_mirror (shape : Shape) (calls : List (Call δ)) :
    shape.mirror.linked (calls.map Call.mirror) = shape.linked calls := by
  induction calls generalizing shape with
  | nil => rfl
  | cons call calls ih => simp only [List.map_cons, Shape.linked, Shape.mirror_admits, Shape.mirror_after, ih]

theorem dequeObserve_mirror (values : List δ) (calls : List (Call δ)) :
    dequeObserve values.reverse (calls.map Call.mirror) = dequeObserve values calls := by
  induction calls generalizing values with
  | nil => rfl
  | cons call calls ih =>
      simp only [List.map_cons, dequeObserve, Call.mirror_answer, Call.mirror_effect, List.length_reverse, ih]

theorem frontOnly_empty : Shape.empty.FrontOnly := ⟨rfl, by simp [Shape.empty]⟩

theorem linked_front (calls : List (StackCall δ)) :
    Shape.empty.linked (calls.map StackCall.front) = hasRoom 0 calls := frontOnly_empty.linked calls

theorem linked_back (calls : List (StackCall δ)) :
    Shape.empty.linked (calls.map StackCall.back) = hasRoom 0 calls := by
  have same : calls.map StackCall.back = (calls.map StackCall.front).map Call.mirror := by
    simp [StackCall.mirror_front]
  rw [same]
  exact (Shape.linked_mirror .empty _).trans (linked_front calls)

theorem dequeObserve_back (calls : List (StackCall δ)) :
    dequeObserve [] (calls.map StackCall.back) = stackObserve [] calls := by
  have same : calls.map StackCall.back = (calls.map StackCall.front).map Call.mirror := by
    simp [StackCall.mirror_front]
  rw [same, ← dequeObserve_front]
  exact dequeObserve_mirror [] _

theorem BehavesAsStack.hasRoom {calls : List (StackCall δ)} (behaves : BehavesAsStack calls) :
    Chat.hasRoom 0 calls = true := by
  have below : Below 0 (llistInit : Store δ) := fun _ _ => rfl
  have observed := (behaves (List.range' 0 calls.length) List.length_range').1
  rw [← List.length_map StackCall.front, ← dequeObserve_front] at observed
  rw [← linked_front]
  exact linked_of_observe below (represents_init _) (observed (served_of_below _ below))

/-- Used at one end only, the list is a stack, if and only if it never has to
hold more than `INT_MAX` values. -/
theorem one_end_is_stack_iff (calls : List (StackCall δ)) : BehavesAsStack calls ↔ hasRoom 0 calls = true := by
  constructor
  · exact BehavesAsStack.hasRoom
  · intro room nodes length
    constructor
    · intro served
      rw [observe_of_linked (represents_init _) ((linked_front calls).trans room) (by simpa using length) served]
      exact congrArg Except.ok (dequeObserve_front [] calls)
    · intro served
      rw [observe_of_linked (represents_init _) ((linked_back calls).trans room) (by simpa using length) served]
      exact congrArg Except.ok (dequeObserve_back calls)

/-- The calls of `llist_test.c`. -/
example : observe llistInit
    (([.push 0, .push 1, .push 2, .pop, .pop, .pop].map StackCall.front).zip [0, 1, 2, 3, 4, 5]) =
      .ok [(none, 1), (none, 2), (none, 3), (some 2, 2), (some 1, 1), (some 0, 0)] := rfl

theorem hasRoom_replicate {depth count : Nat} {data : δ}
    (room : hasRoom depth (List.replicate count (.push data)) = true) :
    count = 0 ∨ (depth + count : Int) ≤ intMax := by
  induction count generalizing depth with
  | zero => exact .inl rfl
  | succ count ih =>
      rw [List.replicate_succ, hasRoom, Bool.and_eq_true, decide_eq_true_eq] at room
      right
      rcases ih room.2 with rfl | less
      · omega
      · push_cast at less ⊢
        omega

/-- The size of a list of `2 ^ 31` values is no `int`. -/
theorem many_pushes_overflow : ¬ BehavesAsStack (List.replicate (2 ^ 31) (StackCall.push 0)) := by
  intro behaves
  rcases hasRoom_replicate behaves.hasRoom with none | less
  · omega
  · simp only [intMax] at less
    omega

end SysProg.Chat
