import SysProg.Chat.Deque

namespace SysProg.Chat

variable {δ : Type}

/-! # The two ends are symmetric

Exchanging `head` with `tail` and `next` with `prev` turns every call into the
one at the other end, so what is shown for the front also holds for the back.
-/

def Call.mirror : Call δ → Call δ
  | .addf data => .addl data
  | .addl data => .addf data
  | .remf => .reml
  | .reml => .remf

def LNode.mirror (node : LNode δ) : LNode δ := { node with next := node.prev, prev := node.next }

def Store.mirror (store : Store δ) : Store δ where
  list := { store.list with head := store.list.tail, tail := store.list.head }
  heap := fun address => (store.heap address).map LNode.mirror

def Origin.mirror : Origin → Origin
  | .sole => .sole
  | .front => .back
  | .back => .front

def Shape.mirror (shape : Shape) : Shape where
  origins := (shape.origins.map Origin.mirror).reverse
  staleHead := shape.staleTail
  staleTail := shape.staleHead

@[simp] theorem Call.mirror_mirror (call : Call δ) : call.mirror.mirror = call := by
  cases call <;> rfl

@[simp] theorem Origin.mirror_mirror (origin : Origin) : origin.mirror.mirror = origin := by
  cases origin <;> rfl

@[simp] theorem Shape.mirror_mirror (shape : Shape) : shape.mirror.mirror = shape := by
  simp [Shape.mirror, Function.comp_def]

@[simp] theorem Store.mirror_mirror (store : Store δ) : store.mirror.mirror = store := by
  have heap : (fun address => ((store.heap address).map LNode.mirror).map LNode.mirror) = store.heap := by
    funext address
    cases store.heap address <;> rfl
  simp only [Store.mirror, heap]

@[simp] theorem Store.mirror_heap_eq_none {store : Store δ} {address : Nat} :
    store.mirror.heap address = none ↔ store.heap address = none := by
  simp [Store.mirror]

@[simp] theorem Store.mirror_size (store : Store δ) : store.mirror.list.size = store.list.size := rfl

theorem mirror_write (heap : Heap (LNode δ)) (address : Nat) (node : LNode δ) :
    (fun other => ((heap.write address node) other).map LNode.mirror) =
      Heap.write (fun other => (heap other).map LNode.mirror) address node.mirror := by
  funext other
  by_cases same : other = address
  · simp [same]
  · simp [Heap.write_other, same]

theorem mirror_free (heap : Heap (LNode δ)) (address : Nat) :
    (fun other => ((heap.free address) other).map LNode.mirror) =
      Heap.free (fun other => (heap other).map LNode.mirror) address := by
  funext other
  by_cases same : other = address
  · simp [same]
  · simp [Heap.free_other, same]

/-- A result with the mirrored list. -/
def mirrorResult {α : Type} (result : Except Trap (α × Store δ)) : Except Trap (α × Store δ) :=
  result.map fun outcome => (outcome.1, outcome.2.mirror)

@[simp] theorem mirrorResult_ok {α : Type} (answer : α) (after : Store δ) :
    mirrorResult (.ok (answer, after)) = .ok (answer, after.mirror) := rfl

@[simp] theorem mirrorResult_error {α : Type} (reason : Trap) :
    (mirrorResult (.error reason) : Except Trap (α × Store δ)) = .error reason := rfl

theorem mirrorResult_bind {α β : Type} (first : Except Trap β) (next : β → α × Store δ) :
    mirrorResult (first >>= fun value => pure (next value)) =
      first >>= fun value => pure ((next value).1, (next value).2.mirror) := by
  cases first <;> rfl

theorem llistAddl_mirror (store : Store δ) (data : δ) (node : Nat) :
    mirrorResult (llistAddl store (some data) (some node)) = llistAddf store.mirror (some data) (some node) := by
  simp only [llistAddl, llistAddf, mirrorResult_bind, Store.mirror, mirror_write]
  rfl

theorem llistReml_mirror (store : Store δ) : mirrorResult (llistReml store) = llistRemf store.mirror := by
  cases tail : store.list.tail with
  | none => simp [llistReml, llistRemf, Store.mirror, tail]
  | some address =>
      cases found : store.heap address with
      | none => simp [llistReml, llistRemf, Store.mirror, tail, found]
      | some node =>
          simp only [llistReml, llistRemf, mirrorResult_bind, Store.mirror, tail, found, mirror_free,
            Option.map_some]
          rfl

theorem mirrorResult_mirrorResult {α : Type} (result : Except Trap (α × Store δ)) :
    mirrorResult (mirrorResult result) = result := by
  cases result with
  | error reason => rfl
  | ok outcome => simp [mirrorResult, Except.map]

theorem mirrorResult_addition (result : Except Trap (Int × Store δ)) :
    mirrorResult (result >>= fun outcome => pure ((none : Option δ), outcome.2)) =
      mirrorResult result >>= fun outcome => pure (none, outcome.2) := by
  cases result <;> rfl

/-- A call at one end of the mirrored list is the call at the other end. -/
theorem perform_mirror (store : Store δ) (call : Call δ) (node : Nat) :
    perform store.mirror (call.mirror, node) = mirrorResult (perform store (call, node)) := by
  cases call with
  | addf data =>
      have mirrored := llistAddl_mirror store.mirror data node
      rw [Store.mirror_mirror] at mirrored
      simp only [Call.mirror, perform, mirrorResult_addition, ← mirrored, mirrorResult_mirrorResult]
  | addl data => simp only [Call.mirror, perform, mirrorResult_addition, llistAddl_mirror]
  | remf =>
      have mirrored := llistReml_mirror store.mirror
      rw [Store.mirror_mirror] at mirrored
      simp only [Call.mirror, perform, ← mirrored, mirrorResult_mirrorResult]
  | reml => simp only [Call.mirror, perform, llistReml_mirror]

theorem Call.mirror_answer (call : Call δ) (values : List δ) :
    call.mirror.answer values.reverse = call.answer values := by
  cases call <;> simp [Call.mirror, Call.answer]

theorem Call.mirror_effect (call : Call δ) (values : List δ) :
    call.mirror.effect values.reverse = (call.effect values).reverse := by
  cases call <;> simp [Call.mirror, Call.effect]

theorem Shape.mirror_admits (shape : Shape) (call : Call δ) :
    shape.mirror.admits call.mirror = shape.admits call := by
  have swap : ∀ origin : Origin, (origin.mirror != .front) = (origin != .back) ∧
      (origin.mirror != .back) = (origin != .front) := by
    intro origin
    cases origin <;> decide
  cases call with
  | addf | addl => simp [Call.mirror, Shape.admits, Shape.mirror]
  | remf =>
      cases first : shape.origins.head? with
      | none => simp [Call.mirror, Shape.admits, Shape.mirror, first]
      | some origin => simp [Call.mirror, Shape.admits, Shape.mirror, first, swap]
  | reml =>
      cases last : shape.origins.getLast? with
      | none => simp [Call.mirror, Shape.admits, Shape.mirror, last]
      | some origin => simp [Call.mirror, Shape.admits, Shape.mirror, last, swap]

theorem Shape.mirror_after (shape : Shape) (call : Call δ) :
    shape.mirror.after call.mirror = (shape.after call).mirror := by
  have sole : ∀ origin : Option Origin, origin.map Origin.mirror = some .sole ↔ origin = some .sole := by
    rintro (_ | origin)
    · simp
    · cases origin <;> simp [Origin.mirror]
  cases call with
  | addf data =>
      by_cases empty : shape.origins = [] <;> simp [Call.mirror, Shape.after, Shape.mirror, empty, Origin.mirror]
  | addl data =>
      by_cases empty : shape.origins = [] <;> simp [Call.mirror, Shape.after, Shape.mirror, empty, Origin.mirror]
  | remf =>
      by_cases empty : shape.origins = []
      · simp [Call.mirror, Shape.after, Shape.mirror, empty]
      · simp [Call.mirror, Shape.after, Shape.mirror, empty, sole, ← List.map_reverse, ← List.map_dropLast,
          -List.map_tail]
  | reml =>
      by_cases empty : shape.origins = []
      · simp [Call.mirror, Shape.after, Shape.mirror, empty]
      · simp [Call.mirror, Shape.after, Shape.mirror, empty, sole, ← List.map_reverse, ← List.map_tail,
          -List.map_dropLast]

end SysProg.Chat
