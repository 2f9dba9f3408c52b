import SysProg.Chat.Client

namespace SysProg.Chat.Client

variable {μ : Type} {capacity : Nat} {lines : List μ} {before after : State μ}

/-- `llist_remf` has not returned `NULL` for a byte read from the pipe, and
what was sent is a prefix of what was typed. -/
structure Delivered (state : State μ) : Prop where
  answered : state.loop ≠ .sending none
  defined : state.loop ≠ .crashed
  running : state.main ≠ .crashed
  inOrder : state.sent <+: state.typed

/-- `llist_addl` is only called when the queue is empty. -/
def WhenEmpty (state : State μ) (action : Action) : Prop :=
  ∀ node, action = .addl node → state.store.list.size = 0

instance (state : State μ) (action : Action) : Decidable (WhenEmpty state action) :=
  match action with
  | .addl node => decidable_of_iff (state.store.list.size = 0) (by simp [WhenEmpty])
  | .fgets | .write | .join | .selectPipe | .selectSocket | .selectFailed | .read | .remf | .send
  | .recv _ | .cancelled => .isTrue (by simp [WhenEmpty])

/-! ## The queue of at most one message -/

/-- The list represents the queue, and its only element went in alone. -/
def Queued (store : Store μ) (queue : List μ) : Prop :=
  ∃ cells shape, Represents (fun _ => True) store cells shape ∧ cells.map Cell.value = queue ∧
    shape.staleHead = false ∧ (shape.origins = [] ∨ shape.origins = [.sole])

theorem Queued.length {store : Store μ} {queue : List μ} (queued : Queued store queue) :
    queue.length ≤ 1 ∧ store.list.size = queue.length := by
  obtain ⟨cells, shape, rep, rfl, -, origins⟩ := queued
  rw [rep.origins] at origins
  have size := rep.size
  rcases origins with none | one
  · simp_all
  · have := congrArg List.length one
    simp_all

theorem Queued.addl {store : Store μ} (queued : Queued store []) {node : Nat}
    (unused : store.heap node = none) (msg : μ) :
    ∃ after, llistAddl store (some msg) (some node) = .ok (0, after) ∧ Queued after [msg] := by
  obtain ⟨cells, shape, rep, empty, clear, -⟩ := queued
  have none : cells = [] := by simpa using empty
  subst none
  have origins : shape.origins = [] := by simpa using rep.origins
  have room : shape.admits (.addl msg : Call μ) = true := by simp [Shape.admits, origins, intMax]
  obtain ⟨after, rest, performed, values, represented⟩ := rep.follows (.addl msg) node room (fun _ => unused)
  obtain ⟨⟨code, final⟩, added, returned⟩ := bind_eq_ok.mp performed
  cases returned
  obtain ⟨size, -, stored⟩ := bind_eq_ok.mp added
  cases stored
  refine ⟨_, added, rest, shape.after (.addl msg : Call μ), represented _ (fun _ _ => trivial) (fun _ _ _ => trivial),
    values, ?_, ?_⟩
  · simp [Shape.after, origins]
  · simp [Shape.after, origins]

theorem Queued.remf {store : Store μ} {msg : μ} {queue : List μ} (queued : Queued store (msg :: queue)) :
    ∃ after, llistRemf store = .ok (some msg, after) ∧ Queued after queue := by
  obtain ⟨cells, shape, rep, values, clear, origins⟩ := queued
  have one : shape.origins = [.sole] := by
    refine origins.resolve_left fun none => ?_
    rw [rep.origins] at none
    simp [List.map_eq_nil_iff.mp none] at values
  have admitted : shape.admits (.remf : Call μ) = true := by simp [Shape.admits, one]
  obtain ⟨after, rest, performed, remaining, represented⟩ := rep.follows .remf 0 admitted (by simp [Call.allocates])
  refine ⟨after, by simpa [perform, Call.answer, values] using performed, rest, _,
    represented _ (fun _ _ => trivial) (fun _ _ _ => trivial), ?_, ?_, ?_⟩
  · simpa [Call.effect, values] using remaining
  · simp [Shape.after, clear]
  · simp [Shape.after, one]

/-! ## The invariant -/

/-- Bytes owed for a message already in the queue. -/
def MainPhase.owed : MainPhase μ → Nat
  | .writing => 1
  | _ => 0

def MainPhase.holding : MainPhase μ → List μ
  | .adding msg => [msg]
  | _ => []

/-- Bytes already read for a message still in the queue. -/
def LoopPhase.read : LoopPhase μ → Nat
  | .removing => 1
  | _ => 0

def LoopPhase.holding : LoopPhase μ → List μ
  | .sending (some msg) => [msg]
  | _ => []

/-- Bytes written and queued messages correspond, and until the event loop has
returned every line typed is in one place on its way to the connection. -/
structure InFlight (state : State μ) (queue : List μ) : Prop where
  queued : Queued state.store queue
  counted : queue.length = state.pipe + state.main.owed + state.loop.read
  placed : state.loop ≠ .returned →
    state.typed = state.sent ++ state.loop.holding ++ queue ++ state.main.holding
  delivered : Delivered state

theorem InFlight.remf {queue : List μ} (inv : InFlight before queue) (removing : before.loop = .removing) :
    ∃ msg rest store, queue = msg :: rest ∧ llistRemf before.store = .ok (some msg, store) ∧
      InFlight { before with loop := .sending (some msg), store } rest := by
  have counted := inv.counted
  have placed := inv.placed (by simp [removing])
  rw [removing] at counted placed
  obtain ⟨msg, rest, rfl⟩ : ∃ msg rest, queue = msg :: rest := by
    cases queue with
    | nil => simp [LoopPhase.read] at counted
    | cons msg rest => exact ⟨msg, rest, rfl⟩
  obtain ⟨store, removed, queued⟩ := inv.queued.remf
  refine ⟨msg, rest, store, rfl, removed, queued, ?_, ?_, by simp, by simp, inv.delivered.running,
    inv.delivered.inOrder⟩
  · simp only [LoopPhase.read, List.length_cons] at counted ⊢
    omega
  · intro _
    simpa [LoopPhase.holding] using placed

theorem InFlight.addl {queue : List μ} (inv : InFlight before queue) {msg : μ} {node : Nat}
    (adding : before.main = .adding msg) (empty : before.store.list.size = 0)
    (unused : before.store.heap node = none) :
    ∃ store, llistAddl before.store (some msg) (some node) = .ok (0, store) ∧
      InFlight { before with main := .writing, store } [msg] := by
  have size := inv.queued.length.2
  obtain rfl : queue = [] := List.eq_nil_of_length_eq_zero (by omega)
  have counted := inv.counted
  obtain ⟨store, added, queued⟩ := inv.queued.addl unused msg
  refine ⟨store, added, queued, ?_, ?_, inv.delivered.answered, inv.delivered.defined, by simp, inv.delivered.inOrder⟩
  · simp only [adding, MainPhase.owed, List.length_nil, List.length_cons] at counted ⊢
    omega
  · intro running
    simpa [adding, MainPhase.holding] using inv.placed running

theorem InFlight.type {queue : List μ} {line : μ} {rest : List μ} (inv : InFlight before queue)
    (reading : before.main = .fgets) :
    InFlight { before with main := .adding line, input := rest, typed := before.typed ++ [line] } queue where
  queued := inv.queued
  counted := by simpa [reading, MainPhase.owed] using inv.counted
  placed := by
    intro running
    simp [inv.placed running, reading, MainPhase.holding]
  delivered :=
    ⟨inv.delivered.answered, inv.delivered.defined, by simp, inv.delivered.inOrder.trans (List.prefix_append _ _)⟩

theorem InFlight.write {queue : List μ} (inv : InFlight before queue) (writing : before.main = .writing) :
    InFlight { before with main := .fgets, pipe := before.pipe + 1 } queue where
  queued := inv.queued
  counted := by
    have counted := inv.counted
    simp only [writing, MainPhase.owed] at counted ⊢
    omega
  placed := by simpa [writing, MainPhase.holding] using inv.placed
  delivered := ⟨inv.delivered.answered, inv.delivered.defined, by simp, inv.delivered.inOrder⟩

theorem InFlight.read {queue : List μ} (inv : InFlight before queue) (reading : before.loop = .reading)
    (readable : 0 < before.pipe) :
    InFlight { before with loop := .removing, pipe := before.pipe - 1 } queue where
  queued := inv.queued
  counted := by
    have counted := inv.counted
    simp only [reading, LoopPhase.read] at counted ⊢
    omega
  placed := by
    intro _
    simpa [reading, LoopPhase.holding] using inv.placed (by simp [reading])
  delivered := ⟨by simp, by simp, inv.delivered.running, inv.delivered.inOrder⟩

theorem InFlight.send {queue : List μ} {msg : μ} (inv : InFlight before queue)
    (sending : before.loop = .sending (some msg)) :
    InFlight { before with loop := .select, sent := before.sent ++ [msg] } queue := by
  have counted := inv.counted
  have whole := inv.placed (by simp [sending])
  rw [sending] at whole counted
  refine ⟨inv.queued, by simpa [LoopPhase.read] using counted, ?_, by simp, by simp, inv.delivered.running, ?_⟩
  · intro _
    simpa [LoopPhase.holding] using whole
  · exact ⟨queue ++ before.main.holding, by simpa [LoopPhase.holding] using whole.symm⟩

theorem InFlight.moveMain {queue : List μ} {main : MainPhase μ} (inv : InFlight before queue)
    (owed : main.owed = before.main.owed) (holding : main.holding = before.main.holding) (running : main ≠ .crashed) :
    InFlight { before with main } queue where
  queued := inv.queued
  counted := by simpa [owed] using inv.counted
  placed := by simpa [holding] using inv.placed
  delivered := ⟨inv.delivered.answered, inv.delivered.defined, running, inv.delivered.inOrder⟩

theorem InFlight.moveLoop {queue : List μ} {loop : LoopPhase μ} (inv : InFlight before queue)
    (running : before.loop ≠ .returned) (read : loop.read = before.loop.read)
    (holding : loop.holding = before.loop.holding) (answered : loop ≠ .sending none)
    (defined : loop ≠ .crashed) : InFlight { before with loop } queue where
  queued := inv.queued
  counted := by simpa [read] using inv.counted
  placed := fun _ => by simpa [holding] using inv.placed running
  delivered := ⟨answered, defined, inv.delivered.running, inv.delivered.inOrder⟩

theorem InFlight.stopLoop {queue : List μ} (inv : InFlight before queue) (read : before.loop.read = 0) :
    InFlight { before with loop := .returned } queue where
  queued := inv.queued
  counted := inv.counted.trans (by rw [read]; rfl)
  placed := by simp
  delivered := ⟨by simp, by simp, inv.delivered.running, inv.delivered.inOrder⟩

theorem InFlight.step {queue : List μ} {action : Action} (inv : InFlight before queue)
    (allowed : WhenEmpty before action) (moved : next capacity before action = some after) :
    ∃ remaining, InFlight after remaining := by
  cases action with
  | addl node =>
      simp only [next] at moved
      split at moved
      · rename_i msg adding
        split at moved
        · rename_i unused
          obtain ⟨store, added, kept⟩ := inv.addl adding (allowed node rfl) (by simpa using unused)
          rw [added] at moved
          cases moved
          exact ⟨[msg], kept⟩
        · contradiction
      · contradiction
  | remf =>
      simp only [next] at moved
      split at moved
      · rename_i removing
        obtain ⟨msg, rest, store, -, removed, kept⟩ := inv.remf removing
        rw [removed] at moved
        cases moved
        exact ⟨rest, kept⟩
      · contradiction
  | send =>
      simp only [next] at moved
      split at moved
      · rename_i msg sending
        cases moved
        exact ⟨queue, inv.send sending⟩
      · rename_i sending
        exact absurd sending inv.delivered.answered
      · contradiction
  | fgets =>
      simp only [next] at moved
      split at moved
      · rename_i reading _
        cases moved
        exact ⟨queue, inv.moveMain (by rw [reading]; rfl) (by rw [reading]; rfl) (by simp)⟩
      · rename_i line rest reading _
        cases moved
        exact ⟨queue, inv.type reading⟩
      · contradiction
  | write =>
      simp only [next] at moved
      split at moved
      · rename_i writing
        split at moved
        · cases moved
          exact ⟨queue, inv.write writing⟩
        · contradiction
      · contradiction
  | join =>
      simp only [next] at moved
      split at moved
      · rename_i stopping returned
        cases moved
        exact ⟨queue, inv.moveMain (by rw [stopping]; rfl) (by rw [stopping]; rfl) (by simp)⟩
      · contradiction
  | selectPipe =>
      simp only [next] at moved
      split at moved
      · rename_i selecting
        split at moved
        · cases moved
          exact ⟨queue, inv.moveLoop (by simp [selecting]) (by simp [selecting, LoopPhase.read])
            (by simp [selecting, LoopPhase.holding]) (by simp) (by simp)⟩
        · contradiction
      · contradiction
  | selectSocket =>
      simp only [next] at moved
      split at moved
      · rename_i selecting
        split at moved
        · cases moved
          exact ⟨queue, inv.moveLoop (by simp [selecting]) (by simp [selecting, LoopPhase.read])
            (by simp [selecting, LoopPhase.holding]) (by simp) (by simp)⟩
        · contradiction
      · contradiction
  | selectFailed =>
      simp only [next] at moved
      split at moved
      · rename_i selecting
        cases moved
        exact ⟨queue, inv.stopLoop (by simp [selecting, LoopPhase.read])⟩
      · contradiction
  | read =>
      simp only [next] at moved
      split at moved
      · rename_i reading
        split at moved
        · rename_i readable
          cases moved
          exact ⟨queue, inv.read reading readable⟩
        · contradiction
      · contradiction
  | recv received =>
      simp only [next] at moved
      split at moved
      · rename_i receiving
        cases moved
        cases received with
        | true =>
            exact ⟨queue, inv.moveLoop (by simp [receiving]) (by simp [receiving, LoopPhase.read])
              (by simp [receiving, LoopPhase.holding]) (by simp) (by simp)⟩
        | false => exact ⟨queue, inv.stopLoop (by simp [receiving, LoopPhase.read])⟩
      · contradiction
  | cancelled =>
      simp only [next] at moved
      split at moved
      · split at moved
        · rename_i cancellable
          cases moved
          refine ⟨queue, inv.stopLoop ?_⟩
          cases phase : before.loop <;> simp [phase, LoopPhase.cancellable, LoopPhase.read] at cancellable ⊢
        · contradiction
      · contradiction

end SysProg.Chat.Client
