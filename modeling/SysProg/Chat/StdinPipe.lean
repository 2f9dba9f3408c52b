import Mathlib.Data.PNat.Notation
import SysProg.Library.Channel
import SysProg.Library.Machine

namespace SysProg.Chat.StdinPipe

/-! # `00-network-programming/examples/chat/spikes/pipe.c`

`main`, which passes stdin on through a pipe, and `pipe_thread`, which prints what it
reads from it. The process ends when `main` returns, and what has been printed is
written then.
-/

inductive MainPhase where
  | reading
  | writing (buf : UInt8)
  | exited (code : Nat)
deriving DecidableEq

inductive ThreadPhase where
  | reading
  | printing (buf : UInt8)
  | ended
deriving DecidableEq

structure State (capacity : Nat) where
  main : MainPhase
  thread : ThreadPhase
  stdin : List UInt8
  pipe : Channel UInt8 capacity
  printed : List UInt8
  reported : List String

inductive Action where
  | readStdin (result : IoResult)
  | write (result : IoResult)
  | readPipe (result : IoResult)
  | print
deriving DecidableEq

variable {capacity : Nat}

/-- `read(STDIN_FILENO, &buf, 1)` -/
def readStdin (state : State capacity) : IoResult → Option (State capacity)
  | .interrupted => some state
  | .failed => some { state with main := .exited 1, reported := state.reported ++ ["read"] }
  | .done count =>
      match state.stdin with
      | [] => if count = 0 then some { state with main := .exited 0 } else none
      | buf :: stdin => if count = 1 then some { state with main := .writing buf, stdin } else none

/-- `ret` is the outcome of the comparison with 1, and so never -1: a call that has not
written the byte is made again, whatever its error. -/
def write (state : State capacity) (buf : UInt8) : IoResult → Option (State capacity)
  | .interrupted | .failed => some state
  | .done count =>
      if count = 1 then (state.pipe.send [buf]).map fun pipe => { state with main := .reading, pipe } else none

/-- `read(fd, &buf, 1)`, which waits while the pipe is empty: its other end stays open. -/
def readPipe (state : State capacity) : IoResult → Option (State capacity)
  | .interrupted => some state
  | .failed => some { state with thread := .ended, reported := state.reported ++ ["read"] }
  | .done count =>
      match state.pipe.receive 1 with
      | ([buf], pipe) => if count = 1 then some { state with thread := .printing buf, pipe } else none
      | _ => none

def next (state : State capacity) (action : Action) : Option (State capacity) :=
  match state.main, state.thread, action with
  | .exited _, _, _ => none
  | .reading, _, .readStdin result => readStdin state result
  | .writing buf, _, .write result => write state buf result
  | _, .reading, .readPipe result => readPipe state result
  | _, .printing buf, .print => some { state with thread := .reading, printed := state.printed ++ [buf] }
  | _, _, _ => none

/-- The pipe and the thread have been created. -/
def machine (capacity : Nat) (stdin : List UInt8) : Machine (State capacity) Action where
  init := { main := .reading, thread := .reading, stdin, pipe := .empty, printed := [], reported := [] }
  next := next

/-! ## Where the bytes are -/

def MainPhase.held : MainPhase → List UInt8
  | .writing buf => [buf]
  | .reading | .exited _ => []

def ThreadPhase.held : ThreadPhase → List UInt8
  | .printing buf => [buf]
  | .reading | .ended => []

structure Passes (stdin : List UInt8) (state : State capacity) : Prop where
  carries : stdin = state.printed ++ state.thread.held ++ state.pipe.waiting ++ state.main.held ++ state.stdin
  whole : state.main = .exited 0 → state.stdin = []
  reads : ∀ name ∈ state.reported, name = "read"

variable {stdin : List UInt8} {state after : State capacity}

theorem passes_start (capacity : Nat) (stdin : List UInt8) : Passes stdin (machine capacity stdin).init where
  carries := rfl
  whole := nofun
  reads _ member := nomatch member

theorem reads_append {reported : List String} (reads : ∀ name ∈ reported, name = "read") :
    ∀ name ∈ reported ++ ["read"], name = "read" := by
  intro name member
  rcases List.mem_append.mp member with before | now
  · exact reads name before
  · exact List.mem_singleton.mp now

theorem Passes.readStdin (passes : Passes stdin state) (reading : state.main = .reading) {result : IoResult}
    (moved : readStdin state result = some after) : Passes stdin after := by
  have same := passes
  obtain ⟨carries, whole, reads⟩ := passes
  rw [reading] at carries
  cases result with
  | interrupted =>
      cases moved
      exact same
  | failed =>
      cases moved
      exact ⟨carries, nofun, reads_append reads⟩
  | done count =>
      simp only [StdinPipe.readStdin] at moved
      split at moved
      · rename_i empty
        split at moved <;> cases moved
        exact ⟨carries, fun _ => empty, reads⟩
      · rename_i buf rest left
        split at moved <;> cases moved
        refine ⟨?_, nofun, reads⟩
        rw [carries, left]
        simp [MainPhase.held]

theorem Passes.write (passes : Passes stdin state) {buf : UInt8} (writing : state.main = .writing buf) {result : IoResult}
    (moved : write state buf result = some after) : Passes stdin after := by
  have same := passes
  obtain ⟨carries, whole, reads⟩ := passes
  rw [writing] at carries
  cases result with
  | interrupted | failed =>
      cases moved
      exact same
  | done count =>
      simp only [StdinPipe.write] at moved
      split at moved
      · obtain ⟨pipe, went, rfl⟩ := Option.map_eq_some_iff.mp moved
        refine ⟨?_, nofun, reads⟩
        rw [carries, Channel.send_eq_some went]
        simp [MainPhase.held]
      · cases moved

theorem Passes.readPipe (passes : Passes stdin state) (reading : state.thread = .reading) {result : IoResult}
    (moved : readPipe state result = some after) : Passes stdin after := by
  have same := passes
  obtain ⟨carries, whole, reads⟩ := passes
  rw [reading] at carries
  cases result with
  | interrupted =>
      cases moved
      exact same
  | failed =>
      cases moved
      exact ⟨carries, whole, reads_append reads⟩
  | done count =>
      simp only [StdinPipe.readPipe] at moved
      split at moved
      · rename_i buf pipe received
        split at moved <;> cases moved
        refine ⟨?_, whole, reads⟩
        have taken : state.pipe.waiting = [buf] ++ pipe.waiting := by
          rw [← List.take_append_drop 1 state.pipe.waiting]
          exact congrArg₂ (· ++ ·) (congrArg Prod.fst received) (congrArg (fun got => got.2.waiting) received)
        rw [carries, taken]
        simp [ThreadPhase.held]
      · cases moved

theorem Passes.next (passes : Passes stdin state) {action : Action} (moved : next state action = some after) :
    Passes stdin after := by
  unfold StdinPipe.next at moved
  split at moved
  · cases moved
  · exact passes.readStdin ‹_› moved
  · exact passes.write ‹_› moved
  · exact passes.readPipe ‹_› moved
  · rename_i printing _
    cases moved
    obtain ⟨carries, whole, reads⟩ := passes
    rw [printing] at carries
    exact ⟨by rw [carries]; simp [ThreadPhase.held], whole, reads⟩
  · cases moved

theorem passes_of_reachable (reached : (machine capacity stdin).Reachable state) : Passes stdin state :=
  reached.invariant (Passes stdin) (passes_start capacity stdin) fun passes moved => passes.next moved

/-! ## What is lost when the process ends -/

/-- The bytes that have been printed, and those that are in the pipe, with the rest still on stdin. -/
def State.At (state : State capacity) (thread : ThreadPhase) (printed waiting rest : List UInt8) : Prop :=
  state.main = .reading ∧ state.thread = thread ∧ state.printed = printed ∧ state.pipe.waiting = waiting ∧ state.stdin = rest

variable {thread : ThreadPhase} {printed waiting rest later : List UInt8} {buf : UInt8}

theorem State.At.put (here : state.At thread printed waiting (buf :: rest)) (room : waiting.length < capacity)
    (reached : (machine capacity stdin).Reachable state) :
    ∃ after, (machine capacity stdin).Reachable after ∧ after.At thread printed (waiting ++ [buf]) rest := by
  obtain ⟨reading, same, done, has, left⟩ := here
  obtain ⟨pipe, went, holds⟩ : ∃ pipe, state.pipe.send [buf] = some pipe ∧ pipe.waiting = state.pipe.waiting ++ [buf] :=
    Channel.exists_send (by rw [has]; exact room)
  have read : (machine capacity stdin).next state (.readStdin (.done 1)) =
      some { state with main := .writing buf, stdin := rest } := by
    simp only [machine, StdinPipe.next, reading, StdinPipe.readStdin, left, if_true]
  have put : (machine capacity stdin).next { state with main := .writing buf, stdin := rest } (.write (.done 1)) =
      some { state with main := .reading, stdin := rest, pipe } := by
    simp only [machine, StdinPipe.next, StdinPipe.write, if_true, went, Option.map_some]
  exact ⟨_, (reached.next _ read).next _ put, rfl, same, done, by rw [holds, has], rfl⟩

theorem State.At.take (here : state.At .reading printed (buf :: waiting) rest)
    (reached : (machine capacity stdin).Reachable state) :
    ∃ after, (machine capacity stdin).Reachable after ∧ after.At (.printing buf) printed waiting rest := by
  obtain ⟨reading, same, done, has, left⟩ := here
  have took : (machine capacity stdin).next state (.readPipe (.done 1)) =
      some { state with thread := .printing buf, pipe := (state.pipe.receive 1).2 } := by
    have first : state.pipe.waiting.take 1 = [buf] := by
      rw [has]
      rfl
    have received : state.pipe.receive 1 = ([buf], (state.pipe.receive 1).2) := Prod.ext first rfl
    simp only [machine, StdinPipe.next, reading, same, StdinPipe.readPipe]
    rw [received]
    rfl
  refine ⟨_, reached.next _ took, reading, rfl, done, ?_, left⟩
  have dropped : state.pipe.waiting.drop 1 = waiting := by
    rw [has]
    rfl
  exact dropped

theorem State.At.print (here : state.At (.printing buf) printed waiting rest)
    (reached : (machine capacity stdin).Reachable state) :
    ∃ after, (machine capacity stdin).Reachable after ∧ after.At .reading (printed ++ [buf]) waiting rest := by
  obtain ⟨reading, same, done, has, left⟩ := here
  have shown : (machine capacity stdin).next state .print =
      some { state with thread := .reading, printed := state.printed ++ [buf] } := by
    simp only [machine, StdinPipe.next, reading, same]
  exact ⟨_, reached.next _ shown, reading, rfl, by rw [done], has, left⟩

/-- The thread keeps up with `main` for the first bytes. -/
theorem exists_printed (room : 0 < capacity) (first : List UInt8) (rest : List UInt8) :
    ∃ state, (machine capacity (first ++ rest)).Reachable state ∧ state.At .reading first [] rest := by
  have all : ∀ more done, done ++ more = first →
      (∃ state, (machine capacity (first ++ rest)).Reachable state ∧ state.At .reading done [] (more ++ rest)) →
      ∃ state, (machine capacity (first ++ rest)).Reachable state ∧ state.At .reading first [] rest := by
    intro more
    induction more with
    | nil =>
        intro done same begun
        rw [List.append_nil] at same
        rw [same] at begun
        exact begun
    | cons buf more ih =>
        intro done same begun
        obtain ⟨state, reached, here⟩ := begun
        obtain ⟨written, reachedWritten, put⟩ := here.put room reached
        obtain ⟨taken, reachedTaken, took⟩ := put.take reachedWritten
        obtain ⟨shown, reachedShown, prints⟩ := took.print reachedTaken
        exact ih (done ++ [buf]) (by rw [← same]; simp) ⟨shown, reachedShown, prints⟩
  exact all first [] rfl ⟨_, Machine.reachable_init, rfl, rfl, rfl, rfl, rfl⟩

/-- Then it does not run again while the pipe is filled. -/
theorem State.At.fills (here : state.At thread printed waiting (rest ++ later)) (fits : (waiting ++ rest).length ≤ capacity)
    (reached : (machine capacity stdin).Reachable state) :
    ∃ after, (machine capacity stdin).Reachable after ∧ after.At thread printed (waiting ++ rest) later := by
  induction rest generalizing state waiting with
  | nil => exact ⟨state, reached, by rwa [List.append_nil]⟩
  | cons buf rest ih =>
      have less : waiting.length < capacity := by
        rw [List.length_append, List.length_cons] at fits
        omega
      obtain ⟨after, reachedAfter, put⟩ := here.put less reached
      rw [List.append_cons] at fits
      obtain ⟨final, reachedFinal, filled⟩ := ih put fits reachedAfter
      exact ⟨final, reachedFinal, by simpa using filled⟩

theorem State.At.exits (here : state.At thread printed waiting []) (reached : (machine capacity stdin).Reachable state) :
    ∃ after, (machine capacity stdin).Reachable after ∧ after.main = .exited 0 ∧ after.printed = printed := by
  obtain ⟨reading, -, done, -, left⟩ := here
  have ended : (machine capacity stdin).next state (.readStdin (.done 0)) = some { state with main := .exited 0 } := by
    simp only [machine, StdinPipe.next, reading, StdinPipe.readStdin, left, if_true]
  exact ⟨_, reached.next _ ended, rfl, done⟩

theorem exists_exit (room : 0 < capacity) (begins : printed <+: stdin)
    (lost : stdin.length ≤ printed.length + capacity + 1) :
    ∃ state, (machine capacity stdin).Reachable state ∧ state.main = .exited 0 ∧ state.printed = printed := by
  obtain ⟨rest, rfl⟩ := begins
  obtain ⟨state, reached, here⟩ := exists_printed room printed rest
  cases rest with
  | nil => exact here.exits reached
  | cons buf rest =>
      obtain ⟨written, reachedWritten, put⟩ := here.put room reached
      obtain ⟨taken, reachedTaken, took⟩ := put.take reachedWritten
      have fits : ([] ++ rest).length ≤ capacity := by
        simp only [List.length_append, List.length_cons] at lost
        rw [List.nil_append]
        omega
      rw [← List.append_nil rest] at took
      obtain ⟨filled, reachedFilled, fills⟩ := took.fills fits reachedTaken
      exact fills.exits reachedFilled

/-- What can have been printed when `main` returns 0: all that it has read, but for at most one byte
more than the pipe holds. No failed `write` is ever reported. -/
theorem printed_at_exit_iff (capacity : ℕ+) (stdin printed : List UInt8) :
    ((∃ state, (machine capacity stdin).Reachable state ∧ state.main = .exited 0 ∧ state.printed = printed) ↔
      printed <+: stdin ∧ stdin.length ≤ printed.length + capacity + 1) ∧
    ∀ state, (machine capacity stdin).Reachable state → ∀ name ∈ state.reported, name = "read" := by
  refine ⟨⟨fun ⟨state, reached, exited, same⟩ => ?_, fun ⟨begins, lost⟩ => exists_exit capacity.2 begins lost⟩,
    fun state reached => (passes_of_reachable reached).reads⟩
  obtain ⟨carries, whole, -⟩ := passes_of_reachable reached
  rw [exited, same, whole exited, MainPhase.held, List.append_nil, List.append_nil, List.append_assoc] at carries
  refine ⟨⟨_, carries.symm⟩, ?_⟩
  have few : state.thread.held.length ≤ 1 := by
    cases state.thread with
    | reading | ended => exact Nat.zero_le 1
    | printing buf => exact Nat.le_refl 1
  have fits := state.pipe.fits
  have length := congrArg List.length carries
  rw [List.length_append, List.length_append] at length
  omega

end SysProg.Chat.StdinPipe
