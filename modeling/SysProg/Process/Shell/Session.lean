import SysProg.Process.Shell.Lines
import SysProg.Process.Shell.Tokens

namespace SysProg.Process.Shell

/-! ## What the shell is for -/

/-- The tokens of a line, which is taken as a C string. -/
def lineWords (line : List UInt8) : List (List UInt8) := words isDelim (line.takeWhile (· ≠ 0))

/-- The first token is `exit`. -/
def isExit (line : List UInt8) : Bool := (lineWords line).head? == some [101, 120, 105, 116]

/-- The first token exists and is not the name of a builtin. -/
def launches (line : List UInt8) : Bool :=
  match (lineWords line).head? with
  | none => false
  | some name => (builtins.lookup name).isNone

/-- The lines that a newline ends. -/
def completeLines (input : List UInt8) : List (List UInt8) := (input.splitOnP (· == 10)).dropLast

/-- What is behind the last newline. -/
def fragment (input : List UInt8) : List UInt8 :=
  (input.splitOnP (· == 10)).getLast (List.splitOnP_ne_nil _ _)

/-- The lines up to and including the first `exit`. -/
def session : List (List UInt8) → List (List UInt8)
  | [] => []
  | line :: later => if isExit line then [line] else line :: session later

/-- The array that `ezsh_split_line` returns for the line that `ezsh_read_line` has read. -/
def SplitOf (moves : Int → Bool) (line : List UInt8) (argv : Split) : Prop :=
  ∃ buf rest, ezshReadLine (line ++ [10]) = .ok (.line buf rest) ∧ ezshSplitLine moves buf = .ok argv

/-- What a process is doing that was forked and has not been reaped: it never
reads, splits or executes a line. -/
def Phase.Leaving : Phase → Prop
  | .execing _ | .failing | .running | .exited _ => True
  | _ => False

/-- The child is about to call `execvp`. -/
def State.execing (state : State) : Bool :=
  match state.child with
  | some (.execing _) => true
  | _ => false

/-- No `execvp` fails while bytes of a seekable stdin are in its buffer. -/
def Unrewound (stdin : Stdin) (state : State) (action : Action) : Prop :=
  action = .child false → state.execing = true → stdin.seekable = true → state.buffered = 0

instance (stdin : Stdin) (state : State) (action : Action) : Decidable (Unrewound stdin state action) :=
  inferInstanceAs (Decidable (_ → _ → _ → _))

/-- In the runs of this machine the lines of the session are executed in order and
once each, and the children are forked and reaped one at a time. -/
structure Executes (machine : Machine State Action) (moves : Nat → Int → Bool) (input : List UInt8) : Prop where
  calls : ∀ state, machine.Reachable state → ∀ i call, state.calls[i]? = some call →
    ∃ line argv, (session (completeLines input))[i]? = some line ∧ SplitOf (moves i) line argv ∧ call = (.shell, argv)
  stopped : ∀ state, machine.Reachable state → ∀ code, state.shell = .exited code →
    code = 0 ∧ state.calls.length = (session (completeLines input)).length ∧
      ((∀ line ∈ completeLines input, isExit line = false) → state.input = [])
  forks : ∀ state, machine.Reachable state →
    state.shell = .reading ∨ (∃ code, state.shell = .exited code) →
      state.child = none ∧ state.forked =
        (((session (completeLines input)).zip state.calls).filter fun served => launches served.1).map
          fun served => served.2.2
  child : ∀ state, machine.Reachable state → ∀ phase, state.child = some phase → phase.Leaving
  progress : ∀ state, machine.Reachable state → (∀ code, state.shell ≠ .exited code) →
    ∃ action after, machine.next state action = some after
  bounded : ∃ bound, ∀ actions state, machine.run machine.init actions = some state → actions.length ≤ bound

/-! ## The lines of the input -/

variable {input line rest : List UInt8} {done : List (List UInt8)}

theorem splitOnP_line (free : 10 ∉ line) (rest : List UInt8) :
    (line ++ 10 :: rest).splitOnP (· == 10) = line :: rest.splitOnP (· == 10) := by
  rw [List.splitOnP_append_cons line rest rfl, List.splitOnP_eq_singleton]
  · rfl
  · intro byte member
    simpa using ne_of_mem_of_not_mem member free

theorem completeLines_cons (free : 10 ∉ line) (rest : List UInt8) :
    completeLines (line ++ 10 :: rest) = line :: completeLines rest := by
  rw [completeLines, splitOnP_line free, List.dropLast_cons_of_ne_nil (List.splitOnP_ne_nil _ _)]
  rfl

theorem fragment_cons (free : 10 ∉ line) (rest : List UInt8) : fragment (line ++ 10 :: rest) = fragment rest := by
  simp only [fragment, splitOnP_line free]
  exact List.getLast_cons (List.splitOnP_ne_nil _ _)

theorem splitOnP_free (free : 10 ∉ rest) : rest.splitOnP (· == 10) = [rest] := by
  apply List.splitOnP_eq_singleton
  intro byte member
  simpa using ne_of_mem_of_not_mem member free

theorem completeLines_free (free : 10 ∉ rest) : completeLines rest = [] := by
  rw [completeLines, splitOnP_free free]
  rfl

theorem fragment_free (free : 10 ∉ rest) : fragment rest = rest := by
  simp only [fragment, splitOnP_free free]
  rfl

/-- Lines with their newlines. -/
def joined (done : List (List UInt8)) : List UInt8 := done.flatMap (· ++ [10])

theorem joined_append (line : List UInt8) : joined (done ++ [line]) = joined done ++ (line ++ [10]) := by
  simp [joined]

theorem completeLines_joined (free : ∀ line ∈ done, 10 ∉ line) (rest : List UInt8) :
    completeLines (joined done ++ rest) = done ++ completeLines rest ∧
      fragment (joined done ++ rest) = fragment rest := by
  induction done with
  | nil => exact ⟨rfl, rfl⟩
  | cons line done ih =>
      obtain ⟨lines, last⟩ := ih fun line member => free line (by simp [member])
      have first := free line (by simp)
      have shape : joined (line :: done) ++ rest = line ++ 10 :: (joined done ++ rest) := by simp [joined]
      rw [shape, completeLines_cons first, fragment_cons first, lines, last]
      exact ⟨rfl, rfl⟩

theorem session_append (running : ∀ line ∈ done, isExit line = false) (later : List (List UInt8)) :
    session (done ++ later) = done ++ session later := by
  induction done with
  | nil => rfl
  | cons line done ih =>
      have first := running line (by simp)
      rw [List.cons_append, session, first, ih fun line member => running line (by simp [member])]
      rfl

/-- The next line of the input, or its last fragment. -/
theorem next_line (input : List UInt8) :
    10 ∉ input ∨ ∃ line rest, input = line ++ 10 :: rest ∧ 10 ∉ line := by
  obtain ⟨line, tail, rfl, free, rfl | ⟨byte, rest, rfl, newline⟩⟩ := exists_run (fun byte => byte != 10) input
  · left
    intro member
    rw [List.append_nil] at member
    simpa using free 10 member
  · right
    have last : byte = 10 := by simpa using newline
    refine ⟨line, rest, by rw [last], fun member => ?_⟩
    simpa using free 10 member

theorem free_of_mem (member : line ∈ completeLines input) : 10 ∉ line := by
  induction size : input.length using Nat.strong_induction_on generalizing input with
  | _ size ih =>
      rcases next_line input with free | ⟨first, rest, rfl, free⟩
      · rw [completeLines_free free] at member
        contradiction
      · rw [completeLines_cons free] at member
        rcases List.mem_cons.mp member with rfl | later
        · exact free
        · simp only [List.length_append, List.length_cons] at size
          exact ih rest.length (by omega) later rfl

theorem mem_of_session {lines : List (List UInt8)} (member : line ∈ session lines) : line ∈ lines := by
  induction lines with
  | nil => contradiction
  | cons first later ih =>
      rw [session] at member
      split at member
      · rw [List.mem_singleton.mp member]
        exact List.mem_cons_self
      · rcases List.mem_cons.mp member with rfl | others
        · exact List.mem_cons_self
        · exact List.mem_cons_of_mem _ (ih others)

/-! ## `ezsh_execute` -/

/-- What `ezsh_execute` does with the tokens of a line. -/
def outcome (tokens : List (List UInt8)) : Execution :=
  match tokens.head? with
  | none => .returns 1
  | some name =>
      match builtins.lookup name with
      | none => .launch
      | some .exit => .returns 0
      | some _ => .returns 1

theorem Split.Holds.load {argv : Split} {tokens : List (List UInt8)} (holds : argv.Holds tokens) {i : Nat}
    (bound : i ≤ tokens.length) : ∃ pointer, argv.tokens.load i = .ok pointer := by
  rcases Nat.lt_or_eq_of_le bound with inside | rfl
  · obtain ⟨offset, pointer, -⟩ := holds.word i inside
    exact ⟨_, Block.load_eq_ok.mpr pointer⟩
  · exact ⟨_, Block.load_eq_ok.mpr holds.null⟩

theorem Builtin.run_eq {argv : Split} {name : List UInt8} {later : List (List UInt8)}
    (holds : argv.Holds (name :: later)) (builtin : Builtin) :
    builtin.run argv = .ok (if builtin = .exit then 0 else 1) := by
  cases builtin with
  | cd =>
      obtain ⟨pointer, second⟩ := holds.load (show 1 ≤ (name :: later).length by simp)
      have loaded : argv.tokens.load 1 = .ok pointer := second
      rw [Builtin.run, loaded]
      rfl
  | help => rfl
  | exit => rfl

theorem execute_eq {argv : Split} {tokens : List (List UInt8)} (holds : argv.Holds tokens) :
    ezshExecute argv = .ok (outcome tokens) := by
  cases tokens with
  | nil =>
      have first : argv.tokens.load 0 = .ok .null := Block.load_eq_ok.mpr holds.null
      rw [ezshExecute, first]
      rfl
  | cons name later =>
      obtain ⟨offset, pointer, text⟩ := holds.word 0 (by simp)
      have first : argv.tokens.load 0 = .ok (.line offset) := Block.load_eq_ok.mpr pointer
      have string : argv.string (.line offset) = .ok name := text
      simp only [ezshExecute, first, ok_bind, string, outcome, List.head?_cons]
      cases found : builtins.lookup name with
      | none => rfl
      | some builtin =>
          simp only [Builtin.run_eq holds, ok_bind]
          cases builtin <;> rfl

theorem outcome_launch (line : List UInt8) : outcome (lineWords line) = .launch ↔ launches line = true := by
  simp only [outcome, launches]
  cases (lineWords line).head? with
  | none => simp
  | some name =>
      cases found : builtins.lookup name with
      | none => simp [found]
      | some builtin => cases builtin <;> simp [found]

theorem lookup_exit {name : List UInt8} : builtins.lookup name = some .exit ↔ name = [101, 120, 105, 116] := by
  constructor
  · intro found
    by_contra other
    have different : (name == [101, 120, 105, 116]) = false := by simpa using other
    simp only [builtins, List.lookup_cons, List.lookup_nil, different] at found
    split at found
    · contradiction
    · split at found <;> contradiction
  · rintro rfl
    rfl

theorem isExit_eq (line : List UInt8) : isExit line = true ↔ ∃ name, (lineWords line).head? = some name ∧
    builtins.lookup name = some .exit := by
  simp only [lookup_exit, exists_eq_right, isExit, beq_iff_eq]

theorem outcome_returns {status : Int} (returned : outcome (lineWords line) = .returns status) :
    launches line = false ∧ status = if isExit line then 0 else 1 := by
  have exits := isExit_eq line
  simp only [outcome, launches] at returned ⊢
  cases first : (lineWords line).head? with
  | none =>
      simp only [first, Execution.returns.injEq, reduceCtorEq, false_and, exists_false, iff_false] at returned exits
      simp [exits, ← returned]
  | some name =>
      simp only [first, Option.some.injEq, exists_eq_left'] at returned exits
      cases found : builtins.lookup name with
      | none =>
          rw [found] at returned
          contradiction
      | some builtin =>
          rw [found] at returned exits
          cases builtin <;> simp_all

theorem not_exit_of_launches (launched : launches line = true) : isExit line = false := by
  have exits := isExit_eq line
  simp only [launches] at launched
  cases first : (lineWords line).head? with
  | none =>
      rw [first] at launched
      contradiction
  | some name =>
      simp only [first, Option.isNone_iff_eq_none] at launched
      simp only [first, Option.some.injEq, exists_eq_left', launched, reduceCtorEq, iff_false] at exits
      simpa using exits

end SysProg.Process.Shell
