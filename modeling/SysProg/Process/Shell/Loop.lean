import SysProg.Process.Shell.Session

namespace SysProg.Process.Shell

/-! ## What has been executed -/

/-- The calls and the forks for some lines. -/
inductive Served (moves : Nat → Int → Bool) : List (List UInt8) → List (Copy × Split) → List Split → Prop
  | nil : Served moves [] [] []
  | snoc {done : List (List UInt8)} {calls : List (Copy × Split)} {forked : List Split} {line : List UInt8}
      {argv : Split} (earlier : Served moves done calls forked) (split : SplitOf (moves done.length) line argv) :
      Served moves (done ++ [line]) (calls ++ [(.shell, argv)]) (forked ++ if launches line then [argv] else [])

variable {stdin : Stdin} {moves : Nat → Int → Bool} {input line rest : List UInt8} {done : List (List UInt8)}
  {calls : List (Copy × Split)} {forked : List Split} {state after : State}

theorem Served.length_eq (served : Served moves done calls forked) : calls.length = done.length := by
  induction served with
  | nil => rfl
  | snoc earlier split ih => simp [ih]

theorem Served.call (served : Served moves done calls forked) {i : Nat} {call : Copy × Split}
    (found : calls[i]? = some call) :
    ∃ line argv, done[i]? = some line ∧ SplitOf (moves i) line argv ∧ call = (.shell, argv) := by
  induction served with
  | nil => simp at found
  | @snoc done calls forked line argv earlier split ih =>
      have length := earlier.length_eq
      rcases Nat.lt_trichotomy i calls.length with less | rfl | more
      · rw [List.getElem?_append_left less] at found
        rw [List.getElem?_append_left (by omega)]
        exact ih found
      · rw [List.getElem?_append_right (Nat.le_refl _), Nat.sub_self, List.getElem?_cons_zero] at found
        cases found
        rw [length]
        exact ⟨line, argv, by simp, split, rfl⟩
      · rw [List.getElem?_eq_none (by simp; omega)] at found
        contradiction

theorem Served.forked_eq (served : Served moves done calls forked) :
    forked = ((done.zip calls).filter fun served => launches served.1).map fun served => served.2.2 := by
  induction served with
  | nil => rfl
  | @snoc done calls forked line argv earlier split ih =>
      rw [List.zip_append earlier.length_eq.symm, List.filter_append, List.map_append, ← ih]
      cases kind : launches line <;> simp [kind]

theorem Served.zip_append (served : Served moves done calls forked) (later : List (List UInt8)) :
    (done ++ later).zip calls = done.zip calls := by
  have none : calls = calls ++ [] := by simp
  rw [none, List.zip_append served.length_eq.symm]
  simp

/-- The shell has executed these lines and has not been told to exit. -/
structure Before (moves : Nat → Int → Bool) (input : List UInt8) (done : List (List UInt8)) (rest : List UInt8)
    (calls : List (Copy × Split)) (forked : List Split) : Prop where
  whole : input = joined done ++ rest
  free : ∀ line ∈ done, 10 ∉ line
  running : ∀ line ∈ done, isExit line = false
  served : Served moves done calls forked

/-- It has read the next line. -/
structure During (moves : Nat → Int → Bool) (input : List UInt8) (done : List (List UInt8)) (line rest : List UInt8)
    (calls : List (Copy × Split)) (forked : List Split) : Prop where
  before : Before moves input done (line ++ 10 :: rest) calls forked
  free : 10 ∉ line

/-- It has executed it. -/
def Executed (moves : Nat → Int → Bool) (input : List UInt8) (done : List (List UInt8)) (line : List UInt8)
    (state : State) : Prop :=
  (∃ calls forked, During moves input done line state.input calls forked) ∧
    Served moves (done ++ [line]) state.calls state.forked

theorem Before.session_eq (before : Before moves input done rest calls forked) :
    session (completeLines input) = done ++ session (completeLines rest) := by
  rw [before.whole, (completeLines_joined before.free rest).1, session_append before.running]

theorem During.session_eq (during : During moves input done line rest calls forked) :
    session (completeLines input) = done ++ session (line :: completeLines rest) := by
  rw [during.before.session_eq, completeLines_cons during.free]

theorem During.mem (during : During moves input done line rest calls forked) :
    line ∈ session (completeLines input) := by
  rw [during.session_eq, session]
  split <;> simp

theorem Executed.before (executed : Executed moves input done line state) (running : isExit line = false) :
    Before moves input (done ++ [line]) state.input state.calls state.forked := by
  obtain ⟨⟨calls, forked, ⟨whole, free, others, -⟩, last⟩, served⟩ := executed
  refine ⟨?_, ?_, ?_, served⟩
  · rw [whole, joined_append]
    simp
  · intro other member
    rcases List.mem_append.mp member with earlier | same
    · exact free other earlier
    · rw [List.mem_singleton.mp same]
      exact last
  · intro other member
    rcases List.mem_append.mp member with earlier | same
    · exact others other earlier
    · rw [List.mem_singleton.mp same]
      exact running

theorem Executed.session_eq (executed : Executed moves input done line state) (exits : isExit line = true) :
    session (completeLines input) = done ++ [line] := by
  obtain ⟨⟨calls, forked, during⟩, -⟩ := executed
  rw [during.session_eq, session, if_pos exits]

/-! ## The invariant -/

/-- The lines that are executed can be read and split. -/
def Fine (input : List UInt8) : Prop :=
  ∀ line ∈ session (completeLines input), (lineWords line).length < 8 ∧ line.length ≤ 2 ^ 30

/-- `exit` has nothing to give back. -/
def Stdin.Drained (stdin : Stdin) (state : State) : Prop := stdin.seekable = true → state.buffered = 0

theorem Stdin.Drained.rewind_eq (drained : stdin.Drained state) : stdin.rewind state = state := by
  rw [rewind]
  split
  · rename_i seekable
    have empty : state.input.take state.buffered = [] := by rw [drained seekable, List.take_zero]
    rw [empty, List.nil_append]
  · rfl

def Stage (stdin : Stdin) (moves : Nat → Int → Bool) (input : List UInt8) (state : State) : Prop :=
  match state.shell with
  | .reading => state.child = none ∧ ∃ done, Before moves input done state.input state.calls state.forked
  | .splitting buf => state.child = none ∧ ∃ done line,
      During moves input done line state.input state.calls state.forked ∧
        ezshReadLine (line ++ [10]) = .ok (.line buf []) ∧ buf.Begins (line ++ [0])
  | .executing argv => state.child = none ∧ ∃ done line,
      During moves input done line state.input state.calls state.forked ∧
        SplitOf (moves done.length) line argv ∧ argv.Holds (lineWords line)
  | .forking argv => state.child = none ∧ ∃ done line calls,
      During moves input done line state.input calls state.forked ∧ SplitOf (moves done.length) line argv ∧
        state.calls = calls ++ [(.shell, argv)] ∧ launches line = true
  | .waiting =>
      (∃ phase, state.child = some phase ∧ phase.Leaving ∧ (phase = .failing → stdin.Drained state)) ∧ ∃ done line,
      Executed moves input done line state ∧ launches line = true
  | .freeing status => state.child = none ∧ ∃ done line,
      Executed moves input done line state ∧ status = if isExit line then 0 else 1
  | .exited code => state.child = none ∧
      ((∃ done line, Executed moves input done line state ∧ isExit line = true ∧ code = 0) ∨
        ∃ done rest, Before moves input done rest state.calls state.forked ∧ 10 ∉ rest ∧
          ezshReadLine rest = .ok (.exit code state.input))
  | _ => False

theorem stage_start (stdin : Stdin) (moves : Nat → Int → Bool) (input : List UInt8) :
    Stage stdin moves input (start input) :=
  ⟨rfl, [], rfl, by simp, by simp, .nil⟩

/-! ### Steps of the shell -/

/-- The step of the shell is enabled and leads to a stage. -/
def Goes (stdin : Stdin) (moves : Nat → Int → Bool) (input : List UInt8) (state : State) : Prop :=
  ∃ after, next stdin moves state .shell = some after ∧ Stage stdin moves input after

theorem goes_reading (fine : Fine input) (phase : state.shell = .reading) (alone : state.child = none)
    (before : Before moves input done state.input state.calls state.forked) : Goes stdin moves input state := by
  rcases next_line state.input with free | ⟨line, rest, split, free⟩
  · have ended : ∃ code left, ezshReadLine state.input = .ok (.exit code left) := by
      rcases Nat.lt_or_ge (2 ^ 30) state.input.length with long | short
      · obtain ⟨left, exited⟩ := readLine_long free long []
        rw [List.append_nil] at exited
        exact ⟨1, left, exited⟩
      · exact ⟨0, [], readLine_fragment free short⟩
    obtain ⟨code, left, exited⟩ := ended
    refine ⟨{ stdin.read state left with shell := .exited code }, ?_, alone,
      .inr ⟨done, state.input, before, free, exited⟩⟩
    simp only [next, phase, processStep, exited, Option.map_some]
  · rw [split] at before
    have during : During moves input done line rest state.calls state.forked := ⟨before, free⟩
    obtain ⟨buf, begins, read⟩ := readLine_line free (fine line during.mem).2
    refine ⟨{ stdin.read state rest with shell := .splitting buf }, ?_, alone, done, line, during, read [], begins⟩
    simp only [next, phase, processStep, split, read, Option.map_some]

theorem goes_splitting (fine : Fine input) {buf : Block UInt8} (phase : state.shell = .splitting buf)
    (alone : state.child = none) (during : During moves input done line state.input state.calls state.forked)
    (read : ezshReadLine (line ++ [10]) = .ok (.line buf [])) (begins : buf.Begins (line ++ [0])) :
    Goes stdin moves input state := by
  obtain ⟨argv, split, holds⟩ := splits_few begins.cString (fine line during.mem).1 (moves state.calls.length)
  refine ⟨{ state with shell := .executing argv }, ?_, alone, done, line, during, ⟨buf, [], read, ?_⟩, holds⟩
  · simp only [next, phase, processStep, split, Option.map_some]
  · rw [← during.before.served.length_eq]
    exact split

theorem goes_executing {argv : Split} (phase : state.shell = .executing argv) (alone : state.child = none)
    (during : During moves input done line state.input state.calls state.forked)
    (split : SplitOf (moves done.length) line argv) (holds : argv.Holds (lineWords line)) :
    Goes stdin moves input state := by
  have executed := execute_eq holds
  cases result : outcome (lineWords line) with
  | launch =>
      rw [result] at executed
      refine ⟨{ state with shell := .forking argv, calls := state.calls ++ [(.shell, argv)] }, ?_, alone, done, line,
        state.calls, during, split, rfl, (outcome_launch line).mp result⟩
      simp only [next, phase, processStep, executed, Option.map_some]
  | returns status =>
      rw [result] at executed
      obtain ⟨quiet, value⟩ := outcome_returns result
      have served := during.before.served.snoc split
      rw [quiet] at served
      refine ⟨{ state with shell := .freeing status, calls := state.calls ++ [(.shell, argv)] }, ?_, alone, done, line,
        ⟨⟨state.calls, state.forked, during⟩, by simpa using served⟩, value⟩
      simp only [next, phase, processStep, executed, Option.map_some]

theorem goes_forking {argv : Split} (phase : state.shell = .forking argv)
    (during : During moves input done line state.input calls state.forked)
    (split : SplitOf (moves done.length) line argv) (called : state.calls = calls ++ [(.shell, argv)])
    (launched : launches line = true) : Goes stdin moves input state := by
  have served := during.before.served.snoc split
  rw [launched, ← called] at served
  refine ⟨{ state with shell := .waiting, child := some (.execing argv), forked := state.forked ++ [argv] }, ?_,
    ⟨_, rfl, trivial, by simp⟩, done, line, ⟨⟨calls, state.forked, during⟩, by simpa using served⟩, launched⟩
  simp only [next, phase, processStep, Option.map_some]

theorem goes_waiting {code : Int} (phase : state.shell = .waiting) (exited : state.child = some (.exited code))
    (executed : Executed moves input done line state) (launched : launches line = true) :
    Goes stdin moves input state := by
  refine ⟨{ state with shell := .freeing 1, child := none }, ?_, rfl, done, line, executed, ?_⟩
  · simp only [next, phase, processStep, exited, Option.map_some]
  · rw [not_exit_of_launches launched]
    rfl

theorem goes_freeing {status : Int} (phase : state.shell = .freeing status) (alone : state.child = none)
    (executed : Executed moves input done line state) (value : status = if isExit line then 0 else 1) :
    Goes stdin moves input state := by
  cases exits : isExit line with
  | true =>
      rw [exits] at value
      refine ⟨{ state with shell := .exited 0 }, ?_, alone, .inl ⟨done, line, executed, exits, rfl⟩⟩
      simp only [next, phase, processStep, value, if_true, Option.map_some]
  | false =>
      rw [exits] at value
      refine ⟨{ state with shell := .reading }, ?_, alone, done ++ [line], executed.before exits⟩
      simp only [next, phase, processStep, value, Bool.false_eq_true, if_false, Option.map_some]
      rfl

/-- The shell goes on until it has exited, but for the time that its child runs. -/
theorem Stage.goes (fine : Fine input) (stage : Stage stdin moves input state) :
    Goes stdin moves input state ∨ (∃ code, state.shell = .exited code) ∨
      state.shell = .waiting ∧ ∃ phase, state.child = some phase ∧ phase.Leaving ∧ ∀ code, phase ≠ .exited code := by
  have stages := stage
  simp only [Stage] at stages
  cases phase : state.shell <;> simp only [phase] at stages
  case reading =>
      obtain ⟨alone, done, before⟩ := stages
      exact .inl (goes_reading fine phase alone before)
  case splitting buf =>
      obtain ⟨alone, done, line, during, read, begins⟩ := stages
      exact .inl (goes_splitting fine phase alone during read begins)
  case executing argv =>
      obtain ⟨alone, done, line, during, split, holds⟩ := stages
      exact .inl (goes_executing phase alone during split holds)
  case forking argv =>
      obtain ⟨alone, done, line, calls, during, split, called, launched⟩ := stages
      exact .inl (goes_forking phase during split called launched)
  case waiting =>
      obtain ⟨⟨child, running, leaving, -⟩, done, line, executed, launched⟩ := stages
      by_cases ended : ∃ code, child = .exited code
      · obtain ⟨code, rfl⟩ := ended
        exact .inl (goes_waiting phase running executed launched)
      · exact .inr (.inr ⟨rfl, child, running, leaving, not_exists.mp ended⟩)
  case freeing status =>
      obtain ⟨alone, done, line, executed, value⟩ := stages
      exact .inl (goes_freeing phase alone executed value)
  case exited code => exact .inr (.inl ⟨code, rfl⟩)

/-! ### Steps of the child -/

/-- A child that goes on only leaves, and leaves stdin alone. -/
theorem processStep_leaving {copy : Copy} {found : Bool} {phase : Phase} (leaving : phase.Leaving)
    (drained : phase = .failing → stdin.Drained state)
    (allowed : found = false → (∃ argv, phase = .execing argv) → stdin.Drained state)
    {moved : Phase × State} (stepped : processStep stdin moves copy found state phase = some moved) :
    moved.1.Leaving ∧ (moved.1 = .failing → stdin.Drained state) ∧ moved.2 = state := by
  cases phase <;> simp only [Phase.Leaving] at leaving
  all_goals simp only [processStep, Option.some.injEq, reduceCtorEq] at stepped
  all_goals subst stepped
  case execing argv =>
      cases found with
      | false => exact ⟨trivial, fun _ => allowed rfl ⟨argv, rfl⟩, rfl⟩
      | true => exact ⟨trivial, by simp, rfl⟩
  case failing => exact ⟨trivial, by simp, (drained rfl).rewind_eq⟩
  case running => exact ⟨trivial, by simp, rfl⟩

theorem child_goes {phase : Phase} (leaving : phase.Leaving) (running : ∀ code, phase ≠ .exited code)
    (child : state.child = some phase) : ∃ after, next stdin moves state (.child true) = some after := by
  simp only [next, child, Option.bind_some]
  cases phase <;> simp only [Phase.Leaving] at leaving
  case exited code => exact absurd rfl (running code)
  all_goals exact ⟨_, rfl⟩

theorem child_step {found : Bool} (moved : next stdin moves state (.child found) = some after) {phase : Phase}
    (child : state.child = some phase) (leaving : phase.Leaving) (drained : phase = .failing → stdin.Drained state)
    (allowed : Unrewound stdin state (.child found)) :
    ∃ left, left.Leaving ∧ (left = .failing → stdin.Drained state) ∧
      processStep stdin moves .child found state phase = some (left, state) ∧
        after = { state with child := some left } := by
  simp only [next, child, Option.bind_some, Option.map_eq_some_iff] at moved
  obtain ⟨⟨left, same⟩, stepped, rfl⟩ := moved
  have permitted : found = false → (∃ argv, phase = .execing argv) → stdin.Drained state := by
    rintro rfl ⟨argv, rfl⟩
    exact allowed rfl (by simp [State.execing, child])
  obtain ⟨later, kept, rfl⟩ := processStep_leaving leaving drained permitted stepped
  exact ⟨left, later, kept, stepped, rfl⟩

/-- There is a child only while the shell waits for it. -/
theorem Stage.child (stage : Stage stdin moves input state) {phase : Phase} (child : state.child = some phase) :
    phase.Leaving ∧ (phase = .failing → stdin.Drained state) ∧ state.shell = .waiting ∧ ∃ done line,
      Executed moves input done line state ∧ launches line = true := by
  simp only [Stage] at stage
  cases shell : state.shell <;> simp only [shell, child, reduceCtorEq, false_and] at stage
  obtain ⟨⟨current, same, leaving, drained⟩, executed⟩ := stage
  cases same
  exact ⟨leaving, drained, rfl, executed⟩

/-! ## Whole runs -/

theorem Stage.next (fine : Fine input) (stage : Stage stdin moves input state) {action : Action}
    (allowed : Unrewound stdin state action) (moved : next stdin moves state action = some after) :
    Stage stdin moves input after := by
  cases action with
  | shell =>
      rcases stage.goes fine with ⟨other, step, later⟩ | ⟨code, exited⟩ | ⟨waiting, phase, child, -, running⟩
      · rw [step] at moved
        cases moved
        exact later
      · simp [Shell.next, exited, processStep] at moved
      · simp only [Shell.next, waiting, processStep, child] at moved
        cases phase <;> simp_all
  | child found =>
      cases child : state.child with
      | none => simp [Shell.next, child] at moved
      | some phase =>
          obtain ⟨leaving, drained, waiting, executed⟩ := stage.child child
          obtain ⟨left, later, kept, -, rfl⟩ := child_step moved child leaving drained allowed
          simp only [Stage, waiting]
          exact ⟨⟨left, rfl, later, kept⟩, executed⟩

/-- The shell, in the runs in which no child rewinds stdin. -/
def unrewound (stdin : Stdin) (moves : Nat → Int → Bool) (input : List UInt8) : Machine State Action :=
  (machine stdin moves input).restrict (Unrewound stdin)

theorem stage_of_reachable (fine : Fine input) (reached : (unrewound stdin moves input).Reachable state) :
    Stage stdin moves input state :=
  reached.invariant (Stage stdin moves input) (stage_start stdin moves input) fun stage moved => by
    obtain ⟨allowed, stepped⟩ := Machine.restrict_next moved
    exact stage.next fine allowed stepped

/-! ### The length of a run -/

def Phase.weight : Phase → Nat
  | .reading => 1
  | .splitting _ => 10
  | .executing _ => 9
  | .forking _ => 8
  | .waiting => 3
  | .freeing _ => 2
  | .execing _ => 2
  | .failing | .running => 1
  | .exited _ | .crashed => 0

def childWeight : Option Phase → Nat
  | none => 0
  | some phase => phase.weight + 1

/-- What is left to do. A line pays for its execution with its newline. -/
def State.rank (state : State) : Nat :=
  12 * state.input.length + state.shell.weight + childWeight state.child

theorem shell_rank (stage : Stage stdin moves input state) (moved : next stdin moves state .shell = some after) :
    after.rank + 1 ≤ state.rank := by
  simp only [next, Option.map_eq_some_iff] at moved
  obtain ⟨⟨phase, changed⟩, stepped, rfl⟩ := moved
  cases shell : state.shell <;> simp only [shell, processStep] at stepped
  case failing => simp only [Stage, shell] at stage
  case reading =>
      cases read : ezshReadLine state.input with
      | error trap =>
          simp only [read, Option.some.injEq, Prod.mk.injEq] at stepped
          obtain ⟨rfl, rfl⟩ := stepped
          simp only [State.rank, shell, Phase.weight]
          omega
      | ok result =>
          have consumes := readLoop_consumes read
          cases result with
          | exit code rest =>
              simp only [read, Option.some.injEq, Prod.mk.injEq] at stepped
              obtain ⟨rfl, rfl⟩ := stepped
              simp only [State.rank, Stdin.read, shell, Phase.weight, ReadLine.Consumes] at consumes ⊢
              omega
          | line buf rest =>
              simp only [read, Option.some.injEq, Prod.mk.injEq] at stepped
              obtain ⟨rfl, rfl⟩ := stepped
              simp only [State.rank, Stdin.read, shell, Phase.weight, ReadLine.Consumes] at consumes ⊢
              omega
  case waiting =>
      split at stepped <;> try contradiction
      rename_i code child
      cases stepped
      simp only [State.rank, shell, child, Phase.weight, childWeight]
      omega
  case freeing status =>
      cases stepped
      simp only [State.rank, shell]
      split <;> simp only [Phase.weight] <;> omega
  all_goals try split at stepped
  all_goals try contradiction
  all_goals cases stepped
  all_goals simp only [State.rank, shell, Phase.weight, childWeight]
  all_goals omega

theorem child_rank (stage : Stage stdin moves input state) {found : Bool}
    (allowed : Unrewound stdin state (.child found)) (moved : next stdin moves state (.child found) = some after) :
    after.rank + 1 ≤ state.rank := by
  cases child : state.child with
  | none => simp [next, child] at moved
  | some phase =>
      obtain ⟨leaving, drained, -, -⟩ := stage.child child
      obtain ⟨left, -, -, stepped, rfl⟩ := child_step moved child leaving drained allowed
      cases phase <;> simp only [Phase.Leaving] at leaving
      all_goals simp only [processStep, Option.some.injEq, reduceCtorEq, Prod.mk.injEq] at stepped
      all_goals obtain ⟨rfl, -⟩ := stepped
      all_goals simp only [State.rank, child, childWeight]
      · cases found <;> exact Nat.le_refl _
      · exact Nat.le_refl _
      · exact Nat.le_refl _

theorem run_bounded (fine : Fine input) {actions : List Action} {final : State}
    (ran : (unrewound stdin moves input).run (unrewound stdin moves input).init actions = some final) :
    actions.length ≤ 12 * input.length + 1 := by
  have bound := Machine.run_countP_le (Stage stdin moves input) State.rank (fun _ => true)
    (fun {before after action} stage moved => ?_) (stage_start stdin moves input) ran
  · rw [List.countP_true] at bound
    exact Nat.le_trans (Nat.le_add_left _ _) bound
  · obtain ⟨allowed, stepped⟩ := Machine.restrict_next moved
    refine ⟨stage.next fine allowed stepped, ?_⟩
    cases action with
    | shell => exact shell_rank stage stepped
    | child found => exact child_rank stage allowed stepped

/-! ## The session -/

/-- The last fragment can be read, if the shell gets to it. -/
def ShortEnd (input : List UInt8) : Prop :=
  (∀ line ∈ completeLines input, isExit line = false) → (fragment input).length ≤ 2 ^ 30

theorem Stage.served (stage : Stage stdin moves input state) : ∃ done forked later,
    Served moves done state.calls forked ∧ session (completeLines input) = done ++ later := by
  have called {done line calls forked} (during : During moves input done line state.input calls forked) :
      ∃ later, session (completeLines input) = (done ++ [line]) ++ later := by
    rw [during.session_eq, session]
    split
    · exact ⟨[], by simp⟩
    · exact ⟨session (completeLines state.input), by simp⟩
  simp only [Stage] at stage
  cases phase : state.shell <;> simp only [phase] at stage
  case reading =>
      obtain ⟨-, done, before⟩ := stage
      exact ⟨done, _, _, before.served, before.session_eq⟩
  case splitting buf =>
      obtain ⟨-, done, line, during, -, -⟩ := stage
      exact ⟨done, _, _, during.before.served, during.session_eq⟩
  case executing argv =>
      obtain ⟨-, done, line, during, -, -⟩ := stage
      exact ⟨done, _, _, during.before.served, during.session_eq⟩
  case forking argv =>
      obtain ⟨-, done, line, calls, during, split, same, -⟩ := stage
      obtain ⟨later, whole⟩ := called during
      rw [same]
      exact ⟨done ++ [line], _, later, during.before.served.snoc split, whole⟩
  case waiting =>
      obtain ⟨-, done, line, ⟨⟨calls, forked, during⟩, served⟩, -⟩ := stage
      obtain ⟨later, whole⟩ := called during
      exact ⟨done ++ [line], _, later, served, whole⟩
  case freeing status =>
      obtain ⟨-, done, line, ⟨⟨calls, forked, during⟩, served⟩, -⟩ := stage
      obtain ⟨later, whole⟩ := called during
      exact ⟨done ++ [line], _, later, served, whole⟩
  case exited code =>
      obtain ⟨-, ⟨done, line, executed, exits, -⟩ | ⟨done, rest, before, -, -⟩⟩ := stage
      · exact ⟨done ++ [line], _, [], executed.2, by rw [executed.session_eq exits, List.append_nil]⟩
      · exact ⟨done, _, _, before.served, before.session_eq⟩

/-- The shell has exited: it was told to, or it has come to the last fragment. -/
theorem Stage.exited (stage : Stage stdin moves input state) {code : Int} (shell : state.shell = .exited code) :
    Served moves (session (completeLines input)) state.calls state.forked ∧
      ((∃ line ∈ completeLines input, isExit line = true) ∧ code = 0 ∨
        (∀ line ∈ completeLines input, isExit line = false) ∧ 10 ∉ fragment input ∧
          ezshReadLine (fragment input) = .ok (.exit code state.input)) := by
  simp only [Stage, shell] at stage
  obtain ⟨-, ⟨done, line, executed, exits, rfl⟩ | ⟨done, rest, before, free, read⟩⟩ := stage
  · have whole := executed.session_eq exits
    have member : line ∈ session (completeLines input) := by rw [whole]; simp
    refine ⟨?_, .inl ⟨⟨line, mem_of_session member, exits⟩, rfl⟩⟩
    rw [whole]
    exact executed.2
  · obtain ⟨lines, last⟩ := completeLines_joined before.free rest
    rw [← before.whole, completeLines_free free, List.append_nil] at lines
    rw [← before.whole, fragment_free free] at last
    have whole := before.session_eq
    rw [completeLines_free free, session, List.append_nil] at whole
    rw [whole, lines, last]
    exact ⟨before.served, .inr ⟨before.running, free, read⟩⟩

theorem executes_of_fine (stdin : Stdin) (fine : Fine input) (short : ShortEnd input) (moves : Nat → Int → Bool) :
    Executes (unrewound stdin moves input) moves input where
  calls := by
    intro state reached i call found
    obtain ⟨done, forked, later, served, whole⟩ := (stage_of_reachable fine reached).served
    obtain ⟨line, argv, position, split, rfl⟩ := served.call found
    have inside := (List.getElem?_eq_some_iff.mp position).1
    exact ⟨line, argv, by rw [whole, List.getElem?_append_left inside, position], split, rfl⟩
  stopped := by
    intro state reached code shell
    obtain ⟨served, ⟨⟨line, member, exits⟩, rfl⟩ | ⟨running, free, read⟩⟩ :=
      (stage_of_reachable fine reached).exited shell
    · refine ⟨rfl, served.length_eq, fun running => ?_⟩
      rw [running line member] at exits
      contradiction
    · rw [readLine_fragment free (short running), Except.ok.injEq, ReadLine.exit.injEq] at read
      obtain ⟨rfl, empty⟩ := read
      exact ⟨rfl, served.length_eq, fun _ => empty.symm⟩
  forks := by
    intro state reached shell
    have stage := stage_of_reachable fine reached
    rcases shell with reading | ⟨code, exited⟩
    · simp only [Stage, reading] at stage
      obtain ⟨alone, done, before⟩ := stage
      rw [before.session_eq, before.served.zip_append]
      exact ⟨alone, before.served.forked_eq⟩
    · have alone : state.child = none := by
        simp only [Stage, exited] at stage
        exact stage.1
      exact ⟨alone, (stage.exited exited).1.forked_eq⟩
  child := by
    intro state reached phase child
    exact ((stage_of_reachable fine reached).child child).1
  progress := by
    intro state reached running
    rcases (stage_of_reachable fine reached).goes fine with ⟨after, step, -⟩ | ⟨code, exited⟩ |
      ⟨-, phase, child, leaving, active⟩
    · exact ⟨.shell, after, Machine.restrict_step (by simp [Unrewound]) step⟩
    · exact absurd exited (running code)
    · obtain ⟨after, step⟩ := child_goes leaving active child
      exact ⟨.child true, after, Machine.restrict_step (by simp [Unrewound]) step⟩
  bounded := ⟨12 * input.length + 1, fun actions state ran => run_bounded fine ran⟩

/-- A line whose array is returned when `realloc` moves the block. -/
theorem fine_of_split {argv : Split} (free : 10 ∉ line) (split : SplitOf (fun _ => true) line argv) :
    (lineWords line).length < 8 ∧ line.length ≤ 2 ^ 30 := by
  obtain ⟨buf, rest, read, returned⟩ := split
  have short : line.length ≤ 2 ^ 30 := by
    by_contra long
    obtain ⟨left, exited⟩ := readLine_long free (Nat.lt_of_not_le long) [10]
    rw [read] at exited
    cases exited
  obtain ⟨same, begins, again⟩ := readLine_line free short
  rw [again []] at read
  cases read
  refine ⟨?_, short⟩
  by_contra many
  obtain ⟨moved, -⟩ := splits_many begins.cString (Nat.not_lt.mp many) returned
  contradiction

theorem Executes.exists_exited {machine : Machine State Action} (executes : Executes machine moves input) :
    ∃ state, machine.Reachable state ∧ ∃ code, state.shell = .exited code := by
  obtain ⟨bound, bounded⟩ := executes.bounded
  refine Machine.exists_final _ (fun state reached running => ?_) bounded
  exact executes.progress state reached (not_exists.mp running)

theorem fine_of_executes {machine : Machine State Action} (executes : Executes machine (fun _ _ => true) input) :
    Fine input := by
  obtain ⟨state, reached, code, exited⟩ := executes.exists_exited
  obtain ⟨-, length, -⟩ := executes.stopped state reached code exited
  intro line member
  obtain ⟨i, bound, found⟩ := List.mem_iff_getElem.mp member
  obtain ⟨other, argv, position, split, -⟩ := executes.calls state reached i _
    (List.getElem?_eq_getElem (by omega))
  rw [List.getElem?_eq_getElem bound, found] at position
  cases position
  exact fine_of_split (free_of_mem (mem_of_session member)) split

theorem shortEnd_of_executes (executes : Executes (unrewound stdin moves input) moves input) (fine : Fine input) :
    ShortEnd input := by
  intro running
  obtain ⟨state, reached, code, exited⟩ := executes.exists_exited
  obtain ⟨rfl, -, -⟩ := executes.stopped state reached code exited
  obtain ⟨-, ⟨⟨line, member, exits⟩, -⟩ | ⟨-, free, read⟩⟩ := (stage_of_reachable fine reached).exited exited
  · rw [running line member] at exits
    contradiction
  · by_contra long
    obtain ⟨left, failed⟩ := readLine_long free (Nat.lt_of_not_le long) []
    rw [List.append_nil, read, Except.ok.injEq, ReadLine.exit.injEq] at failed
    exact absurd failed.1 (by decide)

/-- Whatever `realloc` does, the shell executes its session if and only if every
line of it has at most seven tokens and `2 ^ 30` bytes, and so has the last
fragment if the shell gets to it. No child may give bytes of stdin back. -/
theorem executes_session_iff (stdin : Stdin) (input : List UInt8) :
    (∀ moves, Executes (unrewound stdin moves input) moves input) ↔
      (∀ line ∈ session (completeLines input), (lineWords line).length < 8 ∧ line.length ≤ 2 ^ 30) ∧
        ((∀ line ∈ completeLines input, isExit line = false) → (fragment input).length ≤ 2 ^ 30) := by
  constructor
  · intro executes
    have fine := fine_of_executes (executes _)
    exact ⟨fine, shortEnd_of_executes (executes fun _ _ => true) fine⟩
  · rintro ⟨fine, short⟩ moves
    exact executes_of_fine stdin fine short moves

/-- A pipe or a terminal gives nothing back, and then these are all the runs. -/
theorem unrewound_pipe (pipe : stdin.seekable = false) : unrewound stdin moves input = machine stdin moves input := by
  have allowed (state : State) (action : Action) : Unrewound stdin state action := by
    intro _ _ seekable
    rw [pipe] at seekable
    contradiction
  simp only [unrewound, Machine.restrict, allowed, if_true]

/-- `a b c d e f g h i` -/
def nineWords : List UInt8 := [97, 32, 98, 32, 99, 32, 100, 32, 101, 32, 102, 32, 103, 32, 104, 32, 105]

/-- When `realloc` moves the block, the ninth word is stored in the freed one, and
the `ls` of the next line is not executed. -/
theorem nine_words_stop_the_shell :
    ¬ ∀ (stdin : Stdin) (moves : Nat → Int → Bool) (input : List UInt8),
      Executes (machine stdin moves input) moves input := by
  intro executes
  have fine := fine_of_executes (executes ⟨false, 1⟩ (fun _ _ => true) (nineWords ++ [10, 108, 115, 10]))
  have few := (fine nineWords (by decide)).1
  exact absurd few (by decide)

/-- Both lines of a file `a` and `b` are in the buffer. The child for `a` finds no
program, and the shell reads on to the end of what its `exit` gives back: the line
`b` is executed twice. -/
def secondExecution : List Action :=
  [.shell, .shell, .shell, .shell, .child false, .child false, .shell, .shell,
    .shell, .shell, .shell, .shell, .child true, .child true, .shell, .shell, .shell, .shell, .shell]

theorem failed_exec_repeats_line :
    ¬ ∀ (moves : Nat → Int → Bool), Executes (machine ⟨true, 4096⟩ moves [97, 10, 98, 10]) moves [97, 10, 98, 10] := by
  intro executes
  have ran : ∃ final, (machine ⟨true, 4096⟩ (fun _ _ => true) [97, 10, 98, 10]).run
      (start [97, 10, 98, 10]) secondExecution = some final ∧ final.calls.length = 3 := ⟨_, rfl, rfl⟩
  obtain ⟨final, reached, length⟩ := ran
  have third := List.getElem?_eq_getElem (show 2 < final.calls.length by omega)
  obtain ⟨line, argv, inside, -⟩ := (executes _).calls final ⟨secondExecution, reached⟩ 2 _ third
  have outside : (session (completeLines [97, 10, 98, 10]))[2]? = none := by decide
  rw [outside] at inside
  contradiction

end SysProg.Process.Shell
