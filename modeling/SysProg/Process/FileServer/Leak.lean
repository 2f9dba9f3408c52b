import SysProg.Process.FileServer

namespace SysProg.Process.FileServer

/-! ## The descriptors that a session leaves open -/

/-- The step is a call of `open` that succeeds. -/
def State.Opens (files : List UInt8 → Option (List UInt8)) (state : State) (action : Action) : Prop :=
  state.phase = .opening ∧ action = .compute ∧
    ∃ path contents, state.buf.cString = .ok path ∧ files path = some contents

def Server.Opens : Server → ServerAction → Prop
  | .handling files session, .session action => session.Opens files action
  | _, _ => False

/-- The same descriptors are open. -/
def SameOpen (before after : Descriptors File) : Prop :=
  ∀ fd, (after.get fd).isSome = true ↔ (before.get fd).isSome = true

/-- The descriptors of `table` and the leaked ones are open, in a session also
the connection's, and no others. -/
structure Held (table : Descriptors File) (leaked : List Nat) (current : Descriptors File) (sd : Option Nat) :
    Prop where
  occupied : ∀ fd, (current.get fd).isSome = true ↔ (table.get fd).isSome = true ∨ fd ∈ leaked ∨ sd = some fd
  new : ∀ fd ∈ leaked, table.get fd = none
  connection : ∀ fd, sd = some fd → table.get fd = none ∧ fd ∉ leaked

variable {files : List UInt8 → Option (List UInt8)} {table current : Descriptors File} {leaked : List Nat}
  {sd : Option Nat} {state after : State}

theorem Held.free (held : Held table leaked current sd) {fd : Nat} (unused : current.get fd = none) :
    table.get fd = none ∧ fd ∉ leaked ∧ sd ≠ some fd := by
  have none := (held.occupied fd).not.mp (by simp [unused])
  simpa [not_or] using none

theorem Held.accept (held : Held table leaked current none) :
    Held table leaked (current.openFile .connection).2 (some (current.openFile .connection).1) := by
  obtain ⟨outside, unleaked, -⟩ := held.free current.get_lowestFree
  refine ⟨?_, held.new, ?_⟩
  · intro fd
    have before := held.occupied fd
    simp only [Descriptors.openFile, Descriptors.get_put]
    by_cases new : fd = current.lowestFree
    · simp [new]
    · simpa [new, Ne.symm new] using before
  · intro fd same
    cases same
    exact ⟨outside, unleaked⟩

theorem Held.opens (held : Held table leaked current sd) (path : List UInt8) :
    Held table ((current.openFile (.regular path)).1 :: leaked) (current.openFile (.regular path)).2 sd := by
  obtain ⟨outside, -, different⟩ := held.free current.get_lowestFree
  refine ⟨?_, ?_, ?_⟩
  · intro fd
    have before := held.occupied fd
    simp only [Descriptors.openFile, Descriptors.get_put, List.mem_cons]
    by_cases new : fd = current.lowestFree
    · simp [new]
    · simpa [new] using before
  · intro fd member
    obtain rfl | earlier := List.mem_cons.mp member
    · exact outside
    · exact held.new fd earlier
  · intro fd same
    obtain ⟨absent, unleaked⟩ := held.connection fd same
    refine ⟨absent, ?_⟩
    rw [List.mem_cons, not_or]
    refine ⟨?_, unleaked⟩
    rintro rfl
    exact different same

theorem Held.close {fd : Nat} (held : Held table leaked current (some fd)) :
    Held table leaked ((current.close fd).getD current) none := by
  obtain ⟨absent, unleaked⟩ := held.connection fd rfl
  have isOpen : (current.get fd).isSome = true := (held.occupied fd).mpr (.inr (.inr rfl))
  refine ⟨?_, held.new, by simp⟩
  intro other
  have before := held.occupied other
  simp only [Descriptors.close, isOpen, if_true, Option.getD_some, Descriptors.get_put]
  by_cases closed : other = fd
  · simp [closed, absent, unleaked]
  · simpa [closed, Ne.symm closed] using before

/-! ## Steps of a session -/

/-- The descriptors are as before. -/
def State.Keeps (state after : State) : Prop := after.sd = state.sd ∧ after.table = state.table

theorem growStep_keeps (state : State) : state.Keeps (growStep state) := by
  simp only [growStep]
  split
  · split <;> exact ⟨rfl, rfl⟩
  · exact ⟨rfl, rfl⟩

theorem recvStep_keeps {result : IoResult} (moved : recvStep state result = some after) : state.Keeps after := by
  simp only [recvStep] at moved
  split at moved
  · split at moved
    · cases moved
      exact ⟨rfl, rfl⟩
    · cases moved
      exact ⟨rfl, rfl⟩
  all_goals cases moved
  all_goals exact ⟨rfl, rfl⟩

theorem terminateStep_keeps (state : State) : state.Keeps (terminateStep state) := by
  simp only [terminateStep]
  split <;> exact ⟨rfl, rfl⟩

theorem readStep_keeps {result : IoResult} (moved : readStep state result = some after) : state.Keeps after := by
  simp only [readStep] at moved
  split at moved <;> cases moved
  all_goals exact ⟨rfl, rfl⟩

theorem sendStep_keeps {result : IoResult} (moved : sendStep state result = some after) : state.Keeps after := by
  simp only [sendStep] at moved
  split at moved <;> cases moved
  all_goals exact ⟨rfl, rfl⟩

theorem openStep_table (phase : state.phase = .opening) :
    (openStep files state).sd = state.sd ∧
      (¬ state.Opens files .compute ∧ (openStep files state).table = state.table ∨
        state.Opens files .compute ∧ ∃ path, (openStep files state).table = (state.table.openFile (.regular path)).2) := by
  cases name : state.buf.cString with
  | error reason =>
      have stepped : openStep files state = { state with phase := .crashed } := by simp only [openStep, name]
      rw [stepped]
      exact ⟨rfl, .inl ⟨by simp [State.Opens, name], rfl⟩⟩
  | ok path =>
      cases found : files path with
      | none =>
          have stepped : openStep files state = { state with phase := .returning (-1), path := some path } := by
            simp only [openStep, name, found]
          rw [stepped]
          exact ⟨rfl, .inl ⟨by simp [State.Opens, name, found], rfl⟩⟩
      | some contents =>
          have stepped : openStep files state = { state with
              phase := .reading
              path := some path
              fd := (state.table.openFile (.regular path)).1
              table := (state.table.openFile (.regular path)).2
              rest := contents } := by simp only [openStep, name, found]
          rw [stepped]
          exact ⟨rfl, .inr ⟨⟨phase, rfl, path, contents, name, found⟩, path, rfl⟩⟩

theorem next_table {action : Action} (moved : next files state action = some after) :
    after.sd = state.sd ∧
      (¬ state.Opens files action ∧ after.table = state.table ∨
        state.Opens files action ∧ ∃ path, after.table = (state.table.openFile (.regular path)).2) := by
  have quiet (keeps : state.Keeps after) (phase : state.phase ≠ .opening) :
      after.sd = state.sd ∧
        (¬ state.Opens files action ∧ after.table = state.table ∨
          state.Opens files action ∧ ∃ path, after.table = (state.table.openFile (.regular path)).2) :=
    ⟨keeps.1, .inl ⟨fun opens => phase opens.1, keeps.2⟩⟩
  simp only [next] at moved
  split at moved <;> try contradiction
  · rename_i phase
    cases moved
    exact quiet (growStep_keeps state) (by simp [phase])
  · rename_i phase
    exact quiet (recvStep_keeps moved) (by simp [phase])
  · rename_i phase
    cases moved
    exact quiet (terminateStep_keeps state) (by simp [phase])
  · rename_i phase
    cases moved
    exact openStep_table phase
  · rename_i phase
    exact quiet (readStep_keeps moved) (by simp [phase])
  · rename_i phase
    exact quiet (sendStep_keeps moved) (by simp [phase])
  · rename_i phase
    cases moved
    exact quiet ⟨rfl, rfl⟩ (by simp [phase])

/-! ## Whole runs of the server -/

def Server.Held (table : Descriptors File) (leaked : List Nat) : Server → Prop
  | .accepting current => FileServer.Held table leaked current none
  | .handling _ session => FileServer.Held table leaked session.table (some session.sd)

variable {before later : Server}

theorem Server.Held.next {action : ServerAction} (held : before.Held table leaked)
    (moved : serverNext before action = some later) :
    ∃ more, later.Held table (more ++ leaked) ∧ (more = [] ↔ ¬ before.Opens action) := by
  simp only [serverNext] at moved
  split at moved
  · cases moved
    exact ⟨[], FileServer.Held.accept held, by simp [Server.Opens]⟩
  · cases moved
    exact ⟨[], held, by simp [Server.Opens]⟩
  · rename_i files session action
    obtain ⟨next, stepped, rfl⟩ := Option.map_eq_some_iff.mp moved
    obtain ⟨same, ⟨quiet, kept⟩ | ⟨opens, path, grown⟩⟩ := next_table stepped
    · refine ⟨[], ?_, by simpa [Server.Opens] using quiet⟩
      simpa [Server.Held, same, kept] using held
    · refine ⟨[(session.table.openFile (.regular path)).1], ?_, by simpa [Server.Opens] using opens⟩
      have more : FileServer.Held _ _ _ _ := FileServer.Held.opens held path
      simpa [Server.Held, same, grown] using more
  · split at moved <;> try contradiction
    cases moved
    exact ⟨[], FileServer.Held.close held, by simp [Server.Opens]⟩
  · contradiction

theorem Server.Held.run {actions : List ServerAction} (held : before.Held table leaked)
    (ran : (server current).run before actions = some later) :
    ∃ more, later.Held table (more ++ leaked) ∧
      (more = [] ↔ (server current).Along (fun state action => ¬ state.Opens action) before actions) := by
  induction actions generalizing before leaked with
  | nil =>
      cases ran
      exact ⟨[], held, by simp [Machine.Along]⟩
  | cons action rest ih =>
      obtain ⟨middle, moved, continued⟩ := Machine.run_cons.mp ran
      obtain ⟨first, afterFirst, quiet⟩ := held.next moved
      obtain ⟨more, afterAll, silent⟩ := ih afterFirst continued
      refine ⟨more ++ first, by simpa using afterAll, ?_⟩
      rw [Machine.along_cons moved, List.append_eq_nil_iff, quiet, silent, and_comm]

/-- The open descriptors are the same at the head of the loop just when no
session has opened a file: `send_file` does not close it. -/
theorem same_open_iff (table : Descriptors File) (actions : List ServerAction) (final : Descriptors File)
    (ran : (server table).run (.accepting table) actions = some (.accepting final)) :
    SameOpen table final ↔
      (server table).Along (fun state action => ¬ state.Opens action) (.accepting table) actions := by
  have start : (Server.accepting table).Held table [] := ⟨by simp, by simp, by simp⟩
  obtain ⟨leaked, held, silent⟩ := start.run ran
  rw [← silent, List.append_nil] at *
  have occupied := FileServer.Held.occupied held
  constructor
  · intro same
    by_contra some
    obtain ⟨fd, rest, rfl⟩ := List.exists_cons_of_ne_nil some
    have new := FileServer.Held.new held fd (by simp)
    have isOpen := (same fd).mp ((occupied fd).mpr (.inr (.inl (by simp))))
    simp [new] at isOpen
  · rintro rfl fd
    simpa using occupied fd

/-- There is one file, `a`, of one byte. -/
def onlyA (path : List UInt8) : Option (List UInt8) := if path = [97] then some [7] else none

/-- A session with a client that sends a name of one letter and a newline. -/
def request (letter : UInt8) (reply : List ServerAction) : List ServerAction :=
  [.accept onlyA [letter, 10], .session .compute, .session (.recv (.done 1)), .session .compute,
    .session (.recv (.done 1)), .session .compute, .session .compute] ++ reply ++ [.session .compute, .close]

theorem Server.quiet {session : State} {action : Action} (phase : session.phase ≠ .opening) :
    ¬ (Server.handling files session).Opens (.session action) := fun opens => phase opens.1

/-- The requested file `b` does not exist. -/
theorem same_open_iff_not_found : ∃ final,
    (server ⟨[some .listener]⟩).run (.accepting ⟨[some .listener]⟩) (request 98 []) = some (.accepting final) ∧
      SameOpen ⟨[some .listener]⟩ final := by
  refine ⟨⟨[some .listener, none]⟩, rfl, ?_⟩
  refine (same_open_iff ⟨[some .listener]⟩ (request 98 []) ⟨[some .listener, none]⟩ rfl).mpr ?_
  refine (Machine.along_cons rfl).mpr ⟨not_false, ?_⟩
  iterate 5 refine (Machine.along_cons rfl).mpr ⟨Server.quiet (by decide), ?_⟩
  refine (Machine.along_cons rfl).mpr ⟨?_, ?_⟩
  · rintro ⟨-, -, path, contents, name, found⟩
    cases name
    cases found
  · refine (Machine.along_cons rfl).mpr ⟨Server.quiet (by decide), ?_⟩
    exact (Machine.along_cons rfl).mpr ⟨not_false, trivial⟩

/-- A session that sends the file `a` leaves its descriptor open. -/
theorem served_file_leaks : ¬ ∀ actions final,
    (server ⟨[some .listener]⟩).run (.accepting ⟨[some .listener]⟩) actions = some (.accepting final) →
      SameOpen ⟨[some .listener]⟩ final := by
  intro keeps
  have same := keeps (request 97 [.session (.read (.done 1)), .session (.send (.done 1)), .session (.read (.done 0))])
    ⟨[some .listener, none, some (.regular [97])]⟩ rfl
  exact absurd ((same 2).mp rfl) (by decide)

end SysProg.Process.FileServer
