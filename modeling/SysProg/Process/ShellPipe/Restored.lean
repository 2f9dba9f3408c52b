import SysProg.Process.ShellPipe.Progress

namespace SysProg.Process.ShellPipe

/-! ## Every entry of the shell's table -/

instance (statement : CmdTry) : Decidable statement.Redirected :=
  match statement with
  | .forking | .waiting | .restoring => inferInstanceAs (Decidable True)
  | .redirecting | .closing => inferInstanceAs (Decidable False)

/-- The table that the shell was started with, and copies of standard input and output. -/
def State.saved (state : State) (base : Descriptors File) (fd : Nat) : Option File :=
  if fd = state.outD then some (.inherited 1)
  else if fd = state.inD then some (.inherited 0)
  else base.get fd

def ShellPhase.entry (state : State) (base : Descriptors File) (fd : Nat) : ShellPhase → Option File
  | .dupIn => base.get fd
  | .dupOut => if fd = state.inD then some (.inherited 0) else base.get fd
  | .piping | .exited _ => state.saved base fd
  | .trying .first statement =>
      if statement.Redirected ∧ fd = 1 then some .pipeWrite
      else if fd = state.writeEnd then some .pipeWrite
      else if fd = state.readEnd then some .pipeRead
      else state.saved base fd
  | .trying .second statement =>
      if statement.Redirected ∧ fd = 0 then some .pipeRead
      else if fd = state.readEnd then some .pipeRead
      else state.saved base fd

/-- The descriptors that the shell has opened so far were free before. -/
def ShellPhase.Fresh (state : State) (base : Descriptors File) : ShellPhase → Prop
  | .dupIn => True
  | .dupOut => base.get state.inD = none
  | .piping | .exited _ => base.get state.inD = none ∧ base.get state.outD = none ∧ state.inD ≠ state.outD
  | .trying _ _ =>
      (base.get state.inD = none ∧ base.get state.outD = none ∧ state.inD ≠ state.outD) ∧
        state.saved base state.readEnd = none ∧ state.saved base state.writeEnd = none ∧
        state.readEnd ≠ state.writeEnd

structure Mapped (base : Descriptors File) (state : State) : Prop where
  stdin : base.get 0 = some (.inherited 0)
  stdout : base.get 1 = some (.inherited 1)
  fresh : state.shell.Fresh state base
  entries : ∀ fd, state.table.get fd = state.shell.entry state base fd

variable {base : Descriptors File} {state after : State}

namespace Mapped

theorem dupIn (mapped : Mapped base state) (phase : state.shell = .dupIn) (moved : shellStep state = some after) :
    Mapped base after := by
  obtain ⟨stdin, stdout, -, entries⟩ := mapped
  rw [phase] at entries
  have source : state.table.get 0 = some (.inherited 0) := (entries 0).trans stdin
  simp only [shellStep, phase, Descriptors.dup, source, Option.map_some, Descriptors.openFile] at moved
  cases moved
  refine ⟨stdin, stdout, (entries _).symm.trans state.table.get_lowestFree, fun fd => ?_⟩
  simp only [Descriptors.get_put, entries, ShellPhase.entry]

theorem dupOut (mapped : Mapped base state) (phase : state.shell = .dupOut) (moved : shellStep state = some after) :
    Mapped base after := by
  obtain ⟨stdin, stdout, fresh, entries⟩ := mapped
  rw [phase] at entries fresh
  have other : (1 : Nat) ≠ state.inD := by
    intro same
    rw [same, fresh] at stdout
    contradiction
  have source : state.table.get 1 = some (.inherited 1) := by
    rw [entries, ShellPhase.entry, if_neg other, stdout]
  have new := state.table.get_lowestFree
  simp only [shellStep, phase, Descriptors.dup, source, Option.map_some, Descriptors.openFile] at moved
  cases moved
  rw [entries, ShellPhase.entry] at new
  split at new
  · contradiction
  · rename_i different
    refine ⟨stdin, stdout, ⟨fresh, new, Ne.symm different⟩, fun fd => ?_⟩
    simp only [Descriptors.get_put, entries, ShellPhase.entry, State.saved]

theorem piping (mapped : Mapped base state) (phase : state.shell = .piping) (moved : shellStep state = some after) :
    Mapped base after := by
  obtain ⟨stdin, stdout, fresh, entries⟩ := mapped
  rw [phase] at entries fresh
  have first := state.table.get_lowestFree
  have second := (state.table.put state.table.lowestFree (some .pipeRead)).get_lowestFree
  simp only [shellStep, phase, Descriptors.openFile] at moved
  cases moved
  rw [entries] at first
  rw [Descriptors.get_put, entries] at second
  split at second
  · contradiction
  · rename_i different
    refine ⟨stdin, stdout, ⟨fresh, first, second, Ne.symm different⟩, fun fd => ?_⟩
    simp only [Descriptors.get_put, entries, ShellPhase.entry, State.saved, CmdTry.Redirected, false_and, if_false]

theorem saved_open {fd id : Nat} (found : base.get fd = some (.inherited id)) (freeIn : base.get state.inD = none)
    (freeOut : base.get state.outD = none) : state.saved base fd = some (.inherited id) := by
  have notOut : fd ≠ state.outD := by
    intro same
    rw [same, freeOut] at found
    contradiction
  have notIn : fd ≠ state.inD := by
    intro same
    rw [same, freeIn] at found
    contradiction
  rw [State.saved, if_neg notOut, if_neg notIn, found]

/-- `dup2` over standard input or output, and the `close` that follows. -/
structure Ready (base : Descriptors File) (state : State) : Prop where
  in_ : state.saved base 0 = some (.inherited 0)
  out : state.saved base 1 = some (.inherited 1)
  savedIn : state.saved base state.inD = some (.inherited 0)
  savedOut : state.saved base state.outD = some (.inherited 1)
  read : state.saved base state.readEnd = none
  write : state.saved base state.writeEnd = none
  differ : state.readEnd ≠ state.writeEnd
  inIn : state.inD ≠ 0
  outOut : state.outD ≠ 1

theorem ready (mapped : Mapped base state) {command : Command} {statement : CmdTry}
    (phase : state.shell = .trying command statement) : Ready base state := by
  obtain ⟨stdin, stdout, fresh, -⟩ := mapped
  rw [phase] at fresh
  obtain ⟨⟨freeIn, freeOut, different⟩, read, write, differ⟩ := fresh
  refine ⟨saved_open stdin freeIn freeOut, saved_open stdout freeIn freeOut, ?_, ?_, read, write, differ, ?_, ?_⟩
  · rw [State.saved, if_neg different, if_pos rfl]
  · rw [State.saved, if_pos rfl]
  · intro same
    rw [same, stdin] at freeIn
    contradiction
  · intro same
    rw [same, stdout] at freeOut
    contradiction

/-- Entries of the table that differ from each other are those of different descriptors. -/
theorem ne_of_saved {fd other : Nat} {file : File} (first : state.saved base fd = some file)
    (second : state.saved base other = none) : fd ≠ other := by
  intro same
  rw [same, second] at first
  contradiction

theorem redirecting (mapped : Mapped base state) {command : Command} (phase : state.shell = .trying command .redirecting)
    (moved : shellStep state = some after) : Mapped base after := by
  have fresh := mapped.fresh
  have entries := mapped.entries
  rw [phase] at entries fresh
  cases command with
  | first =>
      have source : state.table.get state.writeEnd = some .pipeWrite := by
        rw [entries]
        simp [ShellPhase.entry, CmdTry.Redirected]
      simp only [shellStep, phase, cmdTry, State.des, Descriptors.dup2, source, Option.map_some] at moved
      cases moved
      refine ⟨mapped.stdin, mapped.stdout, fresh, fun fd => ?_⟩
      simp only [Descriptors.get_put, entries, ShellPhase.entry, State.saved, CmdTry.Redirected, true_and, false_and, if_false]
  | second =>
      have source : state.table.get state.readEnd = some .pipeRead := by
        rw [entries]
        simp [ShellPhase.entry, CmdTry.Redirected]
      simp only [shellStep, phase, cmdTry, State.des, Descriptors.dup2, source, Option.map_some] at moved
      cases moved
      refine ⟨mapped.stdin, mapped.stdout, fresh, fun fd => ?_⟩
      simp only [Descriptors.get_put, entries, ShellPhase.entry, State.saved, CmdTry.Redirected, true_and, false_and, if_false]

theorem forking (mapped : Mapped base state) {command : Command} (phase : state.shell = .trying command .forking)
    (moved : shellStep state = some after) : Mapped base after := by
  obtain ⟨stdin, stdout, fresh, entries⟩ := mapped
  rw [phase] at entries fresh
  simp only [shellStep, phase, cmdTry] at moved
  cases command <;> cases moved <;> exact ⟨stdin, stdout, fresh, entries⟩

theorem restoring (mapped : Mapped base state) {command : Command} (phase : state.shell = .trying command .restoring)
    (moved : shellStep state = some after) : Mapped base after := by
  have ready := mapped.ready phase
  have fresh := mapped.fresh
  have entries := mapped.entries
  rw [phase] at entries fresh
  have outRead := ne_of_saved ready.savedOut ready.read
  have outWrite := ne_of_saved ready.savedOut ready.write
  have inRead := ne_of_saved ready.savedIn ready.read
  cases command with
  | first =>
      have source : state.table.get state.outD = some (.inherited 1) := by
        rw [entries]
        simp [ShellPhase.entry, ready.outOut, outRead, outWrite, ready.savedOut]
      simp only [shellStep, phase, cmdTry, State.des, Descriptors.dup2, source, Option.map_some] at moved
      cases moved
      refine ⟨mapped.stdin, mapped.stdout, fresh, fun fd => ?_⟩
      have read := ne_of_saved ready.out ready.read
      have write := ne_of_saved ready.out ready.write
      have stdout := ready.out
      simp only [Descriptors.get_put, entries, ShellPhase.entry, CmdTry.Redirected, true_and, false_and, if_false]
      split
      · rename_i same
        rw [same, if_neg write, if_neg read]
        exact stdout.symm
      · rfl
  | second =>
      have source : state.table.get state.inD = some (.inherited 0) := by
        rw [entries]
        simp [ShellPhase.entry, ready.inIn, inRead, ready.savedIn]
      simp only [shellStep, phase, cmdTry, State.des, Descriptors.dup2, source, Option.map_some] at moved
      cases moved
      refine ⟨mapped.stdin, mapped.stdout, fresh, fun fd => ?_⟩
      have read := ne_of_saved ready.in_ ready.read
      have stdin := ready.in_
      simp only [Descriptors.get_put, entries, ShellPhase.entry, CmdTry.Redirected, true_and, false_and, if_false]
      split
      · rename_i same
        rw [same, if_neg read]
        exact stdin.symm
      · rfl

theorem closing (mapped : Mapped base state) {command : Command} (phase : state.shell = .trying command .closing)
    (moved : shellStep state = some after) : Mapped base after := by
  have ready := mapped.ready phase
  have fresh := mapped.fresh
  have entries := mapped.entries
  rw [phase] at entries fresh
  cases command with
  | first =>
      have source : state.table.get state.writeEnd = some .pipeWrite := by
        rw [entries]
        simp [ShellPhase.entry, CmdTry.Redirected]
      simp only [shellStep, phase, cmdTry, State.des, Descriptors.close, source, Option.isSome_some, if_true] at moved
      cases moved
      refine ⟨mapped.stdin, mapped.stdout, fresh, fun fd => ?_⟩
      have free := ready.write
      have differ := ready.differ.symm
      simp only [Descriptors.get_put, entries, ShellPhase.entry, CmdTry.Redirected, false_and, if_false]
      split
      · rename_i same
        rw [same, if_neg differ]
        exact free.symm
      · rfl
  | second =>
      have source : state.table.get state.readEnd = some .pipeRead := by
        rw [entries]
        simp [ShellPhase.entry, CmdTry.Redirected]
      simp only [shellStep, phase, cmdTry, State.des, Descriptors.close, source, Option.isSome_some, if_true] at moved
      cases moved
      refine ⟨mapped.stdin, mapped.stdout, fresh.1, fun fd => ?_⟩
      have free := ready.read
      simp only [Descriptors.get_put, entries, ShellPhase.entry, CmdTry.Redirected, false_and, if_false]
      split
      · rename_i same
        rw [same]
        exact free.symm
      · rfl

variable {capacity : Nat} {others : List (Option Nat)} {output : List UInt8}

theorem shellStep (mapped : Mapped base state) (inv : Connected capacity output state)
    (moved : shellStep state = some after) : Mapped base after := by
  have connected := inv.shellStep moved
  cases phase : state.shell with
  | dupIn => exact mapped.dupIn phase moved
  | dupOut => exact mapped.dupOut phase moved
  | piping => exact mapped.piping phase moved
  | trying command statement =>
      cases statement with
      | redirecting => exact mapped.redirecting phase moved
      | forking => exact mapped.forking phase moved
      | waiting =>
          -- `wait` has a child to wait for
          simp only [ShellPipe.shellStep, phase, cmdTry] at moved
          split at moved <;> cases moved
          exact connected.stage.elim
      | restoring => exact mapped.restoring phase moved
      | closing => exact mapped.closing phase moved
  | exited code =>
      simp only [ShellPipe.shellStep, phase] at moved
      contradiction

theorem waitStep (mapped : Mapped base state) {command : Command} (moved : waitStep state command = some after) :
    Mapped base after := by
  obtain ⟨stdin, stdout, fresh, entries⟩ := mapped
  simp only [ShellPipe.waitStep] at moved
  split at moved
  · rename_i current phase
    rw [phase] at fresh entries
    split at moved
    · cases moved
      cases command <;> cases current <;> exact ⟨stdin, stdout, fresh, entries⟩
    · contradiction
  · contradiction

/-- The commands have tables of their own. -/
theorem of_same (mapped : Mapped base state) {first second : Child} {rest pipe received : List UInt8} :
    Mapped base { state with first, second, rest, pipe, received } := by
  obtain ⟨stdin, stdout, fresh, entries⟩ := mapped
  cases phase : state.shell with
  | trying command statement =>
      rw [phase] at fresh entries
      cases command <;> exact ⟨stdin, stdout, fresh, entries⟩
  | _ =>
      rw [phase] at fresh entries
      exact ⟨stdin, stdout, fresh, entries⟩

theorem writeStep (mapped : Mapped base state) {count : Nat} (moved : writeStep capacity state count = some after) :
    Mapped base after := by
  simp only [ShellPipe.writeStep] at moved
  split at moved <;> try contradiction
  split at moved
  · cases moved
    exact mapped.of_same
  · split at moved
    · split at moved
      · cases moved
        exact mapped.of_same
      · split at moved <;> cases moved
        exact mapped.of_same
    · cases moved
      exact mapped.of_same

theorem readStep (mapped : Mapped base state) {count : Nat} (moved : readStep state count = some after) :
    Mapped base after := by
  simp only [ShellPipe.readStep] at moved
  split at moved <;> try contradiction
  split at moved
  · split at moved
    · split at moved <;> cases moved
      exact mapped.of_same
    · split at moved <;> cases moved
      exact mapped.of_same
  · cases moved
    exact mapped.of_same

theorem of_reachable (reached : (machine capacity others output).Reachable state) :
    Mapped (start others output).table state := by
  have both : Connected capacity output state ∧ Mapped (start others output).table state := by
    refine reached.invariant (fun state => Connected capacity output state ∧ Mapped (start others output).table state)
      ⟨connected_start, rfl, rfl, trivial, fun _ => rfl⟩ ?_
    rintro before after action ⟨inv, mapped⟩ moved
    cases action with
    | shell => exact ⟨inv.shellStep moved, mapped.shellStep inv moved⟩
    | wait command => exact ⟨inv.waitStep moved, mapped.waitStep moved⟩
    | write count => exact ⟨inv.writeStep moved, mapped.writeStep moved⟩
    | read count => exact ⟨inv.readStep moved, mapped.readStep moved⟩
  exact both.2

end Mapped

/-- In every interleaving the second command reads what the first has written, in order. A shell that
has exited has reported no error, the second command has read all the output, and the shell's descriptors
are those it was started with and one copy each of standard input and output. -/
theorem shell_pipe_restores {capacity : Nat} {others : List (Option Nat)} {output : List UInt8}
    (reached : (machine capacity others output).Reachable state) :
    state.received ++ state.pipe ++ state.rest = output ∧ state.pipe.length ≤ capacity ∧
    ∀ code, state.shell = .exited code →
      code = 0 ∧ state.received = output ∧ state.first = .waited ∧ state.second = .waited ∧
      (start others output).table.get state.inD = none ∧ (start others output).table.get state.outD = none ∧
      ∀ fd, state.table.get fd =
        if fd = state.outD then some (.inherited 1)
        else if fd = state.inD then some (.inherited 0)
        else (start others output).table.get fd := by
  have inv := connected_of_reachable reached
  have mapped := Mapped.of_reachable reached
  refine ⟨inv.data, inv.room, ?_⟩
  intro code exited
  have data := inv.data
  have stage := inv.stage
  have fresh := mapped.fresh
  have entries := mapped.entries
  rw [exited] at stage fresh entries
  cases code with
  | zero =>
      obtain ⟨first, second, all, empty⟩ := stage
      rw [all, empty, List.append_nil, List.append_nil] at data
      exact ⟨rfl, data, first, second, fresh.1, fresh.2.1, entries⟩
  | succ code => exact stage.elim

/-- One byte, with the descriptors 0 to 2 open. -/
def oneByte : List Action :=
  [.shell, .shell, .shell, .shell, .shell, .write 1, .write 0, .wait .first, .shell, .shell,
    .shell, .shell, .read 1, .read 0, .wait .second, .shell, .shell]

theorem shell_pipe_restores_one_byte : ∃ state, (machine 4 [some 2] [97]).Reachable state ∧
    state.shell = .exited 0 ∧ state.received = [97] ∧ state.table.get state.inD = some (.inherited 0) := by
  obtain ⟨state, ran, observed⟩ := Option.map_eq_some_iff.mp
    (show ((machine 4 [some 2] [97]).run (machine 4 [some 2] [97]).init oneByte).map
        (fun state => (state.shell, state.inD, state.outD)) = some (.exited 0, 3, 4) by decide)
  obtain ⟨exited, saved⟩ := Prod.mk.inj observed
  obtain ⟨three, four⟩ := Prod.mk.inj saved
  obtain ⟨-, received, -, -, -, -, entries⟩ := (shell_pipe_restores ⟨oneByte, ran⟩).2.2 0 exited
  refine ⟨state, ⟨oneByte, ran⟩, exited, received, ?_⟩
  rw [entries, three, four]
  rfl

end SysProg.Process.ShellPipe
