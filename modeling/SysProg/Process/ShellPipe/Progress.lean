import SysProg.Process.ShellPipe

namespace SysProg.Process.ShellPipe

/-! ## Which descriptors are ends of the pipe -/

structure Ends (table : Descriptors File) (reads writes : Nat → Prop) : Prop where
  read : ∀ fd, table.get fd = some .pipeRead ↔ reads fd
  write : ∀ fd, table.get fd = some .pipeWrite ↔ writes fd

/-- The descriptor is open, and no end of the pipe. -/
def Plain (table : Descriptors File) (fd : Nat) : Prop := ∃ id, table.get fd = some (.inherited id)

variable {table : Descriptors File} {reads writes nextReads nextWrites : Nat → Prop} {fd other : Nat} {file : Option File}

theorem Ends.put (ends : Ends table reads writes)
    (others : ∀ x, x ≠ fd → (nextReads x ↔ reads x) ∧ (nextWrites x ↔ writes x))
    (read : nextReads fd ↔ file = some .pipeRead) (write : nextWrites fd ↔ file = some .pipeWrite) :
    Ends (table.put fd file) nextReads nextWrites := by
  constructor <;> intro x <;> by_cases here : x = fd
  · rw [here, Descriptors.get_put_same, read]
  · rw [Descriptors.get_put_other _ _ here, (others x here).1, ends.read]
  · rw [here, Descriptors.get_put_same, write]
  · rw [Descriptors.get_put_other _ _ here, (others x here).2, ends.write]

theorem Plain.put (plain : Plain table fd) (different : fd ≠ other) : Plain (table.put other file) fd := by
  obtain ⟨id, found⟩ := plain
  exact ⟨id, (Descriptors.get_put_other _ _ different).trans found⟩

theorem Plain.dup (plain : Plain table fd) :
    ∃ id, table.dup fd = some (table.lowestFree, table.put table.lowestFree (some (.inherited id))) := by
  obtain ⟨id, found⟩ := plain
  exact ⟨id, by simp [Descriptors.dup, Descriptors.openFile, found]⟩

theorem Plain.ne_lowestFree (plain : Plain table fd) : fd ≠ table.lowestFree := by
  obtain ⟨id, found⟩ := plain
  exact Descriptors.ne_lowestFree found

theorem Plain.new (table : Descriptors File) (fd id : Nat) : Plain (table.put fd (some (.inherited id))) fd :=
  ⟨id, Descriptors.get_put_same _ _ _⟩

/-! ## The shell's descriptors -/

/-- Between the two `dup2` of `cmd_try` -/
def CmdTry.Redirected : CmdTry → Prop
  | .forking | .waiting | .restoring => True
  | .redirecting | .closing => False

structure Apart (inD outD readEnd writeEnd : Nat) : Prop where
  writeOut : writeEnd ≠ 1
  readIn : readEnd ≠ 0
  readOut : readEnd ≠ 1
  readWrite : readEnd ≠ writeEnd
  inIn : inD ≠ 0
  inOut : inD ≠ 1
  inWrite : inD ≠ writeEnd
  outOut : outD ≠ 1

def ShellPhase.Wiring (state : State) : ShellPhase → Prop
  | .dupIn => Ends state.table (fun _ => False) (fun _ => False) ∧ Plain state.table 0 ∧ Plain state.table 1
  | .dupOut =>
      Ends state.table (fun _ => False) (fun _ => False) ∧ Plain state.table 0 ∧ Plain state.table 1 ∧
        Plain state.table state.inD ∧ state.inD ≠ 0 ∧ state.inD ≠ 1
  | .piping =>
      Ends state.table (fun _ => False) (fun _ => False) ∧ Plain state.table 0 ∧ Plain state.table 1 ∧
        Plain state.table state.inD ∧ state.inD ≠ 0 ∧ state.inD ≠ 1 ∧ Plain state.table state.outD ∧ state.outD ≠ 1
  | .trying .first statement =>
      Apart state.inD state.outD state.readEnd state.writeEnd ∧ Plain state.table state.inD ∧ Plain state.table state.outD ∧
        Ends state.table (fun fd => fd = state.readEnd)
          (fun fd => fd = state.writeEnd ∨ statement.Redirected ∧ fd = 1)
  | .trying .second statement =>
      Apart state.inD state.outD state.readEnd state.writeEnd ∧ Plain state.table state.inD ∧
        Ends state.table (fun fd => fd = state.readEnd ∨ statement.Redirected ∧ fd = 0) (fun _ => False)
  | .exited _ => True

/-! ## How far the commands have come -/

def ShellPhase.Stage (state : State) : ShellPhase → Prop
  | .dupIn | .dupOut | .piping | .trying .first .redirecting | .trying .first .forking =>
      state.first = .unborn ∧ state.second = .unborn ∧ state.received = [] ∧ state.pipe = []
  | .trying .first .waiting =>
      state.second = .unborn ∧ state.received = [] ∧
        ((∃ table, state.first = .running table ∧ table.get 1 = some .pipeWrite) ∨
          state.first = .zombie ∧ state.rest = [])
  | .trying .first .restoring | .trying .first .closing | .trying .second .redirecting | .trying .second .forking =>
      state.first = .waited ∧ state.second = .unborn ∧ state.rest = []
  | .trying .second .waiting =>
      state.first = .waited ∧ state.rest = [] ∧
        ((∃ table, state.second = .running table ∧ table.get 0 = some .pipeRead ∧ ¬ table.Holds .pipeWrite) ∨
          state.second = .zombie ∧ state.pipe = [])
  | .trying .second .restoring | .trying .second .closing | .exited 0 =>
      state.first = .waited ∧ state.second = .waited ∧ state.rest = [] ∧ state.pipe = []
  | .exited (_ + 1) => False

structure Connected (capacity : Nat) (output : List UInt8) (state : State) : Prop where
  data : state.received ++ state.pipe ++ state.rest = output
  room : state.pipe.length ≤ capacity
  wiring : state.shell.Wiring state
  stage : state.shell.Stage state

variable {capacity : Nat} {others : List (Option Nat)} {output : List UInt8} {state after : State}

theorem connected_start : Connected capacity output (start others output) where
  data := rfl
  room := Nat.zero_le _
  wiring := by
    refine ⟨⟨?_, ?_⟩, ⟨0, rfl⟩, ⟨1, rfl⟩⟩
    all_goals
      intro fd
      rw [iff_false]
      match fd with
      | 0 | 1 => simp [start, Descriptors.get]
      | fd + 2 =>
          simp only [start, Descriptors.get, List.getElem?_cons_succ, List.getElem?_map]
          cases others[fd]? with
          | none => simp
          | some entry => cases entry <;> simp
  stage := ⟨rfl, rfl, rfl, rfl⟩

/-! ## Steps of the shell -/

/-- The shell goes on to the given phase. -/
def Advances (capacity : Nat) (output : List UInt8) (state : State) (phase : ShellPhase) : Prop :=
  ∃ after, shellStep state = some after ∧ Connected capacity output after ∧ after.shell = phase

namespace Connected

theorem dupIn (inv : Connected capacity output state) (phase : state.shell = .dupIn) :
    Advances capacity output state .dupOut := by
  obtain ⟨data, room, wiring, stage⟩ := inv
  rw [phase] at wiring stage
  obtain ⟨ends, stdin, stdout⟩ := wiring
  obtain ⟨id, duplicated⟩ := stdin.dup
  have step : shellStep state = some { state with
      shell := .dupOut
      inD := state.table.lowestFree
      table := state.table.put state.table.lowestFree (some (.inherited id)) } := by
    simp only [shellStep, phase, duplicated]
  refine ⟨_, step, ⟨data, room, ?_, stage⟩, rfl⟩
  exact ⟨ends.put (by simp) (by simp) (by simp), stdin.put stdin.ne_lowestFree, stdout.put stdout.ne_lowestFree,
    .new _ _ _, stdin.ne_lowestFree.symm, stdout.ne_lowestFree.symm⟩

theorem dupOut (inv : Connected capacity output state) (phase : state.shell = .dupOut) :
    Advances capacity output state .piping := by
  obtain ⟨data, room, wiring, stage⟩ := inv
  rw [phase] at wiring stage
  obtain ⟨ends, stdin, stdout, saved, inIn, inOut⟩ := wiring
  obtain ⟨id, duplicated⟩ := stdout.dup
  have step : shellStep state = some { state with
      shell := .piping
      outD := state.table.lowestFree
      table := state.table.put state.table.lowestFree (some (.inherited id)) } := by
    simp only [shellStep, phase, duplicated]
  refine ⟨_, step, ⟨data, room, ?_, stage⟩, rfl⟩
  exact ⟨ends.put (by simp) (by simp) (by simp), stdin.put stdin.ne_lowestFree, stdout.put stdout.ne_lowestFree,
    saved.put saved.ne_lowestFree, inIn, inOut, .new _ _ _, stdout.ne_lowestFree.symm⟩

theorem piping (inv : Connected capacity output state) (phase : state.shell = .piping) :
    Advances capacity output state (.trying .first .redirecting) := by
  obtain ⟨data, room, wiring, stage⟩ := inv
  rw [phase] at wiring stage
  obtain ⟨ends, stdin, stdout, savedIn, inIn, inOut, savedOut, outOut⟩ := wiring
  let readEnd := state.table.lowestFree
  let middle := state.table.put readEnd (some .pipeRead)
  let writeEnd := middle.lowestFree
  have step : shellStep state = some { state with
      shell := .trying .first .redirecting
      readEnd, writeEnd
      table := middle.put writeEnd (some .pipeWrite) } := by
    simp only [shellStep, phase]
    rfl
  have half : Ends middle (fun fd => fd = readEnd) (fun _ => False) :=
    ends.put (fun x other => by simp [other]) (by simp) (by simp)
  have differ : readEnd ≠ writeEnd := Descriptors.ne_lowestFree ((half.read readEnd).mpr rfl)
  have inHalf : Plain middle state.inD := savedIn.put savedIn.ne_lowestFree
  have outHalf : Plain middle state.outD := savedOut.put savedOut.ne_lowestFree
  have stdoutHalf : Plain middle 1 := stdout.put stdout.ne_lowestFree
  refine ⟨_, step, ⟨data, room, ⟨?_, inHalf.put inHalf.ne_lowestFree, outHalf.put outHalf.ne_lowestFree, ?_⟩, stage⟩, rfl⟩
  · exact {
      writeOut := stdoutHalf.ne_lowestFree.symm
      readIn := stdin.ne_lowestFree.symm
      readOut := stdout.ne_lowestFree.symm
      readWrite := differ
      inIn, inOut
      inWrite := inHalf.ne_lowestFree
      outOut }
  · exact half.put (fun x other => by simp [other, CmdTry.Redirected]) (by simp [differ.symm]) (by simp)

theorem redirectOut (inv : Connected capacity output state) (phase : state.shell = .trying .first .redirecting) :
    Advances capacity output state (.trying .first .forking) := by
  obtain ⟨data, room, wiring, stage⟩ := inv
  rw [phase] at wiring stage
  obtain ⟨apart, savedIn, savedOut, ends⟩ := wiring
  have source : state.table.get state.writeEnd = some .pipeWrite := (ends.write _).mpr (.inl rfl)
  have step : shellStep state = some { state with
      shell := .trying .first .forking
      table := state.table.put 1 (some .pipeWrite) } := by
    simp [shellStep, phase, cmdTry, State.des, Descriptors.dup2, source]
  refine ⟨_, step, ⟨data, room, ⟨apart, savedIn.put apart.inOut, savedOut.put apart.outOut, ?_⟩, stage⟩, rfl⟩
  exact ends.put (fun x other => by simp [CmdTry.Redirected, other]) (by simp [apart.readOut.symm])
    (by simp [CmdTry.Redirected])

theorem forkFirst (inv : Connected capacity output state) (phase : state.shell = .trying .first .forking) :
    Advances capacity output state (.trying .first .waiting) := by
  obtain ⟨data, room, wiring, stage⟩ := inv
  rw [phase] at wiring stage
  obtain ⟨-, unborn, none, -⟩ := stage
  have step : shellStep state = some { state with
      shell := .trying .first .waiting
      first := .running state.table } := by
    simp only [shellStep, phase, cmdTry, State.setChild]
  have stdout : state.table.get 1 = some .pipeWrite := (wiring.2.2.2.write 1).mpr (.inr ⟨trivial, rfl⟩)
  exact ⟨_, step, ⟨data, room, wiring, unborn, none, .inl ⟨_, rfl, stdout⟩⟩, rfl⟩

theorem restoreOut (inv : Connected capacity output state) (phase : state.shell = .trying .first .restoring) :
    Advances capacity output state (.trying .first .closing) := by
  obtain ⟨data, room, wiring, stage⟩ := inv
  rw [phase] at wiring stage
  obtain ⟨apart, savedIn, savedOut, ends⟩ := wiring
  obtain ⟨id, source⟩ := savedOut
  have step : shellStep state = some { state with
      shell := .trying .first .closing
      table := state.table.put 1 (some (.inherited id)) } := by
    simp [shellStep, phase, cmdTry, State.des, Descriptors.dup2, source]
  refine ⟨_, step, ⟨data, room, ⟨apart, savedIn.put apart.inOut, Plain.put ⟨id, source⟩ apart.outOut, ?_⟩, stage⟩, rfl⟩
  exact ends.put (fun x other => by simp [CmdTry.Redirected, other]) (by simp [apart.readOut.symm])
    (by simp [CmdTry.Redirected, apart.writeOut.symm])

theorem closeOut (inv : Connected capacity output state) (phase : state.shell = .trying .first .closing) :
    Advances capacity output state (.trying .second .redirecting) := by
  obtain ⟨data, room, wiring, stage⟩ := inv
  rw [phase] at wiring stage
  obtain ⟨apart, savedIn, -, ends⟩ := wiring
  have source : state.table.get state.writeEnd = some .pipeWrite := (ends.write _).mpr (.inl rfl)
  have step : shellStep state = some { state with
      shell := .trying .second .redirecting
      table := state.table.put state.writeEnd none } := by
    simp [shellStep, phase, cmdTry, State.des, Descriptors.close, source]
  refine ⟨_, step, ⟨data, room, ⟨apart, savedIn.put apart.inWrite, ?_⟩, stage⟩, rfl⟩
  exact ends.put (fun x other => by simp [CmdTry.Redirected, other])
    (by simp [CmdTry.Redirected, apart.readWrite.symm]) (by simp)

theorem redirectIn (inv : Connected capacity output state) (phase : state.shell = .trying .second .redirecting) :
    Advances capacity output state (.trying .second .forking) := by
  obtain ⟨data, room, wiring, stage⟩ := inv
  rw [phase] at wiring stage
  obtain ⟨apart, savedIn, ends⟩ := wiring
  have source : state.table.get state.readEnd = some .pipeRead := (ends.read _).mpr (.inl rfl)
  have step : shellStep state = some { state with
      shell := .trying .second .forking
      table := state.table.put 0 (some .pipeRead) } := by
    simp [shellStep, phase, cmdTry, State.des, Descriptors.dup2, source]
  refine ⟨_, step, ⟨data, room, ⟨apart, savedIn.put apart.inIn, ?_⟩, stage⟩, rfl⟩
  exact ends.put (fun x other => by simp [CmdTry.Redirected, other]) (by simp [CmdTry.Redirected]) (by simp)

theorem forkSecond (inv : Connected capacity output state) (phase : state.shell = .trying .second .forking) :
    Advances capacity output state (.trying .second .waiting) := by
  obtain ⟨data, room, wiring, stage⟩ := inv
  rw [phase] at wiring stage
  obtain ⟨waited, -, none⟩ := stage
  have step : shellStep state = some { state with
      shell := .trying .second .waiting
      second := .running state.table } := by
    simp only [shellStep, phase, cmdTry, State.setChild]
  have stdin : state.table.get 0 = some .pipeRead := (wiring.2.2.read 0).mpr (.inr ⟨trivial, rfl⟩)
  have closed : ¬ state.table.Holds .pipeWrite := by
    rw [Descriptors.holds_iff]
    rintro ⟨fd, found⟩
    exact (wiring.2.2.write fd).mp found
  exact ⟨_, step, ⟨data, room, wiring, waited, none, .inl ⟨_, rfl, stdin, closed⟩⟩, rfl⟩

theorem restoreIn (inv : Connected capacity output state) (phase : state.shell = .trying .second .restoring) :
    Advances capacity output state (.trying .second .closing) := by
  obtain ⟨data, room, wiring, stage⟩ := inv
  rw [phase] at wiring stage
  obtain ⟨apart, savedIn, ends⟩ := wiring
  obtain ⟨id, source⟩ := savedIn
  have step : shellStep state = some { state with
      shell := .trying .second .closing
      table := state.table.put 0 (some (.inherited id)) } := by
    simp [shellStep, phase, cmdTry, State.des, Descriptors.dup2, source]
  refine ⟨_, step, ⟨data, room, ⟨apart, Plain.put ⟨id, source⟩ apart.inIn, ?_⟩, stage⟩, rfl⟩
  exact ends.put (fun x other => by simp [CmdTry.Redirected, other])
    (by simp [CmdTry.Redirected, apart.readIn.symm]) (by simp)

theorem closeIn (inv : Connected capacity output state) (phase : state.shell = .trying .second .closing) :
    Advances capacity output state (.exited 0) := by
  obtain ⟨data, room, wiring, stage⟩ := inv
  rw [phase] at wiring stage
  have source : state.table.get state.readEnd = some .pipeRead := (wiring.2.2.read _).mpr (.inl rfl)
  have step : shellStep state = some { state with
      shell := .exited 0
      table := state.table.put state.readEnd none } := by
    simp [shellStep, phase, cmdTry, State.des, Descriptors.close, source]
  exact ⟨_, step, ⟨data, room, trivial, stage⟩, rfl⟩

/-- Where the shell does not wait it can go on. -/
theorem advances (inv : Connected capacity output state) (running : state.shell.running = true)
    (moves : ∀ command, state.shell ≠ .trying command .waiting) : ∃ phase, Advances capacity output state phase := by
  cases phase : state.shell with
  | dupIn => exact ⟨_, inv.dupIn phase⟩
  | dupOut => exact ⟨_, inv.dupOut phase⟩
  | piping => exact ⟨_, inv.piping phase⟩
  | trying command statement =>
      cases command <;> cases statement
      · exact ⟨_, inv.redirectOut phase⟩
      · exact ⟨_, inv.forkFirst phase⟩
      · exact absurd phase (moves .first)
      · exact ⟨_, inv.restoreOut phase⟩
      · exact ⟨_, inv.closeOut phase⟩
      · exact ⟨_, inv.redirectIn phase⟩
      · exact ⟨_, inv.forkSecond phase⟩
      · exact absurd phase (moves .second)
      · exact ⟨_, inv.restoreIn phase⟩
      · exact ⟨_, inv.closeIn phase⟩
  | exited code =>
      rw [phase] at running
      contradiction

theorem shellStep (inv : Connected capacity output state) (moved : shellStep state = some after) :
    Connected capacity output after := by
  by_cases waits : ∃ command, state.shell = .trying command .waiting
  · obtain ⟨command, phase⟩ := waits
    have stage := inv.stage
    rw [phase] at stage
    have alive : state.first.alive = true ∨ state.second.alive = true := by
      cases command with
      | first =>
          obtain ⟨-, -, ⟨table, runs, -⟩ | ⟨ended, -⟩⟩ := stage
          · exact .inl (by rw [runs]; rfl)
          · exact .inl (by rw [ended]; rfl)
      | second =>
          obtain ⟨-, -, ⟨table, runs, -⟩ | ⟨ended, -⟩⟩ := stage
          · exact .inr (by rw [runs]; rfl)
          · exact .inr (by rw [ended]; rfl)
    simp [ShellPipe.shellStep, phase, cmdTry, alive] at moved
  · cases running : state.shell.running with
    | true =>
        obtain ⟨_, next, stepped, connected, -⟩ := inv.advances running (not_exists.mp waits)
        rw [stepped] at moved
        cases moved
        exact connected
    | false =>
        cases phase : state.shell <;> rw [phase] at running <;> try contradiction
        simp [ShellPipe.shellStep, phase] at moved

/-! ## Steps of the commands -/

theorem waitStep (inv : Connected capacity output state) {command : Command}
    (moved : waitStep state command = some after) : Connected capacity output after := by
  obtain ⟨data, room, wiring, stage⟩ := inv
  simp only [ShellPipe.waitStep] at moved
  split at moved <;> try contradiction
  rename_i current phase
  split at moved <;> try contradiction
  rename_i ended
  rw [phase] at wiring stage
  cases moved
  cases current <;> cases command
  · obtain ⟨unborn, none, ⟨table, runs, -⟩ | ⟨-, all⟩⟩ := stage
    · simp [State.child, runs] at ended
    · exact ⟨data, room, wiring, rfl, unborn, all⟩
  · simp [State.child, stage.1] at ended
  · simp [State.child, stage.1] at ended
  · obtain ⟨waited, all, ⟨table, runs, -⟩ | ⟨-, empty⟩⟩ := stage
    · simp [State.child, runs] at ended
    · exact ⟨data, room, wiring, waited, rfl, all, empty⟩

/-- The first command runs only while the shell waits for it. -/
theorem first_running (inv : Connected capacity output state) (runs : state.first = .running table) :
    state.shell = .trying .first .waiting ∧ table.get 1 = some .pipeWrite := by
  have stage := inv.stage
  cases phase : state.shell with
  | trying command statement =>
      rw [phase] at stage
      cases command <;> cases statement <;> simp [ShellPhase.Stage, runs] at stage ⊢
      exact stage.2.2
  | exited code =>
      rw [phase] at stage
      cases code <;> simp [ShellPhase.Stage, runs] at stage
  | dupIn | dupOut | piping =>
      rw [phase] at stage
      simp [ShellPhase.Stage, runs] at stage

theorem second_running (inv : Connected capacity output state) (runs : state.second = .running table) :
    state.shell = .trying .second .waiting ∧ table.get 0 = some .pipeRead ∧ ¬ table.Holds .pipeWrite := by
  have stage := inv.stage
  cases phase : state.shell with
  | trying command statement =>
      rw [phase] at stage
      cases command <;> cases statement <;> simp [ShellPhase.Stage, runs] at stage ⊢
      exact stage.2.2
  | exited code =>
      rw [phase] at stage
      cases code <;> simp [ShellPhase.Stage, runs] at stage
  | dupIn | dupOut | piping =>
      rw [phase] at stage
      simp [ShellPhase.Stage, runs] at stage

/-- The shell itself keeps the read end open while the first command runs. -/
theorem reader (inv : Connected capacity output state) (phase : state.shell = .trying .first .waiting) :
    state.Open .pipeRead := by
  have wiring := inv.wiring
  rw [phase] at wiring
  exact .inl ⟨by rw [phase]; rfl, Descriptors.holds_iff.mpr ⟨_, (wiring.2.2.2.read _).mpr rfl⟩⟩

/-- Nobody has the write end open while the second command runs. -/
theorem no_writer (inv : Connected capacity output state) (runs : state.second = .running table) :
    ¬ state.Open .pipeWrite := by
  obtain ⟨phase, -, closed⟩ := inv.second_running runs
  have wiring := inv.wiring
  have stage := inv.stage
  rw [phase] at wiring stage
  rintro (⟨-, held⟩ | held | held)
  · obtain ⟨fd, found⟩ := Descriptors.holds_iff.mp held
    exact (wiring.2.2.write fd).mp found
  · rw [stage.1] at held
    exact held
  · rw [runs] at held
    exact closed held

theorem writeStep (inv : Connected capacity output state) {count : Nat}
    (moved : writeStep capacity state count = some after) : Connected capacity output after := by
  simp only [ShellPipe.writeStep] at moved
  split at moved <;> try contradiction
  rename_i table runs
  obtain ⟨phase, stdout⟩ := inv.first_running runs
  have reader := inv.reader phase
  obtain ⟨data, room, wiring, stage⟩ := inv
  rw [phase] at wiring stage
  obtain ⟨unborn, none, -⟩ := stage
  split at moved
  · rename_i all
    cases moved
    refine ⟨data, room, ?_, ?_⟩
    · simp only [phase]
      exact wiring
    · simp only [phase]
      exact ⟨unborn, none, .inr ⟨rfl, all⟩⟩
  · simp only [stdout] at moved
    split at moved <;> try contradiction
    rename_i chunk
    cases moved
    refine ⟨?_, ?_, ?_, ?_⟩
    · simp only [List.append_assoc, List.take_append_drop]
      simpa using data
    · simp
      omega
    · simp only [phase]
      exact wiring
    · simp only [phase]
      exact ⟨unborn, none, .inl ⟨table, runs, stdout⟩⟩

theorem readStep (inv : Connected capacity output state) {count : Nat}
    (moved : readStep state count = some after) : Connected capacity output after := by
  simp only [ShellPipe.readStep] at moved
  split at moved <;> try contradiction
  rename_i table runs
  obtain ⟨phase, stdin, closed⟩ := inv.second_running runs
  have writer := inv.no_writer runs
  obtain ⟨data, room, wiring, stage⟩ := inv
  rw [phase] at wiring stage
  obtain ⟨waited, all, -⟩ := stage
  simp only [stdin, writer, if_false] at moved
  split at moved
  · rename_i empty
    cases moved
    refine ⟨data, room, ?_, ?_⟩
    · simp only [phase]
      exact wiring
    · simp only [phase]
      exact ⟨waited, all, .inr ⟨rfl, empty⟩⟩
  · split at moved <;> try contradiction
    cases moved
    refine ⟨?_, ?_, ?_, ?_⟩
    · simp only [List.append_assoc]
      rw [← List.append_assoc (state.pipe.take count), List.take_append_drop, ← List.append_assoc]
      exact data
    · simp
      omega
    · simp only [phase]
      exact wiring
    · simp only [phase]
      exact ⟨waited, all, .inl ⟨table, runs, stdin, closed⟩⟩

end Connected

theorem connected_of_reachable (reached : (machine capacity others output).Reachable state) :
    Connected capacity output state := by
  apply reached.invariant (Connected capacity output) connected_start
  intro before after action inv moved
  cases action with
  | shell => exact inv.shellStep moved
  | wait command => exact inv.waitStep moved
  | write count => exact inv.writeStep moved
  | read count => exact inv.readStep moved

/-! ## Deadlocks -/

/-- The second command has received all the output, and the shell has waited for both. -/
def Completed (output : List UInt8) (state : State) : Prop :=
  state.received = output ∧ state.first = .waited ∧ state.second = .waited

theorem completed_of_stuck (fits : output.length ≤ capacity)
    (reached : (machine capacity others output).Reachable state)
    (stuck : (machine capacity others output).Stuck state) : Completed output state := by
  have inv := connected_of_reachable reached
  have data := inv.data
  have stage := inv.stage
  by_cases waits : ∃ command, state.shell = .trying command .waiting
  · obtain ⟨command, phase⟩ := waits
    have reaped : state.child command ≠ .zombie := by
      intro ended
      have blocked := stuck (.wait command)
      simp [machine, next, waitStep, phase, ended] at blocked
    rw [phase] at stage
    cases command with
    | first =>
        obtain ⟨-, none, ⟨table, runs, stdout⟩ | ⟨ended, -⟩⟩ := stage
        · have blocked := stuck (.write 1)
          have reader := inv.reader phase
          have total := congrArg List.length data
          simp only [none, List.nil_append, List.length_append] at total
          by_cases all : state.rest = []
          · simp [machine, next, writeStep, runs, all] at blocked
          · have some : 0 < state.rest.length := List.length_pos_iff.mpr all
            have less : state.pipe.length + 1 ≤ capacity := by omega
            simp [machine, next, writeStep, runs, all, stdout, reader, less] at blocked
        · exact absurd ended reaped
    | second =>
        obtain ⟨-, -, ⟨table, runs, stdin, -⟩ | ⟨ended, -⟩⟩ := stage
        · have blocked := stuck (.read 1)
          have writer := inv.no_writer runs
          by_cases empty : state.pipe = []
          · simp [machine, next, readStep, runs, stdin, empty, writer] at blocked
          · have some : 0 < state.pipe.length := List.length_pos_iff.mpr empty
            simp [machine, next, readStep, runs, stdin, empty] at blocked
        · exact absurd ended reaped
  · cases running : state.shell.running with
    | true =>
        obtain ⟨_, after, stepped, -⟩ := inv.advances running (not_exists.mp waits)
        have blocked := stuck .shell
        rw [show (machine capacity others output).next state .shell = shellStep state from rfl, stepped] at blocked
        contradiction
    | false =>
        cases phase : state.shell <;> rw [phase] at running <;> try contradiction
        rename_i code
        rw [phase] at stage
        cases code with
        | zero =>
            obtain ⟨first, second, all, empty⟩ := stage
            rw [all, empty] at data
            exact ⟨by simpa using data, first, second⟩
        | succ code => exact False.elim stage

theorem Advances.reach {phase : ShellPhase} (advances : Advances capacity output state phase)
    (reached : (machine capacity others output).Reachable state) :
    ∃ after, (machine capacity others output).Reachable after ∧ Connected capacity output after ∧
      after.shell = phase := by
  obtain ⟨after, stepped, connected, arrived⟩ := advances
  exact ⟨after, reached.next .shell stepped, connected, arrived⟩

theorem reachable_waiting (capacity : Nat) (others : List (Option Nat)) (output : List UInt8) :
    ∃ state, (machine capacity others output).Reachable state ∧ Connected capacity output state ∧
      state.shell = .trying .first .waiting := by
  have init : (machine capacity others output).Reachable (start others output) := Machine.reachable_init
  obtain ⟨_, reached, inv, phase⟩ := (connected_start.dupIn rfl).reach init
  obtain ⟨_, reached, inv, phase⟩ := (inv.dupOut phase).reach reached
  obtain ⟨_, reached, inv, phase⟩ := (inv.piping phase).reach reached
  obtain ⟨_, reached, inv, phase⟩ := (inv.redirectOut phase).reach reached
  exact (inv.forkFirst phase).reach reached

/-- More output than the pipe holds: the first command fills it and is blocked. -/
theorem reachable_full (others : List (Option Nat)) (much : capacity < output.length) :
    ∃ state, (machine capacity others output).Reachable state ∧ Connected capacity output state ∧
      state.shell = .trying .first .waiting ∧ state.pipe.length = capacity := by
  obtain ⟨state, reached, inv, phase⟩ := reachable_waiting capacity others output
  have stage := inv.stage
  have room := inv.room
  have total := congrArg List.length inv.data
  rw [phase] at stage
  obtain ⟨-, none, ⟨table, runs, stdout⟩ | ⟨-, all⟩⟩ := stage
  · by_cases full : state.pipe.length = capacity
    · exact ⟨state, reached, inv, phase, full⟩
    · simp only [none, List.nil_append, List.length_append] at total
      have left : state.rest ≠ [] := List.length_pos_iff.mp (by omega)
      have chunk : 0 < capacity - state.pipe.length ∧ capacity - state.pipe.length ≤ state.rest.length ∧
          state.pipe.length + (capacity - state.pipe.length) ≤ capacity := by omega
      have step : writeStep capacity state (capacity - state.pipe.length) = some { state with
          pipe := state.pipe ++ state.rest.take (capacity - state.pipe.length)
          rest := state.rest.drop (capacity - state.pipe.length) } := by
        simp only [writeStep, runs, left, if_false, stdout, inv.reader phase, not_true_eq_false, chunk, and_self, if_true]
      refine ⟨_, reached.next (.write _) step, inv.writeStep step, phase, ?_⟩
      simp
      omega
  · simp only [none, all, List.nil_append, List.length_append, List.length_nil] at total
    omega

theorem stuck_of_full (others : List (Option Nat)) (inv : Connected capacity output state) (phase : state.shell = .trying .first .waiting)
    (full : state.pipe.length = capacity) (much : capacity < output.length) :
    (machine capacity others output).Stuck state ∧ ¬ Completed output state := by
  have stage := inv.stage
  have total := congrArg List.length inv.data
  rw [phase] at stage
  obtain ⟨unborn, none, ⟨table, runs, stdout⟩ | ⟨-, all⟩⟩ := stage
  · simp only [none, List.nil_append, List.length_append] at total
    have left : state.rest ≠ [] := List.length_pos_iff.mp (by omega)
    refine ⟨?_, by simp [Completed, runs]⟩
    intro action
    cases action with
    | shell => simp [machine, next, shellStep, phase, cmdTry, runs, Child.alive]
    | wait command => cases command <;> simp [machine, next, waitStep, phase, State.child, runs, unborn]
    | write count =>
        simp [machine, next, writeStep, runs, left, stdout, inv.reader phase]
        omega
    | read count => simp [machine, next, readStep, unborn]
  · simp only [none, all, List.nil_append, List.length_append, List.length_nil] at total
    omega

/-- Every process is blocked only when the work is done, just when the pipe can
hold all that the first command writes. -/
theorem pipeline_completes_iff (capacity : Nat) (others : List (Option Nat)) (output : List UInt8) :
    (∀ state, (machine capacity others output).Reachable state → (machine capacity others output).Stuck state →
      Completed output state) ↔ output.length ≤ capacity := by
  constructor
  · intro completes
    by_contra much
    obtain ⟨state, reached, inv, phase, full⟩ := reachable_full others (Nat.not_le.mp much)
    obtain ⟨stuck, unfinished⟩ := stuck_of_full others inv phase full (Nat.not_le.mp much)
    exact unfinished (completes state reached stuck)
  · intro fits state reached stuck
    exact completed_of_stuck fits reached stuck

/-- Three bytes through a pipe of two. -/
theorem three_bytes_block : ¬ ∀ state, (machine 2 [] [97, 98, 99]).Reachable state →
    (machine 2 [] [97, 98, 99]).Stuck state → Completed [97, 98, 99] state := by
  intro completes
  have much : 2 < ([97, 98, 99] : List UInt8).length := by decide
  obtain ⟨state, reached, inv, phase, full⟩ := reachable_full [] much
  obtain ⟨stuck, unfinished⟩ := stuck_of_full [] inv phase full much
  exact unfinished (completes state reached stuck)

end SysProg.Process.ShellPipe
