import SysProg.Process.FileServer

namespace SysProg.Process.FileServer

/-! ## The value that `send_file` returns -/

/-- `send_file` returns `1` once `send` has accepted the whole file, and otherwise `-1`,
which `handle_client` reports. -/
structure Reports (files : List UInt8 → Option (List UInt8)) (contents : List UInt8) (state : State) (ret : Int) :
    Prop where
  complete : ret = 1 ↔ state.sent = contents
  otherwise : ret ≠ 1 → ret = -1
  reported : ∀ after, next files state .compute = some after → (after.reported = true ↔ after.sent ≠ contents)

/-- The step is not a call of `send` that fails, nor a call of `read` that fails at the
end of the file. -/
def State.Sound (state : State) : Action → Prop
  | .send result => result ≠ .interrupted ∧ result ≠ .failed
  | .read result => result = .failed → state.rest ≠ []
  | .compute | .recv _ => True

/-- What has been accepted and what is left make up the file. -/
def Transfers (files : List UInt8 → Option (List UInt8)) (state : State) : Prop :=
  match state.phase with
  | .testing | .receiving | .terminating | .opening => state.sent = []
  | .reading => ∃ path, state.path = some path ∧ files path = some (state.sent ++ state.rest)
  | .sending => ∃ path, state.path = some path ∧ files path = some (state.sent ++ state.c :: state.rest)
  | .returning _ | .returned | .crashed => True

variable {files : List UInt8 → Option (List UInt8)} {table : Descriptors File} {state after final : State}
  {stream path contents : List UInt8} {action : Action} {actions : List Action} {ret : Int}

theorem reports_iff (returning : state.phase = .returning ret) :
    Reports files contents state ret ↔ ret = 1 ∧ state.sent = contents ∨ ret = -1 ∧ state.sent ≠ contents := by
  have last : next files state .compute = some { state with phase := .returned, reported := decide (ret = -1) } := by
    simp only [next, returning]
  constructor
  · intro reports
    by_cases all : state.sent = contents
    · exact .inl ⟨reports.complete.mpr all, all⟩
    · exact .inr ⟨reports.otherwise fun success => all (reports.complete.mp success), all⟩
  · rintro (⟨rfl, all⟩ | ⟨rfl, part⟩)
    · refine ⟨by simp [all], by simp, fun after moved => ?_⟩
      obtain rfl := Option.some.inj (last.symm.trans moved)
      simp [all]
    · refine ⟨by simp [part], by simp, fun after moved => ?_⟩
      obtain rfl := Option.some.inj (last.symm.trans moved)
      simp [part]

/-! ## One step -/

theorem recvStep_transfers (files : List UInt8 → Option (List UInt8)) {result : IoResult} (unsent : state.sent = [])
    (moved : recvStep state result = some after) : Transfers files after ∧ ∀ ret, after.phase ≠ .returning ret := by
  simp only [recvStep] at moved
  split at moved
  · split at moved
    · cases moved
      exact ⟨trivial, by simp⟩
    · rename_i byte input arrived _ buf stored
      cases moved
      by_cases ends : byte = 10
      · simp [Transfers, ends, unsent]
      · simp [Transfers, ends, unsent]
  all_goals cases moved
  all_goals exact ⟨trivial, by simp⟩

theorem growStep_transfers (files : List UInt8 → Option (List UInt8)) (unsent : state.sent = []) :
    Transfers files (growStep state) ∧ ∀ ret, (growStep state).phase ≠ .returning ret := by
  simp only [growStep]
  repeat' split
  all_goals simp [Transfers, unsent]

theorem terminateStep_transfers (files : List UInt8 → Option (List UInt8)) (unsent : state.sent = []) :
    Transfers files (terminateStep state) ∧ ∀ ret, (terminateStep state).phase ≠ .returning ret := by
  simp only [terminateStep]
  split <;> simp [Transfers, unsent]

/-- A step keeps what `Transfers` says, is sound unless `send_file` is about to return, and
then decides the value. -/
structure Settles (files : List UInt8 → Option (List UInt8)) (state after : State) (action : Action) : Prop where
  transfers : Transfers files after
  running : (∀ ret, after.phase ≠ .returning ret) → state.Sound action
  decides : ∀ ret path contents, after.phase = .returning ret → after.path = some path →
    files path = some contents → (Reports files contents after ret ↔ state.Sound action)

theorem Settles.of_running (transfers : Transfers files after) (running : ∀ ret, after.phase ≠ .returning ret)
    (sound : state.Sound action) : Settles files state after action where
  transfers := transfers
  running _ := sound
  decides ret _ _ returning := absurd returning (running ret)

theorem Settles.of_returning (returning : after.phase = .returning ret) (asked : after.path = some path)
    (found : files path = some contents)
    (decides : ret = 1 ∧ after.sent = contents ∨ ret = -1 ∧ after.sent ≠ contents ↔ state.Sound action) :
    Settles files state after action where
  transfers := by simp only [Transfers, returning]
  running running := absurd returning (running ret)
  decides value other whole same opened present := by
    obtain rfl := Phase.returning.inj (returning.symm.trans same)
    obtain rfl := Option.some.inj (asked.symm.trans opened)
    obtain rfl := Option.some.inj (found.symm.trans present)
    exact (reports_iff returning).trans decides

theorem openStep_settles (unsent : state.sent = []) : Settles files state (openStep files state) .compute := by
  simp only [openStep]
  split
  · exact .of_running trivial (by simp) trivial
  · rename_i path name
    cases found : files path with
    | none =>
        refine ⟨trivial, fun _ => trivial, fun ret other contents _ same present => ?_⟩
        cases same
        rw [found] at present
        contradiction
    | some contents =>
        refine .of_running ⟨path, rfl, ?_⟩ (by simp) trivial
        simp only [found, unsent, List.nil_append]

theorem readStep_settles {result : IoResult} (phase : state.phase = .reading) (transfers : Transfers files state)
    (moved : readStep state result = some after) : Settles files state after (.read result) := by
  have whole := transfers
  simp only [Transfers, phase] at whole
  obtain ⟨path, asked, contents⟩ := whole
  simp only [readStep] at moved
  split at moved <;> try contradiction
  · rename_i c rest left
    cases moved
    exact .of_running ⟨path, asked, by rw [contents, left]⟩ (by simp) (by simp [State.Sound])
  · rename_i ended
    cases moved
    exact .of_returning rfl asked contents (by simp [State.Sound, ended])
  · cases moved
    exact .of_running transfers (by simp [phase]) (by simp [State.Sound])
  · cases moved
    exact .of_returning rfl asked contents (by simp [State.Sound])

theorem sendStep_settles {result : IoResult} (phase : state.phase = .sending) (transfers : Transfers files state)
    (moved : sendStep state result = some after) : Settles files state after (.send result) := by
  have whole := transfers
  simp only [Transfers, phase] at whole
  obtain ⟨path, asked, contents⟩ := whole
  simp only [sendStep] at moved
  split at moved <;> try contradiction
  · cases moved
    exact .of_running transfers (by simp [phase]) (by simp [State.Sound])
  · cases moved
    exact .of_running ⟨path, asked, by simpa using contents⟩ (by simp) (by simp [State.Sound])
  · cases moved
    exact .of_returning rfl asked contents (by simp [State.Sound])
  · cases moved
    exact .of_returning rfl asked contents (by simp [State.Sound])

theorem next_settles (transfers : Transfers files state) (moved : next files state action = some after) :
    Settles files state after action := by
  have before := transfers
  simp only [next] at moved
  simp only [Transfers] at before
  split at moved <;> try contradiction
  · rename_i phase
    rw [phase] at before
    cases moved
    obtain ⟨kept, running⟩ := growStep_transfers files before
    exact .of_running kept running trivial
  · rename_i phase
    rw [phase] at before
    obtain ⟨kept, running⟩ := recvStep_transfers files before moved
    exact .of_running kept running trivial
  · rename_i phase
    rw [phase] at before
    cases moved
    obtain ⟨kept, running⟩ := terminateStep_transfers files before
    exact .of_running kept running trivial
  · rename_i phase
    rw [phase] at before
    cases moved
    exact openStep_settles before
  · rename_i phase
    exact readStep_settles phase transfers moved
  · rename_i phase
    exact sendStep_settles phase transfers moved
  · cases moved
    exact .of_running trivial (by simp) trivial

/-! ## A whole run -/

/-- Nothing follows the return but that of `handle_client`. -/
theorem run_returning (returning : state.phase = .returning ret) {value : Int} (ended : final.phase = .returning value)
    (ran : (machine files table stream).run state actions = some final) : actions = [] := by
  cases actions with
  | nil => rfl
  | cons action rest =>
      obtain ⟨after, moved, continued⟩ := Machine.run_cons.mp ran
      have returned : after.phase = .returned := by
        cases action with
        | compute =>
            simp only [machine, next, returning, Option.some.injEq] at moved
            rw [← moved]
        | recv _ | read _ | send _ => simp [machine, next, returning] at moved
      cases rest with
      | nil =>
          cases continued
          rw [returned] at ended
          contradiction
      | cons action rest =>
          have stuck : (machine files table stream).next after action = none := by
            simp only [machine, next, returned]
          obtain ⟨_, later, -⟩ := Machine.run_cons.mp continued
          rw [stuck] at later
          contradiction

theorem run_reports_iff (table : Descriptors File) (stream : List UInt8) (transfers : Transfers files state) (running : ∀ value, state.phase ≠ .returning value)
    (ran : (machine files table stream).run state actions = some final) (returning : final.phase = .returning ret)
    (opened : final.path = some path) (found : files path = some contents) :
    Reports files contents final ret ↔ (machine files table stream).Along State.Sound state actions := by
  induction actions generalizing state with
  | nil =>
      cases ran
      exact absurd returning (running ret)
  | cons action rest ih =>
      obtain ⟨after, moved, continued⟩ := Machine.run_cons.mp ran
      have settles := next_settles transfers moved
      rw [Machine.along_cons moved]
      by_cases last : ∃ value, after.phase = .returning value
      · obtain ⟨value, ends⟩ := last
        cases run_returning ends returning continued
        cases continued
        rw [settles.decides ret path contents returning opened found]
        exact ⟨fun sound => ⟨sound, trivial⟩, And.left⟩
      · have going : ∀ value, after.phase ≠ .returning value := not_exists.mp last
        rw [ih settles.transfers going continued]
        exact ⟨fun later => ⟨settles.running going, later⟩, And.right⟩

/-- `send_file` returns `1` exactly for the files that it has sent whole, and `-1` for the
others, if and only if no call of `send` has failed, nor a call of `read` at the end of the
file. -/
theorem send_file_reports_iff (files : List UInt8 → Option (List UInt8)) (table : Descriptors File)
    (stream : List UInt8) (actions : List Action) (state : State) (ret : Int) (path contents : List UInt8)
    (ran : (machine files table stream).run (start table stream) actions = some state)
    (returning : state.phase = .returning ret) (opened : state.path = some path) (found : files path = some contents) :
    Reports files contents state ret ↔ (machine files table stream).Along State.Sound (start table stream) actions :=
  run_reports_iff table stream (show Transfers files (start table stream) from rfl)
    (fun _ => Phase.noConfusion) ran returning opened found

/-- `read` is interrupted once, and `send` accepts nothing once. -/
theorem send_file_reports_one_byte :
    let files : List UInt8 → Option (List UInt8) := fun path => if path = [97] then some [104] else none
    ∃ state, (machine files ⟨[]⟩ [97, 10]).Reachable state ∧ Reports files [104] state 1 := by
  intro files
  let actions : List Action := [.compute, .recv (.done 1), .compute, .recv (.done 1), .compute, .compute,
    .read .interrupted, .read (.done 1), .send (.done 0), .send (.done 1), .read (.done 0)]
  obtain ⟨state, ran, observed⟩ := Option.map_eq_some_iff.mp
    (show ((machine files ⟨[]⟩ [97, 10]).run (start ⟨[]⟩ [97, 10]) actions).map (fun state => (state.phase, state.path)) =
      some (.returning 1, some [97]) from rfl)
  obtain ⟨returning, opened⟩ := Prod.mk.inj observed
  refine ⟨state, ⟨actions, ran⟩,
    (send_file_reports_iff files ⟨[]⟩ [97, 10] actions state 1 [97] [104] ran returning opened rfl).mpr ?_⟩
  exact Machine.along_of_forall fun action member state => by
    simp only [actions, List.mem_cons, List.not_mem_nil, or_false] at member
    rcases member with rfl | rfl | rfl | rfl | rfl | rfl | rfl | rfl | rfl | rfl | rfl <;> simp [State.Sound]

/-- A file of which nothing has been accepted is not reported. -/
theorem failed_send_unreported : ¬ ∀ (files : List UInt8 → Option (List UInt8)) (table : Descriptors File)
    (stream : List UInt8) (state : State), (machine files table stream).Reachable state →
    ∀ ret path contents, state.phase = .returning ret → state.path = some path → files path = some contents →
      Reports files contents state ret := by
  intro reports
  have reported := reports (fun _ => some [104]) ⟨[]⟩ [97, 10] _
    ⟨[.compute, .recv (.done 1), .compute, .recv (.done 1), .compute, .compute, .read (.done 1), .send .failed], rfl⟩
    1 [97] [104] rfl rfl rfl
  exact absurd (reported.complete.mp rfl) (by decide)

end SysProg.Process.FileServer
