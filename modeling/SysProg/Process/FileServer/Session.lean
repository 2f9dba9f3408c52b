import SysProg.Process.FileServer
import Mathlib.Data.List.TakeWhile

namespace SysProg.Process.FileServer

/-! ## What a session is for -/

/-- The bytes before the first newline. -/
def line (stream : List UInt8) : List UInt8 := stream.takeWhile (· ≠ 10)

/-- The line as a C string. -/
def requested (stream : List UInt8) : List UInt8 := (line stream).takeWhile (· ≠ 0)

/-- What the client is to get. -/
def answer (files : List UInt8 → Option (List UInt8)) (stream : List UInt8) : List UInt8 :=
  (files (requested stream)).getD []

/-- A call that is made again. -/
def Action.retry : Action → Bool
  | .read .interrupted | .send (.done 0) => true
  | _ => false

/-- A run ends, unless a call is made again for ever, with the return of
`handle_client`. -/
structure Serves (files : List UInt8 → Option (List UInt8)) (table : Descriptors File) (stream : List UInt8) :
    Prop where
  stores : ∀ state, (clean files table stream).Reachable state → state.phase = .receiving →
    0 ≤ state.len ∧ state.len < state.cap ∧ state.buf.length = state.cap
  terminator : ∀ state, (clean files table stream).Reachable state → state.phase = .terminating →
    0 ≤ state.len - 1 ∧ state.len - 1 < state.cap ∧ state.buf.length = state.cap
  unread : ∀ state, (clean files table stream).Reachable state →
    stream.drop ((line stream).length + 1) <:+ state.input
  opened : ∀ state, (clean files table stream).Reachable state → ∀ path, state.path = some path →
    path = requested stream
  sent : ∀ state, (clean files table stream).Reachable state → state.sent <+: answer files stream
  returned : ∀ state, (clean files table stream).Reachable state → state.phase = .returned →
    state.path = some (requested stream) ∧ state.sent = answer files stream ∧
      state.input = stream.drop ((line stream).length + 1)
  progress : ∀ state, (clean files table stream).Reachable state → state.phase ≠ .returned →
    ∃ action after, action.retry = false ∧ (clean files table stream).next state action = some after
  bounded : ∀ actions state, (clean files table stream).run (clean files table stream).init actions = some state →
    actions.countP (fun action => !action.retry) ≤ 2 * (line stream).length + 2 * (answer files stream).length + 6

/-! ## The request line -/

variable {stream received input : List UInt8} {state after : State}

theorem line_append (free : 10 ∉ received) : line (received ++ input) = received ++ line input := by
  apply List.takeWhile_append_of_pos
  intro byte member
  simpa using ne_of_mem_of_not_mem member free

theorem line_newline (free : 10 ∉ received) : line (received ++ 10 :: input) = received := by
  rw [line_append free]
  simp [line]

/-- `read_line` has these bytes in its buffer. -/
structure Gathered (stream : List UInt8) (state : State) (received : List UInt8) : Prop where
  whole : received ++ state.input = stream
  count : state.len = received.length
  begins : Block.Begins state.buf received
  block : ∃ exponent, exponent ≤ 30 ∧ state.cap = 2 ^ exponent ∧ state.buf.length = 2 ^ exponent
  unopened : state.path = none ∧ state.sent = []

theorem Gathered.length_eq_cap (gathered : Gathered stream state received) : state.buf.length = state.cap := by
  obtain ⟨exponent, -, cap, length⟩ := gathered.block
  rw [cap, length]
  simp

theorem Gathered.grow (gathered : Gathered stream state received) (short : received.length < 2 ^ 30) :
    (growStep state).phase = .receiving ∧ (received.length : Int) < (growStep state).cap ∧
      Gathered stream (growStep state) received := by
  have length := gathered.begins.length_le
  obtain ⟨whole, count, begins, ⟨exponent, limit, cap, size⟩, unopened⟩ := gathered
  have positive : 0 < 2 ^ exponent := Nat.two_pow_pos exponent
  simp only [growStep, count, cap]
  split
  · rename_i full
    have exact : received.length = 2 ^ exponent := by exact_mod_cast full
    have below : 2 ^ exponent < 2 ^ 30 := by omega
    have less : exponent < 30 := (Nat.pow_lt_pow_iff_right Nat.one_lt_two).mp below
    have half : 2 ^ exponent ≤ 2 ^ 29 := Nat.pow_le_pow_right (by decide) (by omega)
    obtain ⟨grown, allocated, fresh, kept⟩ := begins.realloc (2 ^ (exponent + 1)) (by omega) (by omega)
    simp only [wrapInt_double less, allocated]
    exact ⟨trivial, by omega, whole, rfl, kept, ⟨exponent + 1, less, by simp, fresh⟩, unopened⟩
  · rename_i spare
    rw [size] at length
    have most : (received.length : Int) ≤ 2 ^ exponent := by exact_mod_cast length
    have less : (received.length : Int) < 2 ^ exponent := by omega
    exact ⟨rfl, less, whole, rfl, begins, ⟨exponent, limit, rfl, size⟩, unopened⟩

theorem Gathered.receive (gathered : Gathered stream state received) (short : received.length < 2 ^ 30)
    (room : (received.length : Int) < state.cap) {byte : UInt8} (arrived : state.input = byte :: input) :
    ∃ after, recvStep state (.done 1) = some after ∧ after.phase = (if byte = 10 then .terminating else .testing) ∧
      Gathered stream after (received ++ [byte]) := by
  have size := gathered.length_eq_cap
  obtain ⟨whole, count, begins, ⟨exponent, limit, cap, fits⟩, unopened⟩ := gathered
  obtain ⟨buf, stored, length, begun⟩ := begins.store (by omega) byte
  have next := wrapInt_length_concat received byte (by omega)
  have step : recvStep state (.done 1) = some { state with
      phase := if byte = 10 then .terminating else .testing
      len := (received ++ [byte]).length
      buf := buf
      input := input } := by
    simp only [recvStep, arrived, count, stored, next]
  refine ⟨_, step, rfl, ?_⟩
  exact {
    whole := by rw [List.append_assoc, List.singleton_append, ← arrived, whole]
    count := rfl
    begins := begun
    block := ⟨exponent, limit, cap, length.trans fits⟩
    unopened := unopened }

/-! ## The session's invariant -/

/-- The newline is the last byte that has been received. -/
structure Requested (stream : List UInt8) (state : State) : Prop where
  input : state.input = stream.drop ((line stream).length + 1)
  path : state.path = some (requested stream)

def Stage (files : List UInt8 → Option (List UInt8)) (stream : List UInt8) (state : State) : Prop :=
  match state.phase with
  | .testing => ∃ received, 10 ∉ received ∧ Gathered stream state received
  | .receiving => ∃ received, 10 ∉ received ∧ Gathered stream state received ∧ (received.length : Int) < state.cap
  | .terminating => ∃ received, 10 ∉ received ∧ Gathered stream state (received ++ [10])
  | .opening =>
      state.input = stream.drop ((line stream).length + 1) ∧ Block.Begins state.buf (line stream ++ [0]) ∧
        state.path = none ∧ state.sent = []
  | .reading => Requested stream state ∧ files (requested stream) = some (state.sent ++ state.rest)
  | .sending => Requested stream state ∧ files (requested stream) = some (state.sent ++ state.c :: state.rest)
  | .returning _ | .returned => Requested stream state ∧ state.sent = answer files stream
  | .crashed => False

variable {files : List UInt8 → Option (List UInt8)} {table : Descriptors File}

theorem stage_start : Stage files stream (start table stream) := by
  refine ⟨[], by simp, rfl, rfl, List.nil_prefix, ⟨3, by decide, rfl, rfl⟩, rfl, rfl⟩

theorem Gathered.length_le (gathered : Gathered stream state received) (free : 10 ∉ received) :
    received.length ≤ (line stream).length := by
  rw [← gathered.whole, line_append free, List.length_append]
  omega

theorem Gathered.input_ne_nil (gathered : Gathered stream state received) (free : 10 ∉ received)
    (newline : 10 ∈ stream) : state.input ≠ [] := by
  intro none
  have whole := gathered.whole
  rw [none, List.append_nil] at whole
  exact free (whole ▸ newline)

theorem Gathered.newline (gathered : Gathered stream state (received ++ [10])) (free : 10 ∉ received) :
    line stream = received ∧ state.input = stream.drop ((line stream).length + 1) := by
  have whole := gathered.whole
  rw [List.append_assoc, List.singleton_append] at whole
  have same : line stream = received := by rw [← whole, line_newline free]
  exact ⟨same, by rw [same]; simp [← whole]⟩

theorem Gathered.terminate (gathered : Gathered stream state (received ++ [10])) (free : 10 ∉ received) :
    Stage files stream (terminateStep state) := by
  obtain ⟨same, left⟩ := gathered.newline free
  obtain ⟨-, count, begins, -, unopened⟩ := gathered
  have size := begins.length_le
  rw [List.length_append, List.length_singleton] at size
  have last : state.len - 1 = received.length := by
    rw [count]
    simp
  obtain ⟨buf, stored, -, begun⟩ := begins.left.store size 0
  simp only [terminateStep, last, stored, Stage]
  exact ⟨left, by rwa [same], unopened⟩

theorem stage_open (path : Block.Begins state.buf (line stream ++ [0])) (left : state.input = stream.drop ((line stream).length + 1))
    (unsent : state.sent = []) : Stage files stream (openStep files state) := by
  have name : state.buf.cString = .ok (requested stream) := path.cString
  simp only [openStep, name]
  cases found : files (requested stream) with
  | none => exact ⟨⟨left, rfl⟩, by simp [answer, found, unsent]⟩
  | some contents => exact ⟨⟨left, rfl⟩, by simp [found, unsent]⟩

theorem Stage.recvStep (free : 10 ∉ received) (gathered : Gathered stream state received)
    (room : (received.length : Int) < state.cap) (newline : 10 ∈ stream) (short : (line stream).length < 2 ^ 30)
    (moved : recvStep state (.done 1) = some after) : Stage files stream after := by
  obtain ⟨byte, input, arrived⟩ := List.exists_cons_of_ne_nil (gathered.input_ne_nil free newline)
  have length := gathered.length_le free
  obtain ⟨next, stepped, phase, more⟩ := gathered.receive (by omega) room arrived
  obtain rfl := Option.some.inj (stepped.symm.trans moved)
  by_cases ends : byte = 10
  · rw [if_pos ends] at phase
    simp only [Stage, phase]
    exact ⟨received, free, ends ▸ more⟩
  · rw [if_neg ends] at phase
    simp only [Stage, phase]
    exact ⟨_, by simp [free, Ne.symm ends], more⟩

theorem Stage.readStep (phase : state.phase = .reading) (asked : Requested stream state)
    (contents : files (requested stream) = some (state.sent ++ state.rest)) {result : IoResult} (allowed : result ≠ .failed)
    (moved : readStep state result = some after) : Stage files stream after := by
  simp only [FileServer.readStep] at moved
  split at moved <;> try contradiction
  · rename_i c rest found
    cases moved
    exact ⟨⟨asked.input, asked.path⟩, by rw [contents, found]⟩
  · rename_i ended
    cases moved
    refine ⟨⟨asked.input, asked.path⟩, ?_⟩
    simp [answer, contents, ended]
  · cases moved
    simp only [Stage, phase]
    exact ⟨asked, contents⟩

theorem Stage.sendStep (phase : state.phase = .sending) (asked : Requested stream state)
    (contents : files (requested stream) = some (state.sent ++ state.c :: state.rest)) {result : IoResult}
    (allowed : result ≠ .interrupted ∧ result ≠ .failed)
    (moved : sendStep state result = some after) : Stage files stream after := by
  obtain ⟨finished, accepted⟩ := allowed
  simp only [FileServer.sendStep] at moved
  split at moved <;> try contradiction
  · cases moved
    simp only [Stage, phase]
    exact ⟨asked, contents⟩
  · cases moved
    exact ⟨⟨asked.input, asked.path⟩, by simpa using contents⟩

theorem Stage.next (inv : Stage files stream state) (newline : 10 ∈ stream) (short : (line stream).length < 2 ^ 30)
    {action : Action} (moved : (clean files table stream).next state action = some after) :
    Stage files stream after := by
  obtain ⟨allowed, stepped⟩ := Machine.restrict_next moved
  simp only [machine, FileServer.next] at stepped
  simp only [Stage] at inv
  split at stepped <;> try contradiction
  · rename_i phase
    rw [phase] at inv
    obtain ⟨received, free, gathered⟩ := inv
    obtain ⟨receiving, room, grown⟩ := gathered.grow (by have := gathered.length_le free; omega)
    cases stepped
    simp only [Stage, receiving]
    exact ⟨received, free, grown, room⟩
  · rename_i phase
    rw [phase] at inv
    obtain ⟨received, free, gathered, room⟩ := inv
    rw [show _ = IoResult.done 1 from allowed] at stepped
    exact Stage.recvStep free gathered room newline short stepped
  · rename_i phase
    rw [phase] at inv
    obtain ⟨received, free, gathered⟩ := inv
    cases stepped
    exact gathered.terminate free
  · rename_i phase
    rw [phase] at inv
    obtain ⟨left, path, -, unsent⟩ := inv
    cases stepped
    exact stage_open path left unsent
  · rename_i phase
    rw [phase] at inv
    obtain ⟨asked, contents⟩ := inv
    exact Stage.readStep phase asked contents allowed stepped
  · rename_i phase
    rw [phase] at inv
    obtain ⟨asked, contents⟩ := inv
    exact Stage.sendStep phase asked contents allowed stepped
  · rename_i phase
    rw [phase] at inv
    cases stepped
    exact ⟨⟨inv.1.input, inv.1.path⟩, inv.2⟩

theorem stage_of_reachable (newline : 10 ∈ stream) (short : (line stream).length < 2 ^ 30)
    (reached : (clean files table stream).Reachable state) : Stage files stream state := by
  apply reached.invariant (Stage files stream) stage_start
  intro before after action inv moved
  exact inv.next newline short moved

/-! ## The end of a session -/

/-- The steps left, where the file has `size` bytes. -/
def State.rank (size : Nat) (state : State) : Nat :=
  match state.phase with
  | .testing => 2 * (line state.input).length + 2 * size + 6
  | .receiving => 2 * (line state.input).length + 2 * size + 5
  | .terminating => 2 * size + 4
  | .opening => 2 * size + 3
  | .reading => 2 * state.rest.length + 2
  | .sending => 2 * state.rest.length + 3
  | .returning _ => 1
  | .returned | .crashed => 0

theorem growStep_phase (state : State) :
    (growStep state).phase = .returned ∨ (growStep state).phase = .receiving ∧ (growStep state).input = state.input := by
  simp only [growStep]
  repeat' split
  all_goals simp

theorem recvStep_rank {size : Nat} (phase : state.phase = .receiving) (moved : recvStep state (.done 1) = some after) :
    after.rank size < state.rank size := by
  simp only [FileServer.recvStep] at moved
  split at moved <;> try contradiction
  · rename_i byte input count arrived
    split at moved
    · cases moved
      simp [State.rank, phase]
    · cases moved
      by_cases ends : byte = 10
      · simp only [State.rank, phase, ends, if_true]
        omega
      · have left : (line state.input).length = (line input).length + 1 := by simp [line, arrived, ends]
        simp only [State.rank, phase, ends, if_false]
        omega

theorem terminateStep_rank {size : Nat} (phase : state.phase = .terminating) :
    (terminateStep state).rank size < state.rank size := by
  simp only [terminateStep]
  split <;> simp [State.rank, phase]

theorem openStep_rank (phase : state.phase = .opening) (path : Block.Begins state.buf (line stream ++ [0])) :
    (openStep files state).rank (answer files stream).length < state.rank (answer files stream).length := by
  have name : state.buf.cString = .ok (requested stream) := path.cString
  simp only [openStep, name]
  cases found : files (requested stream) with
  | none => simp [State.rank, phase]
  | some contents => simp [State.rank, phase, answer, found]

theorem readStep_rank {size : Nat} {result : IoResult} (phase : state.phase = .reading) (allowed : result ≠ .failed)
    (moved : readStep state result = some after) :
    after.rank size + (if !(Action.read result).retry then 1 else 0) ≤ state.rank size := by
  simp only [readStep] at moved
  split at moved <;> try contradiction
  · rename_i found
    cases moved
    simp only [State.rank, phase, found, List.length_cons, Action.retry, Bool.not_false, if_true]
    omega
  · cases moved
    simp [State.rank, phase, Action.retry]
  · cases moved
    simp [Action.retry]

theorem sendStep_rank {size : Nat} {result : IoResult} (phase : state.phase = .sending)
    (allowed : result ≠ .interrupted ∧ result ≠ .failed) (moved : sendStep state result = some after) :
    after.rank size + (if !(Action.send result).retry then 1 else 0) ≤ state.rank size := by
  obtain ⟨finished, accepted⟩ := allowed
  simp only [sendStep] at moved
  split at moved <;> try contradiction
  · cases moved
    simp [Action.retry]
  · cases moved
    simp [State.rank, phase, Action.retry]

theorem Stage.rank_le (inv : Stage files stream state) {action : Action}
    (moved : (clean files table stream).next state action = some after) :
    after.rank (answer files stream).length + (if !action.retry then 1 else 0) ≤
      state.rank (answer files stream).length := by
  obtain ⟨allowed, stepped⟩ := Machine.restrict_next moved
  simp only [machine, FileServer.next] at stepped
  simp only [Stage] at inv
  split at stepped <;> try contradiction
  · rename_i phase
    cases stepped
    obtain ended | ⟨receiving, same⟩ := growStep_phase state
    · simp [State.rank, phase, ended, Action.retry]
    · simp [State.rank, phase, receiving, same, Action.retry]
  · rename_i phase
    rw [show _ = IoResult.done 1 from allowed] at stepped
    exact Nat.succ_le_of_lt (recvStep_rank phase stepped)
  · rename_i phase
    cases stepped
    exact Nat.succ_le_of_lt (terminateStep_rank phase)
  · rename_i phase
    rw [phase] at inv
    cases stepped
    exact Nat.succ_le_of_lt (openStep_rank phase inv.2.1)
  · rename_i phase
    exact readStep_rank phase allowed stepped
  · rename_i phase
    exact sendStep_rank phase allowed stepped
  · rename_i phase
    cases stepped
    simp [State.rank, phase, Action.retry]

theorem run_bounded (newline : 10 ∈ stream) (short : (line stream).length < 2 ^ 30) {actions : List Action}
    (ran : (clean files table stream).run (clean files table stream).init actions = some state) :
    actions.countP (fun action => !action.retry) ≤ 2 * (line stream).length + 2 * (answer files stream).length + 6 := by
  have bound := Machine.run_countP_le (Stage files stream) (State.rank (answer files stream).length)
    (fun action => !action.retry) ?_ stage_start ran
  · have initial : State.rank (answer files stream).length (start table stream) =
        2 * (line stream).length + 2 * (answer files stream).length + 6 := rfl
    omega
  · intro before after action inv moved
    exact ⟨inv.next newline short moved, inv.rank_le moved⟩

theorem Stage.progress (inv : Stage files stream state) (newline : 10 ∈ stream) (short : (line stream).length < 2 ^ 30)
    (running : state.phase ≠ .returned) :
    ∃ action after, action.retry = false ∧ (clean files table stream).next state action = some after := by
  have alone {after : State} (stepped : FileServer.next files state .compute = some after) :
      ∃ action after, action.retry = false ∧ (clean files table stream).next state action = some after :=
    ⟨.compute, after, rfl, Machine.restrict_step trivial stepped⟩
  simp only [Stage] at inv
  cases phase : state.phase with
  | testing => exact alone (by simp only [FileServer.next, phase]; rfl)
  | receiving =>
      rw [phase] at inv
      obtain ⟨received, free, gathered, room⟩ := inv
      obtain ⟨byte, input, arrived⟩ := List.exists_cons_of_ne_nil (gathered.input_ne_nil free newline)
      have length := gathered.length_le free
      obtain ⟨next, stepped, -, -⟩ := gathered.receive (by omega) room arrived
      have moved : FileServer.next files state (.recv (.done 1)) = FileServer.recvStep state (.done 1) := by
        simp only [FileServer.next, phase]
      exact ⟨.recv (.done 1), _, rfl, Machine.restrict_step rfl (moved.trans stepped)⟩
  | terminating => exact alone (by simp only [FileServer.next, phase]; rfl)
  | opening => exact alone (by simp only [FileServer.next, phase]; rfl)
  | reading =>
      cases left : state.rest with
      | nil =>
          have stepped : FileServer.next files state (.read (.done 0)) = some { state with phase := .returning 1 } := by
            simp only [FileServer.next, phase, FileServer.readStep, left]
          exact ⟨.read (.done 0), _, rfl, Machine.restrict_step (by decide) stepped⟩
      | cons c rest =>
          have stepped : FileServer.next files state (.read (.done 1)) = some { state with phase := .sending, c, rest } := by
            simp only [FileServer.next, phase, FileServer.readStep, left]
          exact ⟨.read (.done 1), _, rfl, Machine.restrict_step (by decide) stepped⟩
  | sending =>
      have stepped : FileServer.next files state (.send (.done 1)) =
          some { state with phase := .reading, sent := state.sent ++ [state.c] } := by
        simp only [FileServer.next, phase, FileServer.sendStep]
      exact ⟨.send (.done 1), _, rfl, Machine.restrict_step (by decide) stepped⟩
  | returning ret => exact alone (by simp only [FileServer.next, phase]; rfl)
  | returned => contradiction
  | crashed => simp [phase] at inv

theorem Gathered.unread (gathered : Gathered stream state received) (free : 10 ∉ received) :
    stream.drop ((line stream).length + 1) <:+ state.input := by
  have length := gathered.length_le free
  rw [← gathered.whole] at length ⊢
  rw [List.drop_append, List.drop_eq_nil_of_le (by omega), List.nil_append]
  exact List.drop_suffix _ _

theorem Stage.unread (inv : Stage files stream state) : stream.drop ((line stream).length + 1) <:+ state.input := by
  simp only [Stage] at inv
  split at inv
  · obtain ⟨received, free, gathered⟩ := inv
    exact gathered.unread free
  · obtain ⟨received, free, gathered, -⟩ := inv
    exact gathered.unread free
  · obtain ⟨received, free, gathered⟩ := inv
    exact (gathered.newline free).2 ▸ List.suffix_refl _
  · exact inv.1 ▸ List.suffix_refl _
  · exact inv.1.input ▸ List.suffix_refl _
  · exact inv.1.input ▸ List.suffix_refl _
  · exact inv.1.input ▸ List.suffix_refl _
  · exact inv.1.input ▸ List.suffix_refl _
  · contradiction

theorem Stage.opened (inv : Stage files stream state) {path : List UInt8} (called : state.path = some path) :
    path = requested stream := by
  simp only [Stage] at inv
  split at inv
  · obtain ⟨received, -, gathered⟩ := inv
    simp [gathered.unopened.1] at called
  · obtain ⟨received, -, gathered, -⟩ := inv
    simp [gathered.unopened.1] at called
  · obtain ⟨received, -, gathered⟩ := inv
    simp [gathered.unopened.1] at called
  · simp [inv.2.2.1] at called
  · exact Option.some.inj (called.symm.trans inv.1.path)
  · exact Option.some.inj (called.symm.trans inv.1.path)
  · exact Option.some.inj (called.symm.trans inv.1.path)
  · exact Option.some.inj (called.symm.trans inv.1.path)
  · contradiction

theorem Stage.sent_begins (inv : Stage files stream state) : state.sent <+: answer files stream := by
  simp only [Stage] at inv
  split at inv
  · obtain ⟨received, -, gathered⟩ := inv
    exact gathered.unopened.2 ▸ List.nil_prefix
  · obtain ⟨received, -, gathered, -⟩ := inv
    exact gathered.unopened.2 ▸ List.nil_prefix
  · obtain ⟨received, -, gathered⟩ := inv
    exact gathered.unopened.2 ▸ List.nil_prefix
  · exact inv.2.2.2 ▸ List.nil_prefix
  · simp [answer, inv.2]
  · simp [answer, inv.2]
  · exact inv.2 ▸ List.prefix_refl _
  · exact inv.2 ▸ List.prefix_refl _
  · contradiction

/-- A session returns exactly the requested file. -/
theorem session_serves (files : List UInt8 → Option (List UInt8)) (table : Descriptors File) (stream : List UInt8)
    (newline : 10 ∈ stream) (short : (line stream).length < 2 ^ 30) : Serves files table stream where
  stores := by
    intro state reached receiving
    have inv := stage_of_reachable newline short reached
    simp only [Stage, receiving] at inv
    obtain ⟨received, free, gathered, room⟩ := inv
    have count := gathered.count
    exact ⟨by omega, by omega, gathered.length_eq_cap⟩
  terminator := by
    intro state reached terminating
    have inv := stage_of_reachable newline short reached
    simp only [Stage, terminating] at inv
    obtain ⟨received, free, gathered⟩ := inv
    have count := gathered.count
    have size := gathered.begins.length_le
    have cap := gathered.length_eq_cap
    rw [List.length_append, List.length_singleton] at count size
    exact ⟨by omega, by omega, cap⟩
  unread := by
    intro state reached
    exact (stage_of_reachable newline short reached).unread
  opened := by
    intro state reached path called
    exact (stage_of_reachable newline short reached).opened called
  sent := by
    intro state reached
    exact (stage_of_reachable newline short reached).sent_begins
  returned := by
    intro state reached returned
    have inv := stage_of_reachable newline short reached
    simp only [Stage, returned] at inv
    exact ⟨inv.1.path, inv.2, inv.1.input⟩
  progress := by
    intro state reached running
    exact (stage_of_reachable newline short reached).progress newline short running
  bounded := by
    intro actions state ran
    exact run_bounded newline short ran

/-- The request `a`, for a file of two bytes. -/
theorem session_serves_two_bytes : Serves (fun path => if path = [97] then some [104, 105] else none) ⟨[]⟩ [97, 10, 98] :=
  session_serves _ _ _ (by decide) (by decide)

end SysProg.Process.FileServer
