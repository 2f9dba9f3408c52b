import SysProg.Process.Pipe

namespace SysProg.Process.Pipe

/-! ## What a transfer is -/

/-- The `BUFSIZE` bytes from `buf + n` on lie inside the block of `cap + 1` bytes. -/
def Child.RegionInside (child : Child) : Prop :=
  ∃ block, child.buf = some block ∧ block.length = child.cap + 1 ∧ 0 ≤ child.n ∧ child.n + bufsize ≤ block.length

/-- The buffer holds the message and a NUL, and `n` is the message's length. -/
def Child.Delivered (child : Child) (message : List UInt8) : Prop :=
  child.n = message.length ∧ ∃ block, child.buf = some block ∧ Block.Begins block (message ++ [0])

/-- A run ends, unless `write` is interrupted for ever, with the child's exit. -/
structure Transfers (capacity : ℕ+) (message : List UInt8) : Prop where
  region : ∀ state, (clean capacity message).Reachable state → state.child.phase = .reading →
    state.child.RegionInside
  delivered : ∀ state, (clean capacity message).Reachable state → state.child.phase = .printing →
    state.child.Delivered message
  progress : ∀ state, (clean capacity message).Reachable state → state.child.phase ≠ .exited 0 →
    ∃ action after, action ≠ .write .interrupted ∧ (clean capacity message).next state action = some after
  bounded : ∀ actions state, (clean capacity message).run (clean capacity message).init actions = some state →
    actions.countP (fun action => decide (action ≠ .write .interrupted)) ≤ 2 * message.length + 7

/-! ## The child's buffer -/

/-- The child has received these bytes, and may call `read` once more. -/
structure Child.Filled (child : Child) (received : List UInt8) : Prop where
  count : child.n = received.length
  block : ∃ block exponent, child.buf = some block ∧ child.cap = 2 ^ exponent ∧ exponent ≤ 30 ∧
    block.length = 2 ^ exponent + 1 ∧ received.length + bufsize ≤ 2 ^ exponent ∧ Block.Begins block received

variable {child : Child} {received : List UInt8}

theorem Child.Filled.regionInside (filled : child.Filled received) : child.RegionInside := by
  obtain ⟨count, block, exponent, buf, cap, -, length, room, -⟩ := filled
  refine ⟨block, buf, ?_, ?_, ?_⟩
  · rw [length, cap]
    simp
  · omega
  · rw [count, length]
    exact_mod_cast Nat.le_succ_of_le room

theorem Child.Filled.receive (filled : child.Filled received) (chunk : List UInt8) (small : chunk.length ≤ bufsize)
    (fits : received.length + chunk.length + bufsize ≤ 2 ^ 30) :
    (child.receive chunk).phase = child.phase ∧ (child.receive chunk).Filled (received ++ chunk) := by
  obtain ⟨count, block, exponent, buf, cap, limit, length, room, begins⟩ := filled
  obtain ⟨after, stored, size, begun⟩ := begins.storeFrom chunk (by omega)
  have total : wrapInt (received.length + chunk.length) = (received ++ chunk).length := by
    rw [wrapInt_of_range (by omega) (by unfold bufsize at fits; omega)]
    simp
  have bound : (2 : Int) ^ exponent = ((2 ^ exponent : Nat) : Int) := by simp
  simp only [Child.receive, buf, count, stored, Child.grow, total, cap]
  unfold bufsize at *
  split
  · rename_i full
    rw [List.length_append] at full
    have below : 2 ^ exponent < 2 ^ 30 := by omega
    have less : exponent < 30 := (Nat.pow_lt_pow_iff_right Nat.one_lt_two).mp below
    have half : 2 ^ exponent ≤ 2 ^ 29 := Nat.pow_le_pow_right (by decide) (by omega)
    have more : wrapInt (((2 ^ (exponent + 1) : Nat) : Int) + 1) = ((2 ^ (exponent + 1) + 1 : Nat) : Int) := by
      rw [pow_succ, wrapInt_of_range (by omega) (by omega)]
      simp
    rw [wrapInt_double less, more]
    obtain ⟨grown, allocated, fresh, kept⟩ := begun.realloc (2 ^ (exponent + 1) + 1) (by omega)
      (by simp; omega)
    rw [allocated]
    refine ⟨rfl, ⟨rfl, grown, exponent + 1, rfl, by simp, less, fresh, ?_, kept⟩⟩
    rw [List.length_append]
    unfold bufsize
    omega
  · rename_i spare
    rw [List.length_append] at spare
    refine ⟨rfl, ⟨rfl, after, exponent, rfl, rfl, limit, size.trans length, ?_, begun⟩⟩
    rw [List.length_append]
    unfold bufsize
    omega

theorem Child.Filled.overflow (filled : child.Filled received) (byte : UInt8)
    (most : received.length + bufsize = 2 ^ 30) :
    (child.receive [byte]).phase = child.phase ∧ (child.receive [byte]).buf = none := by
  obtain ⟨count, block, exponent, buf, cap, limit, length, room, begins⟩ := filled
  have same : exponent = 30 := by
    by_contra other
    have half : 2 ^ exponent ≤ 2 ^ 29 := Nat.pow_le_pow_right (by decide) (by omega)
    omega
  subst same
  obtain ⟨after, stored, -, -⟩ := begins.storeFrom [byte] (by simp; omega)
  have total : wrapInt (received.length + [byte].length) = received.length + 1 := by
    rw [List.length_singleton]
    exact wrapInt_of_range (by omega) (by omega)
  have full : (received.length : Int) + 1 > 2 ^ 30 - bufsize := by omega
  simp only [Child.receive, buf, count, stored, Child.grow, total, cap, full, if_true, true_and]
  have negative : wrapInt (wrapInt (2 ^ 30 * 2) + 1) % 2 ^ 64 = 2 ^ 64 - 2 ^ 31 + 1 := by decide
  rw [Block.realloc, negative, if_neg (by decide)]

theorem Child.Filled.terminate (filled : child.Filled received) :
    (child.terminate).phase = .printing ∧ child.terminate.Delivered received := by
  obtain ⟨count, block, exponent, buf, cap, limit, length, room, begins⟩ := filled
  obtain ⟨after, stored, -, begun⟩ := begins.store (by omega) 0
  simp only [Child.terminate, buf, count, stored, true_and]
  exact ⟨rfl, after, rfl, begun⟩

theorem Child.filled_malloc : Child.Filled
    { phase := .reading, cap := bufsize, n := 0, buf := some (Block.malloc (bufsize + 1)) } [] where
  count := rfl
  block := ⟨_, 1, rfl, rfl, by decide, rfl, by decide, List.nil_prefix⟩

/-! ## The message on its way -/

/-- The string that an array with the message's bytes holds. -/
def text (message : List UInt8) : List UInt8 := message.takeWhile (· ≠ 0)

theorem text_eq_self {message : List UInt8} (string : 0 ∉ message) : text message = message :=
  Block.takeWhile_free string

theorem text_length_lt {message : List UInt8} (nul : 0 ∈ message) : (text message).length < message.length := by
  refine lt_of_le_of_ne (List.takeWhile_prefix _).length_le ?_
  intro same
  have all := (List.takeWhile_prefix _).eq_of_length same
  rw [List.takeWhile_eq_self_iff] at all
  simpa using all 0 nul

theorem takeWhile_literal (message : List UInt8) :
    (message ++ [0]).takeWhile (· ≠ 0) = text message := by
  rw [text, List.takeWhile_append]
  split
  · rename_i whole
    rw [(List.takeWhile_prefix _).eq_of_length whole]
    simp
  · rfl

theorem strlen_literal (message : List UInt8) : strlen (message ++ [0]) = (text message).length := by
  rw [strlen, takeWhile_literal]

theorem literal_chunk {message : List UInt8} {start count : Nat} (inside : start + count ≤ (text message).length) :
    ((message ++ [0]).drop start).take count = ((text message).drop start).take count := by
  obtain ⟨rest, whole⟩ := List.takeWhile_prefix (l := message ++ [0]) (· ≠ 0)
  rw [takeWhile_literal] at whole
  rw [← whole, List.drop_append_of_le_length (by omega), List.take_append_of_le_length (by simp; omega)]

def Parent.Stage (text : List UInt8) (parent : Parent) : Prop :=
  match parent.phase with
  | .writing => True
  | .closingRead | .closingWrite | .exited 0 => parent.n = text.length
  | .exited (_ + 1) => False

def Child.Stage (text received : List UInt8) (child : Child) : Prop :=
  match child.phase with
  | .closing => received = []
  | .reading => child.Filled received
  | .terminating => child.Filled received ∧ received = text
  | .printing => child.Delivered text
  | .exited 0 => True
  | .exited (_ + 1) | .crashed => False

/-- The bytes that the child has received and those in the pipe are what the
parent has written. -/
structure Carries (text : List UInt8) (state : State) (received : List UInt8) : Prop where
  lower : 0 ≤ state.parent.n
  upper : state.parent.n ≤ text.length
  stream : received ++ state.pipe = text.take state.parent.n.toNat
  parent : state.parent.Stage text
  child : state.child.Stage text received

variable {capacity : ℕ+} {message : List UInt8} {state after : State}

theorem Carries.unsent_iff (inv : Carries (text message) state received) (short : (text message).length < 2 ^ 31) :
    state.parent.Unsent (message ++ [0]) ↔ state.parent.n < (text message).length := by
  have lower := inv.lower
  have upper := inv.upper
  rw [Parent.Unsent, strlen_literal, Int.emod_eq_of_lt lower (by omega)]

theorem writeStep_done {m : Nat} (writing : state.parent.phase = .writing) (unsent : state.parent.Unsent (message ++ [0]))
    (chunk : 0 < m ∧ state.parent.n + m ≤ (text message).length ∧ m ≤ maxCount ∧ state.pipe.length + m ≤ capacity) :
    writeStep capacity (message ++ [0]) state (.done m) = some { state with
      parent := { state.parent with n := wrapInt (state.parent.n + m) }
      pipe := state.pipe ++ ((message ++ [0]).drop state.parent.n.toNat).take m } := by
  simp only [writeStep, writing, unsent, and_self, if_true, strlen_literal, chunk]

theorem readStep_done {m : Nat} (reading : state.child.phase = .reading) (some : state.pipe ≠ [])
    (chunk : 0 < m ∧ m ≤ bufsize ∧ m ≤ state.pipe.length) :
    readStep state (.done m) = .some { state with
      child := state.child.receive (state.pipe.take m)
      pipe := state.pipe.drop m } := by
  simp only [readStep, reading, if_true, some, if_false, chunk, and_self]

theorem carries_init : Carries (text message) (clean capacity message).init [] where
  lower := le_refl 0
  upper := Int.natCast_nonneg _
  stream := rfl
  parent := trivial
  child := rfl

theorem Carries.all_received (inv : Carries (text message) state received)
    (empty : state.pipe = []) (closed : ¬ state.WriteOpen) : received = text message := by
  have stage := inv.parent
  have stream := inv.stream
  simp only [State.WriteOpen, not_or] at closed
  simp only [Parent.Stage] at stage
  split at stage <;> simp_all

theorem Carries.parentStep (inv : Carries (text message) state received) (short : (text message).length < 2 ^ 31)
    (moved : parentStep (message ++ [0]) state = some after) : Carries (text message) after received := by
  obtain ⟨lower, upper, stream, parent, child⟩ := id inv
  simp only [Pipe.parentStep] at moved
  simp only [Parent.Stage] at parent
  split at moved
  · rename_i phase
    simp only [inv.unsent_iff short] at moved
    split at moved <;> try contradiction
    cases moved
    exact ⟨lower, upper, stream, by simp only [Parent.Stage, State.setParent]; omega, child⟩
  · rename_i phase
    cases moved
    rw [phase] at parent
    exact ⟨lower, upper, stream, parent, child⟩
  · rename_i phase
    cases moved
    rw [phase] at parent
    exact ⟨lower, upper, stream, parent, child⟩
  · contradiction

theorem Carries.writeStep (inv : Carries (text message) state received) (short : (text message).length < 2 ^ 31)
    {result : IoResult} (allowed : result ≠ .failed)
    (moved : writeStep capacity (message ++ [0]) state result = some after) : Carries (text message) after received := by
  obtain ⟨lower, upper, stream, parent, child⟩ := id inv
  simp only [Pipe.writeStep] at moved
  split at moved <;> try contradiction
  cases result with
  | failed => contradiction
  | interrupted =>
      cases moved
      exact inv
  | done m =>
      simp only [strlen_literal] at moved
      split at moved <;> try contradiction
      rename_i writing chunk
      cases moved
      have exact : wrapInt (state.parent.n + m) = state.parent.n + m := wrapInt_of_range (by omega) (by omega)
      have next : (state.parent.n + m).toNat = state.parent.n.toNat + m := by omega
      refine ⟨?_, ?_, ?_, ?_, child⟩
      · simp only [exact]
        omega
      · simp only [exact]
        omega
      · simp only [exact, next]
        rw [literal_chunk (by omega), ← List.append_assoc, stream, List.take_add]
      · simp only [Parent.Stage, writing.1]

theorem Carries.readStep (inv : Carries (text message) state received)
    (short : (text message).length + bufsize ≤ 2 ^ 30)
    {result : IoResult} (allowed : result ≠ .interrupted ∧ result ≠ .failed)
    (moved : readStep state result = some after) : ∃ received, Carries (text message) after received := by
  obtain ⟨lower, upper, stream, parent, child⟩ := id inv
  simp only [Pipe.readStep] at moved
  split at moved <;> try contradiction
  rename_i reading
  cases result with
  | failed => exact absurd rfl allowed.2
  | interrupted => exact absurd rfl allowed.1
  | done m =>
      simp only [Child.Stage, reading] at child
      simp only at moved
      split at moved
      · rename_i empty
        split at moved <;> try contradiction
        rename_i ended
        cases moved
        have all := inv.all_received empty ended.2
        exact ⟨received, lower, upper, stream, parent, ⟨child.count, child.block⟩, all⟩
      · split at moved <;> try contradiction
        rename_i chunk
        cases moved
        have total := congrArg List.length stream
        simp only [List.length_append, List.length_take] at total
        obtain ⟨phase, filled⟩ := Child.Filled.receive child (state.pipe.take m) (by simp; omega) (by simp; omega)
        refine ⟨received ++ state.pipe.take m, lower, upper, ?_, parent, ?_⟩
        · rw [List.append_assoc, List.take_append_drop, stream]
        · simpa only [Child.Stage, phase, reading] using filled

theorem Carries.childStep (inv : Carries (text message) state received)
    (moved : childStep state = some after) : Carries (text message) after received := by
  obtain ⟨lower, upper, stream, parent, child⟩ := id inv
  simp only [Pipe.childStep] at moved
  split at moved <;> try contradiction
  · rename_i phase
    simp only [Child.Stage, phase] at child
    subst child
    cases moved
    exact ⟨lower, upper, stream, parent, Child.filled_malloc⟩
  · rename_i phase
    simp only [Child.Stage, phase] at child
    obtain ⟨filled, rfl⟩ := child
    cases moved
    obtain ⟨printing, delivered⟩ := filled.terminate
    exact ⟨lower, upper, stream, parent, by simpa only [Child.Stage, printing] using delivered⟩
  · cases moved
    exact ⟨lower, upper, stream, parent, trivial⟩

theorem Carries.next (inv : Carries (text message) state received) (short : (text message).length + bufsize ≤ 2 ^ 30)
    {action : Action} (moved : (clean capacity message).next state action = some after) :
    ∃ received, Carries (text message) after received := by
  obtain ⟨allowed, stepped⟩ := Machine.restrict_next moved
  have int : (text message).length < 2 ^ 31 := by omega
  cases action with
  | parent => exact ⟨received, inv.parentStep int stepped⟩
  | write result => exact ⟨received, inv.writeStep int allowed stepped⟩
  | child => exact ⟨received, inv.childStep stepped⟩
  | read result => exact inv.readStep short allowed stepped

theorem carries_of_reachable (short : (text message).length + bufsize ≤ 2 ^ 30)
    (reached : (clean capacity message).Reachable state) : ∃ received, Carries (text message) state received := by
  apply reached.invariant (fun state => ∃ received, Carries (text message) state received) ⟨[], carries_init⟩
  intro before after action inv moved
  obtain ⟨received, inv⟩ := inv
  exact inv.next short moved

/-! ## The end of a run -/

def ParentPhase.rank : ParentPhase → Nat
  | .writing => 3
  | .closingRead => 2
  | .closingWrite => 1
  | .exited _ => 0

def ChildPhase.rank : ChildPhase → Nat
  | .closing => 4
  | .reading => 3
  | .terminating => 2
  | .printing => 1
  | .exited _ | .crashed => 0

def State.rank (text : List UInt8) (state : State) : Nat :=
  2 * (text.length - state.parent.n.toNat) + state.pipe.length + state.parent.phase.rank + state.child.phase.rank

theorem rank_setParent {text : List UInt8} {phase : ParentPhase} (less : phase.rank < state.parent.phase.rank) :
    (state.setParent phase).rank text < state.rank text := by
  simp only [State.rank, State.setParent]
  omega

theorem rank_setChild {text : List UInt8} {child : Child} (less : child.phase.rank < state.child.phase.rank) :
    State.rank text { state with child } < state.rank text := by
  simp only [State.rank]
  omega

theorem receive_phase (child : Child) (chunk : List UInt8) :
    (child.receive chunk).phase = child.phase ∨ (child.receive chunk).phase = .crashed := by
  simp only [Child.receive, Child.grow]
  repeat' split
  all_goals simp

theorem terminate_rank (child : Child) : child.terminate.phase.rank ≤ 1 := by
  simp only [Child.terminate]
  repeat' split
  all_goals simp [ChildPhase.rank]

theorem parentStep_rank {text buf : List UInt8} (moved : parentStep buf state = some after) :
    after.rank text < state.rank text := by
  simp only [parentStep] at moved
  split at moved <;> try contradiction
  · rename_i phase
    split at moved <;> try contradiction
    cases moved
    exact rank_setParent (by rw [phase]; decide)
  · rename_i phase
    cases moved
    exact rank_setParent (by rw [phase]; decide)
  · rename_i phase
    cases moved
    exact rank_setParent (by rw [phase]; decide)

theorem childStep_rank {text : List UInt8} (moved : childStep state = some after) :
    after.rank text < state.rank text := by
  simp only [childStep] at moved
  split at moved <;> try contradiction
  · rename_i phase
    cases moved
    exact rank_setChild (by rw [phase]; decide)
  · rename_i phase
    have less := terminate_rank state.child
    cases moved
    exact rank_setChild (by rw [phase]; exact Nat.lt_succ_of_le less)
  · rename_i phase
    cases moved
    exact rank_setChild (by simp [phase, ChildPhase.rank])

theorem readStep_rank {text : List UInt8} {m : Nat} (moved : readStep state (.done m) = some after) :
    after.rank text < state.rank text := by
  simp only [readStep] at moved
  split at moved <;> try contradiction
  rename_i reading
  split at moved
  · split at moved <;> try contradiction
    cases moved
    exact rank_setChild (by simp [reading, ChildPhase.rank])
  · split at moved <;> try contradiction
    cases moved
    obtain phase | phase := receive_phase state.child (state.pipe.take m)
    · simp only [State.rank, phase, List.length_drop]
      omega
    · simp only [State.rank, phase, reading, ChildPhase.rank, List.length_drop]
      omega

theorem Carries.writeStep_rank (inv : Carries (text message) state received) (short : (text message).length < 2 ^ 31)
    {m : Nat} (moved : Pipe.writeStep capacity (message ++ [0]) state (.done m) = some after) :
    after.rank (text message) < state.rank (text message) := by
  have lower := inv.lower
  simp only [Pipe.writeStep, strlen_literal] at moved
  split at moved <;> try contradiction
  split at moved <;> try contradiction
  rename_i chunk
  cases moved
  have exact : wrapInt (state.parent.n + m) = state.parent.n + m := wrapInt_of_range (by omega) (by omega)
  simp only [State.rank, exact, List.length_append, List.length_take, List.length_drop]
  omega

theorem Carries.rank_le (inv : Carries (text message) state received) (short : (text message).length < 2 ^ 31)
    {action : Action} (moved : (clean capacity message).next state action = some after) :
    after.rank (text message) + (if decide (action ≠ .write .interrupted) then 1 else 0) ≤ state.rank (text message) := by
  obtain ⟨allowed, stepped⟩ := Machine.restrict_next moved
  cases action with
  | parent => exact Nat.succ_le_of_lt (parentStep_rank stepped)
  | child => exact Nat.succ_le_of_lt (childStep_rank stepped)
  | write result =>
      cases result with
      | failed => exact absurd rfl allowed
      | interrupted =>
          simp only [machine, Pipe.writeStep] at stepped
          split at stepped <;> try contradiction
          cases stepped
          simp
      | done m => exact Nat.succ_le_of_lt (inv.writeStep_rank short stepped)
  | read result =>
      cases result with
      | failed => exact absurd rfl allowed.2
      | interrupted => exact absurd rfl allowed.1
      | done m => exact Nat.succ_le_of_lt (readStep_rank stepped)

theorem Carries.progress (inv : Carries (text message) state received) (short : (text message).length < 2 ^ 31)
    (running : state.child.phase ≠ .exited 0) :
    ∃ action after, action ≠ .write .interrupted ∧ (clean capacity message).next state action = some after := by
  have stage := inv.child
  simp only [Child.Stage] at stage
  have alone {next : State} (stepped : Pipe.childStep state = some next) :
      ∃ action after, action ≠ .write .interrupted ∧ (clean capacity message).next state action = some after :=
    ⟨.child, next, by decide, Machine.restrict_step trivial stepped⟩
  cases phase : state.child.phase with
  | closing => exact alone (by simp only [Pipe.childStep, phase]; rfl)
  | terminating => exact alone (by simp only [Pipe.childStep, phase]; rfl)
  | printing => exact alone (by simp only [Pipe.childStep, phase]; rfl)
  | crashed => simp [phase] at stage
  | exited code => cases code <;> simp_all
  | reading =>
      by_cases empty : state.pipe = []
      · by_cases unsent : state.parent.phase = .writing ∧ state.parent.Unsent (message ++ [0])
        · have more := (inv.unsent_iff short).mp unsent.2
          have room : state.pipe.length + 1 ≤ capacity := by
            rw [empty]
            exact capacity.pos
          have stepped := writeStep_done unsent.1 unsent.2 ⟨Nat.one_pos, by omega, by decide, room⟩
          exact ⟨.write (.done 1), _, by decide, Machine.restrict_step (by decide) stepped⟩
        · by_cases writable : state.WriteOpen
          · obtain ⟨next, stepped⟩ : ∃ next, Pipe.parentStep (message ++ [0]) state = some next := by
              simp only [State.WriteOpen, phase, reduceCtorEq, false_or] at writable
              obtain writing | reading | writing := writable
              · simp_all [Pipe.parentStep]
              · simp [Pipe.parentStep, reading]
              · simp [Pipe.parentStep, writing]
            exact ⟨.parent, next, by decide, Machine.restrict_step trivial stepped⟩
          · have stepped : Pipe.readStep state (.done 0) = some (state.setChild .terminating) := by
              simp [Pipe.readStep, phase, empty, writable]
            exact ⟨.read (.done 0), _, by decide, Machine.restrict_step (by decide) stepped⟩
      · have some : 1 ≤ state.pipe.length := List.length_pos_iff.mpr empty
        have stepped := readStep_done phase empty ⟨Nat.one_pos, by decide, some⟩
        exact ⟨.read (.done 1), _, by decide, Machine.restrict_step (by decide) stepped⟩

theorem run_bounded (short : (text message).length + bufsize ≤ 2 ^ 30) {actions : List Action}
    (ran : (clean capacity message).run (clean capacity message).init actions = some state) :
    actions.countP (fun action => decide (action ≠ .write .interrupted)) ≤ 2 * (text message).length + 7 := by
  have bound := Machine.run_countP_le (fun state => ∃ received, Carries (text message) state received)
    (State.rank (text message)) (fun action => decide (action ≠ .write .interrupted)) ?_ ⟨[], carries_init⟩ ran
  · simp only [clean, Machine.restrict, machine, State.rank, ParentPhase.rank, ChildPhase.rank, List.length_nil] at bound
    omega
  · intro before after action inv moved
    obtain ⟨received, inv⟩ := inv
    exact ⟨inv.next short moved, inv.rank_le (by omega) moved⟩

/-! ## Messages of any length -/

theorem transfers_of_short (string : 0 ∉ message) (short : message.length + bufsize ≤ 2 ^ 30) :
    Transfers capacity message := by
  have same := text_eq_self string
  have fits : (text message).length + bufsize ≤ 2 ^ 30 := by rwa [same]
  refine ⟨?_, ?_, ?_, ?_⟩
  · intro state reached reading
    obtain ⟨received, inv⟩ := carries_of_reachable fits reached
    have stage := inv.child
    simp only [Child.Stage, reading] at stage
    exact stage.regionInside
  · intro state reached printing
    obtain ⟨received, inv⟩ := carries_of_reachable fits reached
    have stage := inv.child
    simpa only [Child.Stage, printing, same] using stage
  · intro state reached running
    obtain ⟨received, inv⟩ := carries_of_reachable fits reached
    exact inv.progress (by omega) running
  · intro actions state ran
    simpa only [same] using run_bounded fits ran

/-- Both have the first `count` bytes behind them. -/
def abreast (count : Nat) (child : Child) : State where
  parent := { phase := .writing, n := count }
  child := child
  pipe := []

theorem reachable_byte {count : Nat} (reached : (clean capacity message).Reachable (abreast count child))
    (reading : child.phase = .reading) (inside : count < (text message).length) (int : count + 1 < 2 ^ 31) :
    ∃ byte, (text message).take (count + 1) = (text message).take count ++ [byte] ∧
      (clean capacity message).Reachable (abreast (count + 1) (child.receive [byte])) := by
  have unsent : (abreast count child).parent.Unsent (message ++ [0]) := by
    simp only [abreast, Parent.Unsent, strlen_literal]
    omega
  have total : wrapInt (count + 1) = ((count + 1 : Nat) : Int) := wrapInt_of_range (by omega) (by omega)
  have room : 1 ≤ (capacity : Nat) := capacity.pos
  have next : ((message ++ [0]).drop count).take 1 = [(text message)[count]] := by
    rw [literal_chunk inside, List.drop_eq_getElem_cons inside]
    rfl
  have written : writeStep capacity (message ++ [0]) (abreast count child) (.done 1) =
      some { abreast (count + 1) child with pipe := [(text message)[count]] } := by
    rw [writeStep_done rfl unsent ⟨Nat.one_pos, by simp [abreast]; omega, by decide, by simpa [abreast] using room⟩]
    simp [abreast, total, next]
  have read : readStep { abreast (count + 1) child with pipe := [(text message)[count]] } (.done 1) =
      some (abreast (count + 1) (child.receive [(text message)[count]])) := by
    rw [readStep_done reading (by simp) ⟨Nat.one_pos, by decide, by simp⟩]
    rfl
  refine ⟨(text message)[count], List.take_succ_eq_append_getElem inside, ?_⟩
  exact (reached.next (.write (.done 1)) (Machine.restrict_step (by decide) written)).next (.read (.done 1))
    (Machine.restrict_step (by decide) read)

/-- One byte at a time, as long as the doubled capacity is an `int`. -/
theorem reachable_filled (capacity : ℕ+) (count : Nat) (inside : count ≤ (text message).length) (fits : count + bufsize ≤ 2 ^ 30) :
    ∃ child, (clean capacity message).Reachable (abreast count child) ∧ child.phase = .reading ∧
      child.Filled ((text message).take count) := by
  induction count with
  | zero => exact ⟨_, Machine.reachable_init.next .child (Machine.restrict_step trivial rfl), rfl, Child.filled_malloc⟩
  | succ count ih =>
      obtain ⟨child, reached, reading, filled⟩ := ih (by omega) (by omega)
      obtain ⟨byte, next, moved⟩ := reachable_byte reached reading inside (by omega)
      obtain ⟨phase, more⟩ := filled.receive [byte] (by simp [bufsize]) (by simp; omega)
      exact ⟨_, moved, phase.trans reading, by rwa [next]⟩

/-- The capacity after `2 ^ 30` is negative, and `realloc` fails. -/
theorem not_transfers_of_long (long : 2 ^ 30 < (text message).length + bufsize) : ¬ Transfers capacity message := by
  intro transfers
  have inside : 2 ^ 30 - 2 < (text message).length := by
    unfold bufsize at long
    omega
  obtain ⟨child, reached, reading, filled⟩ := reachable_filled capacity (2 ^ 30 - 2) inside.le (by decide)
  obtain ⟨byte, next, moved⟩ := reachable_byte reached reading inside (by decide)
  obtain ⟨phase, lost⟩ := filled.overflow byte (by simp only [List.length_take_of_le inside.le]; rfl)
  obtain ⟨block, found, -⟩ := transfers.region _ moved (phase.trans reading)
  simp [abreast, lost] at found

theorem reachable_printing (capacity : ℕ+) (short : (text message).length + bufsize ≤ 2 ^ 30) :
    ∃ state, (clean capacity message).Reachable state ∧ state.child.phase = .printing ∧
      state.child.n = (text message).length := by
  obtain ⟨child, reached, reading, filled⟩ := reachable_filled capacity (text message).length le_rfl short
  rw [List.take_length] at filled
  have whole : Child.Filled { child with phase := .terminating } (text message) := ⟨filled.count, filled.block⟩
  obtain ⟨printing, delivered⟩ := whole.terminate
  have sent : ¬ (abreast (text message).length child).parent.Unsent (message ++ [0]) := by
    simp only [abreast, Parent.Unsent, strlen_literal]
    omega
  have written : (clean capacity message).next (abreast (text message).length child) .parent = _ :=
    Machine.restrict_step trivial ((if_neg sent).trans rfl)
  have closing := ((reached.next .parent written).next .parent (Machine.restrict_step trivial rfl)).next .parent (Machine.restrict_step trivial rfl)
  have ended := closing.next (.read (.done 0)) (Machine.restrict_step (by decide) (by
    simp [machine, Pipe.readStep, abreast, State.setParent, reading, State.WriteOpen]
    rfl))
  exact ⟨_, ended.next .child (Machine.restrict_step trivial rfl), printing, delivered.1⟩

/-- The child receives just the strings whose buffer has a capacity that is an `int`. -/
theorem transfers_iff (capacity : ℕ+) (message : List UInt8) :
    Transfers capacity message ↔ 0 ∉ message ∧ message.length < 2 ^ 30 - 1 := by
  constructor
  · intro transfers
    have short : (text message).length + bufsize ≤ 2 ^ 30 := by
      by_contra long
      exact not_transfers_of_long (not_le.mp long) transfers
    obtain ⟨state, reached, printing, count⟩ := reachable_printing capacity short
    have total := (transfers.delivered state reached printing).1
    have string : 0 ∉ message := by
      intro nul
      have less := text_length_lt nul
      omega
    rw [text_eq_self string] at short
    unfold bufsize at short
    exact ⟨string, by omega⟩
  · intro condition
    exact transfers_of_short condition.1 (by unfold bufsize; omega)

/-- A message of `2 ^ 30 - 1` bytes is lost. -/
theorem gibibyte_not_transferred : ¬ Transfers 65536 (List.replicate (2 ^ 30 - 1) 97) := by
  have string : 0 ∉ List.replicate (2 ^ 30 - 1) (97 : UInt8) := by
    intro member
    exact absurd (List.eq_of_mem_replicate member) (by decide)
  apply not_transfers_of_long
  rw [text_eq_self string, List.length_replicate]
  decide

end SysProg.Process.Pipe
