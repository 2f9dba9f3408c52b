import SysProg.Process.FileServer.Session

namespace SysProg.Process.FileServer

/-! ## The arithmetic of `read_line` -/

/-- The statement of `read_line` that comes next computes values of `int` only, and a byte
is stored below `cap`. -/
structure State.InRange (state : State) : Prop where
  doubles : state.phase = .testing → state.len = state.cap → InInt (state.cap * 2)
  counts : state.phase = .receiving → InInt (state.len + 1)
  store : state.phase = .receiving → 0 ≤ state.len ∧ state.len < state.cap

/-- `read_line` is waiting for a byte of the line. -/
def Reads (stream : List UInt8) (state : State) : Prop :=
  match state.phase with
  | .testing => ∃ received, 10 ∉ received ∧ Gathered stream state received
  | .receiving => ∃ received, 10 ∉ received ∧ Gathered stream state received ∧ (received.length : Int) < state.cap
  | _ => True

variable {files : List UInt8 → Option (List UInt8)} {table : Descriptors File} {state after : State}
  {stream received : List UInt8}

theorem reads_of_phase (testing : state.phase ≠ .testing) (receiving : state.phase ≠ .receiving) :
    Reads stream state := by
  unfold Reads
  split
  · contradiction
  · contradiction
  · trivial

theorem Gathered.inInt (gathered : Gathered stream state received) (short : received.length < 2 ^ 30) :
    state.len = state.cap → InInt (state.cap * 2) := by
  intro full
  have count := gathered.count
  unfold InInt
  omega

theorem Reads.inRange (reads : Reads stream state) (short : (line stream).length < 2 ^ 30) : state.InRange where
  doubles := by
    intro testing
    simp only [Reads, testing] at reads
    obtain ⟨received, free, gathered⟩ := reads
    exact gathered.inInt (Nat.lt_of_le_of_lt (gathered.length_le free) short)
  counts := by
    intro receiving
    simp only [Reads, receiving] at reads
    obtain ⟨received, free, gathered, -⟩ := reads
    have length := gathered.length_le free
    have count := gathered.count
    unfold InInt
    omega
  store := by
    intro receiving
    simp only [Reads, receiving] at reads
    obtain ⟨received, -, gathered, room⟩ := reads
    rw [gathered.count]
    exact ⟨Int.natCast_nonneg _, room⟩

theorem recvStep_reads {result : IoResult} (free : 10 ∉ received) (gathered : Gathered stream state received)
    (room : (received.length : Int) < state.cap) (short : (line stream).length < 2 ^ 30)
    (moved : recvStep state result = some after) : Reads stream after := by
  have step := moved
  simp only [recvStep] at moved
  split at moved
  · rename_i byte input arrived
    have length := gathered.length_le free
    obtain ⟨next, stepped, phase, more⟩ := gathered.receive (by omega) room arrived
    obtain rfl := Option.some.inj (stepped.symm.trans step)
    by_cases ends : byte = 10
    · rw [if_pos ends] at phase
      exact reads_of_phase (by simp [phase]) (by simp [phase])
    · rw [if_neg ends] at phase
      simp only [Reads, phase]
      exact ⟨_, by simp [free, Ne.symm ends], more⟩
  all_goals cases moved
  all_goals exact reads_of_phase Phase.noConfusion Phase.noConfusion

theorem next_reads {action : Action} (reads : Reads stream state) (short : (line stream).length < 2 ^ 30)
    (moved : next files state action = some after) : Reads stream after := by
  simp only [next] at moved
  simp only [Reads] at reads
  split at moved <;> try contradiction
  · rename_i phase
    rw [phase] at reads
    obtain ⟨received, free, gathered⟩ := reads
    obtain ⟨receiving, room, grown⟩ := gathered.grow (Nat.lt_of_le_of_lt (gathered.length_le free) short)
    cases moved
    simp only [Reads, receiving]
    exact ⟨received, free, grown, room⟩
  · rename_i phase
    rw [phase] at reads
    obtain ⟨received, free, gathered, room⟩ := reads
    exact recvStep_reads free gathered room short moved
  · cases moved
    simp only [terminateStep]
    split <;> exact reads_of_phase Phase.noConfusion Phase.noConfusion
  · cases moved
    simp only [openStep]
    repeat' split
    all_goals exact reads_of_phase Phase.noConfusion Phase.noConfusion
  · rename_i phase
    simp only [readStep] at moved
    split at moved <;> cases moved
    all_goals exact reads_of_phase (by simp [phase]) (by simp [phase])
  · rename_i phase
    simp only [sendStep] at moved
    split at moved <;> cases moved
    all_goals exact reads_of_phase (by simp [phase]) (by simp [phase])
  · cases moved
    exact reads_of_phase Phase.noConfusion Phase.noConfusion

theorem reads_of_reachable (short : (line stream).length < 2 ^ 30)
    (reached : (machine files table stream).Reachable state) : Reads stream state := by
  apply reached.invariant (Reads stream)
  · exact ⟨[], List.not_mem_nil, rfl, rfl, List.nil_prefix, ⟨3, by decide, rfl, rfl⟩, rfl, rfl⟩
  · intro before after action reads moved
    exact next_reads reads short moved

/-! ## A long line -/

theorem Gathered.next_byte (gathered : Gathered stream state received) (free : 10 ∉ received)
    (reached : (machine files table stream).Reachable state) (testing : state.phase = .testing)
    (short : received.length < 2 ^ 30) (more : received.length < (line stream).length) :
    ∃ after byte, (machine files table stream).Reachable after ∧ after.phase = .testing ∧ byte ≠ 10 ∧
      Gathered stream after (received ++ [byte]) := by
  obtain ⟨receiving, room, grown⟩ := gathered.grow short
  have left : line state.input ≠ [] := by
    intro none
    have whole := gathered.whole
    rw [← whole, line_append free, none, List.append_nil] at more
    exact absurd more (Nat.lt_irrefl _)
  have same : (growStep state).input = state.input :=
    List.append_cancel_left (grown.whole.trans gathered.whole.symm)
  cases arrived : state.input with
  | nil =>
      rw [arrived] at left
      exact absurd rfl left
  | cons byte input =>
      have other : byte ≠ 10 := by
        rintro rfl
        rw [arrived] at left
        exact left rfl
      obtain ⟨after, stepped, phase, longer⟩ := grown.receive short room (same.trans arrived)
      rw [if_neg other] at phase
      have grows : (machine files table stream).next state .compute = some (growStep state) := by
        simp only [machine, next, testing]
      have receives : (machine files table stream).next (growStep state) (.recv (.done 1)) = some after := by
        simp only [machine, next, receiving, stepped]
      exact ⟨after, byte, (reached.next _ grows).next _ receives, phase, other, longer⟩

theorem exists_gathered (count : Nat) (limit : count ≤ 2 ^ 30) (long : count ≤ (line stream).length) :
    ∃ state received, (machine files table stream).Reachable state ∧ state.phase = .testing ∧
      received.length = count ∧ 10 ∉ received ∧ Gathered stream state received := by
  induction count with
  | zero =>
      refine ⟨start table stream, [], Machine.reachable_init, rfl, rfl, List.not_mem_nil, ?_⟩
      exact ⟨rfl, rfl, List.nil_prefix, ⟨3, by decide, rfl, rfl⟩, rfl, rfl⟩
  | succ count ih =>
      obtain ⟨state, received, reached, testing, length, free, gathered⟩ := ih (by omega) (by omega)
      obtain ⟨after, byte, later, phase, other, longer⟩ :=
        gathered.next_byte free reached testing (by omega) (by omega)
      refine ⟨after, received ++ [byte], later, phase, by simp [length], ?_, longer⟩
      simp [free, Ne.symm other]

/-- After `2 ^ 30` bytes the buffer is full, and `cap` cannot be doubled. -/
theorem exists_full (files : List UInt8 → Option (List UInt8)) (table : Descriptors File) (long : 2 ^ 30 ≤ (line stream).length) :
    ∃ state, (machine files table stream).Reachable state ∧ ¬ state.InRange := by
  obtain ⟨state, received, reached, testing, length, -, gathered⟩ := exists_gathered (2 ^ 30) (Nat.le_refl _) long
  refine ⟨state, reached, fun inRange => ?_⟩
  have most := gathered.begins.length_le
  obtain ⟨-, count, -, ⟨exponent, limit, cap, size⟩, -⟩ := gathered
  have capacity : 2 ^ exponent ≤ 2 ^ 30 := Nat.pow_le_pow_right (by decide) limit
  have full : state.cap = 2 ^ 30 := by
    have exact : 2 ^ exponent = 2 ^ 30 := by omega
    rw [cap]
    exact_mod_cast exact
  have doubled := (inRange.doubles testing (by rw [count, length, full]; rfl)).2
  rw [full] at doubled
  exact absurd doubled (by decide)

/-- No `int` of `read_line` leaves its range in any session if and only if the line is
shorter than `2 ^ 30` bytes. -/
theorem read_line_in_range_iff (files : List UInt8 → Option (List UInt8)) (table : Descriptors File)
    (stream : List UInt8) :
    (∀ state, (machine files table stream).Reachable state → state.InRange) ↔ (line stream).length < 2 ^ 30 := by
  constructor
  · intro inRange
    by_contra long
    obtain ⟨state, reached, overflows⟩ := exists_full files table (Nat.not_lt.mp long)
    exact overflows (inRange state reached)
  · intro short state reached
    exact (reads_of_reachable short reached).inRange short

theorem line_replicate (count : Nat) : line (List.replicate count 97) = List.replicate count 97 := by
  induction count with
  | zero => rfl
  | succ count ih =>
      have rest : line (97 :: List.replicate count 97) = 97 :: line (List.replicate count 97) := rfl
      rw [List.replicate_succ, rest, ih]

theorem exists_line (count : Nat) : ∃ stream, count ≤ (line stream).length := by
  refine ⟨List.replicate count 97, ?_⟩
  rw [line_replicate, List.length_replicate]

/-- The line may have `2 ^ 30` bytes. -/
theorem long_line_overflows : ¬ ∀ (files : List UInt8 → Option (List UInt8)) (table : Descriptors File)
    (stream : List UInt8) (state : State), (machine files table stream).Reachable state → state.InRange := by
  intro inRange
  obtain ⟨stream, long⟩ := exists_line (2 ^ 30)
  obtain ⟨state, reached, overflows⟩ := exists_full (fun _ => none) ⟨[]⟩ long
  exact overflows (inRange _ _ _ state reached)

end SysProg.Process.FileServer
