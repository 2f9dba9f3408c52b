import SysProg.Library.Threads
import SysProg.Threading.RingBuffer
import Mathlib.Tactic

namespace SysProg.Threading.RingBuffer

open Function

variable {ι : Type}

/-! ## How far the threads have come -/

/-- The thread has accessed the buffer in this round of its loop. -/
def Phase.accessed : Phase → Nat
  | .advancing | .counting | .printing | .signalling | .unlocking | .sleeping => 1
  | _ => 0

/-- The rounds in which a thread of the role has accessed the buffer. -/
def Thread.rounds (role : Role) (thread : Thread) : Nat :=
  if thread.role = role then thread.i + thread.phase.accessed else 0

/-- The items a thread of the role is to handle. -/
def Thread.total (role : Role) (thread : Thread) : Nat := if thread.role = role then thread.n.toNat else 0

/-- The loop counter in each phase. -/
def Thread.InLoop (thread : Thread) : Prop :=
  match thread.phase with
  | .looping => thread.i ≤ thread.n.toNat
  | .returned => thread.i = thread.n.toNat
  | _ => thread.i < thread.n.toNat

theorem Thread.InLoop.rounds_le {thread : Thread} (inLoop : thread.InLoop) (role : Role) :
    thread.rounds role ≤ thread.total role := by
  simp only [Thread.rounds, Thread.total]
  split
  · cases phase : thread.phase <;> simp only [Thread.InLoop, phase, Phase.accessed] at inLoop ⊢ <;> omega
  · exact Nat.le_refl 0

/-! ## Who waits, and who will look or wake -/

def Thread.waits (role : Role) (thread : Thread) : Nat :=
  if thread.role = role ∧ thread.phase = .waiting then 1 else 0

/-- The thread is awake and has yet to change `count`, if it does not wait again. -/
def Thread.active (role : Role) (thread : Thread) : Nat :=
  if thread.role = role then
    match thread.phase with
    | .woken | .testing | .accessing | .advancing | .counting => 1
    | _ => 0
  else 0

/-- The thread has changed `count` and is yet to signal a thread of the role. -/
def Thread.notifies (role : Role) (thread : Thread) : Nat :=
  if thread.role ≠ role ∧ (thread.phase = .printing ∨ thread.phase = .signalling) then 1 else 0

/-- How often a thread of the role can pass its test. -/
def slack (count : Int) : Role → Int
  | .producer => bufferMax - count
  | .consumer => count

variable [Fintype ι]

structure Progress (state : State ι) : Prop where
  inLoop : ∀ who, (state.threads who).InLoop
  puts : state.produced.length = tally (Thread.rounds .producer) state.threads
  gets : state.consumed.length = tally (Thread.rounds .consumer) state.threads

/-- A thread of the role waits only while what it waits for is left to threads
that will look for it, or will signal. -/
def Awake (state : State ι) : Prop :=
  ∀ role, 0 < tally (Thread.waits role) state.threads →
    slack state.count role ≤ tally (Thread.active role) state.threads + tally (Thread.notifies role) state.threads

theorem progress_start (role : ι → Role) (n : ι → Int) : Progress (start role n) where
  inLoop := fun _ => Nat.zero_le _
  puts := by simp [start, tally, Thread.rounds, Phase.accessed]
  gets := by simp [start, tally, Thread.rounds, Phase.accessed]

theorem awake_start (role : ι → Role) (n : ι → Int) : Awake (start role n) := by
  simp [Awake, start, tally, Thread.waits]

variable [DecidableEq ι] {state after : State ι} {who : ι}

theorem Progress.move (progress : Progress state) (thread : Thread)
    (threads : after.threads = update state.threads who thread) (inLoop : thread.InLoop)
    (puts : after.produced.length + (state.threads who).rounds .producer =
      state.produced.length + thread.rounds .producer)
    (gets : after.consumed.length + (state.threads who).rounds .consumer =
      state.consumed.length + thread.rounds .consumer) : Progress after where
  inLoop := by
    rw [threads]
    exact (forall_update_iff state.threads fun _ thread => thread.InLoop).mpr
      ⟨inLoop, fun other _ => progress.inLoop other⟩
  puts := by
    have change := tally_update (Thread.rounds .producer) state.threads who thread
    have before := progress.puts
    rw [threads]
    omega
  gets := by
    have change := tally_update (Thread.rounds .consumer) state.threads who thread
    have before := progress.gets
    rw [threads]
    omega

theorem Awake.move (awake : Awake state) (thread : Thread)
    (threads : after.threads = update state.threads who thread)
    (owes : ∀ role, slack after.count role ≤ 0 ∨
      thread.waits role ≤ (state.threads who).waits role ∧
        slack after.count role + (state.threads who).active role + (state.threads who).notifies role ≤
          slack state.count role + thread.active role + thread.notifies role) : Awake after := by
  intro role waiting
  have waits := tally_update (Thread.waits role) state.threads who thread
  have active := tally_update (Thread.active role) state.threads who thread
  have notifies := tally_update (Thread.notifies role) state.threads who thread
  have before := awake role
  rw [threads] at waiting ⊢
  rcases owes role with nothing | ⟨fewer, more⟩ <;> omega

/-! ## Every step -/

theorem Progress.producerStep (progress : Progress state) (role : (state.threads who).role = .producer)
    (moved : producerStep state who = some after) : Progress after := by
  have inLoop := progress.inLoop who
  simp only [RingBuffer.producerStep, lock] at moved
  cases phase : (state.threads who).phase <;> simp only [phase, Thread.InLoop] at moved inLoop <;> try split at moved
  all_goals try contradiction
  all_goals cases moved
  all_goals apply progress.move _ rfl
  all_goals
    simp only [State.go, State.set, Thread.InLoop, Thread.rounds, Phase.accessed, role, phase, reduceCtorEq,
      if_true, if_false, List.length_append, List.length_singleton] <;> omega

theorem Progress.consumerStep (progress : Progress state) (role : (state.threads who).role = .consumer)
    (moved : consumerStep state who = some after) : Progress after := by
  have inLoop := progress.inLoop who
  simp only [RingBuffer.consumerStep, lock] at moved
  cases phase : (state.threads who).phase <;> simp only [phase, Thread.InLoop] at moved inLoop <;> try split at moved
  all_goals try contradiction
  all_goals cases moved
  all_goals apply progress.move _ rfl
  all_goals
    simp only [State.go, State.set, Thread.InLoop, Thread.rounds, Phase.accessed, role, phase, reduceCtorEq,
      if_true, if_false, List.length_append, List.length_singleton] <;> omega

theorem Awake.producerStep (awake : Awake state) (role : (state.threads who).role = .producer)
    (moved : producerStep state who = some after) : Awake after := by
  simp only [RingBuffer.producerStep, lock] at moved
  cases phase : (state.threads who).phase <;> simp only [phase] at moved <;> try split at moved
  all_goals try contradiction
  all_goals cases moved
  all_goals
    apply awake.move _ rfl
    intro other
    cases other <;> simp [State.go, State.set, Thread.waits, Thread.active, Thread.notifies, slack, role, phase] <;> omega

theorem Awake.consumerStep (awake : Awake state) (role : (state.threads who).role = .consumer)
    (moved : consumerStep state who = some after) : Awake after := by
  simp only [RingBuffer.consumerStep, lock] at moved
  cases phase : (state.threads who).phase <;> simp only [phase] at moved <;> try split at moved
  all_goals try contradiction
  all_goals cases moved
  all_goals
    apply awake.move _ rfl
    intro other
    cases other <;> simp [State.go, State.set, Thread.waits, Thread.active, Thread.notifies, slack, role, phase] <;> omega

theorem Progress.go (progress : Progress state) (phase : Phase) (inLoop : ({ state.threads who with phase } : Thread).InLoop)
    (accessed : phase.accessed = (state.threads who).phase.accessed) : Progress (state.go who phase) := by
  apply progress.move { state.threads who with phase } rfl inLoop
  · simp [State.go, State.set, Thread.rounds, accessed]
  · simp [State.go, State.set, Thread.rounds, accessed]

theorem Progress.wakes (progress : Progress state) (phase : (state.threads who).phase = .waiting) :
    Progress (state.go who .woken) := by
  have inLoop := progress.inLoop who
  simp only [Thread.InLoop, phase] at inLoop
  exact progress.go .woken inLoop (by rw [phase]; rfl)

theorem Awake.wakes (awake : Awake state) (phase : (state.threads who).phase = .waiting) :
    Awake (state.go who .woken) := by
  apply awake.move _ rfl
  intro role
  refine .inr ⟨by simp [Thread.waits, phase], ?_⟩
  by_cases same : (state.threads who).role = role
  · simp [State.go, State.set, Thread.active, Thread.notifies, phase, same]
  · simp [State.go, State.set, Thread.active, Thread.notifies, phase, same]

variable {waiter : Option ι}

omit [Fintype ι] in
theorem go_threads_of_ne {other : ι} (different : other ≠ who) (phase : Phase) :
    (state.go who phase).threads other = state.threads other :=
  update_of_ne different _ _

omit [Fintype ι] in
theorem go_constant (state : State ι) (who : ι) (phase : Phase) (other : ι) :
    ((state.go who phase).threads other).role = (state.threads other).role ∧
      ((state.go who phase).threads other).n = (state.threads other).n := by
  by_cases same : other = who
  · subst same
    simp [State.go, State.set]
  · simp [go_threads_of_ne same]

/-- A signal wakes one thread that waits for it, or there is none. -/
theorem signalStep_cases (moved : signalStep state who waiter = some after) :
    (state.threads who).phase = .signalling ∧
      ((∃ woken, woken ≠ who ∧ (state.threads woken).waitsFor (state.threads who).role ∧
          after = (state.go who .unlocking).go woken .woken) ∨
        (∀ other, ¬ (state.threads other).waitsFor (state.threads who).role) ∧ after = state.go who .unlocking) := by
  simp only [signalStep] at moved
  split at moved
  · refine ⟨‹_›, ?_⟩
    split at moved
    · rename_i woken
      split at moved
      · rename_i waits
        cases moved
        exact .inl ⟨woken, fun same => waits.1 (same ▸ rfl), waits, rfl⟩
      · contradiction
    · split at moved
      · cases moved
        exact .inr ⟨‹_›, rfl⟩
      · contradiction
  · contradiction

theorem Progress.signalStep (progress : Progress state) (moved : signalStep state who waiter = some after) :
    Progress after := by
  obtain ⟨phase, outcome⟩ := signalStep_cases moved
  have inLoop := progress.inLoop who
  simp only [Thread.InLoop, phase] at inLoop
  have signalled : Progress (state.go who .unlocking) := progress.go .unlocking inLoop (by rw [phase]; rfl)
  rcases outcome with ⟨woken, different, waits, rfl⟩ | ⟨-, rfl⟩
  · apply signalled.wakes
    rw [go_threads_of_ne different]
    exact waits.2
  · exact signalled

theorem Role.eq_of_ne {first second third : Role} (one : first ≠ second) (two : third ≠ second) : first = third := by
  cases first <;> cases second <;> cases third <;> simp_all

/-- The signal passes the duty to look on to the thread it wakes. -/
theorem Awake.handOver (awake : Awake state) {woken : ι} {first second : Thread} (different : woken ≠ who)
    (threads : after.threads = update (update state.threads who first) woken second)
    (count : after.count = state.count) (phase : (state.threads who).phase = .signalling)
    (waits : (state.threads woken).waitsFor (state.threads who).role)
    (unlocking : first.role = (state.threads who).role ∧ first.phase = .unlocking)
    (isWoken : second.role = (state.threads woken).role ∧ second.phase = .woken) : Awake after := by
  obtain ⟨other, blocked⟩ := waits
  intro role waiting
  have before := awake role
  have waits := tally_update_two (Thread.waits role) state.threads different first second
  have active := tally_update_two (Thread.active role) state.threads different first second
  have notifies := tally_update_two (Thread.notifies role) state.threads different first second
  rw [threads] at waiting ⊢
  rw [count]
  by_cases mine : (state.threads who).role = role
  · subst mine
    simp [Thread.waits, phase, unlocking, isWoken, other] at waits
    simp [Thread.active, phase, unlocking, isWoken, other] at active
    simp [Thread.notifies, phase, unlocking, isWoken, blocked] at notifies
    omega
  · have same := Role.eq_of_ne other (Ne.symm mine)
    simp [Thread.waits, phase, unlocking, isWoken, blocked, same] at waits
    simp [Thread.active, phase, unlocking, isWoken, blocked, same] at active
    simp [Thread.notifies, phase, unlocking, isWoken, blocked, mine] at notifies
    omega

theorem Awake.unheard (awake : Awake state) {first : Thread}
    (threads : after.threads = update state.threads who first) (count : after.count = state.count)
    (phase : (state.threads who).phase = .signalling)
    (nobody : ∀ other, ¬ (state.threads other).waitsFor (state.threads who).role)
    (unlocking : first.role = (state.threads who).role ∧ first.phase = .unlocking) : Awake after := by
  intro role waiting
  have before := awake role
  have waits := tally_update (Thread.waits role) state.threads who first
  have active := tally_update (Thread.active role) state.threads who first
  have notifies := tally_update (Thread.notifies role) state.threads who first
  simp [Thread.waits, phase, unlocking] at waits
  simp [Thread.active, phase, unlocking] at active
  rw [threads] at waiting ⊢
  rw [waits] at waiting
  rw [count]
  by_cases mine : (state.threads who).role = role
  · simp [Thread.notifies, phase, unlocking, mine] at notifies
    omega
  · obtain ⟨blocked, isWaiting⟩ := tally_pos.mp waiting
    simp only [Thread.waits] at isWaiting
    split at isWaiting
    · rename_i waits
      exact absurd ⟨waits.1 ▸ Ne.symm mine, waits.2⟩ (nobody blocked)
    · contradiction

theorem Awake.signalStep (awake : Awake state) (moved : signalStep state who waiter = some after) :
    Awake after := by
  obtain ⟨phase, outcome⟩ := signalStep_cases moved
  rcases outcome with ⟨woken, different, waits, rfl⟩ | ⟨nobody, rfl⟩
  · exact awake.handOver different rfl rfl phase waits ⟨rfl, rfl⟩
      ⟨by rw [go_threads_of_ne different], rfl⟩
  · exact awake.unheard rfl rfl phase nobody ⟨rfl, rfl⟩

theorem Progress.next (progress : Progress state) {action : Action ι} (moved : next state action = some after) :
    Progress after := by
  cases action with
  | step who =>
      simp only [RingBuffer.next] at moved
      split at moved
      · exact progress.producerStep ‹_› moved
      · exact progress.consumerStep ‹_› moved
  | signal who waiter => exact progress.signalStep moved
  | spurious waiter =>
      simp only [RingBuffer.next] at moved
      split at moved
      · cases moved
        exact progress.wakes ‹_›
      · contradiction

theorem Awake.next (awake : Awake state) {action : Action ι} (moved : next state action = some after) :
    Awake after := by
  cases action with
  | step who =>
      simp only [RingBuffer.next] at moved
      split at moved
      · exact awake.producerStep ‹_› moved
      · exact awake.consumerStep ‹_› moved
  | signal who waiter => exact awake.signalStep moved
  | spurious waiter =>
      simp only [RingBuffer.next] at moved
      split at moved
      · cases moved
        exact awake.wakes ‹_›
      · contradiction

theorem next_constant {action : Action ι} (moved : next state action = some after) (other : ι) :
    (after.threads other).role = (state.threads other).role ∧ (after.threads other).n = (state.threads other).n := by
  cases action with
  | step who =>
      simp only [next, RingBuffer.producerStep, RingBuffer.consumerStep, lock] at moved
      cases role : (state.threads who).role <;> cases phase : (state.threads who).phase <;>
        simp only [role, phase] at moved <;> try split at moved
      all_goals try contradiction
      all_goals cases moved
      all_goals try exact go_constant state who _ other
      all_goals
        by_cases same : other = who
        · subst same
          simp [State.set, role]
        · simp [State.set, update_of_ne same]
  | signal who waiter =>
      obtain ⟨-, outcome⟩ := signalStep_cases moved
      have first := go_constant state who .unlocking other
      rcases outcome with ⟨woken, -, -, rfl⟩ | ⟨-, rfl⟩
      · have second := go_constant (state.go who .unlocking) woken .woken other
        exact ⟨second.1.trans first.1, second.2.trans first.2⟩
      · exact first
  | spurious waiter =>
      simp only [next] at moved
      split at moved
      · cases moved
        exact go_constant state waiter .woken other
      · contradiction

variable {role : ι → Role} {n : ι → Int}

theorem constant_of_reachable (reached : (machine role n).Reachable state) (who : ι) :
    (state.threads who).role = role who ∧ (state.threads who).n = n who := by
  apply reached.invariant fun state => (state.threads who).role = role who ∧ (state.threads who).n = n who
  · exact ⟨rfl, rfl⟩
  · intro before after action same moved
    have constant := next_constant moved who
    exact ⟨constant.1.trans same.1, constant.2.trans same.2⟩

theorem progress_of_reachable (reached : (machine role n).Reachable state) : Progress state :=
  reached.invariant Progress (progress_start role n) fun progress moved => progress.next moved

theorem awake_of_reachable (reached : (machine role n).Reachable state) : Awake state :=
  reached.invariant Awake (awake_start role n) fun awake moved => awake.next moved

end SysProg.Threading.RingBuffer
