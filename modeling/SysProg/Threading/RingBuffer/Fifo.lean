import SysProg.Library.Circular
import SysProg.Threading.RingBuffer.Progress

namespace SysProg.Threading.RingBuffer

open Function

variable {ι : Type}

/-! ## What a phase stands for -/

/-- The thread holds the mutex. -/
def Thread.critical (thread : Thread) : Bool :=
  match thread.phase with
  | .testing | .accessing | .advancing | .counting | .printing | .signalling | .unlocking => true
  | _ => false

/-- The thread has accessed the buffer and not yet moved its pointer. -/
def Thread.behind (role : Role) (thread : Thread) : Nat :=
  if thread.role = role ∧ thread.phase = .advancing then 1 else 0

/-- The thread has accessed the buffer and not yet changed `count`. -/
def Thread.uncounted (role : Role) (thread : Thread) : Nat :=
  if thread.role = role ∧ (thread.phase = .advancing ∨ thread.phase = .counting) then 1 else 0

/-- The test of the wait loop that the thread has passed still holds. -/
def Thread.Passed (count : Int) (thread : Thread) : Prop :=
  thread.phase = .accessing →
    match thread.role with
    | .producer => count ≠ bufferMax
    | .consumer => count ≠ 0

variable [Fintype ι]

structure Ring (state : State ι) : Prop where
  owner : ∀ who, (state.threads who).critical = true → state.mutex = some who
  passed : ∀ who, (state.threads who).Passed state.count
  fill : (state.fillPtr + tally (Thread.behind .producer) state.threads) % bufferMax =
    state.produced.length % bufferMax
  use : (state.usePtr + tally (Thread.behind .consumer) state.threads) % bufferMax =
    state.consumed.length % bufferMax
  pointers : state.fillPtr < bufferMax ∧ state.usePtr < bufferMax
  count : state.count + tally (Thread.uncounted .producer) state.threads + state.consumed.length =
    state.produced.length + tally (Thread.uncounted .consumer) state.threads
  window : Window bufferMax state.buffer state.produced state.consumed.length
  marked : Marked bufferMax state.consumed.length state.produced.length state.unread
  fifo : state.consumed <+: state.produced

theorem ring_start (role : ι → Role) (n : ι → Int) : Ring (start role n) where
  owner := by simp [start, Thread.critical]
  passed := by simp [start, Thread.Passed]
  fill := by simp [start, tally, Thread.behind]
  use := by simp [start, tally, Thread.behind]
  pointers := by simp [start, bufferMax]
  count := by simp [start, tally, Thread.uncounted]
  window := ⟨Nat.le_refl 0, Nat.zero_le _, by simp [start]⟩
  marked := by simp [start, Marked]
  fifo := List.prefix_refl []

variable {state : State ι}

theorem Thread.outside {thread : Thread} (out : thread.critical = false) (role : Role) :
    thread.behind role = 0 ∧ thread.uncounted role = 0 := by
  cases phase : thread.phase <;> simp [Thread.critical, Thread.behind, Thread.uncounted, phase] at out ⊢

theorem Ring.outside (ring : Ring state) {who other : ι} (critical : (state.threads who).critical = true)
    (different : other ≠ who) : (state.threads other).critical = false := by
  by_contra both
  have same := (ring.owner other (by simpa using both)).symm.trans (ring.owner who critical)
  exact different (Option.some.inj same)

theorem Ring.holder (ring : Ring state) {who : ι} (critical : (state.threads who).critical = true) (role : Role) :
    tally (Thread.behind role) state.threads = (state.threads who).behind role ∧
      tally (Thread.uncounted role) state.threads = (state.threads who).uncounted role :=
  ⟨tally_eq_single fun _ other => (Thread.outside (ring.outside critical other) role).1,
    tally_eq_single fun _ other => (Thread.outside (ring.outside critical other) role).2⟩

theorem Ring.free (ring : Ring state) (free : state.mutex = none) (role : Role) :
    tally (Thread.behind role) state.threads = 0 ∧ tally (Thread.uncounted role) state.threads = 0 := by
  have out : ∀ who, (state.threads who).critical = false := by
    intro who
    by_contra critical
    have held := ring.owner who (by simpa using critical)
    rw [free] at held
    contradiction
  exact ⟨tally_eq_zero.mpr fun who => (Thread.outside (out who) role).1,
    tally_eq_zero.mpr fun who => (Thread.outside (out who) role).2⟩

variable [DecidableEq ι] {who : ι}

theorem Ring.move (ring : Ring state) {thread : Thread} {mutex : Option ι} {printed : List String}
    (behind : ∀ role, thread.behind role = (state.threads who).behind role)
    (uncounted : ∀ role, thread.uncounted role = (state.threads who).uncounted role)
    (passed : thread.Passed state.count) (held : thread.critical = true → mutex = some who)
    (others : ∀ other, other ≠ who → (state.threads other).critical = true → mutex = some other) :
    Ring { state.set who thread with mutex, printed } := by
  have behinds : ∀ role, tally (Thread.behind role) (update state.threads who thread) =
      tally (Thread.behind role) state.threads := by
    intro role
    have change := tally_update (Thread.behind role) state.threads who thread
    rw [behind role] at change
    omega
  have uncounteds : ∀ role, tally (Thread.uncounted role) (update state.threads who thread) =
      tally (Thread.uncounted role) state.threads := by
    intro role
    have change := tally_update (Thread.uncounted role) state.threads who thread
    rw [uncounted role] at change
    omega
  exact {
    owner := (forall_update_iff state.threads fun other thread => thread.critical = true → mutex = some other).mpr
      ⟨held, others⟩
    passed := (forall_update_iff state.threads fun _ thread => thread.Passed state.count).mpr
      ⟨passed, fun other _ => ring.passed other⟩
    fill := by simpa only [State.set, behinds] using ring.fill
    use := by simpa only [State.set, behinds] using ring.use
    pointers := ring.pointers
    count := by simpa only [State.set, uncounteds] using ring.count
    window := ring.window
    marked := ring.marked
    fifo := ring.fifo }

/-! ## The statements of `put` and `get` -/

omit [DecidableEq ι] in
theorem Ring.view (ring : Ring state) (critical : (state.threads who).critical = true) :
    (state.fillPtr + (state.threads who).behind .producer) % bufferMax = state.produced.length % bufferMax ∧
      (state.usePtr + (state.threads who).behind .consumer) % bufferMax = state.consumed.length % bufferMax ∧
      state.count + (state.threads who).uncounted .producer + state.consumed.length =
        state.produced.length + (state.threads who).uncounted .consumer := by
  have fill := ring.fill
  have use := ring.use
  have count := ring.count
  rw [(ring.holder critical .producer).1] at fill
  rw [(ring.holder critical .consumer).1] at use
  rw [(ring.holder critical .producer).2, (ring.holder critical .consumer).2] at count
  exact ⟨fill, use, count⟩

/-- A step in the critical section, where only the moving thread counts. -/
theorem Ring.act (ring : Ring state) (critical : (state.threads who).critical = true) (thread : Thread)
    {after : State ι} (threads : after.threads = update state.threads who thread) (mutex : after.mutex = state.mutex)
    (elsewhere : thread.phase ≠ .accessing)
    (fill : (after.fillPtr + thread.behind .producer) % bufferMax = after.produced.length % bufferMax)
    (use : (after.usePtr + thread.behind .consumer) % bufferMax = after.consumed.length % bufferMax)
    (pointers : after.fillPtr < bufferMax ∧ after.usePtr < bufferMax)
    (count : after.count + thread.uncounted .producer + after.consumed.length =
      after.produced.length + thread.uncounted .consumer)
    (window : Window bufferMax after.buffer after.produced after.consumed.length)
    (marked : Marked bufferMax after.consumed.length after.produced.length after.unread)
    (fifo : after.consumed <+: after.produced) : Ring after := by
  have others : ∀ other, other ≠ who → (update state.threads who thread other).critical = false := by
    intro other different
    rw [update_of_ne different]
    exact ring.outside critical different
  have behind : ∀ role, tally (Thread.behind role) after.threads = thread.behind role := by
    intro role
    rw [threads, tally_eq_single fun other different => (Thread.outside (others other different) role).1, update_self]
  have uncounted : ∀ role, tally (Thread.uncounted role) after.threads = thread.uncounted role := by
    intro role
    rw [threads, tally_eq_single fun other different => (Thread.outside (others other different) role).2, update_self]
  refine ⟨?_, ?_, ?_, ?_, pointers, ?_, window, marked, fifo⟩
  · rw [threads, mutex]
    apply (forall_update_iff state.threads fun other thread => thread.critical = true → state.mutex = some other).mpr
    exact ⟨fun _ => ring.owner who critical, fun other _ => ring.owner other⟩
  · rw [threads]
    apply (forall_update_iff state.threads fun _ thread => thread.Passed after.count).mpr
    refine ⟨fun accessing => absurd accessing elsewhere, ?_⟩
    intro other different accessing
    have out := ring.outside critical different
    simp [Thread.critical, accessing] at out
  · rw [behind]
    exact fill
  · rw [behind]
    exact use
  · rw [uncounted, uncounted]
    exact count

theorem Ring.store (ring : Ring state) (role : (state.threads who).role = .producer)
    (phase : (state.threads who).phase = .accessing) (value : Int) :
    state.unread state.fillPtr = false ∧
    Ring { state.go who .advancing with
      buffer := update state.buffer state.fillPtr value
      unread := update state.unread state.fillPtr true
      produced := state.produced ++ [value] } := by
  have critical : (state.threads who).critical = true := by simp [Thread.critical, phase]
  have passed := ring.passed who phase
  obtain ⟨fill, use, count⟩ := ring.view critical
  simp only [role] at passed
  simp [Thread.behind, Thread.uncounted, role, phase] at fill use count
  have full := ring.window.length_le
  have room : state.produced.length < state.consumed.length + bufferMax := by omega
  have slot : state.fillPtr = state.produced.length % bufferMax := by
    rw [← fill, Nat.mod_eq_of_lt ring.pointers.1]
  rw [slot]
  refine ⟨ring.marked.unmarked room, ?_⟩
  apply ring.act critical { state.threads who with phase := .advancing }
  · rfl
  · rfl
  · simp
  · simp [State.go, State.set, Thread.behind, role, slot]
  · simpa [State.go, State.set, Thread.behind, role] using use
  · exact ring.pointers
  · simp [State.go, State.set, Thread.uncounted, role]
    omega
  · exact ring.window.push room value
  · simpa [State.go, State.set] using ring.marked.push ring.window.start_le
  · exact ring.fifo.trans (List.prefix_append _ _)

theorem Ring.advanceFill (ring : Ring state) (role : (state.threads who).role = .producer)
    (phase : (state.threads who).phase = .advancing) :
    Ring { state.go who .counting with fillPtr := (state.fillPtr + 1) % bufferMax } := by
  have critical : (state.threads who).critical = true := by simp [Thread.critical, phase]
  obtain ⟨fill, use, count⟩ := ring.view critical
  simp [Thread.behind, Thread.uncounted, role, phase] at fill use count
  apply ring.act critical { state.threads who with phase := .counting }
  · rfl
  · rfl
  · simp
  · simpa [State.go, State.set, Thread.behind] using fill
  · simpa [State.go, State.set, Thread.behind] using use
  · exact ⟨Nat.mod_lt _ (by decide), ring.pointers.2⟩
  · simpa [State.go, State.set, Thread.uncounted, role] using count
  · exact ring.window
  · exact ring.marked
  · exact ring.fifo

theorem Ring.countUp (ring : Ring state) (role : (state.threads who).role = .producer)
    (phase : (state.threads who).phase = .counting) :
    Ring { state.go who .printing with count := state.count + 1 } := by
  have critical : (state.threads who).critical = true := by simp [Thread.critical, phase]
  obtain ⟨fill, use, count⟩ := ring.view critical
  simp [Thread.behind, Thread.uncounted, role, phase] at fill use count
  apply ring.act critical { state.threads who with phase := .printing }
  · rfl
  · rfl
  · simp
  · simpa [State.go, State.set, Thread.behind] using fill
  · simpa [State.go, State.set, Thread.behind] using use
  · exact ring.pointers
  · simpa [State.go, State.set, Thread.uncounted] using count
  · exact ring.window
  · exact ring.marked
  · exact ring.fifo

theorem Ring.load (ring : Ring state) (role : (state.threads who).role = .consumer)
    (phase : (state.threads who).phase = .accessing) :
    state.unread state.usePtr = true ∧
    Ring { state.set who { state.threads who with tmp := state.buffer state.usePtr, phase := .advancing } with
      unread := update state.unread state.usePtr false
      consumed := state.consumed ++ [state.buffer state.usePtr] } := by
  have critical : (state.threads who).critical = true := by simp [Thread.critical, phase]
  have passed := ring.passed who phase
  obtain ⟨fill, use, count⟩ := ring.view critical
  simp only [role] at passed
  simp [Thread.behind, Thread.uncounted, role, phase] at fill use count
  have ordered := ring.window.start_le
  have nonempty : state.consumed.length < state.produced.length := by omega
  have slot : state.usePtr = state.consumed.length % bufferMax := by
    rw [← use, Nat.mod_eq_of_lt ring.pointers.2]
  have first := ring.window.first nonempty
  rw [slot]
  refine ⟨ring.marked.first nonempty, ?_⟩
  apply ring.act critical
    { state.threads who with tmp := state.buffer (state.consumed.length % bufferMax), phase := .advancing }
  · rfl
  · rfl
  · simp
  · simpa [State.set, Thread.behind, role] using fill
  · simp [State.set, Thread.behind, role, slot]
  · exact ring.pointers
  · simp [State.set, Thread.uncounted, role]
    omega
  · simpa [State.set] using ring.window.pop nonempty
  · simpa [State.set] using ring.marked.pop ring.window.length_le
  · have taken := List.prefix_iff_eq_take.mp ring.fifo
    rw [List.prefix_iff_eq_take, List.length_append, List.length_singleton, List.take_add_one]
    simp only [State.set, ← taken, first, Option.toList_some]

theorem Ring.advanceUse (ring : Ring state) (role : (state.threads who).role = .consumer)
    (phase : (state.threads who).phase = .advancing) :
    Ring { state.go who .counting with usePtr := (state.usePtr + 1) % bufferMax } := by
  have critical : (state.threads who).critical = true := by simp [Thread.critical, phase]
  obtain ⟨fill, use, count⟩ := ring.view critical
  simp [Thread.behind, Thread.uncounted, role, phase] at fill use count
  apply ring.act critical { state.threads who with phase := .counting }
  · rfl
  · rfl
  · simp
  · simpa [State.go, State.set, Thread.behind] using fill
  · simpa [State.go, State.set, Thread.behind] using use
  · exact ⟨ring.pointers.1, Nat.mod_lt _ (by decide)⟩
  · simpa [State.go, State.set, Thread.uncounted, role] using count
  · exact ring.window
  · exact ring.marked
  · exact ring.fifo

theorem Ring.countDown (ring : Ring state) (role : (state.threads who).role = .consumer)
    (phase : (state.threads who).phase = .counting) :
    Ring { state.go who .printing with count := state.count - 1 } := by
  have critical : (state.threads who).critical = true := by simp [Thread.critical, phase]
  obtain ⟨fill, use, count⟩ := ring.view critical
  simp [Thread.behind, Thread.uncounted, role, phase] at fill use count
  apply ring.act critical { state.threads who with phase := .printing }
  · rfl
  · rfl
  · simp
  · simpa [State.go, State.set, Thread.behind] using fill
  · simpa [State.go, State.set, Thread.behind] using use
  · exact ring.pointers
  · simp [State.go, State.set, Thread.uncounted]
    omega
  · exact ring.window
  · exact ring.marked
  · exact ring.fifo

/-! ## Every step -/

theorem Ring.goes (ring : Ring state) (phase : Phase) {mutex : Option ι} {printed : List String}
    (before : (state.threads who).phase ≠ .advancing ∧ (state.threads who).phase ≠ .counting)
    (after : phase ≠ .advancing ∧ phase ≠ .counting)
    (passed : ({ state.threads who with phase } : Thread).Passed state.count)
    (held : ({ state.threads who with phase } : Thread).critical = true → mutex = some who)
    (others : ∀ other, other ≠ who → (state.threads other).critical = true → mutex = some other) :
    Ring { state.go who phase with mutex, printed } := by
  apply ring.move
  · intro role
    simp [Thread.behind, before, after]
  · intro role
    simp [Thread.uncounted, before, after]
  · exact passed
  · exact held
  · exact others

theorem Ring.loops (ring : Ring state) (phase : (state.threads who).phase = .looping) (more : Prop)
    [Decidable more] : Ring (state.go who (if more then .locking else .returned)) := by
  apply ring.goes
  · simp [phase]
  · split <;> simp
  · split <;> simp [Thread.Passed]
  · split <;> simp [Thread.critical]
  · exact fun other _ => ring.owner other

theorem Ring.lock (ring : Ring state) {after : State ι}
    (before : (state.threads who).phase ≠ .advancing ∧ (state.threads who).phase ≠ .counting)
    (moved : lock state who = some after) : Ring after := by
  simp only [RingBuffer.lock] at moved
  split at moved
  · rename_i free
    cases moved
    apply ring.goes .testing before (by simp) (by simp [Thread.Passed]) fun _ => rfl
    intro other _ critical
    have held := ring.owner other critical
    rw [free] at held
    contradiction
  · contradiction

omit [DecidableEq ι] in
theorem Ring.nobody (ring : Ring state) (critical : (state.threads who).critical = true) {mutex : Option ι}
    (other : ι) (different : other ≠ who) (both : (state.threads other).critical = true) : mutex = some other := by
  have out := ring.outside critical different
  rw [both] at out
  contradiction

theorem Ring.leaves (ring : Ring state) (critical : (state.threads who).critical = true)
    (before : (state.threads who).phase ≠ .advancing ∧ (state.threads who).phase ≠ .counting)
    (phase : Phase) (outside : phase = .waiting ∨ phase = .sleeping) :
    Ring { state.go who phase with mutex := none } := by
  rcases outside with rfl | rfl
  · exact ring.goes .waiting before (by simp) (by simp [Thread.Passed]) (by simp [Thread.critical]) fun other => ring.nobody critical other
  · exact ring.goes .sleeping before (by simp) (by simp [Thread.Passed]) (by simp [Thread.critical]) fun other => ring.nobody critical other

theorem Ring.passes (ring : Ring state) (phase : (state.threads who).phase = .testing)
    (passed : match (state.threads who).role with
      | .producer => state.count ≠ bufferMax
      | .consumer => state.count ≠ 0) : Ring (state.go who .accessing) := by
  have critical : (state.threads who).critical = true := by simp [Thread.critical, phase]
  exact ring.goes .accessing (by simp [phase]) (by simp) (fun _ => passed)
    (fun _ => ring.owner who critical) fun other _ => ring.owner other

theorem Ring.prints (ring : Ring state) (phase : (state.threads who).phase = .printing) (printed : List String) :
    Ring { state.go who .signalling with printed } := by
  have critical : (state.threads who).critical = true := by simp [Thread.critical, phase]
  exact ring.goes .signalling (by simp [phase]) (by simp) (by simp [Thread.Passed]) (fun _ => ring.owner who critical)
    fun other _ => ring.owner other

theorem Ring.rounds (ring : Ring state) {thread : Thread} {mutex : Option ι} (looping : thread.phase = .looping)
    (before : (state.threads who).phase ≠ .advancing ∧ (state.threads who).phase ≠ .counting)
    (others : ∀ other, other ≠ who → (state.threads other).critical = true → mutex = some other) :
    Ring { state.set who thread with mutex } := by
  apply ring.move
  · simp [Thread.behind, before, looping]
  · simp [Thread.uncounted, before, looping]
  · simp [Thread.Passed, looping]
  · simp [Thread.critical, looping]
  · exact others

theorem Ring.producerStep (ring : Ring state) {after : State ι} (role : (state.threads who).role = .producer)
    (moved : producerStep state who = some after) : Ring after := by
  simp only [RingBuffer.producerStep] at moved
  cases phase : (state.threads who).phase with
  | looping =>
      simp only [phase] at moved
      cases moved
      exact ring.loops phase _
  | locking | woken =>
      simp only [phase] at moved
      exact ring.lock (by simp [phase]) moved
  | testing =>
      simp only [phase] at moved
      split at moved
      · cases moved
        exact ring.leaves (by simp [Thread.critical, phase]) (by simp [phase]) .waiting (.inl rfl)
      · cases moved
        exact ring.passes phase (by simpa only [role])
  | accessing =>
      simp only [phase] at moved
      cases moved
      exact (ring.store role phase _).2
  | advancing =>
      simp only [phase] at moved
      cases moved
      exact ring.advanceFill role phase
  | counting =>
      simp only [phase] at moved
      cases moved
      exact ring.countUp role phase
  | printing =>
      simp only [phase] at moved
      cases moved
      exact ring.prints phase _
  | unlocking =>
      simp only [phase] at moved
      cases moved
      exact ring.leaves (by simp [Thread.critical, phase]) (by simp [phase]) .sleeping (.inr rfl)
  | sleeping =>
      simp only [phase] at moved
      cases moved
      exact ring.rounds rfl (by simp [phase]) fun other _ => ring.owner other
  | waiting | signalling | returned => simp [phase] at moved

theorem Ring.consumerStep (ring : Ring state) {after : State ι} (role : (state.threads who).role = .consumer)
    (moved : consumerStep state who = some after) : Ring after := by
  simp only [RingBuffer.consumerStep] at moved
  cases phase : (state.threads who).phase with
  | looping =>
      simp only [phase] at moved
      cases moved
      exact ring.loops phase _
  | locking | woken =>
      simp only [phase] at moved
      exact ring.lock (by simp [phase]) moved
  | testing =>
      simp only [phase] at moved
      split at moved
      · cases moved
        exact ring.leaves (by simp [Thread.critical, phase]) (by simp [phase]) .waiting (.inl rfl)
      · cases moved
        exact ring.passes phase (by simpa only [role])
  | accessing =>
      simp only [phase] at moved
      cases moved
      exact (ring.load role phase).2
  | advancing =>
      simp only [phase] at moved
      cases moved
      exact ring.advanceUse role phase
  | counting =>
      simp only [phase] at moved
      cases moved
      exact ring.countDown role phase
  | printing =>
      simp only [phase] at moved
      cases moved
      exact ring.prints phase _
  | unlocking =>
      simp only [phase] at moved
      cases moved
      exact ring.rounds rfl (by simp [phase]) fun other => ring.nobody (by simp [Thread.critical, phase]) other
  | waiting | signalling | sleeping | returned => simp [phase] at moved

theorem Ring.wakes (ring : Ring state) (phase : (state.threads who).phase = .waiting) :
    Ring (state.go who .woken) :=
  ring.goes .woken (by simp [phase]) (by simp) (by simp [Thread.Passed]) (by simp [Thread.critical]) fun other _ => ring.owner other

theorem Ring.signalStep (ring : Ring state) {waiter : Option ι} {after : State ι}
    (moved : signalStep state who waiter = some after) : Ring after := by
  obtain ⟨phase, outcome⟩ := signalStep_cases moved
  have critical : (state.threads who).critical = true := by simp [Thread.critical, phase]
  have signalled : Ring (state.go who .unlocking) :=
    ring.goes .unlocking (by simp [phase]) (by simp) (by simp [Thread.Passed]) (fun _ => ring.owner who critical)
      fun other _ => ring.owner other
  rcases outcome with ⟨woken, different, waits, rfl⟩ | ⟨-, rfl⟩
  · apply signalled.wakes
    rw [go_threads_of_ne different]
    exact waits.2
  · exact signalled

theorem Ring.next (ring : Ring state) {after : State ι} {action : Action ι} (moved : next state action = some after) :
    Ring after := by
  simp only [RingBuffer.next] at moved
  cases action with
  | step who =>
      simp only at moved
      split at moved
      · exact ring.producerStep ‹_› moved
      · exact ring.consumerStep ‹_› moved
  | signal who waiter => exact ring.signalStep moved
  | spurious waiter =>
      simp only at moved
      split at moved
      · cases moved
        exact ring.wakes ‹_›
      · contradiction

theorem ring_of_reachable {role : ι → Role} {n : ι → Int} (reached : (machine role n).Reachable state) : Ring state :=
  reached.invariant Ring (ring_start role n) fun ring moved => ring.next moved

/-! ## The queue -/

/-- The values in the buffer, oldest first. -/
def State.contents (state : State ι) : List Int :=
  (List.range state.count.toNat).map fun k => state.buffer ((state.usePtr + k) % bufferMax)

omit [DecidableEq ι] in
theorem Ring.settled (ring : Ring state) (free : state.mutex = none) :
    0 ≤ state.count ∧ state.count ≤ bufferMax ∧
      (state.fillPtr : Int) = (state.usePtr + state.count) % bufferMax ∧
      state.consumed ++ state.contents = state.produced := by
  have fill := ring.fill
  have use := ring.use
  have count := ring.count
  have below := ring.window.start_le
  have above := ring.window.length_le
  have pointers := ring.pointers
  rw [(ring.free free .producer).1] at fill
  rw [(ring.free free .consumer).1] at use
  rw [(ring.free free .producer).2, (ring.free free .consumer).2] at count
  have size : state.count.toNat = state.produced.length - state.consumed.length := by omega
  refine ⟨by omega, by omega, ?_, ?_⟩
  · simp only [bufferMax] at *
    omega
  · have slot : ∀ k, (state.usePtr + k) % bufferMax = (state.consumed.length + k) % bufferMax := by
      intro k
      rw [Nat.add_mod, ← Nat.add_zero state.usePtr, use, ← Nat.add_mod]
    have taken := List.prefix_iff_eq_take.mp ring.fifo
    simp only [State.contents, slot, size]
    rw [ring.window.contents]
    nth_rewrite 1 [taken]
    exact List.take_append_drop _ _

theorem next_produced {action : Action ι} {after : State ι} (moved : next state action = some after) :
    after.produced = state.produced ∨ ∃ who, (state.threads who).role = .producer ∧
      (state.threads who).phase = .accessing ∧
      after.produced = state.produced ++ [((state.threads who).i : Int)] := by
  cases action with
  | step who =>
      simp only [next, producerStep, consumerStep, lock] at moved
      cases role : (state.threads who).role <;> cases phase : (state.threads who).phase <;>
        simp only [role, phase] at moved <;> try split at moved
      all_goals try contradiction
      all_goals cases moved
      all_goals first
        | exact .inl rfl
        | exact .inr ⟨who, role, phase, rfl⟩
  | signal who waiter =>
      obtain ⟨-, ⟨woken, -, -, rfl⟩ | ⟨-, rfl⟩⟩ := signalStep_cases moved
      · exact .inl rfl
      · exact .inl rfl
  | spurious waiter =>
      simp only [next] at moved
      split at moved
      · cases moved
        exact .inl rfl
      · contradiction

variable {role : ι → Role} {n : ι → Int}

/-- The numbers from `0` to `n - 1` -/
def counters (n : Nat) : List Int := (List.range n).map Int.ofNat

theorem counters_succ (n : Nat) : counters (n + 1) = counters n ++ [(n : Int)] := by
  simp [counters, List.range_succ]

theorem counters_prefix {first second : Nat} (le : first ≤ second) : counters first <+: counters second := by
  obtain ⟨more, rfl⟩ := Nat.exists_eq_add_of_le le
  induction more with
  | zero => exact List.prefix_refl _
  | succ more ih =>
      rw [← Nat.add_assoc, counters_succ]
      exact (ih (Nat.le_add_right _ _)).trans (List.prefix_append _ _)

theorem rounds_of_sole {p : ι} (sole : ∀ who, role who = .producer → who = p)
    (reached : (machine role n).Reachable state) :
    state.produced.length = (state.threads p).rounds .producer := by
  rw [(progress_of_reachable reached).puts]
  apply tally_eq_single
  intro other different
  have consumer : (state.threads other).role ≠ .producer := by
    rw [(constant_of_reachable reached other).1]
    exact fun producer => different (sole other producer)
  simp [Thread.rounds, consumer]

/-- A sole producer puts its loop counters in order. -/
theorem produced_of_sole {p : ι} (sole : ∀ who, role who = .producer → who = p)
    (reached : (machine role n).Reachable state) :
    state.produced = counters state.produced.length := by
  suffices both : (machine role n).Reachable state ∧
      state.produced = counters state.produced.length from both.2
  apply reached.invariant fun state => (machine role n).Reachable state ∧
    state.produced = counters state.produced.length
  · exact ⟨Machine.reachable_init, rfl⟩
  · intro before after action holds moved
    obtain ⟨earlier, values⟩ := holds
    refine ⟨earlier.next action moved, ?_⟩
    rcases next_produced moved with same | ⟨who, producer, accessing, grown⟩
    · rw [same]
      exact values
    · have here : who = p := sole who ((constant_of_reachable earlier who).1 ▸ producer)
      have rounds := rounds_of_sole sole earlier
      rw [← here] at rounds
      simp only [Thread.rounds, producer, accessing, Phase.accessed, if_true, Nat.add_zero] at rounds
      rw [grown, List.length_append, List.length_singleton, counters_succ, ← values, rounds]

/-- In every interleaving, with spurious wake-ups, the buffer is a queue. -/
theorem ring_buffer_fifo (role : ι → Role) (n : ι → Int) (state : State ι)
    (reached : (machine role n).Reachable state) :
    (state.mutex = none → 0 ≤ state.count ∧ state.count ≤ bufferMax ∧
      (state.fillPtr : Int) = (state.usePtr + state.count) % bufferMax ∧
      state.consumed ++ state.contents = state.produced) ∧
    (∀ who, (state.threads who).phase = .accessing →
      match (state.threads who).role with
      | .producer => state.unread state.fillPtr = false
      | .consumer => state.unread state.usePtr = true) ∧
    state.consumed <+: state.produced ∧
    ∀ p, (∀ who, role who = .producer → who = p) →
      state.consumed <+: counters (n p).toNat := by
  have ring := ring_of_reachable reached
  refine ⟨ring.settled, ?_, ring.fifo, ?_⟩
  · intro who accessing
    cases producer : (state.threads who).role with
    | producer => exact (ring.store producer accessing 0).1
    | consumer => exact (ring.load producer accessing).1
  · intro p sole
    have values := produced_of_sole sole reached
    have rounds := rounds_of_sole sole reached
    have few := ((progress_of_reachable reached).inLoop p).rounds_le .producer
    have total : (state.threads p).total .producer ≤ (n p).toNat := by
      rw [← (constant_of_reachable reached p).2, Thread.total]
      split <;> omega
    apply ring.fifo.trans
    rw [values]
    exact counters_prefix (by omega)

/-- One producer and one consumer, as `main` starts them. -/
def pair : Bool → Role
  | true => .producer
  | false => .consumer

theorem ring_buffer_fifo_pair : ∃ state, (machine pair fun _ => 20).Reachable state ∧ state.mutex = none ∧
    state.consumed ++ state.contents = [0, 1] ∧ state.consumed = [0] ∧ state.consumed <+: counters 20 := by
  let put : List (Action Bool) := List.replicate 7 (.step true)
  let pass : List (Action Bool) := List.replicate 2 (.step true)
  let get : List (Action Bool) := List.replicate 7 (.step false)
  obtain ⟨state, reached, observed⟩ := (machine pair fun _ => 20).exists_reachable
    (fun state => (state.mutex, state.produced, state.consumed)) (none, [0, 1], [0])
    (put ++ Action.signal true none :: pass ++ put ++ Action.signal true none :: Action.step true :: get ++
      [Action.signal false none, Action.step false]) (by decide +kernel)
  simp only [Prod.mk.injEq] at observed
  obtain ⟨free, produced, consumed⟩ := observed
  obtain ⟨settled, -, -, sole⟩ := ring_buffer_fifo pair (fun _ => 20) state reached
  exact ⟨state, reached, free, (settled free).2.2.2.trans produced, consumed, sole true (by decide)⟩

end SysProg.Threading.RingBuffer
