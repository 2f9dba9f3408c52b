import SysProg.Threading.BatchBuffer

namespace SysProg.Threading.BatchBuffer

/-! ## What a phase stands for -/

/-- The producer has the mutex. -/
def ProducerPhase.critical : ProducerPhase → Bool
  | .locking | .waiting | .woken | .leaving | .returned => false
  | _ => true

def ConsumerPhase.critical : ConsumerPhase → Bool
  | .locking | .waiting | .woken => false
  | _ => true

def ProducerPhase.Fits (bufcap : Nat) (n : Int) : ProducerPhase → Prop
  | .deciding | .printing | .storing | .advancing => n < bufcap
  | .signalling => n = bufcap
  | _ => True

def ConsumerPhase.Fits (bufcap : Nat) (n : Int) : ConsumerPhase → Prop
  | .removing => n = bufcap
  | .signalling => n = 0
  | _ => True

variable {bufcap fills : Nat} {n m : Int} {producer nextProducer : ProducerPhase}
  {consumer nextConsumer : ConsumerPhase} {mutex : Option Role}

theorem ProducerPhase.fits_outside (outside : producer.critical = false) : producer.Fits bufcap n := by
  cases producer <;> trivial

theorem ConsumerPhase.fits_outside (outside : consumer.critical = false) : consumer.Fits bufcap n := by
  cases consumer <;> trivial

/-! ## The invariant -/

/-- A thread waits only while the other has still to signal it. -/
structure Alternates (bufcap : Nat) (producer : ProducerPhase) (consumer : ConsumerPhase) (mutex : Option Role)
    (n : Int) : Prop where
  producerOwns : producer.critical = true ↔ mutex = some .producer
  consumerOwns : consumer.critical = true ↔ mutex = some .consumer
  lower : 0 ≤ n
  upper : n ≤ bufcap
  producerFits : producer.Fits bufcap n
  consumerFits : consumer.Fits bufcap n
  producerWaits : producer = .waiting → n = bufcap ∨ consumer = .emptying ∨ consumer = .signalling
  consumerWaits : consumer = .waiting → n < bufcap ∨ producer = .checking ∨ producer = .signalling

theorem alternates_start (bufcap : Nat) : Alternates bufcap .locking .locking none 0 where
  producerOwns := by simp [ProducerPhase.critical]
  consumerOwns := by simp [ConsumerPhase.critical]
  lower := Int.le_refl 0
  upper := Int.natCast_nonneg bufcap
  producerFits := trivial
  consumerFits := trivial
  producerWaits := by simp
  consumerWaits := by simp

namespace Alternates

theorem consumer_outside (inv : Alternates bufcap producer consumer mutex n) (inside : producer.critical = true) :
    consumer.critical = false := by
  by_contra both
  have mine := inv.producerOwns.mp inside
  rw [inv.consumerOwns.mp (Bool.not_eq_false _ ▸ both)] at mine
  contradiction

theorem producer_outside (inv : Alternates bufcap producer consumer mutex n) (inside : consumer.critical = true) :
    producer.critical = false := by
  by_contra both
  have mine := inv.consumerOwns.mp inside
  rw [inv.producerOwns.mp (Bool.not_eq_false _ ▸ both)] at mine
  contradiction

/-! ### Steps of the producer -/

/-- A step with the mutex held, which may change `n`. -/
theorem producerGoes (inv : Alternates bufcap producer consumer mutex n) (was : producer.critical = true)
    (stays : nextProducer.critical = true) (lower : 0 ≤ m) (upper : m ≤ bufcap) (fits : nextProducer.Fits bufcap m)
    (waits : consumer = .waiting → m < bufcap ∨ nextProducer = .checking ∨ nextProducer = .signalling) :
    Alternates bufcap nextProducer consumer mutex m where
  producerOwns := by simp [stays, inv.producerOwns.mp was]
  consumerOwns := inv.consumerOwns
  lower := lower
  upper := upper
  producerFits := fits
  consumerFits := ConsumerPhase.fits_outside (inv.consumer_outside was)
  producerWaits := by
    rintro rfl
    contradiction
  consumerWaits := waits

theorem producerLocks (inv : Alternates bufcap producer consumer none n) (stays : nextProducer.critical = true)
    (fits : nextProducer.Fits bufcap n) : Alternates bufcap nextProducer consumer (some .producer) n where
  producerOwns := by simp [stays]
  consumerOwns := by simp [inv.consumerOwns]
  lower := inv.lower
  upper := inv.upper
  producerFits := fits
  consumerFits := inv.consumerFits
  producerWaits := by
    rintro rfl
    contradiction
  consumerWaits := by
    intro waiting
    rcases inv.consumerWaits waiting with less | rfl | rfl
    · exact .inl less
    · exact absurd (inv.producerOwns.mp rfl) (by simp)
    · exact absurd (inv.producerOwns.mp rfl) (by simp)

theorem producerUnlocks (inv : Alternates bufcap producer consumer mutex n) (was : producer.critical = true)
    (leaves : nextProducer.critical = false) (full : nextProducer = .waiting → n = bufcap)
    (waits : consumer = .waiting → n < bufcap) : Alternates bufcap nextProducer consumer none n where
  producerOwns := by simp [leaves]
  consumerOwns := by simp [inv.consumer_outside was]
  lower := inv.lower
  upper := inv.upper
  producerFits := ProducerPhase.fits_outside leaves
  consumerFits := inv.consumerFits
  producerWaits := fun waiting => .inl (full waiting)
  consumerWaits := fun waiting => .inl (waits waiting)

/-- A step without the mutex: out of `pthread_cond_wait`, or to the end of the loop. -/
theorem producerOutside (inv : Alternates bufcap producer consumer mutex n) (was : producer.critical = false)
    (stays : nextProducer.critical = false) (awake : nextProducer ≠ .waiting) :
    Alternates bufcap nextProducer consumer mutex n where
  producerOwns := by
    rw [← inv.producerOwns]
    simp [stays, was]
  consumerOwns := inv.consumerOwns
  lower := inv.lower
  upper := inv.upper
  producerFits := ProducerPhase.fits_outside stays
  consumerFits := inv.consumerFits
  producerWaits := fun waiting => absurd waiting awake
  consumerWaits := by
    intro waiting
    rcases inv.consumerWaits waiting with less | rfl | rfl
    · exact .inl less
    · contradiction
    · contradiction

/-- `pthread_cond_signal(&full_cond)` -/
theorem producerSignals (inv : Alternates bufcap .signalling consumer mutex n) :
    Alternates bufcap .unlocking (if consumer = .waiting then .woken else consumer) mutex n := by
  have outside := inv.consumer_outside rfl
  have heard : (if consumer = .waiting then .woken else consumer).critical = false := by
    split
    · rfl
    · exact outside
  exact {
    producerOwns := by simp [ProducerPhase.critical, inv.producerOwns.mp rfl]
    consumerOwns := by simp [heard, inv.producerOwns.mp rfl]
    lower := inv.lower
    upper := inv.upper
    producerFits := trivial
    consumerFits := ConsumerPhase.fits_outside heard
    producerWaits := by simp
    consumerWaits := by split <;> simp_all }

/-! ### Steps of the consumer -/

theorem consumerGoes (inv : Alternates bufcap producer consumer mutex n) (was : consumer.critical = true)
    (stays : nextConsumer.critical = true) (lower : 0 ≤ m) (upper : m ≤ bufcap) (fits : nextConsumer.Fits bufcap m)
    (waits : producer = .waiting → m = bufcap ∨ nextConsumer = .emptying ∨ nextConsumer = .signalling) :
    Alternates bufcap producer nextConsumer mutex m where
  producerOwns := inv.producerOwns
  consumerOwns := by simp [stays, inv.consumerOwns.mp was]
  lower := lower
  upper := upper
  producerFits := ProducerPhase.fits_outside (inv.producer_outside was)
  consumerFits := fits
  producerWaits := waits
  consumerWaits := by
    rintro rfl
    contradiction

theorem consumerLocks (inv : Alternates bufcap producer consumer none n) :
    Alternates bufcap producer .testing (some .consumer) n where
  producerOwns := by simp [inv.producerOwns]
  consumerOwns := by simp [ConsumerPhase.critical]
  lower := inv.lower
  upper := inv.upper
  producerFits := inv.producerFits
  consumerFits := trivial
  producerWaits := by
    intro waiting
    rcases inv.producerWaits waiting with full | rfl | rfl
    · exact .inl full
    · exact absurd (inv.consumerOwns.mp rfl) (by simp)
    · exact absurd (inv.consumerOwns.mp rfl) (by simp)
  consumerWaits := by simp

theorem consumerUnlocks (inv : Alternates bufcap producer consumer mutex n) (was : consumer.critical = true)
    (leaves : nextConsumer.critical = false) (less : nextConsumer = .waiting → n < bufcap)
    (waits : producer = .waiting → n = bufcap) : Alternates bufcap producer nextConsumer none n where
  producerOwns := by simp [inv.producer_outside was]
  consumerOwns := by simp [leaves]
  lower := inv.lower
  upper := inv.upper
  producerFits := inv.producerFits
  consumerFits := ConsumerPhase.fits_outside leaves
  producerWaits := fun waiting => .inl (waits waiting)
  consumerWaits := fun waiting => .inl (less waiting)

theorem consumerWakes (inv : Alternates bufcap producer .waiting mutex n) :
    Alternates bufcap producer .woken mutex n where
  producerOwns := inv.producerOwns
  consumerOwns := inv.consumerOwns
  lower := inv.lower
  upper := inv.upper
  producerFits := inv.producerFits
  consumerFits := trivial
  producerWaits := by simpa using inv.producerWaits
  consumerWaits := by simp

/-- `pthread_cond_signal(&empty_cond)` -/
theorem consumerSignals (inv : Alternates bufcap producer .signalling mutex n) :
    Alternates bufcap (if producer = .waiting then .woken else producer) .unlocking mutex n := by
  have outside := inv.producer_outside rfl
  have heard : (if producer = .waiting then .woken else producer).critical = false := by
    split
    · rfl
    · exact outside
  exact {
    producerOwns := by simp [heard, inv.consumerOwns.mp rfl]
    consumerOwns := by simp [ConsumerPhase.critical, inv.consumerOwns.mp rfl]
    lower := inv.lower
    upper := inv.upper
    producerFits := ProducerPhase.fits_outside heard
    consumerFits := trivial
    producerWaits := by split <;> simp_all
    consumerWaits := by simp }

end Alternates

/-! ## Whole runs -/

variable {state after : State}

def State.Alternates (bufcap : Nat) (state : State) : Prop :=
  BatchBuffer.Alternates bufcap state.producer state.consumer state.mutex state.n

theorem State.Alternates.producerStep (inv : state.Alternates bufcap)
    (moved : producerStep bufcap fills state = some after) : after.Alternates bufcap := by
  simp only [State.Alternates] at inv
  have lower := inv.lower
  have upper := inv.upper
  have fits := inv.producerFits
  have waits := inv.consumerWaits
  simp only [BatchBuffer.producerStep] at moved
  cases phase : state.producer <;> simp only [phase] at moved inv fits waits
  case locking =>
      split at moved <;> try contradiction
      rename_i free
      cases moved
      rw [free] at inv
      exact inv.producerLocks rfl trivial
  case testing =>
      split at moved
      · rename_i full
        cases moved
        exact inv.producerUnlocks rfl rfl (fun _ => full) (by simpa using waits)
      · rename_i room
        cases moved
        exact inv.producerGoes rfl rfl lower upper (show state.n < bufcap by omega) (by simpa using waits)
  case waiting => contradiction
  case woken =>
      split at moved <;> try contradiction
      rename_i free
      cases moved
      rw [free] at inv
      exact inv.producerLocks rfl trivial
  case counting =>
      cases moved
      exact inv.producerGoes rfl rfl lower upper trivial (by simpa using waits)
  case deciding =>
      cases moved
      cases state.done with
      | true => exact inv.producerGoes rfl rfl lower upper trivial (by simpa using waits)
      | false => exact inv.producerGoes rfl rfl lower upper fits (by simpa using waits)
  case printing =>
      cases moved
      exact inv.producerGoes rfl rfl lower upper fits (by simpa using waits)
  case storing =>
      cases moved
      exact inv.producerGoes rfl rfl lower upper fits (by simpa using waits)
  case advancing =>
      have room : state.n < bufcap := fits
      cases moved
      exact inv.producerGoes (m := state.n + 1) rfl rfl (by omega) (by omega) trivial (fun _ => .inr (.inl rfl))
  case checking =>
      cases moved
      by_cases full : state.n = bufcap
      · simp only [State.Alternates, full, if_true] at inv ⊢
        exact inv.producerGoes rfl rfl (by omega) (by omega) rfl (fun _ => .inr (.inr rfl))
      · simp only [State.Alternates, full, if_false]
        exact inv.producerGoes rfl rfl lower upper trivial (fun _ => .inl (by omega))
  case signalling =>
      cases moved
      exact inv.producerSignals
  case unlocking =>
      cases moved
      exact inv.producerUnlocks rfl rfl (by simp) (by simpa using waits)
  case leaving =>
      cases moved
      cases state.done with
      | true => exact inv.producerOutside rfl rfl (by simp)
      | false => exact inv.producerOutside rfl rfl (by simp)
  case returned => contradiction

theorem State.Alternates.consumerStep (inv : state.Alternates bufcap)
    (moved : consumerStep bufcap state = some after) : after.Alternates bufcap := by
  simp only [State.Alternates] at inv
  have lower := inv.lower
  have upper := inv.upper
  have fits := inv.consumerFits
  have waits := inv.producerWaits
  simp only [BatchBuffer.consumerStep] at moved
  cases phase : state.consumer <;> simp only [phase] at moved inv fits waits
  case locking =>
      split at moved <;> try contradiction
      rename_i free
      cases moved
      rw [free] at inv
      exact inv.consumerLocks
  case testing =>
      split at moved
      · rename_i less
        cases moved
        exact inv.consumerUnlocks rfl rfl (fun _ => less) (by simpa using waits)
      · rename_i full
        cases moved
        exact inv.consumerGoes rfl rfl lower upper (show state.n = bufcap by omega) (by simpa using waits)
  case waiting => contradiction
  case woken =>
      split at moved <;> try contradiction
      rename_i free
      cases moved
      rw [free] at inv
      exact inv.consumerLocks
  case removing =>
      cases moved
      exact inv.consumerGoes rfl rfl lower upper trivial (fun _ => .inr (.inl rfl))
  case emptying =>
      split at moved
      · rename_i more
        cases moved
        exact inv.consumerGoes (m := state.n - 1) rfl rfl (by omega) (by omega) trivial (fun _ => .inr (.inl rfl))
      · rename_i none
        cases moved
        exact inv.consumerGoes rfl rfl lower upper (show state.n = 0 by omega) (fun _ => .inr (.inr rfl))
  case signalling =>
      cases moved
      exact inv.consumerSignals
  case unlocking =>
      cases moved
      exact inv.consumerUnlocks rfl rfl (by simp) (by simpa using waits)

theorem State.Alternates.spuriousStep (inv : state.Alternates bufcap) {role : Role}
    (moved : spuriousStep state role = some after) : after.Alternates bufcap := by
  simp only [State.Alternates] at inv
  cases role with
  | producer =>
      simp only [BatchBuffer.spuriousStep] at moved
      split at moved <;> try contradiction
      rename_i waiting
      cases moved
      rw [waiting] at inv
      exact inv.producerOutside rfl rfl (by simp)
  | consumer =>
      simp only [BatchBuffer.spuriousStep] at moved
      split at moved <;> try contradiction
      rename_i waiting
      cases moved
      rw [waiting] at inv
      exact inv.consumerWakes

theorem State.Alternates.next (inv : state.Alternates bufcap) {action : Action}
    (moved : next bufcap fills state action = some after) : after.Alternates bufcap := by
  cases action with
  | produce => exact inv.producerStep moved
  | consume => exact inv.consumerStep moved
  | spurious role => exact inv.spuriousStep moved

theorem alternates_of_reachable (reached : (machine bufcap fills).Reachable state) :
    state.Alternates bufcap :=
  reached.invariant (State.Alternates bufcap) (alternates_start bufcap) fun inv moved => inv.next moved

/-- A producer that cannot take a step waits for a signal or the mutex, or has returned. -/
theorem producerStep_eq_none (blocked : producerStep bufcap fills state = none) :
    state.producer = .waiting ∨ state.producer.critical = false ∧ state.mutex ≠ none ∨ state.producer = .returned := by
  simp only [producerStep] at blocked
  cases phase : state.producer <;> simp only [phase] at blocked <;> try split at blocked
  all_goals try contradiction
  all_goals simp_all [ProducerPhase.critical]

theorem consumerStep_eq_none (blocked : consumerStep bufcap state = none) :
    state.consumer = .waiting ∨ state.consumer.critical = false ∧ state.mutex ≠ none := by
  simp only [consumerStep] at blocked
  cases phase : state.consumer <;> simp only [phase] at blocked <;> try split at blocked
  all_goals try contradiction
  all_goals simp_all [ConsumerPhase.critical]

/-- While the mutex is held, the thread that holds it can take a step. -/
theorem State.Alternates.holder (inv : state.Alternates bufcap) (held : state.mutex ≠ none)
    (producer : state.producer.critical = false) (consumer : state.consumer.critical = false) : False := by
  obtain ⟨role, owner⟩ := Option.ne_none_iff_exists'.mp held
  cases role with
  | producer =>
      rw [inv.producerOwns.mpr owner] at producer
      contradiction
  | consumer =>
      rw [inv.consumerOwns.mpr owner] at consumer
      contradiction

/-- The threads are never both waiting unsignalled. -/
theorem Alternates.not_both_waiting (inv : Alternates bufcap .waiting .waiting mutex n) : False := by
  have full := inv.producerWaits rfl
  have less := inv.consumerWaits rfl
  simp only [reduceCtorEq, or_false] at full less
  omega

/-- The buffer is filled one by one and emptied at once, in turn, and while
`produce` has not returned a thread can go on without a spurious wake-up. -/
theorem batch_buffer_alternates (bufcap fills : Nat) (state : State)
    (reached : (machine bufcap fills).Reachable state) :
    (0 ≤ state.n ∧ state.n ≤ bufcap) ∧
    (state.producer = .printing ∨ state.producer = .storing ∨ state.producer = .advancing → state.n < bufcap) ∧
    (state.consumer = .removing → state.n = bufcap) ∧
    ¬ (state.producer = .waiting ∧ state.consumer = .waiting) ∧
    (state.producer ≠ .returned →
      producerStep bufcap fills state ≠ none ∨ consumerStep bufcap state ≠ none) := by
  have inv : Alternates _ _ _ _ _ := alternates_of_reachable reached
  have apart : ¬ (state.producer = .waiting ∧ state.consumer = .waiting) := by
    rintro ⟨producer, consumer⟩
    rw [producer, consumer] at inv
    exact inv.not_both_waiting
  refine ⟨⟨inv.lower, inv.upper⟩, ?_, ?_, apart, ?_⟩
  · have fits := inv.producerFits
    rintro (phase | phase | phase) <;> rw [phase] at fits <;> exact fits
  · have fits := inv.consumerFits
    intro phase
    rw [phase] at fits
    exact fits
  · intro unfinished
    by_contra stuck
    obtain ⟨producer, consumer⟩ := not_or.mp stuck
    rcases producerStep_eq_none (not_not.mp producer) with waiting | ⟨outside, held⟩ | returned
    · have outside : state.producer.critical = false := by rw [waiting]; rfl
      rcases consumerStep_eq_none (not_not.mp consumer) with sleeping | ⟨away, held⟩
      · exact apart ⟨waiting, sleeping⟩
      · exact State.Alternates.holder inv held outside away
    · rcases consumerStep_eq_none (not_not.mp consumer) with sleeping | ⟨away, -⟩
      · exact State.Alternates.holder inv held outside (by rw [sleeping]; rfl)
      · exact State.Alternates.holder inv held outside away
    · exact unfinished returned

theorem batch_buffer_alternates_both_signalled : ∃ state, (machine 1 3).Reachable state ∧
    state.producer = .waiting ∧ state.consumer = .signalling ∧ state.n = 0 ∧
    (producerStep 1 3 state ≠ none ∨ consumerStep 1 state ≠ none) := by
  let produce : List Action := List.replicate 12 .produce
  let consume : List Action := List.replicate 5 .consume
  have reached : (machine 1 3).Reachable _ :=
    ⟨Action.consume :: Action.consume :: produce ++ consume, rfl⟩
  obtain ⟨-, -, -, -, goes⟩ := batch_buffer_alternates 1 3 _ reached
  exact ⟨_, reached, rfl, rfl, rfl, goes (by decide)⟩

end SysProg.Threading.BatchBuffer
