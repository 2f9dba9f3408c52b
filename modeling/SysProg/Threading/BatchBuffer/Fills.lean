import SysProg.Threading.BatchBuffer.Alternation

namespace SysProg.Threading.BatchBuffer

/-! # Counting fills

`produce` counts its wake-ups, not the fills. The two agree when it does not
wake up by itself, and when the consumer starts to empty the buffer only after
the producer has begun to wait.
-/

def Undisturbed (bufcap : Nat) (state : State) (action : Action) : Prop :=
  action ≠ .spurious .producer ∧
    (action = .consume → state.consumer = .testing → state.n = bufcap → state.producer = .waiting)

instance (bufcap : Nat) (state : State) (action : Action) : Decidable (Undisturbed bufcap state action) :=
  inferInstanceAs (Decidable (_ ∧ _))

/-- The consumer empties the buffer, or has not yet said so. -/
def ConsumerPhase.draining : ConsumerPhase → Bool
  | .removing | .emptying | .signalling => true
  | _ => false

/-- The producer has been woken and has not yet counted it. -/
def ProducerPhase.waking : ProducerPhase → Bool
  | .woken | .counting => true
  | _ => false

/-- Where `produce` can be with `done` set. -/
def ProducerPhase.ending : ProducerPhase → Bool
  | .testing | .deciding | .unlocking | .leaving | .returned => true
  | _ => false

/-- The buffer has been filled and not yet emptied. -/
def full (bufcap : Nat) (consumer : ConsumerPhase) (n : Int) : Nat :=
  if n = bufcap ∨ consumer = .emptying then 1 else 0

/-- The buffer has been emptied and the producer has not yet counted it. -/
def uncounted (producer : ProducerPhase) (consumer : ConsumerPhase) : Nat :=
  if producer.waking = true ∨ consumer = .signalling then 1 else 0

structure Counted (bufcap fills : Nat) (producer : ProducerPhase) (consumer : ConsumerPhase) (n : Int) (i : Nat)
    (done : Bool) (filled emptied : Nat) : Prop where
  draining : consumer.draining = true → producer = .waiting
  waking : producer.waking = true → n = 0
  filled : filled = emptied + full bufcap consumer n
  emptied : emptied = i + uncounted producer consumer
  ending : done = true → n = 0 ∧ i = fills ∧ producer.ending = true
  returned : producer = .returned → done = true

variable {bufcap fills i filled emptied : Nat} {n : Int} {done : Bool} {producer nextProducer : ProducerPhase}
  {consumer nextConsumer : ConsumerPhase}

theorem counted_start (positive : 0 < bufcap) : Counted bufcap fills .locking .locking 0 0 false 0 0 where
  draining := by simp [ConsumerPhase.draining]
  waking := by simp
  filled := by simp [full]; omega
  emptied := by simp [uncounted, ProducerPhase.waking]
  ending := by simp
  returned := by simp

namespace Counted

theorem not_draining (counted : Counted bufcap fills producer consumer n i done filled emptied)
    (awake : producer ≠ .waiting) : consumer.draining = false := by
  rw [← Bool.not_eq_true]
  exact fun drains => awake (counted.draining drains)

theorem running (counted : Counted bufcap fills producer consumer n i done filled emptied)
    (working : producer.ending = false) : done = false := by
  rw [← Bool.not_eq_true]
  intro is
  rw [(counted.ending is).2.2] at working
  contradiction

/-! ### Steps of the producer -/

/-- A step of the producer that neither counts nor inserts. -/
theorem producerGoes (counted : Counted bufcap fills producer consumer n i done filled emptied)
    (awake : producer ≠ .waiting) (same : nextProducer.waking = producer.waking)
    (ends : done = true → nextProducer.ending = true) (returns : nextProducer = .returned → done = true) :
    Counted bufcap fills nextProducer consumer n i done filled emptied where
  draining := by simp [counted.not_draining awake]
  waking := by
    rw [same]
    exact counted.waking
  filled := counted.filled
  emptied := by
    rw [uncounted, same]
    exact counted.emptied
  ending := fun is => ⟨(counted.ending is).1, (counted.ending is).2.1, ends is⟩
  returned := returns

/-- `if(++i == FILLS) done = 1;` -/
theorem counts (counted : Counted bufcap fills .counting consumer n i done filled emptied) :
    Counted bufcap fills .testing consumer n (i + 1) (if i + 1 = fills then true else done) filled emptied where
  draining := by simp [counted.not_draining (by simp)]
  waking := by simp [ProducerPhase.waking]
  filled := counted.filled
  emptied := by
    have idle := counted.not_draining (by simp)
    have silent : consumer ≠ .signalling := by
      rintro rfl
      contradiction
    have emptied := counted.emptied
    simp [uncounted, ProducerPhase.waking, silent] at emptied ⊢
    exact emptied
  ending := by
    rw [counted.running rfl]
    intro is
    have last : i + 1 = fills := by simpa using is
    exact ⟨counted.waking rfl, last, rfl⟩
  returned := by simp

/-- `++n` -/
theorem inserts (counted : Counted bufcap fills .advancing consumer n i done filled emptied) (room : n < bufcap) :
    Counted bufcap fills .checking consumer (n + 1) i done (if n + 1 = bufcap then filled + 1 else filled) emptied := by
  have idle := counted.not_draining (by simp)
  have calm : consumer ≠ .emptying := by
    rintro rfl
    contradiction
  have short : n ≠ bufcap := by omega
  have before := counted.filled
  simp only [full, calm, or_false, short, if_false] at before
  exact {
    draining := by simp [idle]
    waking := by simp [ProducerPhase.waking]
    filled := by
      simp only [full, calm, or_false, before]
      split <;> rfl
    emptied := counted.emptied
    ending := by simp [counted.running rfl]
    returned := by simp }

/-! ### Steps of the consumer -/

/-- A step of the consumer outside the emptying of the buffer. -/
theorem consumerGoes (counted : Counted bufcap fills producer consumer n i done filled emptied)
    (was : consumer.draining = false) (is : nextConsumer.draining = false) :
    Counted bufcap fills producer nextConsumer n i done filled emptied := by
  have apart : ∀ phase : ConsumerPhase, phase.draining = false → phase ≠ .emptying ∧ phase ≠ .signalling := by
    intro phase idle
    constructor <;> rintro rfl <;> contradiction
  have filled := counted.filled
  have emptied := counted.emptied
  simp only [full, uncounted, (apart consumer was).1, (apart consumer was).2] at filled emptied
  exact {
    draining := by simp [is]
    waking := counted.waking
    filled := by simpa only [full, (apart nextConsumer is).1] using filled
    emptied := by simpa only [uncounted, (apart nextConsumer is).2] using emptied
    ending := counted.ending
    returned := counted.returned }

/-- The consumer finds the buffer full, and the producer waiting for it. -/
theorem startsDraining (counted : Counted bufcap fills .waiting .testing n i done filled emptied) :
    Counted bufcap fills .waiting .removing n i done filled emptied where
  draining := fun _ => rfl
  waking := counted.waking
  filled := by simpa [full] using counted.filled
  emptied := by simpa [uncounted] using counted.emptied
  ending := counted.ending
  returned := counted.returned

theorem removeAll (counted : Counted bufcap fills producer .removing n i done filled emptied) (isFull : n = bufcap) :
    Counted bufcap fills producer .emptying n i done filled emptied where
  draining := fun _ => counted.draining rfl
  waking := counted.waking
  filled := by simpa [full, isFull] using counted.filled
  emptied := by simpa [uncounted] using counted.emptied
  ending := counted.ending
  returned := counted.returned

/-- `n--` -/
theorem removes (counted : Counted bufcap fills producer .emptying n i done filled emptied) :
    Counted bufcap fills producer .emptying (n - 1) i done filled emptied where
  draining := counted.draining
  waking := by simp [counted.draining rfl, ProducerPhase.waking]
  filled := by simpa [full] using counted.filled
  emptied := counted.emptied
  ending := by simp [counted.running (counted.draining rfl ▸ rfl)]
  returned := counted.returned

theorem emptiedAll (counted : Counted bufcap fills producer .emptying n i done filled emptied) (positive : 0 < bufcap)
    (none : n = 0) : Counted bufcap fills producer .signalling n i done filled (emptied + 1) := by
  have filled := counted.filled
  have emptied := counted.emptied
  have waits := counted.draining rfl
  have room : n ≠ bufcap := by omega
  simp only [full, uncounted, waits, ProducerPhase.waking, or_true, if_true] at filled emptied
  exact {
    draining := fun _ => waits
    waking := fun _ => none
    filled := by simpa [full, room] using filled
    emptied := by simpa [uncounted, waits, ProducerPhase.waking] using emptied
    ending := by simp [counted.running (waits ▸ rfl)]
    returned := counted.returned }

/-- `pthread_cond_signal(&empty_cond)` finds the producer waiting. -/
theorem signals (counted : Counted bufcap fills producer .signalling n i done filled emptied) (none : n = 0) :
    Counted bufcap fills (if producer = .waiting then .woken else producer) .unlocking n i done filled emptied := by
  have waits := counted.draining rfl
  rw [if_pos waits]
  exact {
    draining := by simp [ConsumerPhase.draining]
    waking := fun _ => none
    filled := by simpa [full] using counted.filled
    emptied := by simpa [uncounted, ProducerPhase.waking] using counted.emptied
    ending := by simp [counted.running (waits ▸ rfl)]
    returned := by simp }

end Counted

/-! ## Whole runs -/

variable {state after : State}

def State.Counted (bufcap fills : Nat) (state : State) : Prop :=
  BatchBuffer.Counted bufcap fills state.producer state.consumer state.n state.i state.done state.filled state.emptied

theorem State.Counted.producerStep (counted : state.Counted bufcap fills) (inv : state.Alternates bufcap)
    (positive : 0 < bufcap) (moved : producerStep bufcap fills state = some after) :
    after.Counted bufcap fills := by
  simp only [State.Counted] at counted
  have ending := counted.ending
  have fits := inv.producerFits
  simp only [BatchBuffer.producerStep] at moved
  cases phase : state.producer <;> simp only [phase] at moved counted ending fits
  case locking =>
      split at moved <;> try contradiction
      cases moved
      exact counted.producerGoes (by simp) rfl (fun _ => rfl) (by simp)
  case testing =>
      split at moved
      · rename_i isFull
        cases moved
        refine counted.producerGoes (by simp) rfl (fun is => ?_) (by simp)
        have none := (ending is).1
        omega
      · cases moved
        exact counted.producerGoes (by simp) rfl (fun _ => rfl) (by simp)
  case waiting => contradiction
  case woken =>
      split at moved <;> try contradiction
      cases moved
      exact counted.producerGoes (by simp) rfl (fun is => (ending is).2.2) (by simp)
  case counting =>
      cases moved
      exact counted.counts
  case deciding =>
      cases moved
      cases finished : state.done with
      | true =>
          simp only [State.Counted, finished, if_true] at counted ⊢
          exact counted.producerGoes (by simp) rfl (fun _ => rfl) (by simp)
      | false =>
          simp only [State.Counted, finished] at counted ⊢
          exact counted.producerGoes (by simp) rfl (by simp) (by simp)
  case printing | storing =>
      cases moved
      exact counted.producerGoes (by simp) rfl (fun is => (ending is).2.2) (by simp)
  case advancing =>
      cases moved
      exact counted.inserts fits
  case checking =>
      cases moved
      simp only [State.Counted]
      split
      · exact counted.producerGoes (by simp) rfl (fun is => (ending is).2.2) (by simp)
      · exact counted.producerGoes (by simp) rfl (fun _ => rfl) (by simp)
  case signalling =>
      cases moved
      have idle := counted.not_draining (by simp)
      have goes : BatchBuffer.Counted bufcap fills .unlocking state.consumer state.n state.i state.done
          state.filled state.emptied := counted.producerGoes (by simp) rfl (fun _ => rfl) (by simp)
      apply goes.consumerGoes idle
      split
      · rfl
      · exact idle
  case unlocking =>
      cases moved
      exact counted.producerGoes (by simp) rfl (fun _ => rfl) (by simp)
  case leaving =>
      cases moved
      cases finished : state.done with
      | true =>
          simp only [State.Counted, finished, if_true] at counted ⊢
          exact counted.producerGoes (by simp) rfl (fun _ => rfl) (by simp)
      | false =>
          simp only [State.Counted, finished] at counted ⊢
          exact counted.producerGoes (by simp) rfl (by simp) (by simp)
  case returned => contradiction

theorem State.Counted.consumerStep (counted : state.Counted bufcap fills) (inv : state.Alternates bufcap)
    (positive : 0 < bufcap)
    (waits : state.consumer = .testing → state.n = bufcap → state.producer = .waiting)
    (moved : consumerStep bufcap state = some after) : after.Counted bufcap fills := by
  simp only [State.Counted] at counted
  have lower := inv.lower
  have upper := inv.upper
  have fits := inv.consumerFits
  simp only [BatchBuffer.consumerStep] at moved
  cases phase : state.consumer <;> simp only [phase] at moved counted fits waits
  case locking | woken =>
      split at moved <;> try contradiction
      cases moved
      exact counted.consumerGoes rfl rfl
  case testing =>
      split at moved
      · cases moved
        exact counted.consumerGoes rfl rfl
      · cases moved
        simp only [State.Counted, waits trivial (by omega)] at counted ⊢
        exact counted.startsDraining
  case waiting => contradiction
  case removing =>
      cases moved
      exact counted.removeAll fits
  case emptying =>
      split at moved
      · cases moved
        exact counted.removes
      · cases moved
        exact counted.emptiedAll positive (by omega)
  case signalling =>
      cases moved
      exact counted.signals fits
  case unlocking =>
      cases moved
      exact counted.consumerGoes rfl rfl

theorem counted_of_reachable (positive : 0 < bufcap)
    (reached : ((machine bufcap fills).restrict (Undisturbed bufcap)).Reachable state) :
    state.Counted bufcap fills := by
  suffices both : state.Alternates bufcap ∧ state.Counted bufcap fills from both.2
  apply reached.invariant fun state => state.Alternates bufcap ∧ state.Counted bufcap fills
  · exact ⟨alternates_start bufcap, counted_start positive⟩
  · intro before after action holds moved
    obtain ⟨inv, counted⟩ := holds
    obtain ⟨⟨steady, waits⟩, stepped⟩ := Machine.restrict_next moved
    refine ⟨inv.next stepped, ?_⟩
    cases action with
    | produce => exact counted.producerStep inv positive stepped
    | consume => exact counted.consumerStep inv positive (waits rfl) stepped
    | spurious role =>
        cases role with
        | producer => exact absurd rfl steady
        | consumer =>
            simp only [machine, next, spuriousStep] at stepped
            split at stepped <;> try contradiction
            rename_i waiting
            cases stepped
            simp only [State.Counted, waiting] at counted
            exact counted.consumerGoes rfl rfl

/-- In every run in which each fill is waited for once, `produce` returns after
exactly `FILLS` fills. -/
theorem fills_when_undisturbed (bufcap fills : Nat) (positive : 0 < bufcap) (state : State)
    (reached : ((machine bufcap fills).restrict (Undisturbed bufcap)).Reachable state)
    (returned : state.producer = .returned) : state.filled = fills ∧ state.emptied = fills := by
  have counted : Counted _ _ _ _ _ _ _ _ _ := counted_of_reachable positive reached
  obtain ⟨none, count, -⟩ := counted.ending (counted.returned returned)
  have idle := counted.not_draining (by simp [returned])
  have calm : state.consumer ≠ .emptying := by
    intro phase
    simp [phase, ConsumerPhase.draining] at idle
  have silent : state.consumer ≠ .signalling := by
    intro phase
    simp [phase, ConsumerPhase.draining] at idle
  have room : (0 : Int) ≠ bufcap := by omega
  have filled := counted.filled
  have emptied := counted.emptied
  simp only [full, none, room, calm, or_false, if_false, Nat.add_zero] at filled
  simp only [uncounted, returned, ProducerPhase.waking, silent, or_false, Bool.false_eq_true, if_false,
    Nat.add_zero] at emptied
  omega

/-- The producer fills the buffer and waits, the consumer empties it, three times. -/
theorem fills_when_undisturbed_in_turn :
    ∃ state, ((machine 20 3).restrict (Undisturbed 20)).Reachable state ∧ state.producer = .returned ∧
      state.filled = 3 ∧ state.emptied = 3 := by
  let fill : List Action := List.replicate 183 .produce
  let drain : List Action := List.replicate 26 .consume
  let finish : List Action := List.replicate 6 .produce
  obtain ⟨state, reached, returned⟩ := ((machine 20 3).restrict (Undisturbed 20)).exists_reachable
    State.producer .returned
    (fill ++ drain ++ Action.produce :: fill ++ drain ++ Action.produce :: fill ++ drain ++ finish)
    (by decide +kernel)
  exact ⟨state, reached, returned, fills_when_undisturbed 20 3 (by decide) state reached returned⟩

/-- Three spurious wake-ups after the first fill: `produce` returns after one. -/
theorem one_fill_of_three : ¬ ∀ state, (machine 20 3).Reachable state → state.producer = .returned →
    state.filled = 3 ∧ state.emptied = 3 := by
  intro exact
  let fill : List Action := List.replicate 183 .produce
  let wake : List Action := [.spurious .producer, .produce, .produce, .produce]
  let drain : List Action := List.replicate 26 .consume
  let finish : List Action := List.replicate 6 .produce
  obtain ⟨state, reached, observed⟩ := (machine 20 3).exists_reachable
    (fun state => (state.producer, state.filled)) (.returned, 1)
    (fill ++ wake ++ wake ++ wake ++ drain ++ finish)
    (by decide +kernel)
  obtain ⟨returned, once⟩ := Prod.mk.inj observed
  have thrice := (exact state reached returned).1
  omega

end SysProg.Threading.BatchBuffer
