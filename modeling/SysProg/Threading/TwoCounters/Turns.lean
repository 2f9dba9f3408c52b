import SysProg.Threading.TwoCounters

namespace SysProg.Threading.TwoCounters

/-! ## What a phase stands for -/

/-- It is the second thread's turn to count. -/
def Thresholds.Between (thresholds : Thresholds) (count : Nat) : Prop :=
  thresholds.halt1 ≤ count ∧ count ≤ thresholds.halt2

/-- It is the first thread's turn to count. -/
def Thresholds.Outside (thresholds : Thresholds) (count : Nat) : Prop :=
  count < thresholds.halt1 ∨ count > thresholds.halt2 ∧ count < thresholds.done

/-- The first thread has the mutex. -/
def FirstPhase.critical : FirstPhase → Bool
  | .locking | .waiting | .woken | .leaving | .finishing | .returned => false
  | _ => true

/-- The second thread returns with the mutex. -/
def SecondPhase.critical : SecondPhase → Bool
  | .locking | .waiting | .woken | .leaving => false
  | _ => true

/-- The thread has counted and still looks whether to signal. -/
def FirstPhase.informing : FirstPhase → Bool
  | .marking | .checking | .signalling => true
  | _ => false

def SecondPhase.informing : SecondPhase → Bool
  | .marking | .checking | .signalling => true
  | _ => false

def FirstPhase.Fits (thresholds : Thresholds) (count : Nat) (done : Bool) : FirstPhase → Prop
  | .locking | .testing | .waiting | .woken => done = false ∧ count < thresholds.done
  | .printing | .counting => done = false ∧ thresholds.Outside count
  | .marking => done = false
  | .checking | .signalling | .unlocking | .leaving => done = true ↔ count = thresholds.done
  | .finishing | .returned => count = thresholds.done

def SecondPhase.Fits (thresholds : Thresholds) (count : Nat) : SecondPhase → Prop
  | .deciding => thresholds.Between count ∨ count = thresholds.done
  | .printing | .counting => thresholds.Between count
  | .marking | .checking | .signalling => thresholds.halt1 < count ∧ count ≤ thresholds.halt2 + 1
  | .returned => count = thresholds.done
  | _ => True

variable {thresholds : Thresholds} {count m : Nat} {done1 done2 done : Bool} {first nextFirst : FirstPhase}
  {second nextSecond : SecondPhase} {mutex : Option Thread}

theorem Thresholds.Outside.not_between (outside : thresholds.Outside count) : ¬ thresholds.Between count := by
  intro between
  obtain ⟨lower, upper⟩ := between
  rcases outside with less | ⟨more, -⟩ <;> omega

theorem Thresholds.outside_of_not_between (bounded : count < thresholds.done) (other : ¬ thresholds.Between count) :
    thresholds.Outside count := by
  simp only [Between, Outside] at *
  omega

theorem SecondPhase.fits_outside (away : second.critical = false) : second.Fits thresholds count := by
  cases second <;> trivial

/-- What the second thread does to `count` keeps the first thread's facts outside the mutex. -/
theorem FirstPhase.fits_succ (away : first.critical = false) (between : thresholds.Between count)
    (fits : first.Fits thresholds count done) : first.Fits thresholds (count + 1) done := by
  have apart := thresholds.apart
  obtain ⟨lower, upper⟩ := between
  cases first
  case locking | waiting | woken => exact ⟨fits.1, by omega⟩
  case leaving =>
      simp only [Fits] at fits ⊢
      rw [fits]
      omega
  case finishing | returned =>
      simp only [Fits] at fits
      omega
  all_goals contradiction

/-! ## The invariant -/

/-- A thread waits only while it is the other's turn or the other has still to
signal it. -/
structure Turns (thresholds : Thresholds) (first : FirstPhase) (second : SecondPhase) (mutex : Option Thread)
    (count : Nat) (done1 done2 : Bool) : Prop where
  firstOwns : first.critical = true ↔ mutex = some .first
  secondOwns : second.critical = true ↔ mutex = some .second
  upper : count ≤ thresholds.done
  firstFits : first.Fits thresholds count done1
  secondFits : second.Fits thresholds count
  unmarked : done2 = false
  firstWaits : first = .waiting → thresholds.Between count ∨ second.informing = true
  secondWaits : second = .waiting →
    thresholds.Outside count ∨ first.informing = true ∨ count = thresholds.done ∧ first ≠ .returned

theorem turns_start (thresholds : Thresholds) : Turns thresholds .locking .locking none 0 false false where
  firstOwns := by simp [FirstPhase.critical]
  secondOwns := by simp [SecondPhase.critical]
  upper := Nat.zero_le _
  firstFits := ⟨rfl, Nat.lt_of_le_of_lt (Nat.zero_le _) thresholds.apart⟩
  secondFits := trivial
  unmarked := rfl
  firstWaits := by simp
  secondWaits := by simp

namespace Turns

theorem second_away (inv : Turns thresholds first second mutex count done1 done2) (inside : first.critical = true) :
    second.critical = false := by
  by_contra both
  have mine := inv.firstOwns.mp inside
  rw [inv.secondOwns.mp (Bool.not_eq_false _ ▸ both)] at mine
  contradiction

theorem first_away (inv : Turns thresholds first second mutex count done1 done2) (inside : second.critical = true) :
    first.critical = false := by
  by_contra both
  have mine := inv.secondOwns.mp inside
  rw [inv.firstOwns.mp (Bool.not_eq_false _ ▸ both)] at mine
  contradiction

/-- A thread that has nothing to say leaves the other waiting for the same reason. -/
theorem second_waits (inv : Turns thresholds first second mutex count done1 done2) (busy : first.informing = false)
    (goes : nextFirst ≠ .returned) (waiting : second = .waiting) :
    thresholds.Outside count ∨ nextFirst.informing = true ∨ count = thresholds.done ∧ nextFirst ≠ .returned := by
  rcases inv.secondWaits waiting with outside | informing | ⟨finished, -⟩
  · exact .inl outside
  · rw [busy] at informing
    contradiction
  · exact .inr (.inr ⟨finished, goes⟩)

theorem first_waits (inv : Turns thresholds first second mutex count done1 done2) (busy : second.informing = false)
    (waiting : first = .waiting) : thresholds.Between count ∨ nextSecond.informing = true := by
  rcases inv.firstWaits waiting with between | informing
  · exact .inl between
  · rw [busy] at informing
    contradiction

/-! ### Steps of the first thread -/

/-- A step with the mutex held. -/
theorem firstGoes (inv : Turns thresholds first second mutex count done1 done2) (was : first.critical = true)
    (stays : nextFirst.critical = true) (upper : m ≤ thresholds.done) (fits : nextFirst.Fits thresholds m done)
    (waits : second = .waiting →
      thresholds.Outside m ∨ nextFirst.informing = true ∨ m = thresholds.done ∧ nextFirst ≠ .returned) :
    Turns thresholds nextFirst second mutex m done done2 where
  firstOwns := by simp [stays, inv.firstOwns.mp was]
  secondOwns := inv.secondOwns
  upper := upper
  firstFits := fits
  secondFits := SecondPhase.fits_outside (inv.second_away was)
  unmarked := inv.unmarked
  firstWaits := by
    rintro rfl
    contradiction
  secondWaits := waits

theorem firstLocks (inv : Turns thresholds first second none count done1 done2) (busy : first.informing = false)
    (fits : FirstPhase.Fits thresholds count done1 .testing) :
    Turns thresholds .testing second (some .first) count done1 done2 where
  firstOwns := by simp [FirstPhase.critical]
  secondOwns := by simp [inv.secondOwns]
  upper := inv.upper
  firstFits := fits
  secondFits := inv.secondFits
  unmarked := inv.unmarked
  firstWaits := by simp
  secondWaits := inv.second_waits busy (by simp)

theorem firstUnlocks (inv : Turns thresholds first second mutex count done1 done2) (was : first.critical = true)
    (busy : first.informing = false) (leaves : nextFirst.critical = false) (goes : nextFirst ≠ .returned)
    (fits : nextFirst.Fits thresholds count done1) (between : nextFirst = .waiting → thresholds.Between count) :
    Turns thresholds nextFirst second none count done1 done2 where
  firstOwns := by simp [leaves]
  secondOwns := by simp [inv.second_away was]
  upper := inv.upper
  firstFits := fits
  secondFits := inv.secondFits
  unmarked := inv.unmarked
  firstWaits := fun waiting => .inl (between waiting)
  secondWaits := inv.second_waits busy goes

/-- A step without the mutex: out of `pthread_cond_wait`, or to the end of the loop. -/
theorem firstOutside (inv : Turns thresholds first second mutex count done1 done2) (was : first.critical = false)
    (busy : first.informing = false) (stays : nextFirst.critical = false) (awake : nextFirst ≠ .waiting)
    (goes : nextFirst ≠ .returned) (fits : nextFirst.Fits thresholds count done1) :
    Turns thresholds nextFirst second mutex count done1 done2 where
  firstOwns := by
    rw [← inv.firstOwns]
    simp [stays, was]
  secondOwns := inv.secondOwns
  upper := inv.upper
  firstFits := fits
  secondFits := inv.secondFits
  unmarked := inv.unmarked
  firstWaits := fun waiting => absurd waiting awake
  secondWaits := inv.second_waits busy goes

/-- `pthread_cond_signal(&cond2)`, inside and outside the mutex. -/
theorem firstSignals (inv : Turns thresholds first second mutex count done1 done2)
    (same : nextFirst.critical = first.critical) (awake : nextFirst ≠ .waiting)
    (fits : nextFirst.Fits thresholds count done1) :
    Turns thresholds nextFirst (if second = .waiting then .woken else second) mutex count done1 done2 where
  firstOwns := by rw [same, inv.firstOwns]
  secondOwns := by
    rw [← inv.secondOwns]
    split
    · rename_i waiting
      simp [waiting, SecondPhase.critical]
    · rfl
  upper := inv.upper
  firstFits := fits
  secondFits := by
    split
    · trivial
    · exact inv.secondFits
  unmarked := inv.unmarked
  firstWaits := fun waiting => absurd waiting awake
  secondWaits := by split <;> simp_all

/-! ### Steps of the second thread -/

/-- A step with the mutex held that leaves `count` alone. -/
theorem secondGoes (inv : Turns thresholds first second mutex count done1 done2) (was : second.critical = true)
    (stays : nextSecond.critical = true) (fits : nextSecond.Fits thresholds count) (unmarked : done = false)
    (waits : first = .waiting → thresholds.Between count ∨ nextSecond.informing = true) :
    Turns thresholds first nextSecond mutex count done1 done where
  firstOwns := inv.firstOwns
  secondOwns := by simp [stays, inv.secondOwns.mp was]
  upper := inv.upper
  firstFits := inv.firstFits
  secondFits := fits
  unmarked := unmarked
  firstWaits := waits
  secondWaits := by
    rintro rfl
    contradiction

/-- `++count` -/
theorem secondCounts (inv : Turns thresholds first .counting mutex count done1 done2) :
    Turns thresholds first .marking mutex (count + 1) done1 done2 := by
  have between : thresholds.Between count := inv.secondFits
  have apart := thresholds.apart
  obtain ⟨lower, upper⟩ := between
  exact {
    firstOwns := inv.firstOwns
    secondOwns := by simp [SecondPhase.critical, inv.secondOwns.mp rfl]
    upper := by omega
    firstFits := FirstPhase.fits_succ (inv.first_away rfl) ⟨lower, upper⟩ inv.firstFits
    secondFits := ⟨by omega, by omega⟩
    unmarked := inv.unmarked
    firstWaits := fun _ => .inr rfl
    secondWaits := by simp }

theorem secondLocks (inv : Turns thresholds first second none count done1 done2) (busy : second.informing = false) :
    Turns thresholds first .testing (some .second) count done1 done2 where
  firstOwns := by simp [inv.firstOwns]
  secondOwns := by simp [SecondPhase.critical]
  upper := inv.upper
  firstFits := inv.firstFits
  secondFits := trivial
  unmarked := inv.unmarked
  firstWaits := inv.first_waits busy
  secondWaits := by simp

theorem secondUnlocks (inv : Turns thresholds first second mutex count done1 done2) (was : second.critical = true)
    (busy : second.informing = false) (leaves : nextSecond.critical = false)
    (outside : nextSecond = .waiting → thresholds.Outside count) :
    Turns thresholds first nextSecond none count done1 done2 where
  firstOwns := by simp [inv.first_away was]
  secondOwns := by simp [leaves]
  upper := inv.upper
  firstFits := inv.firstFits
  secondFits := SecondPhase.fits_outside leaves
  unmarked := inv.unmarked
  firstWaits := inv.first_waits busy
  secondWaits := fun waiting => .inl (outside waiting)

theorem secondOutside (inv : Turns thresholds first second mutex count done1 done2) (was : second.critical = false)
    (busy : second.informing = false) (stays : nextSecond.critical = false) (awake : nextSecond ≠ .waiting) :
    Turns thresholds first nextSecond mutex count done1 done2 where
  firstOwns := inv.firstOwns
  secondOwns := by
    rw [← inv.secondOwns]
    simp [stays, was]
  upper := inv.upper
  firstFits := inv.firstFits
  secondFits := SecondPhase.fits_outside stays
  unmarked := inv.unmarked
  firstWaits := inv.first_waits busy
  secondWaits := fun waiting => absurd waiting awake

/-- `pthread_cond_signal(&cond1)` -/
theorem secondSignals (inv : Turns thresholds first .signalling mutex count done1 done2) :
    Turns thresholds (if first = .waiting then .woken else first) .unlocking mutex count done1 done2 where
  firstOwns := by
    rw [← inv.firstOwns]
    split
    · rename_i waiting
      simp [waiting, FirstPhase.critical]
    · rfl
  secondOwns := by simp [SecondPhase.critical, inv.secondOwns.mp rfl]
  upper := inv.upper
  firstFits := by
    have fits := inv.firstFits
    split
    · rename_i waiting
      rw [waiting] at fits
      exact fits
    · exact fits
  secondFits := trivial
  unmarked := inv.unmarked
  firstWaits := by split <;> simp_all
  secondWaits := by simp

end Turns

/-! ## Whole runs -/

variable {state after : State}

def State.Turns (thresholds : Thresholds) (state : State) : Prop :=
  TwoCounters.Turns thresholds state.first state.second state.mutex state.count state.done1 state.done2

theorem State.Turns.funcCount1 (inv : state.Turns thresholds) (moved : funcCount1 thresholds state = some after) :
    after.Turns thresholds := by
  simp only [State.Turns] at inv
  have upper := inv.upper
  have fits := inv.firstFits
  simp only [TwoCounters.funcCount1] at moved
  cases phase : state.first <;> simp only [phase] at moved inv fits
  case locking =>
      split at moved <;> try contradiction
      rename_i free
      cases moved
      rw [free] at inv
      exact inv.firstLocks rfl fits
  case testing =>
      split at moved
      · rename_i between
        cases moved
        exact inv.firstUnlocks rfl rfl rfl (by simp) fits (fun _ => between)
      · rename_i other
        cases moved
        have outside := Thresholds.outside_of_not_between fits.2 other
        exact inv.firstGoes rfl rfl upper ⟨fits.1, outside⟩ (fun _ => .inl outside)
  case waiting => contradiction
  case woken =>
      split at moved <;> try contradiction
      rename_i free
      cases moved
      rw [free] at inv
      exact inv.firstLocks rfl fits
  case printing =>
      cases moved
      exact inv.firstGoes rfl rfl upper fits (fun _ => .inl fits.2)
  case counting =>
      cases moved
      have ordered := thresholds.ordered
      have apart := thresholds.apart
      have room : state.count < thresholds.done := by
        rcases fits.2 with less | ⟨-, less⟩ <;> omega
      exact inv.firstGoes rfl rfl (m := state.count + 1) room fits.1 (fun _ => .inr (.inl rfl))
  case marking =>
      cases moved
      have unmarked : state.done1 = false := fits
      have marked : (if state.count ≥ thresholds.done then true else state.done1) = true ↔
          state.count = thresholds.done := by
        split <;> simp only [unmarked, true_iff, reduceCtorEq, false_iff] <;> omega
      exact inv.firstGoes rfl rfl upper marked (fun _ => .inr (.inl rfl))
  case checking =>
      cases moved
      by_cases between : state.count ≥ thresholds.halt1 ∧ state.count ≤ thresholds.halt2
      · simp only [State.Turns, between, and_self, if_true]
        exact inv.firstGoes rfl rfl upper fits (fun _ => .inr (.inl rfl))
      · simp only [State.Turns, between, if_false]
        refine inv.firstGoes rfl rfl upper fits fun _ => ?_
        rcases Nat.lt_or_eq_of_le upper with less | finished
        · exact .inl (Thresholds.outside_of_not_between less between)
        · exact .inr (.inr ⟨finished, by simp⟩)
  case signalling =>
      cases moved
      exact inv.firstSignals rfl (by simp) fits
  case unlocking =>
      cases moved
      exact inv.firstUnlocks rfl rfl rfl (by simp) fits (by simp)
  case leaving =>
      cases moved
      by_cases marked : state.done1 = true
      · simp only [State.Turns, marked, if_true] at inv fits ⊢
        exact inv.firstOutside rfl rfl rfl (by simp) (by simp) (fits.mp rfl)
      · have less : state.count ≠ thresholds.done := fun finished => marked (fits.mpr finished)
        have unmarked : state.done1 = false := Bool.not_eq_true _ ▸ marked
        simp only [State.Turns, unmarked, Bool.false_eq_true, if_false] at inv ⊢
        exact inv.firstOutside rfl rfl rfl (by simp) (by simp) ⟨rfl, by omega⟩
  case finishing =>
      cases moved
      exact inv.firstSignals rfl (by simp) fits
  case returned => contradiction

theorem State.Turns.funcCount2 (inv : state.Turns thresholds) (moved : funcCount2 thresholds state = some after) :
    after.Turns thresholds := by
  simp only [State.Turns] at inv
  have ordered := thresholds.ordered
  have apart := thresholds.apart
  have upper := inv.upper
  have fits := inv.secondFits
  simp only [TwoCounters.funcCount2] at moved
  cases phase : state.second <;> simp only [phase] at moved inv fits
  case locking =>
      split at moved <;> try contradiction
      rename_i free
      cases moved
      rw [free] at inv
      exact inv.secondLocks rfl
  case testing =>
      split at moved
      · rename_i outside
        cases moved
        exact inv.secondUnlocks rfl rfl rfl (fun _ => outside)
      · rename_i other
        cases moved
        have turn : thresholds.Between state.count ∨ state.count = thresholds.done := by
          simp only [Thresholds.Between]
          omega
        exact inv.secondGoes rfl rfl turn inv.unmarked (inv.first_waits rfl)
  case waiting => contradiction
  case woken =>
      split at moved <;> try contradiction
      rename_i free
      cases moved
      rw [free] at inv
      exact inv.secondLocks rfl
  case deciding =>
      cases moved
      by_cases finished : state.count = thresholds.done
      · simp only [State.Turns, finished, if_true] at inv ⊢
        exact inv.secondGoes rfl rfl rfl inv.unmarked (inv.first_waits rfl)
      · simp only [State.Turns, finished, if_false]
        exact inv.secondGoes rfl rfl (fits.resolve_right finished) inv.unmarked (inv.first_waits rfl)
  case printing =>
      cases moved
      exact inv.secondGoes rfl rfl fits inv.unmarked (inv.first_waits rfl)
  case counting =>
      cases moved
      exact inv.secondCounts
  case marking =>
      cases moved
      have counted : thresholds.halt1 < state.count ∧ state.count ≤ thresholds.halt2 + 1 := fits
      have unmarked : (if state.count ≥ thresholds.done then true else state.done2) = false := by
        rw [if_neg (by omega)]
        exact inv.unmarked
      exact inv.secondGoes rfl rfl fits unmarked (fun _ => .inr rfl)
  case checking =>
      cases moved
      have counted : thresholds.halt1 < state.count ∧ state.count ≤ thresholds.halt2 + 1 := fits
      by_cases outside : state.count < thresholds.halt1 ∨ state.count > thresholds.halt2
      · simp only [State.Turns, outside, if_true]
        exact inv.secondGoes rfl rfl fits inv.unmarked (fun _ => .inr rfl)
      · simp only [State.Turns, outside, if_false]
        exact inv.secondGoes rfl rfl trivial inv.unmarked (fun _ => .inl ⟨by omega, by omega⟩)
  case signalling =>
      cases moved
      exact inv.secondSignals
  case unlocking =>
      cases moved
      exact inv.secondUnlocks rfl rfl rfl (by simp)
  case leaving =>
      cases moved
      simp only [State.Turns, inv.unmarked, Bool.false_eq_true, if_false] at inv ⊢
      exact inv.secondOutside rfl rfl rfl (by simp)
  case returned => contradiction

theorem State.Turns.spuriousStep (inv : state.Turns thresholds) {thread : Thread}
    (moved : spuriousStep state thread = some after) : after.Turns thresholds := by
  simp only [State.Turns] at inv
  cases thread with
  | first =>
      simp only [TwoCounters.spuriousStep] at moved
      split at moved <;> try contradiction
      rename_i waiting
      cases moved
      rw [waiting] at inv
      exact inv.firstOutside rfl rfl rfl (by simp) (by simp) inv.firstFits
  | second =>
      simp only [TwoCounters.spuriousStep] at moved
      split at moved <;> try contradiction
      rename_i waiting
      cases moved
      rw [waiting] at inv
      exact inv.secondOutside rfl rfl rfl (by simp)

theorem State.Turns.next (inv : state.Turns thresholds) {action : Action}
    (moved : next thresholds state action = some after) : after.Turns thresholds := by
  cases action with
  | step thread =>
      cases thread with
      | first => exact inv.funcCount1 moved
      | second => exact inv.funcCount2 moved
  | spurious thread => exact inv.spuriousStep moved

theorem turns_of_reachable (reached : (machine thresholds).Reachable state) : state.Turns thresholds :=
  reached.invariant (State.Turns thresholds) (turns_start thresholds) fun inv moved => inv.next moved

/-! ## Who counts -/

theorem funcCount1_count (moved : funcCount1 thresholds state = some after) :
    after.count = state.count ∨ after.count = state.count + 1 ∧ state.first = .counting := by
  simp only [funcCount1] at moved
  cases phase : state.first <;> simp only [phase] at moved <;> try split at moved
  all_goals try contradiction
  all_goals cases moved
  all_goals simp

theorem funcCount2_count (moved : funcCount2 thresholds state = some after) :
    after.count = state.count ∨ after.count = state.count + 1 ∧ state.second = .counting := by
  simp only [funcCount2] at moved
  cases phase : state.second <;> simp only [phase] at moved <;> try split at moved
  all_goals try contradiction
  all_goals cases moved
  all_goals simp

theorem spuriousStep_count {thread : Thread} (moved : spuriousStep state thread = some after) :
    after.count = state.count := by
  cases thread <;> simp only [spuriousStep] at moved <;> split at moved <;> cases moved <;> rfl

/-- The holder of the mutex whose turn it is adds one. -/
def CountedBy (thresholds : Thresholds) (state : State) (action : Action) : Prop :=
  ∃ thread, action = .step thread ∧ state.mutex = some thread ∧
    (thread = .second ↔ thresholds.halt1 ≤ state.count ∧ state.count ≤ thresholds.halt2)

theorem State.Turns.counted (inv : state.Turns thresholds) {action : Action}
    (moved : TwoCounters.next thresholds state action = some after) :
    after.count = state.count ∨ after.count = state.count + 1 ∧ CountedBy thresholds state action := by
  cases action with
  | step thread =>
      cases thread with
      | first =>
          rcases funcCount1_count moved with same | ⟨more, phase⟩
          · exact .inl same
          · have fits := inv.firstFits
            have owner : state.mutex = some .first := inv.firstOwns.mp (by rw [phase]; rfl)
            rw [phase] at fits
            have other := fits.2.not_between
            refine .inr ⟨more, .first, rfl, owner, ?_⟩
            simp only [reduceCtorEq, false_iff]
            exact other
      | second =>
          rcases funcCount2_count moved with same | ⟨more, phase⟩
          · exact .inl same
          · have fits := inv.secondFits
            have owner : state.mutex = some .second := inv.secondOwns.mp (by rw [phase]; rfl)
            rw [phase] at fits
            refine .inr ⟨more, .second, rfl, owner, ?_⟩
            simp only [true_iff]
            exact fits
  | spurious thread => exact .inl (spuriousStep_count moved)

/-! ## Progress -/

theorem funcCount1_eq_none (blocked : funcCount1 thresholds state = none) :
    state.first = .waiting ∨ (state.first = .locking ∨ state.first = .woken) ∧ state.mutex ≠ none ∨
      state.first = .returned := by
  simp only [funcCount1] at blocked
  cases phase : state.first <;> simp only [phase] at blocked <;> try split at blocked
  all_goals try contradiction
  all_goals simp_all

theorem funcCount2_eq_none (blocked : funcCount2 thresholds state = none) :
    state.second = .waiting ∨ (state.second = .locking ∨ state.second = .woken) ∧ state.mutex ≠ none ∨
      state.second = .returned := by
  simp only [funcCount2] at blocked
  cases phase : state.second <;> simp only [phase] at blocked <;> try split at blocked
  all_goals try contradiction
  all_goals simp_all

/-- A thread that cannot go on does not hold the mutex, but for the second
thread after it has returned. -/
theorem State.Turns.holder (inv : state.Turns thresholds) (held : state.mutex ≠ none)
    (first : TwoCounters.funcCount1 thresholds state = none) (second : TwoCounters.funcCount2 thresholds state = none) :
    state.second = .returned := by
  obtain ⟨thread, owner⟩ := Option.ne_none_iff_exists'.mp held
  cases thread with
  | first =>
      have inside := inv.firstOwns.mpr owner
      rcases funcCount1_eq_none first with phase | ⟨phase | phase, -⟩ | phase
      all_goals
        rw [phase] at inside
        contradiction
  | second =>
      have inside := inv.secondOwns.mpr owner
      rcases funcCount2_eq_none second with phase | ⟨phase | phase, -⟩ | phase
      · rw [phase] at inside
        contradiction
      · rw [phase] at inside
        contradiction
      · rw [phase] at inside
        contradiction
      · exact phase

/-- Once the second thread has returned, the first has counted for the last time. -/
theorem State.Turns.first_returned (inv : state.Turns thresholds) (second : state.second = .returned)
    (blocked : TwoCounters.funcCount1 thresholds state = none) : state.first = .returned := by
  have fits := inv.firstFits
  have finished := inv.secondFits
  rw [second] at finished
  simp only [SecondPhase.Fits] at finished
  rcases funcCount1_eq_none blocked with phase | ⟨phase | phase, -⟩ | phase
  · rw [phase] at fits
    exact absurd finished (Nat.ne_of_lt fits.2)
  · rw [phase] at fits
    exact absurd finished (Nat.ne_of_lt fits.2)
  · rw [phase] at fits
    exact absurd finished (Nat.ne_of_lt fits.2)
  · exact phase

/-- A second thread that waits with the mutex free has a first thread that goes on. -/
theorem State.Turns.second_not_left (inv : state.Turns thresholds) (free : state.mutex = none)
    (waiting : state.second = .waiting) (blocked : TwoCounters.funcCount1 thresholds state = none) : False := by
  have fits := inv.firstFits
  have turn := inv.firstWaits
  have other := inv.secondWaits waiting
  rw [waiting] at turn
  rcases funcCount1_eq_none blocked with phase | ⟨-, held⟩ | phase
  · rw [phase] at fits turn other
    have between := (turn rfl).resolve_right (by simp [SecondPhase.informing])
    rcases other with outside | informing | ⟨finished, -⟩
    · exact outside.not_between between
    · contradiction
    · exact absurd finished (Nat.ne_of_lt fits.2)
  · exact held free
  · rw [phase] at fits other
    have finished : state.count = thresholds.done := fits
    have apart := thresholds.apart
    have ordered := thresholds.ordered
    rcases other with outside | informing | ⟨-, running⟩
    · rcases outside with less | ⟨-, less⟩ <;> omega
    · contradiction
    · exact running rfl

theorem State.Turns.progress (inv : state.Turns thresholds)
    (unfinished : state.first ≠ .returned ∨ state.second ≠ .returned) :
    ∃ thread, threadStep thresholds state thread ≠ none := by
  by_contra stuck
  simp only [not_exists, not_not] at stuck
  have first : TwoCounters.funcCount1 thresholds state = none := stuck .first
  have second : TwoCounters.funcCount2 thresholds state = none := stuck .second
  by_cases free : state.mutex = none
  · rcases funcCount2_eq_none second with waiting | ⟨-, held⟩ | returned
    · exact inv.second_not_left free waiting first
    · exact held free
    · have owner := inv.secondOwns.mp (by rw [returned]; rfl)
      rw [free] at owner
      contradiction
  · have returned := inv.holder free first second
    rcases unfinished with running | running
    · exact running (inv.first_returned returned first)
    · exact running returned

/-- The threads count in turn: up to `COUNT_DONE`, one at a time and under the
mutex, the second thread from `COUNT_HALT1` to `COUNT_HALT2`; and one of them can
go on, without a spurious wake-up, until both have returned. -/
theorem counters_hand_over (thresholds : Thresholds) (state : State)
    (reached : (machine thresholds).Reachable state) :
    state.count ≤ thresholds.done ∧
    (∀ action after, next thresholds state action = some after →
      after.count = state.count ∨ after.count = state.count + 1 ∧ CountedBy thresholds state action) ∧
    (state.first ≠ .returned ∨ state.second ≠ .returned →
      ∃ thread, next thresholds state (.step thread) ≠ none) := by
  have inv := turns_of_reachable reached
  exact ⟨inv.upper, fun action after moved => inv.counted moved, inv.progress⟩

/-- The thresholds of the source. -/
def Thresholds.ofSource : Thresholds where
  halt1 := 3
  halt2 := 6
  done := 10
  ordered := by decide
  apart := by decide

/-- The first thread has counted to `COUNT_HALT1` and waits, and the second counts on. -/
theorem counters_hand_over_at_three : ∃ state after, (machine .ofSource).Reachable state ∧
    (state.first, state.second, state.count) = (.waiting, .counting, 3) ∧
    next .ofSource state (.step .second) = some after ∧ after.count = 4 ∧
    CountedBy .ofSource state (.step .second) ∧ ∃ thread, next .ofSource after (.step thread) ≠ none := by
  let steps (count : Nat) (thread : Thread) : List Action := List.replicate count (.step thread)
  obtain ⟨state, reached, seen⟩ := Machine.exists_reachable (machine .ofSource)
    (fun state => (state.first, state.second, state.count)) (.waiting, .counting, 3)
    (steps 2 .second ++ steps 27 .first ++ steps 4 .second) (by decide +kernel)
  simp only [Prod.mk.injEq] at seen
  obtain ⟨waits, counts, three⟩ := seen
  have moved : next .ofSource state (.step .second) =
      some { state with second := .marking, count := state.count + 1 } := by
    simp [next, threadStep, funcCount2, counts]
  obtain ⟨-, counted, -⟩ := counters_hand_over .ofSource state reached
  obtain ⟨-, -, goes⟩ := counters_hand_over .ofSource _ (reached.next (.step .second) moved)
  refine ⟨state, _, reached, by simp [waits, counts, three], moved, by simp [three], ?_, goes (.inr (by simp))⟩
  rcases counted _ _ moved with same | ⟨-, turn⟩
  · exact absurd same (Nat.succ_ne_self _)
  · exact turn

end SysProg.Threading.TwoCounters
