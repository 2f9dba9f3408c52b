import SysProg.Threading.CondSemaphore.Bound

namespace SysProg.Threading.CondSemaphore

open Function

/-! ## Who can go on -/

/-- Every phase between a `lock` and an `unlock`, but for the wait. -/
def Phase.owns : Phase → Bool
  | .decrementing | .testing | .unlocking | .incrementing | .signalling | .releasing => true
  | .entering | .waiting | .woken | .critical | .leaving => false

/-- Not a spurious wake-up. -/
def Action.own {ι : Type} : Action ι → Bool
  | .step _ | .signal _ _ => true
  | .spurious _ => false

variable {ι : Type} [Fintype ι] {k : Nat} {state after : State ι} {who : ι} {phase : Phase}

structure Counted (k : Nat) (state : State ι) : Prop where
  count : state.count + tally Phase.counted state.threads = k
  owner : ∀ who, state.countMut = some who → (state.threads who).owns = true
  last : (∀ who, state.threads who = .waiting) → ∀ _ : ι, state.count = -1

theorem counted_start (k : Nat) : Counted k (start k : State ι) where
  count := by simp [start, tally, Phase.counted]
  owner := by simp [start]
  last all who := by simpa [start] using all who

variable [DecidableEq ι]

/-- One thread moves, and it takes the mutex, gives it back or leaves it alone. -/
theorem Counted.go (inv : Counted k state) (moved : after.threads = update state.threads who phase)
    (count : after.count + phase.counted = state.count + (state.threads who).counted)
    (mutex : after.countMut = none ∨ after.countMut = some who ∧ phase.owns = true ∨
      after.countMut = state.countMut ∧ ((state.threads who).owns = true → phase.owns = true))
    (last : phase = .waiting → after.count = -1) : Counted k after := by
  have total := tally_update Phase.counted state.threads who phase
  have before := inv.count
  rw [← moved] at total
  refine ⟨by omega, ?_, ?_⟩
  · intro owner held
    rw [moved]
    rcases mutex with free | ⟨taken, owns⟩ | ⟨same, keeps⟩
    · rw [free] at held
      cases held
    · rw [taken] at held
      cases held
      rw [update_self]
      exact owns
    · rw [same] at held
      have owned := inv.owner owner held
      by_cases here : owner = who
      · rw [here, update_self]
        exact keeps (here ▸ owned)
      · rw [update_of_ne here]
        exact owned
  · intro all _
    have mine := all who
    rw [moved, update_self] at mine
    exact last mine

theorem Counted.step (inv : Counted k state) (moved : step state who = some after) : Counted k after := by
  simp only [CondSemaphore.step] at moved
  cases phase : state.threads who <;> simp only [phase, lock] at moved
  case testing =>
      split at moved <;> cases moved
      · rename_i full
        exact inv.go rfl (by rw [phase]; rfl) (.inl rfl) fun _ => full
      · exact inv.go rfl (by rw [phase]; rfl) (.inr (.inr ⟨rfl, fun _ => rfl⟩)) (by simp)
  case entering | woken | leaving =>
      split at moved <;> cases moved
      exact inv.go rfl (by rw [phase]; rfl) (.inr (.inl ⟨rfl, rfl⟩)) (by simp)
  case decrementing | incrementing =>
      cases moved
      exact inv.go rfl (by rw [phase]; simp [Phase.counted]) (.inr (.inr ⟨rfl, fun _ => rfl⟩)) (by simp)
  case waiting | signalling => cases moved
  case unlocking | releasing =>
      cases moved
      exact inv.go rfl (by rw [phase]; rfl) (.inl rfl) (by simp)
  case critical =>
      cases moved
      exact inv.go rfl (by rw [phase]; rfl) (.inr (.inr ⟨rfl, by simp [phase, Phase.owns]⟩)) (by simp)

theorem Counted.wake (inv : Counted k state) (waiting : state.threads who = .waiting) : Counted k (state.go who .woken) :=
  inv.go rfl (by rw [waiting]; rfl) (.inr (.inr ⟨rfl, by simp [waiting, Phase.owns]⟩)) (by simp)

theorem Counted.signal (inv : Counted k state) {waiter : Option ι} (moved : signal state who waiter = some after) :
    Counted k after := by
  simp only [CondSemaphore.signal] at moved
  split at moved
  · rename_i signalling
    have released : Counted k (state.go who .releasing) :=
      inv.go rfl (by rw [signalling]; rfl) (.inr (.inr ⟨rfl, fun _ => rfl⟩)) (by simp)
    split at moved
    · rename_i other
      split at moved <;> cases moved
      rename_i waiting
      apply released.wake
      have different : other ≠ who := by
        rintro rfl
        rw [signalling] at waiting
        cases waiting
      simp only [State.go, update_of_ne different, waiting]
    · split at moved <;> cases moved
      exact released
  · cases moved

theorem Counted.next (inv : Counted k state) {action : Action ι} (moved : next state action = some after) :
    Counted k after := by
  cases action with
  | step who => exact inv.step moved
  | signal who waiter => exact inv.signal moved
  | spurious waiter =>
      simp only [CondSemaphore.next] at moved
      split at moved <;> cases moved
      exact inv.wake ‹_›

/-- A thread that does not wait for the condition, nor for the mutex, goes on. -/
theorem thread_goes_on (awake : state.threads who ≠ .waiting)
    (free : state.countMut = none ∨ (state.threads who).owns = true) :
    ∃ action after, Action.own action = true ∧ next state action = some after := by
  cases phase : state.threads who with
  | entering | woken | leaving =>
      have unlocked : state.countMut = none := free.resolve_right (by rw [phase]; decide)
      exact ⟨.step who, _, rfl, by rw [next, step, phase]; exact if_pos unlocked⟩
  | decrementing | unlocking | critical | incrementing | releasing =>
      exact ⟨.step who, _, rfl, by rw [next, step, phase]⟩
  | testing =>
      by_cases full : state.count = -1
      · exact ⟨.step who, _, rfl, by rw [next, step, phase]; exact if_pos full⟩
      · exact ⟨.step who, _, rfl, by rw [next, step, phase]; exact if_neg full⟩
  | signalling =>
      by_cases someone : ∃ waiter, state.threads waiter = .waiting
      · obtain ⟨waiter, waiting⟩ := someone
        exact ⟨.signal who (some waiter), _, rfl, by rw [next, signal, if_pos phase]; exact if_pos waiting⟩
      · have nobody : ∀ other, state.threads other ≠ .waiting := fun other waiting => someone ⟨other, waiting⟩
        exact ⟨.signal who none, _, rfl, by rw [next, signal, if_pos phase]; exact if_pos nobody⟩
  | waiting => exact absurd phase awake

/-- With any number of threads but `k + 1` they do not all wait. -/
theorem Counted.goes_on (inv : Counted k state) (someone : Fintype.card ι ≠ 0) (apart : Fintype.card ι ≠ k + 1) :
    ∃ action after, Action.own action = true ∧ CondSemaphore.next state action = some after := by
  cases held : state.countMut with
  | some who =>
      have owns := inv.owner who held
      exact thread_goes_on (fun waiting => by rw [waiting] at owns; cases owns) (.inr owns)
  | none =>
      by_contra stuck
      have all : ∀ who, state.threads who = .waiting := by
        intro who
        by_contra awake
        exact stuck (thread_goes_on awake (.inl held))
      obtain ⟨who⟩ := Fintype.card_pos_iff.mp (Nat.pos_of_ne_zero someone)
      have full := inv.last all who
      have count := inv.count
      have everyone : tally Phase.counted state.threads = Fintype.card ι := by
        simp [tally, all, Phase.counted]
      omega

/-! ## All of `k + 1` threads waiting -/

/-- The given threads are in the critical section, and the others wait. -/
def blocked (threads : Finset ι) : State ι where
  threads := fun who => if who ∈ threads then .critical else .waiting
  count := -1
  countMut := none

/-- A thread leaves and wakes another, but enters and waits before that one has looked at the counter. -/
def barge (who waiter : ι) : List (Action ι) :=
  List.replicate 3 (.step who) ++ [.signal who (some waiter)] ++ List.replicate 4 (.step who) ++
    List.replicate 2 (.step waiter)

theorem run_barge (who waiter : ι) (inside : state.threads who = .critical) (waits : state.threads waiter = .waiting)
    (free : state.countMut = none) (full : state.count = -1) :
    (machine ι k).run state (barge who waiter) = some (state.go who .waiting) := by
  have different : waiter ≠ who := by
    rintro rfl
    rw [inside] at waits
    cases waits
  simp only [barge, List.replicate, Machine.run, machine, next, step, signal, lock, State.go, inside, waits, free, full,
    different, different.symm, update_self, update_of_ne, ne_eq, not_false_eq_true, List.cons_append, List.nil_append,
    Option.bind_some, if_true, update_idem, Int.reduceAdd, Int.reduceSub, Int.reduceNeg, Option.some.injEq, State.mk.injEq,
    and_true]
  funext other
  by_cases first : other = waiter
  · simp [first, different, waits]
  · by_cases second : other = who
    · simp [second, different.symm]
    · simp [first, second]

/-- The thread that is not inside is the only one that waits. -/
theorem occupied_blocks (size : Fintype.card ι = k + 1) {threads : Finset ι} {waiter : ι} (waits : waiter ∉ threads)
    (full : threads.card = k) : { (occupied k threads).go waiter .waiting with count := -1 } = blocked threads := by
  have others : threads = Finset.univ.erase waiter := by
    refine Finset.eq_of_subset_of_card_le (fun who member => ?_) ?_
    · exact Finset.mem_erase.mpr ⟨fun same => waits (same ▸ member), Finset.mem_univ who⟩
    · rw [Finset.card_erase_of_mem (Finset.mem_univ waiter), Finset.card_univ]
      omega
  simp only [occupied, blocked, State.go, State.mk.injEq, and_true]
  funext other
  by_cases here : other = waiter
  · simp [here, waits]
  · have inside : other ∈ threads := others ▸ Finset.mem_erase.mpr ⟨here, Finset.mem_univ other⟩
    simp [here, inside]

omit [Fintype ι] in
theorem blocked_barge {threads : Finset ι} (absent : who ∉ threads) :
    (blocked (insert who threads)).go who .waiting = blocked threads := by
  simp only [blocked, State.go, State.mk.injEq, and_true]
  funext other
  by_cases here : other = who
  · simp [here, absent]
  · simp [here]

theorem reachable_blocked (size : Fintype.card ι = k + 1) {threads : Finset ι} {waiter : ι} (waits : waiter ∉ threads) :
    (machine ι k).Reachable (blocked threads) := by
  have few : threads.card < Fintype.card ι := by
    rw [← Finset.card_univ]
    exact Finset.card_lt_card (Finset.ssubset_univ_iff.mpr fun all => waits (all ▸ Finset.mem_univ waiter))
  induction left : k - threads.card generalizing threads waiter with
  | zero =>
      have full : threads.card = k := by omega
      have outside : (occupied k threads).threads waiter = .entering := by simp [occupied, waits]
      have blocks := (reachable_occupied threads full.le).run _ (run_block outside rfl (by simp [occupied, full]))
      rwa [occupied_blocks size waits full] at blocks
  | succ left ih =>
      have room : (insert waiter threads).card < (Finset.univ : Finset ι).card := by
        rw [Finset.card_insert_of_notMem waits, Finset.card_univ]
        omega
      obtain ⟨who, -, beyond⟩ := Finset.exists_mem_notMem_of_card_lt_card room
      obtain ⟨different, absent⟩ := not_or.mp (mt Finset.mem_insert.mpr beyond)
      have stays : waiter ∉ insert who threads := by
        rw [Finset.mem_insert, not_or]
        exact ⟨Ne.symm different, waits⟩
      have card := Finset.card_insert_of_notMem absent
      have reached := ih stays (by rw [Finset.card_insert_of_notMem waits, Finset.card_univ] at room; omega) (by omega)
      have barged := reached.run _ (run_barge who waiter (by simp [blocked])
        (by simp only [blocked, stays, if_false]) rfl rfl)
      rwa [blocked_barge absent] at barged

/-- In any state in which all wait only a spurious wake-up is possible. -/
theorem blocked_stuck {action : Action ι} (own : action.own = true) : next (blocked (∅ : Finset ι)) action = none := by
  cases action with
  | step who => simp [next, step, blocked]
  | signal who waiter => simp [next, signal, blocked]
  | spurious waiter => cases own

/-- A thread can always go on if and only if there is one and the number of threads is not one more than
`k`, so that the semaphore both bounds the critical section and never deadlocks just for one to `k` threads. -/
theorem semaphore_goes_on_iff (ι : Type) [Fintype ι] [DecidableEq ι] (k : Nat) :
    ((∀ state, (machine ι k).Reachable state → ∃ action after, Action.own action = true ∧
        (machine ι k).next state action = some after) ↔ Fintype.card ι ≠ 0 ∧ Fintype.card ι ≠ k + 1) ∧
    ((∀ state, (machine ι k).Reachable state → state.inside.card ≤ k ∧ ∃ action after, Action.own action = true ∧
        (machine ι k).next state action = some after) ↔ 0 < Fintype.card ι ∧ Fintype.card ι ≤ k) := by
  have goesOn : (∀ state, (machine ι k).Reachable state → ∃ action after, Action.own action = true ∧
      (machine ι k).next state action = some after) ↔ Fintype.card ι ≠ 0 ∧ Fintype.card ι ≠ k + 1 := by
    constructor
    · intro lively
      refine ⟨fun nobody => ?_, fun size => ?_⟩
      · obtain ⟨action, -, -⟩ := lively _ Machine.reachable_init
        have empty := Fintype.card_eq_zero_iff.mp nobody
        cases action with
        | step who | signal who _ | spurious who => exact empty.false who
      · obtain ⟨waiter⟩ := Fintype.card_pos_iff.mp (by omega : 0 < Fintype.card ι)
        obtain ⟨action, after, own, moved⟩ := lively _ (reachable_blocked size (Finset.notMem_empty waiter))
        have stuck := (blocked_stuck own).symm.trans moved
        cases stuck
    · rintro ⟨someone, apart⟩ state reached
      have counted : Counted k state := reached.invariant (Counted k) (counted_start k) fun inv moved => inv.next moved
      exact counted.goes_on someone apart
  refine ⟨goesOn, ?_⟩
  constructor
  · intro works
    obtain ⟨someone, apart⟩ := goesOn.mp fun state reached => (works state reached).2
    refine ⟨Nat.pos_of_ne_zero someone, ?_⟩
    by_contra many
    obtain ⟨state, reached, crowded⟩ := reachable_crowded (ι := ι) (k := k) (by omega)
    exact absurd (works state reached).1 (by omega)
  · rintro ⟨someone, few⟩ state reached
    exact ⟨inside_le (by omega) reached, goesOn.mpr ⟨by omega, by omega⟩ state reached⟩

end SysProg.Threading.CondSemaphore
