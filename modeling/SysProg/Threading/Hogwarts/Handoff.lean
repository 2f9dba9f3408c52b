import SysProg.Library.Threads
import SysProg.Threading.Hogwarts
import Mathlib.Data.List.Perm.Basic
import Mathlib.Data.List.Nodup
import Mathlib.Tactic

namespace SysProg.Threading.Hogwarts

open Function

/-! ## What a phase stands for -/

/-- The elf has a permit of `full_list` and has not yet moved `list_head`. -/
def ElfPhase.untaken : ElfPhase → Nat
  | .locking | .taking | .failing | .reading | .following _ | .advancing _ _ => 1
  | _ => 0

/-- The elf has a permit and has not yet decremented `active_tasks`. -/
def ElfPhase.permit : ElfPhase → Nat
  | .loading _ | .storing _ _ => 1
  | phase => phase.untaken

def ElfPhase.test : ElfPhase → Nat
  | .testing _ => 1
  | _ => 0

def ElfPhase.wake : ElfPhase → Nat
  | .announcing _ | .waking _ => 1
  | _ => 0

def ElfPhase.critical : ElfPhase → Bool
  | .taking | .failing | .reading | .following _ | .advancing _ _ | .loading _ | .storing _ _ | .testing _
  | .announcing _ | .waking _ | .unlocking _ | .cleaning => true
  | _ => false

/-- Tasks on the list for which Dobby has not yet posted a permit. -/
def DobbyPhase.listed : DobbyPhase → Int
  | .posting _ i | .linking _ i _ => i
  | .activating n => n
  | .signalling n i => n - i
  | _ => 0

/-- Permits of `active_tasks` that Dobby has not yet posted. -/
def DobbyPhase.owed : DobbyPhase → Int
  | .signalling n i => n - i
  | _ => 0

/-- Tasks taken off `total_tasks` and not yet on the list. -/
def DobbyPhase.unlisted : DobbyPhase → Int
  | .posting n i | .linking n i _ => n - i
  | _ => 0

/-- Dobby is done with his loop. -/
def DobbyPhase.left : DobbyPhase → Bool
  | .cancelling _ | .joining _ | .finished => true
  | _ => false

/-- Dobby has waited for `empty_list` and not yet set `active_tasks`. -/
def DobbyPhase.alone : DobbyPhase → Bool
  | .checking | .posting _ _ | .linking _ _ _ | .activating _ => true
  | _ => false

/-- What Dobby's own phase remembers is right. -/
def DobbyPhase.Fits (state : State) : DobbyPhase → Prop
  | .creating i => ∀ j : Elf, i ≤ j → state.elves j = .unborn
  | .posting n i => 1 ≤ n ∧ i ≤ n
  | .linking n i next => 1 ≤ n ∧ i < n ∧ next = state.listHead
  | .activating n => 1 ≤ n
  | .signalling n i => 1 ≤ n ∧ i ≤ n ∧ state.activeTasks ≤ n
  | .cancelling _ | .joining _ | .finished => state.totalTasks = 0
  | _ => True

/-- What an elf has read is still so. -/
def ElfPhase.Fits (state : State) : ElfPhase → Prop
  | .failing => False
  | .following todo => ∃ rest, state.listHead = todo :: rest
  | .advancing todo next => state.listHead = todo :: next
  | .storing _ value => value = state.activeTasks
  | _ => True

/-! ## The invariant -/

structure Handoff (totalTasks : Int) (state : State) : Prop where
  running : state.process = .running
  owner : ∀ i, (state.elves i).critical = true → state.mutex = some i
  listed : (state.listHead.length : Int) = state.dobby.listed + state.fullList + tally ElfPhase.untaken state.elves
  active : state.activeTasks = state.dobby.owed + state.fullList + tally ElfPhase.permit state.elves
  token : state.emptyList + (if state.dobby.alone ∨ state.dobby.left then 1 else 0) +
    tally ElfPhase.wake state.elves + (if state.activeTasks = 0 then tally ElfPhase.test state.elves else 1) = 1
  dobby : state.dobby.Fits state
  elves : ∀ i, (state.elves i).Fits state
  ids : (state.taken ++ state.listHead).Perm (List.range' 1 state.taskIdCounter)
  tasks : state.taskIdCounter + state.dobby.unlisted + state.totalTasks = totalTasks
  nonneg : 0 ≤ state.totalTasks
  cancelled : ∀ i, state.cancelled i = true → state.dobby.left = true

variable {totalTasks : Int} {state after : State} {i : Elf}

theorem handoff_start (nonneg : 0 ≤ totalTasks) : Handoff totalTasks (start totalTasks) where
  running := rfl
  owner := by simp [start, ElfPhase.critical]
  listed := by simp [start, DobbyPhase.listed, tally, ElfPhase.untaken]
  active := by simp [start, DobbyPhase.owed, tally, ElfPhase.permit, ElfPhase.untaken]
  token := by simp [start, DobbyPhase.alone, DobbyPhase.left, tally, ElfPhase.wake, ElfPhase.test]
  dobby := by simp [start, DobbyPhase.Fits]
  elves := by simp [start, ElfPhase.Fits]
  ids := by simp [start]
  tasks := by simp [start, DobbyPhase.unlisted]
  nonneg := nonneg
  cancelled := by simp [start]

/-- While Dobby has the token, no permit is out and nobody is about to wake him. -/
theorem Handoff.quiet (inv : Handoff totalTasks state) (has : state.dobby.alone ∨ state.dobby.left) :
    state.activeTasks = 0 ∧ state.emptyList = 0 ∧ state.fullList = 0 ∧
      ∀ i, (state.elves i).permit = 0 ∧ (state.elves i).wake = 0 ∧ (state.elves i).test = 0 := by
  have token := inv.token
  rw [if_pos has] at token
  have inactive : state.activeTasks = 0 := by
    by_contra busy
    rw [if_neg busy] at token
    omega
  rw [if_pos inactive] at token
  have active := inv.active
  have owed : state.dobby.owed = 0 := by
    cases phase : state.dobby <;> simp [phase, DobbyPhase.alone, DobbyPhase.left, DobbyPhase.owed] at has ⊢
  refine ⟨inactive, by omega, by omega, ?_⟩
  intro i
  have permit := le_tally ElfPhase.permit state.elves i
  have wake := le_tally ElfPhase.wake state.elves i
  have test := le_tally ElfPhase.test state.elves i
  omega

theorem DobbyPhase.Fits.update_elf (fits : state.dobby.Fits state) (born : state.elves i ≠ .unborn)
    (phase : ElfPhase) : state.dobby.Fits { state with elves := update state.elves i phase } := by
  cases dobby : state.dobby <;> simp only [dobby, DobbyPhase.Fits] at fits ⊢ <;> try exact fits
  intro j later
  have other : j ≠ i := by
    intro same
    exact born (same ▸ fits j later)
  rw [update_of_ne other]
  exact fits j later

theorem owner_update {elves : Elf → ElfPhase} {mutex : Option Elf} {phase : ElfPhase}
    (held : phase.critical = true → mutex = some i)
    (others : ∀ j, j ≠ i → (elves j).critical = true → mutex = some j) :
    ∀ j, (update elves i phase j).critical = true → mutex = some j :=
  (forall_update_iff elves fun j phase => phase.critical = true → mutex = some j).mpr ⟨held, others⟩

theorem fits_update {elves : Elf → ElfPhase} {phase : ElfPhase} (fits : phase.Fits state)
    (others : ∀ j, j ≠ i → (elves j).Fits state) : ∀ j, (update elves i phase j).Fits state :=
  (forall_update_iff elves fun _ phase => phase.Fits state).mpr ⟨fits, others⟩

theorem Handoff.outside (inv : Handoff totalTasks state) (critical : (state.elves i).critical = true) {j : Elf}
    (other : j ≠ i) : (state.elves j).critical = false := by
  by_contra both
  have same := (inv.owner j (by simpa using both)).symm.trans (inv.owner i critical)
  exact other (Option.some.inj same)

theorem ElfPhase.fits_of_outside {phase : ElfPhase} (outside : phase.critical = false) : phase.Fits state := by
  cases phase <;> simp [ElfPhase.critical, ElfPhase.Fits] at outside ⊢

theorem ElfPhase.test_of_outside {phase : ElfPhase} (outside : phase.critical = false) : phase.test = 0 := by
  cases phase <;> simp [ElfPhase.critical, ElfPhase.test] at outside ⊢

theorem weigh {elves : Elf → ElfPhase} {before : ElfPhase} (was : elves i = before) (phase : ElfPhase) :
    tally ElfPhase.untaken (update elves i phase) + before.untaken = tally ElfPhase.untaken elves + phase.untaken ∧
      tally ElfPhase.permit (update elves i phase) + before.permit = tally ElfPhase.permit elves + phase.permit ∧
      tally ElfPhase.wake (update elves i phase) + before.wake = tally ElfPhase.wake elves + phase.wake ∧
      tally ElfPhase.test (update elves i phase) + before.test = tally ElfPhase.test elves + phase.test := by
  subst was
  exact ⟨tally_update _ _ _ _, tally_update _ _ _ _, tally_update _ _ _ _, tally_update _ _ _ _⟩

theorem Handoff.move (inv : Handoff totalTasks state) {before : ElfPhase} (was : state.elves i = before)
    (phase : ElfPhase) (mutex : Option Elf) (completed : List Nat) (born : before ≠ .unborn)
    (untaken : phase.untaken = before.untaken) (permit : phase.permit = before.permit)
    (wake : phase.wake = before.wake) (test : phase.test = before.test)
    (fits : phase.Fits state) (held : phase.critical = true → mutex = some i)
    (others : ∀ j, j ≠ i → (state.elves j).critical = true → mutex = some j) :
    Handoff totalTasks { state with elves := update state.elves i phase, mutex, completed } := by
  have weights := weigh was phase
  simp only [untaken, permit, wake, test, Nat.add_right_cancel_iff] at weights
  obtain ⟨untaken, permit, wake, test⟩ := weights
  exact {
    inv with
    owner := owner_update held others
    listed := by rw [untaken]; exact inv.listed
    active := by rw [permit]; exact inv.active
    token := by rw [wake, test]; exact inv.token
    dobby := inv.dobby.update_elf (was ▸ born) phase
    elves := fits_update fits fun j _ => inv.elves j }

theorem Handoff.acquire (inv : Handoff totalTasks state) (phase : state.elves i = .waiting)
    (available : 0 < state.fullList) :
    Handoff totalTasks
      { state with elves := update state.elves i .locking, fullList := state.fullList - 1 } := by
  obtain ⟨untaken, permit, wake, test⟩ := weigh phase .locking
  simp only [ElfPhase.untaken, ElfPhase.permit, ElfPhase.wake, ElfPhase.test, Nat.add_zero] at untaken permit wake test
  have listed := inv.listed
  have active := inv.active
  exact {
    inv with
    owner := owner_update (by simp [ElfPhase.critical]) fun j _ => inv.owner j
    listed := by simp only; omega
    active := by simp only; omega
    token := by rw [wake, test]; exact inv.token
    dobby := inv.dobby.update_elf (by simp [phase]) .locking
    elves := fits_update trivial fun j _ => inv.elves j }

theorem Handoff.not_quiet (inv : Handoff totalTasks state) {phase : ElfPhase} (here : state.elves i = phase)
    (busy : phase.permit = 1 ∨ phase.wake = 1 ∨ phase.test = 1 ∧ state.activeTasks = 0) :
    ¬ (state.dobby.alone ∨ state.dobby.left) := by
  intro has
  have quiet := (inv.quiet has).2.2.2 i
  rw [here] at quiet
  omega

theorem Handoff.advance (inv : Handoff totalTasks state) {todo : Nat} {next : List Nat}
    (phase : state.elves i = .advancing todo next) :
    Handoff totalTasks
      { state with
        elves := update state.elves i (.loading todo)
        listHead := next
        taken := state.taken ++ [todo] } := by
  have critical : (state.elves i).critical = true := by rw [phase]; rfl
  have notQuiet := inv.not_quiet phase (.inl rfl)
  have found := inv.elves i
  simp only [phase, ElfPhase.Fits] at found
  obtain ⟨untaken, permit, wake, test⟩ := weigh phase (.loading todo)
  simp only [ElfPhase.untaken, ElfPhase.permit, ElfPhase.wake, ElfPhase.test, Nat.add_zero] at untaken permit wake test
  have listed := inv.listed
  have active := inv.active
  have ids := inv.ids
  rw [found] at listed ids
  rw [List.length_cons] at listed
  exact {
    inv with
    owner := owner_update (fun _ => inv.owner i critical) fun j _ => inv.owner j
    listed := by simp only; omega
    active := by simp only; omega
    token := by rw [wake, test]; exact inv.token
    dobby := by
      have fits := inv.dobby.update_elf (i := i) (by simp [phase]) (.loading todo)
      cases dobby : state.dobby <;> simp_all [DobbyPhase.Fits, DobbyPhase.alone]
    elves := fits_update trivial fun j other => ElfPhase.fits_of_outside (inv.outside critical other)
    ids := by simpa using ids }

theorem Handoff.decrement (inv : Handoff totalTasks state) {todo : Nat} {value : Int}
    (phase : state.elves i = .storing todo value) :
    Handoff totalTasks
      { state with elves := update state.elves i (.testing todo), activeTasks := value - 1 } := by
  have critical : (state.elves i).critical = true := by rw [phase]; rfl
  have notQuiet := inv.not_quiet phase (.inl rfl)
  have found := inv.elves i
  simp only [phase, ElfPhase.Fits] at found
  subst found
  have noTest : tally ElfPhase.test state.elves = 0 := by
    rw [tally_eq_zero]
    intro j
    by_cases same : j = i
    · rw [same, phase]
      rfl
    · exact ElfPhase.test_of_outside (inv.outside critical same)
  have counted := le_tally ElfPhase.permit state.elves i
  obtain ⟨untaken, permit, wake, test⟩ := weigh phase (.testing todo)
  rw [phase] at counted
  simp only [ElfPhase.untaken, ElfPhase.permit, ElfPhase.wake, ElfPhase.test, Nat.add_zero, noTest] at counted untaken permit wake test
  have listed := inv.listed
  have active := inv.active
  have owed : 0 ≤ state.dobby.owed := by
    have fits := inv.dobby
    cases dobby : state.dobby <;> simp only [dobby, DobbyPhase.Fits, DobbyPhase.owed] at fits ⊢ <;> omega
  have token := inv.token
  rw [if_neg notQuiet, if_neg (by omega)] at token
  exact {
    inv with
    owner := owner_update (fun _ => inv.owner i critical) fun j _ => inv.owner j
    listed := by simp only; omega
    active := by simp only; omega
    token := by
      rw [if_neg notQuiet, wake, test]
      split <;> omega
    dobby := by
      have fits := inv.dobby.update_elf (i := i) (by simp [phase]) (.testing todo)
      cases dobby : state.dobby <;> simp_all [DobbyPhase.Fits, DobbyPhase.alone]
      omega
    elves := fits_update trivial fun j other => ElfPhase.fits_of_outside (inv.outside critical other) }

/-- The elf that finds `active_tasks` at zero will wake Dobby. -/
theorem Handoff.announce (inv : Handoff totalTasks state) {todo : Nat} (phase : state.elves i = .testing todo)
    (last : state.activeTasks = 0) :
    Handoff totalTasks { state with elves := update state.elves i (.announcing todo) } := by
  have critical : (state.elves i).critical = true := by rw [phase]; rfl
  obtain ⟨untaken, permit, wake, test⟩ := weigh phase (.announcing todo)
  simp only [ElfPhase.untaken, ElfPhase.permit, ElfPhase.wake, ElfPhase.test, Nat.add_zero] at untaken permit wake test
  have token := inv.token
  rw [if_pos last] at token
  exact {
    inv with
    owner := owner_update (fun _ => inv.owner i critical) fun j _ => inv.owner j
    listed := by rw [untaken]; exact inv.listed
    active := by rw [permit]; exact inv.active
    token := by
      rw [if_pos last]
      simp only
      omega
    dobby := inv.dobby.update_elf (by simp [phase]) (.announcing todo)
    elves := fits_update trivial fun j _ => inv.elves j }

theorem Handoff.pass (inv : Handoff totalTasks state) {todo : Nat} (phase : state.elves i = .testing todo)
    (more : state.activeTasks ≠ 0) :
    Handoff totalTasks { state with elves := update state.elves i (.unlocking todo) } := by
  have critical : (state.elves i).critical = true := by rw [phase]; rfl
  obtain ⟨untaken, permit, wake, test⟩ := weigh phase (.unlocking todo)
  simp only [ElfPhase.untaken, ElfPhase.permit, ElfPhase.wake, ElfPhase.test, Nat.add_zero] at untaken permit wake test
  have token := inv.token
  rw [if_neg more] at token
  exact {
    inv with
    owner := owner_update (fun _ => inv.owner i critical) fun j _ => inv.owner j
    listed := by rw [untaken]; exact inv.listed
    active := by rw [permit]; exact inv.active
    token := by
      rw [if_neg more, wake]
      exact token
    dobby := inv.dobby.update_elf (by simp [phase]) (.unlocking todo)
    elves := fits_update trivial fun j _ => inv.elves j }

theorem Handoff.wake (inv : Handoff totalTasks state) {todo : Nat} (phase : state.elves i = .waking todo) :
    Handoff totalTasks
      { state with elves := update state.elves i (.unlocking todo), emptyList := state.emptyList + 1 } := by
  have critical : (state.elves i).critical = true := by rw [phase]; rfl
  obtain ⟨untaken, permit, wake, test⟩ := weigh phase (.unlocking todo)
  simp only [ElfPhase.untaken, ElfPhase.permit, ElfPhase.wake, ElfPhase.test, Nat.add_zero] at untaken permit wake test
  have token := inv.token
  exact {
    inv with
    owner := owner_update (fun _ => inv.owner i critical) fun j _ => inv.owner j
    listed := by rw [untaken]; exact inv.listed
    active := by rw [permit]; exact inv.active
    token := by
      rw [test]
      simp only
      omega
    dobby := inv.dobby.update_elf (by simp [phase]) (.unlocking todo)
    elves := fits_update trivial fun j _ => inv.elves j }

/-! ## Every step keeps it -/

theorem Handoff.keep (inv : Handoff totalTasks state) {before : ElfPhase} (was : state.elves i = before)
    (phase : ElfPhase) (born : before ≠ .unborn) (untaken : phase.untaken = before.untaken)
    (permit : phase.permit = before.permit) (wake : phase.wake = before.wake) (test : phase.test = before.test)
    (fits : phase.Fits state) (held : phase.critical = true → before.critical = true) :
    Handoff totalTasks { state with elves := update state.elves i phase } := by
  subst was
  exact inv.move rfl phase state.mutex state.completed born untaken permit wake test fits
    (fun critical => inv.owner i (held critical)) fun j _ => inv.owner j

theorem Handoff.list_ne_nil (inv : Handoff totalTasks state) {phase : ElfPhase} (here : state.elves i = phase)
    (untaken : phase.untaken = 1) : state.listHead ≠ [] := by
  intro empty
  have listed := inv.listed
  have counted := le_tally ElfPhase.untaken state.elves i
  have fits := inv.dobby
  rw [here, untaken] at counted
  rw [empty, List.length_nil] at listed
  have nonneg : 0 ≤ state.dobby.listed := by
    cases dobby : state.dobby <;> simp only [dobby, DobbyPhase.Fits, DobbyPhase.listed] at fits ⊢ <;> omega
  omega

theorem Handoff.elfStep (inv : Handoff totalTasks state) (moved : elfStep state i = some after) :
    Handoff totalTasks after := by
  simp only [Hogwarts.elfStep] at moved
  cases phase : state.elves i with
  | unborn | dead => simp [phase] at moved
  | waiting =>
      simp only [phase] at moved
      split at moved
      · cases moved
        exact inv.acquire phase ‹_›
      · contradiction
  | locking =>
      simp only [phase] at moved
      split at moved
      · rename_i free
        cases moved
        apply inv.move phase .taking (some i) state.completed (by simp) rfl rfl rfl rfl trivial fun _ => rfl
        intro j other critical
        have held := inv.owner j critical
        rw [free] at held
        contradiction
      · contradiction
  | taking =>
      simp only [phase, inv.list_ne_nil phase rfl, if_false] at moved
      cases moved
      exact inv.keep phase .reading (by simp) rfl rfl rfl rfl trivial fun _ => rfl
  | failing =>
      have impossible := inv.elves i
      rw [phase] at impossible
      contradiction
  | reading =>
      simp only [phase] at moved
      split at moved
      · exact absurd ‹_› (inv.list_ne_nil phase rfl)
      · rename_i todo rest found
        cases moved
        exact inv.keep phase (.following todo) (by simp) rfl rfl rfl rfl ⟨rest, found⟩ fun _ => rfl
  | following todo =>
      have known := inv.elves i
      simp only [phase, ElfPhase.Fits] at known
      obtain ⟨rest, found⟩ := known
      simp only [phase] at moved
      split at moved
      · exact absurd ‹_› (inv.list_ne_nil phase rfl)
      · rename_i head next again
        cases moved
        rw [found] at again
        cases again
        exact inv.keep phase (.advancing todo rest) (by simp) rfl rfl rfl rfl found fun _ => rfl
  | advancing todo next =>
      simp only [phase] at moved
      cases moved
      exact inv.advance phase
  | loading todo =>
      simp only [phase] at moved
      cases moved
      exact inv.keep phase (.storing todo state.activeTasks) (by simp) rfl rfl rfl rfl rfl fun _ => rfl
  | storing todo value =>
      simp only [phase] at moved
      cases moved
      exact inv.decrement phase
  | testing todo =>
      simp only [phase] at moved
      split at moved
      · cases moved
        exact inv.announce phase ‹_›
      · cases moved
        exact inv.pass phase ‹_›
  | announcing todo =>
      simp only [phase] at moved
      cases moved
      exact inv.keep phase (.waking todo) (by simp) rfl rfl rfl rfl trivial fun _ => rfl
  | waking todo =>
      simp only [phase] at moved
      cases moved
      exact inv.wake phase
  | unlocking todo =>
      simp only [phase] at moved
      cases moved
      apply inv.move phase (.working todo) none state.completed (by simp) rfl rfl rfl rfl trivial (by simp [ElfPhase.critical])
      intro j other critical
      have outside := inv.outside (by rw [phase]; rfl) other
      rw [critical] at outside
      contradiction
  | working todo =>
      simp only [phase] at moved
      cases moved
      exact inv.keep phase (.reporting todo) (by simp) rfl rfl rfl rfl trivial (by simp [ElfPhase.critical])
  | reporting todo =>
      simp only [phase] at moved
      cases moved
      exact inv.keep phase (.freeing todo) (by simp) rfl rfl rfl rfl trivial (by simp [ElfPhase.critical])
  | freeing todo =>
      simp only [phase] at moved
      cases moved
      exact inv.move phase .waiting state.mutex (state.completed ++ [todo]) (by simp) rfl rfl rfl rfl trivial (by simp [ElfPhase.critical])
        fun j _ => inv.owner j
  | cleaning =>
      simp only [phase] at moved
      cases moved
      apply inv.move phase .dead none state.completed (by simp) rfl rfl rfl rfl trivial (by simp [ElfPhase.critical])
      intro j other critical
      have outside := inv.outside (by rw [phase]; rfl) other
      rw [critical] at outside
      contradiction

/-- Only an elf without permit and mutex is ever cancelled: one that waits for
a permit, or one that has printed its result. -/
theorem Handoff.cancelStep (inv : Handoff totalTasks state) {printfCancels : Bool}
    (moved : cancelStep printfCancels state i = some after) : Handoff totalTasks after := by
  simp only [Hogwarts.cancelStep] at moved
  split at moved
  · rename_i pending
    have left := inv.cancelled i pending
    cases phase : state.elves i with
    | waiting =>
        simp only [phase, ElfPhase.cancelled] at moved
        cases moved
        exact inv.keep phase .dead (by simp) rfl rfl rfl rfl trivial (by simp [ElfPhase.critical])
    | reporting todo =>
        simp only [phase, ElfPhase.cancelled] at moved
        cases printfCancels with
        | true =>
            cases moved
            exact inv.keep phase .dead (by simp) rfl rfl rfl rfl trivial (by simp [ElfPhase.critical])
        | false => cases moved
    | failing =>
        have impossible := inv.elves i
        rw [phase] at impossible
        contradiction
    | announcing todo => exact absurd (.inr left) (inv.not_quiet phase (.inr (.inl rfl)))
    | _ => simp [phase, ElfPhase.cancelled] at moved
  · contradiction

theorem ElfPhase.fits_of_permit {phase : ElfPhase} (none : phase.permit = 0) : phase.Fits state := by
  cases phase <;> simp [ElfPhase.permit, ElfPhase.untaken, ElfPhase.Fits] at none ⊢

/-- No elf has been cancelled while Dobby is in his loop. -/
theorem Handoff.cancelled_later (inv : Handoff totalTasks state) (inLoop : state.dobby.left = false)
    {later : DobbyPhase} : ∀ j, state.cancelled j = true → later.left = true := by
  intro j pending
  rw [inv.cancelled j pending] at inLoop
  contradiction

theorem Handoff.create (inv : Handoff totalTasks state) {i : Nat} (phase : state.dobby = .creating i)
    (bound : i < 5) :
    Handoff totalTasks
      { state with dobby := .creating (i + 1), elves := update state.elves ⟨i, bound⟩ .waiting } := by
  have fits := inv.dobby
  have listed := inv.listed
  have active := inv.active
  have token := inv.token
  have tasks := inv.tasks
  rw [phase] at fits listed active token tasks
  obtain ⟨untaken, permit, wake, test⟩ := weigh (fits ⟨i, bound⟩ (Nat.le_refl _)) .waiting
  simp only [ElfPhase.untaken, ElfPhase.permit, ElfPhase.wake, ElfPhase.test, Nat.add_zero] at untaken permit wake test
  exact {
    inv with
    owner := owner_update (by simp [ElfPhase.critical]) fun j _ => inv.owner j
    listed := by rw [untaken]; exact listed
    active := by rw [permit]; exact active
    token := by rw [wake, test]; exact token
    dobby := by
      intro j later
      have other : j ≠ ⟨i, bound⟩ := by
        intro same
        subst same
        exact absurd later (Nat.not_succ_le_self i)
      simp only [update_of_ne other]
      exact fits j (Nat.le_of_succ_le later)
    elves := fits_update trivial fun j _ => inv.elves j
    tasks := tasks
    cancelled := inv.cancelled_later (by rw [phase]; rfl) }

/-- Dobby puts the next task on the list. -/
theorem Handoff.link (inv : Handoff totalTasks state) {n : Int} {i : Nat} {next : List Nat}
    (phase : state.dobby = .linking n i next) :
    Handoff totalTasks
      { state with
        dobby := .posting n (i + 1)
        taskIdCounter := state.taskIdCounter + 1
        listHead := (state.taskIdCounter + 1) :: next } := by
  have quiet := inv.quiet (.inl (by rw [phase]; rfl))
  have fits := inv.dobby
  have listed := inv.listed
  have active := inv.active
  have token := inv.token
  have tasks := inv.tasks
  rw [phase] at fits listed active token tasks
  obtain ⟨positive, more, rfl⟩ := fits
  simp only [DobbyPhase.listed, DobbyPhase.unlisted] at listed tasks
  exact {
    inv with
    active, token
    listed := by simp only [DobbyPhase.listed, List.length_cons]; omega
    dobby := ⟨positive, by omega⟩
    elves := fun j => ElfPhase.fits_of_permit (quiet.2.2.2 j).1
    ids := by
      have last : List.range' 1 (state.taskIdCounter + 1) =
          List.range' 1 state.taskIdCounter ++ [state.taskIdCounter + 1] := by
        rw [List.range'_concat, Nat.one_mul, Nat.add_comm 1]
      rw [last]
      exact (List.perm_middle.trans (inv.ids.cons _)).trans (List.perm_append_singleton _ _).symm
    tasks := by simp only [DobbyPhase.unlisted]; omega
    cancelled := inv.cancelled_later (by rw [phase]; rfl) }

theorem Handoff.activate (inv : Handoff totalTasks state) {n : Int} (phase : state.dobby = .activating n) :
    Handoff totalTasks { state with dobby := .signalling n 0, activeTasks := n } := by
  have quiet := inv.quiet (.inl (by rw [phase]; rfl))
  have fits := inv.dobby
  have listed := inv.listed
  have active := inv.active
  have token := inv.token
  have tasks := inv.tasks
  rw [phase] at fits listed active token tasks
  simp only [DobbyPhase.Fits] at fits
  simp only [DobbyPhase.listed, DobbyPhase.owed, DobbyPhase.alone, DobbyPhase.left] at listed active token
  exact {
    inv with
    tasks
    listed := by simp only [DobbyPhase.listed]; omega
    active := by simp only [DobbyPhase.owed]; omega
    token := by
      simp only [DobbyPhase.alone, DobbyPhase.left]
      rw [if_neg (show n ≠ 0 by omega)]
      simp at token ⊢
      omega
    dobby := ⟨fits, by omega, Int.le_refl n⟩
    elves := fun j => ElfPhase.fits_of_permit (quiet.2.2.2 j).1
    cancelled := inv.cancelled_later (by rw [phase]; rfl) }

theorem Handoff.dobbyStep (inv : Handoff totalTasks state) (moved : dobbyStep state = some after) :
    Handoff totalTasks after := by
  have fits := inv.dobby
  have listed := inv.listed
  have active := inv.active
  have token := inv.token
  have tasks := inv.tasks
  have nonneg := inv.nonneg
  simp only [Hogwarts.dobbyStep] at moved
  cases phase : state.dobby with
  | creating i =>
      simp only [phase] at moved
      rw [phase] at listed active token tasks
      split at moved
      · cases moved
        exact inv.create phase ‹_›
      · cases moved
        exact {
          inv with
          listed, active, token, tasks
          dobby := trivial
          cancelled := inv.cancelled_later (by rw [phase]; rfl) }
  | waiting =>
      simp only [phase] at moved
      rw [phase] at listed active token tasks
      split at moved
      · cases moved
        simp only [DobbyPhase.alone, DobbyPhase.left] at token
        exact {
          inv with
          listed, active, tasks
          token := by simp only [DobbyPhase.alone, DobbyPhase.left]; simp at token ⊢; omega
          dobby := trivial
          cancelled := inv.cancelled_later (by rw [phase]; rfl) }
      · contradiction
  | checking =>
      simp only [phase] at moved
      rw [phase] at listed active token tasks
      split at moved
      · cases moved
        exact { inv with listed, active, token, tasks, dobby := ‹_›, cancelled := fun _ _ => rfl }
      · cases moved
        simp only [DobbyPhase.listed, DobbyPhase.unlisted] at listed tasks
        exact {
          inv with
          active, token
          listed := by simpa only [DobbyPhase.listed, Nat.cast_zero] using listed
          dobby := by simp only [DobbyPhase.Fits]; split <;> omega
          tasks := by simp only [DobbyPhase.unlisted]; omega
          nonneg := by simp only; split <;> omega
          cancelled := inv.cancelled_later (by rw [phase]; rfl) }
  | posting n i =>
      simp only [phase] at moved
      rw [phase] at listed active token tasks fits
      simp only [DobbyPhase.Fits] at fits
      split at moved
      · cases moved
        exact {
          inv with
          listed, active, token, tasks
          dobby := ⟨fits.1, ‹_›, rfl⟩
          cancelled := inv.cancelled_later (by rw [phase]; rfl) }
      · cases moved
        simp only [DobbyPhase.listed, DobbyPhase.unlisted] at listed tasks
        exact {
          inv with
          active, token
          listed := by simp only [DobbyPhase.listed]; omega
          dobby := fits.1
          tasks := by simp only [DobbyPhase.unlisted]; omega
          cancelled := inv.cancelled_later (by rw [phase]; rfl) }
  | linking n i next =>
      simp only [phase] at moved
      cases moved
      exact inv.link phase
  | activating n =>
      simp only [phase] at moved
      cases moved
      exact inv.activate phase
  | signalling n i =>
      simp only [phase] at moved
      rw [phase] at listed active token tasks fits
      simp only [DobbyPhase.Fits] at fits
      simp only [DobbyPhase.listed, DobbyPhase.owed] at listed active
      split at moved
      · cases moved
        exact {
          inv with
          token, tasks
          listed := by simp only [DobbyPhase.listed]; omega
          active := by simp only [DobbyPhase.owed]; omega
          dobby := ⟨fits.1, by omega, fits.2.2⟩
          cancelled := inv.cancelled_later (by rw [phase]; rfl) }
      · cases moved
        exact {
          inv with
          token, tasks
          listed := by simp only [DobbyPhase.listed]; omega
          active := by simp only [DobbyPhase.owed]; omega
          dobby := trivial
          cancelled := inv.cancelled_later (by rw [phase]; rfl) }
  | cancelling i =>
      simp only [phase] at moved
      rw [phase] at listed active token tasks fits
      split at moved
      · cases moved
        exact { inv with listed, active, token, tasks, dobby := fits, cancelled := fun _ _ => rfl }
      · cases moved
        exact { inv with listed, active, token, tasks, dobby := fits, cancelled := fun _ _ => rfl }
  | joining i =>
      simp only [phase] at moved
      rw [phase] at listed active token tasks fits
      split at moved
      · cases moved
        exact { inv with listed, active, token, tasks, dobby := fits, cancelled := fun _ _ => rfl }
      · contradiction
  | finished => simp [phase] at moved

theorem Handoff.next (inv : Handoff totalTasks state) {printfCancels : Bool} {action : Action}
    (moved : next printfCancels state action = some after) : Handoff totalTasks after := by
  simp only [Hogwarts.next, inv.running] at moved
  cases action with
  | dobby => exact inv.dobbyStep moved
  | elf i => exact inv.elfStep moved
  | cancel i => exact inv.cancelStep moved

theorem handoff_of_reachable {printfCancels : Bool} (nonneg : 0 ≤ totalTasks)
    (reached : (machine printfCancels totalTasks).Reachable state) : Handoff totalTasks state :=
  reached.invariant (Handoff totalTasks) (handoff_start nonneg) fun inv moved => inv.next moved

/-! ## The hand-off is safe -/

/-- Dobby is between his `sem_wait(&empty_list)` and his first `sem_post(&full_list)`. -/
def DobbyPhase.refilling : DobbyPhase → Bool
  | .checking | .posting _ _ | .linking _ _ _ | .activating _ | .signalling _ 0 => true
  | _ => false

/-- The elf has a permit for which it has not yet taken a task and decremented `active_tasks`. -/
def ElfPhase.holdsPermit : ElfPhase → Bool
  | .locking | .taking | .failing | .reading | .following _ | .advancing _ _ | .loading _ | .storing _ _ => true
  | _ => false

/-- The elf's next step reads or writes `list_head` or `active_tasks`. -/
def ElfPhase.accesses : ElfPhase → Bool
  | .taking | .reading | .following _ | .advancing _ _ | .loading _ | .storing _ _ | .testing _ => true
  | _ => false

/-- Dobby's next step reads or writes `list_head` or `active_tasks`. -/
def DobbyPhase.accesses : DobbyPhase → Bool
  | .posting _ _ | .linking _ _ _ | .activating _ => true
  | _ => false

theorem ElfPhase.holdsPermit_eq_false {phase : ElfPhase} (none : phase.permit = 0) : phase.holdsPermit = false := by
  cases phase <;> simp [ElfPhase.permit, ElfPhase.untaken, ElfPhase.holdsPermit] at none ⊢

theorem ElfPhase.accesses_eq_false {phase : ElfPhase} (noPermit : phase.permit = 0) (noTest : phase.test = 0) :
    phase.accesses = false := by
  cases phase <;> simp [ElfPhase.permit, ElfPhase.untaken, ElfPhase.test, ElfPhase.accesses] at noPermit noTest ⊢

theorem Handoff.refilling_quiet (inv : Handoff totalTasks state) (refilling : state.dobby.refilling = true)
    (i : Elf) : (state.elves i).permit = 0 := by
  have counted := le_tally ElfPhase.permit state.elves i
  have fits := inv.dobby
  have active := inv.active
  have quiet : state.dobby.alone = true → (state.elves i).permit = 0 := fun alone => ((inv.quiet (.inl alone)).2.2.2 i).1
  cases phase : state.dobby with
  | checking | posting | linking | activating => exact quiet (by rw [phase]; rfl)
  | signalling n i =>
      rw [phase] at refilling fits active
      cases i with
      | zero =>
          simp only [DobbyPhase.Fits, DobbyPhase.owed] at fits active
          omega
      | succ i => contradiction
  | _ => rw [phase] at refilling; contradiction

theorem Handoff.taken_sublist (inv : Handoff totalTasks state) :
    state.taken.Nodup ∧ ∀ id ∈ state.taken, 1 ≤ id ∧ (id : Int) ≤ totalTasks := by
  have distinct : (state.taken ++ state.listHead).Nodup := inv.ids.nodup_iff.mpr List.nodup_range'
  refine ⟨(List.nodup_append.mp distinct).1, ?_⟩
  intro id member
  have inRange := inv.ids.subset (List.mem_append_left _ member)
  have tasks := inv.tasks
  have nonneg := inv.nonneg
  have fits := inv.dobby
  have unlisted : 0 ≤ state.dobby.unlisted := by
    cases phase : state.dobby <;> simp only [phase, DobbyPhase.Fits, DobbyPhase.unlisted] at fits ⊢ <;> omega
  rw [List.mem_range'_1] at inRange
  omega

theorem Handoff.all_taken (inv : Handoff totalTasks state) (left : state.dobby.left = true) :
    state.taken.Perm (List.range' 1 totalTasks.toNat) := by
  have quiet := inv.quiet (.inr left)
  have listed := inv.listed
  have tasks := inv.tasks
  have fits := inv.dobby
  have ids := inv.ids
  have noPermit : tally ElfPhase.untaken state.elves = 0 := by
    rw [tally_eq_zero]
    intro i
    have none := (quiet.2.2.2 i).1
    cases phase : state.elves i <;> simp [phase, ElfPhase.permit, ElfPhase.untaken] at none ⊢
  have empty : state.listHead = [] ∧ totalTasks.toNat = state.taskIdCounter := by
    cases phase : state.dobby <;> rw [phase] at left <;> try contradiction
    all_goals
      simp only [phase, DobbyPhase.listed, DobbyPhase.unlisted, DobbyPhase.Fits] at listed tasks fits
      exact ⟨List.length_eq_zero_iff.mp (by omega), by omega⟩
  rw [empty.2]
  rwa [empty.1, List.append_nil] at ids

/-- In every interleaving `take_task` finds a task, no task is taken twice and
all are when Dobby leaves his loop, and Dobby's accesses to the shared
variables never meet an elf's. -/
theorem handoff_safe (printfCancels : Bool) (totalTasks : Int) (nonneg : 0 ≤ totalTasks) (state : State)
    (reached : (machine printfCancels totalTasks).Reachable state) :
    (state.process = .running ∧ ∀ i, state.elves i ≠ .failing ∧
      (state.elves i = .taking → state.listHead ≠ [])) ∧
    (state.taken.Nodup ∧ ∀ id ∈ state.taken, 1 ≤ id ∧ (id : Int) ≤ totalTasks) ∧
    (state.dobby.left = true → state.taken.Perm (List.range' 1 totalTasks.toNat)) ∧
    state.emptyList ≤ 1 ∧
    (state.dobby.refilling = true → ∀ i, (state.elves i).holdsPermit = false) ∧
    (state.dobby.accesses = true → ∀ i, (state.elves i).accesses = false) := by
  have inv := handoff_of_reachable nonneg reached
  refine ⟨⟨inv.running, ?_⟩, inv.taken_sublist, inv.all_taken, ?_, ?_, ?_⟩
  · intro i
    constructor
    · intro failing
      have impossible := inv.elves i
      rw [failing] at impossible
      exact impossible
    · intro taking
      exact inv.list_ne_nil taking rfl
  · have token := inv.token
    omega
  · intro refilling i
    exact ElfPhase.holdsPermit_eq_false (inv.refilling_quiet refilling i)
  · intro accesses i
    have alone : state.dobby.alone = true := by
      cases phase : state.dobby <;> rw [phase] at accesses <;> first | rfl | contradiction
    have quiet := (inv.quiet (.inl alone)).2.2.2 i
    exact ElfPhase.accesses_eq_false quiet.1 quiet.2.2

/-- An elf takes the only task and wakes Dobby, who leaves his loop. -/
theorem handoff_safe_one_task : ∃ state, (machine true 1).Reachable state ∧ state.dobby = .cancelling 0 ∧
    state.elves 0 = .unlocking 1 ∧ state.process = .running ∧ state.emptyList ≤ 1 ∧
    state.taken.Perm (List.range' 1 1) := by
  have reached : (machine true 1).Reachable _ :=
    ⟨List.replicate 14 .dobby ++ List.replicate 11 (.elf 0) ++ [.dobby, .dobby], rfl⟩
  obtain ⟨running, -, all, bounded, -, -⟩ := handoff_safe true 1 (by decide) _ reached
  exact ⟨_, reached, rfl, rfl, running.1, bounded, all rfl⟩

end SysProg.Threading.Hogwarts
