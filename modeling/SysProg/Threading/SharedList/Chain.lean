import SysProg.Threading.SharedList

namespace SysProg.Threading.SharedList

open Function

variable {ι δ : Type}

/-! ## What a phase stands for -/

/-- The thread is between `sem_wait` and `sem_post`. -/
def Phase.critical : Phase δ → Bool
  | .idle | .allocating _ | .filling _ _ | .waiting _ _ => false
  | _ => true

/-- The node that the thread is pushing. -/
def Phase.node : Phase δ → Option Nat
  | .idle | .allocating _ | .crashed => none
  | .filling _ tmp | .waiting _ tmp | .linking _ tmp | .heading _ tmp | .testing _ tmp | .tailing _ tmp
  | .counting _ tmp | .posting _ tmp => some tmp

/-- The node is allocated, and from `sem_wait` on it holds the object. -/
def Phase.Holds (heap : Heap (SingleNode δ)) : Phase δ → Prop
  | .idle | .allocating _ | .crashed => True
  | .filling _ tmp => ∃ node, heap tmp = some node
  | .waiting obj tmp | .linking obj tmp | .heading obj tmp | .testing obj tmp | .tailing obj tmp
  | .counting obj tmp | .posting obj tmp => ∃ node, heap tmp = some node ∧ node.element = obj

def State.nodes (state : State ι δ) : List Nat := state.pushed.map Prod.fst

/-- The list consists of the given nodes. -/
structure Settled (state : State ι δ) (nodes : List Nat) : Prop where
  chain : Segment SingleNode.next state.heap state.head nodes none
  size : state.size = nodes.length
  tail : state.tail = nodes.getLast?

/-- How far the push of a thread that holds the semaphore has come. -/
def Phase.Fits (state : State ι δ) : Phase δ → Prop
  | .linking _ _ => Settled state state.nodes
  | .heading _ tmp => Settled state state.nodes ∧ ∃ node, state.heap tmp = some node ∧ node.next = state.head
  | .testing _ tmp =>
      Segment SingleNode.next state.heap state.head (tmp :: state.nodes) none ∧
        state.size = state.nodes.length ∧ state.tail = state.nodes.getLast?
  | .tailing _ tmp =>
      Segment SingleNode.next state.heap state.head (tmp :: state.nodes) none ∧
        state.size = state.nodes.length ∧ state.nodes = []
  | .counting _ tmp =>
      Segment SingleNode.next state.heap state.head (tmp :: state.nodes) none ∧
        state.size = state.nodes.length ∧ state.tail = (tmp :: state.nodes).getLast?
  | .posting _ tmp => Settled state (tmp :: state.nodes)
  | .crashed => intMax ≤ state.nodes.length
  | _ => True

variable {state after : State ι δ} {who : ι} {phase : Phase δ}

theorem Phase.fits_outside (outside : phase.critical = false) : phase.Fits state := by
  cases phase <;> trivial

theorem Phase.Holds.allocated {heap : Heap (SingleNode δ)} {tmp : Nat} (holds : phase.Holds heap)
    (node : phase.node = some tmp) : heap tmp ≠ none := by
  cases phase <;> simp only [Phase.node, Option.some.injEq, reduceCtorEq] at node
  case filling =>
      obtain ⟨found, lookup⟩ := holds
      simp [← node, lookup]
  all_goals
    obtain ⟨found, lookup, -⟩ := holds
    simp [← node, lookup]

theorem Phase.Holds.frame {heap other : Heap (SingleNode δ)} (holds : phase.Holds heap)
    (same : ∀ tmp, phase.node = some tmp → other tmp = heap tmp) : phase.Holds other := by
  cases phase <;> first | trivial | simpa only [Phase.Holds, same _ rfl] using holds

/-! ## The invariant -/

structure Exclusive (state : State ι δ) : Prop where
  one : ∀ who other, (state.threads who).critical = true → (state.threads other).critical = true → who = other
  taken : ∀ who, (state.threads who).critical = true → state.sem = 0
  binary : state.sem ≤ 1

structure Owned (state : State ι δ) : Prop where
  holds : ∀ who, (state.threads who).Holds state.heap
  fresh : ∀ who tmp, (state.threads who).node = some tmp → tmp ∉ state.nodes
  apart : ∀ who other tmp, (state.threads who).node = some tmp → (state.threads other).node = some tmp → who = other
  distinct : state.nodes.Nodup
  contents : ∀ entry ∈ state.pushed, ∃ node, state.heap entry.1 = some node ∧ node.element = entry.2

structure Pushing (state : State ι δ) : Prop where
  exclusive : Exclusive state
  owned : Owned state
  settled : state.sem = 1 → Settled state state.nodes
  fits : ∀ who, (state.threads who).Fits state

theorem pushing_init : Pushing (singleListInit : State ι δ) where
  exclusive := {
    one := by simp [singleListInit, Phase.critical]
    taken := by simp [singleListInit, Phase.critical]
    binary := Nat.le_refl 1 }
  owned := {
    holds := fun _ => trivial
    fresh := by simp [singleListInit, Phase.node]
    apart := by simp [singleListInit, Phase.node]
    distinct := List.nodup_nil
    contents := by simp [singleListInit] }
  settled := fun _ => ⟨rfl, rfl, rfl⟩
  fits := fun _ => trivial

/-- The list is the same, in its own variables and in its nodes. -/
structure SameList (state after : State ι δ) : Prop where
  head : after.head = state.head
  tail : after.tail = state.tail
  size : after.size = state.size
  pushed : after.pushed = state.pushed
  heap : ∀ address ∈ state.nodes, after.heap address = state.heap address

theorem SameList.nodes (same : SameList state after) : after.nodes = state.nodes := by
  rw [State.nodes, same.pushed]
  rfl

theorem SameList.segment (same : SameList state after) {visited : List Nat}
    (chain : Segment SingleNode.next state.heap state.head visited none)
    (heap : ∀ address ∈ visited, after.heap address = state.heap address) :
    Segment SingleNode.next after.heap after.head visited none := by
  rw [same.head]
  exact chain.frame heap

theorem Settled.frame (same : SameList state after) {visited : List Nat} (settled : Settled state visited)
    (heap : ∀ address ∈ visited, after.heap address = state.heap address) : Settled after visited where
  chain := same.segment settled.chain heap
  size := same.size.trans settled.size
  tail := same.tail.trans settled.tail

theorem Phase.Fits.frame (same : SameList state after) (fits : phase.Fits state)
    (heap : ∀ tmp, phase.node = some tmp → after.heap tmp = state.heap tmp) : phase.Fits after := by
  have listed : ∀ tmp, phase.node = some tmp →
      ∀ address ∈ tmp :: state.nodes, after.heap address = state.heap address := by
    intro tmp mine address member
    rcases List.mem_cons.mp member with rfl | before
    · exact heap address mine
    · exact same.heap address before
  cases phase <;> simp only [Phase.Fits, same.nodes, same.size, same.tail] at fits ⊢
  case linking => exact fits.frame same same.heap
  case heading obj tmp =>
      rw [heap tmp rfl, same.head]
      exact ⟨fits.1.frame same same.heap, fits.2⟩
  case testing obj tmp => exact ⟨same.segment fits.1 (listed tmp rfl), fits.2⟩
  case tailing obj tmp => exact ⟨same.segment fits.1 (listed tmp rfl), fits.2⟩
  case counting obj tmp => exact ⟨same.segment fits.1 (listed tmp rfl), fits.2⟩
  case posting obj tmp => exact fits.frame same (listed tmp rfl)
  case crashed => exact fits

theorem Owned.allocated (owned : Owned state) {address : Nat} (member : address ∈ state.nodes) :
    state.heap address ≠ none := by
  obtain ⟨entry, listed, rfl⟩ := List.mem_map.mp member
  obtain ⟨node, found, -⟩ := owned.contents entry listed
  simp [found]

/-- A store into the node being pushed. -/
theorem store_agrees {tmp : Nat} {node : SingleNode δ} (mine : (state.threads who).node = some tmp) (address : Nat)
    (other : (state.threads who).node ≠ some address) : state.heap.write tmp node address = state.heap address :=
  Heap.write_other _ _ fun same => other (same ▸ mine)

variable [DecidableEq ι]

/-! ## Mutual exclusion -/

theorem Exclusive.stay (inv : Exclusive state) (moved : after.threads = update state.threads who phase)
    (same : after.sem = state.sem) (stays : phase.critical = (state.threads who).critical) : Exclusive after := by
  have critical : ∀ other, (after.threads other).critical = (state.threads other).critical := by
    intro other
    rw [moved]
    by_cases here : other = who
    · rw [here, update_self, stays]
    · rw [update_of_ne here]
  exact {
    one := by
      intro first second
      rw [critical, critical]
      exact inv.one first second
    taken := by
      intro other
      rw [critical, same]
      exact inv.taken other
    binary := same ▸ inv.binary }

/-- `sem_wait` -/
theorem Exclusive.enter (inv : Exclusive state) (moved : after.threads = update state.threads who phase)
    (free : 0 < state.sem) (took : after.sem = state.sem - 1) : Exclusive after := by
  have outside : ∀ other, (state.threads other).critical = false := by
    intro other
    rw [← Bool.not_eq_true]
    intro inside
    have taken := inv.taken other inside
    omega
  have alone : ∀ other, (after.threads other).critical = true → other = who := by
    intro other inside
    by_contra different
    rw [moved, update_of_ne different, outside] at inside
    contradiction
  have binary := inv.binary
  exact {
    one := by
      intro first second inside beside
      rw [alone first inside, alone second beside]
    taken := by
      intro other _
      omega
    binary := by omega }

/-- `sem_post` -/
theorem Exclusive.leave (inv : Exclusive state) (moved : after.threads = update state.threads who phase)
    (inside : (state.threads who).critical = true) (outside : phase.critical = false)
    (gave : after.sem = state.sem + 1) : Exclusive after := by
  have none : ∀ other, (after.threads other).critical = false := by
    intro other
    rw [moved]
    by_cases here : other = who
    · rw [here, update_self, outside]
    · rw [update_of_ne here, ← Bool.not_eq_true]
      exact fun beside => here (inv.one other who beside inside)
  have taken := inv.taken who inside
  exact {
    one := by simp [none]
    taken := by simp [none]
    binary := by omega }

/-! ## The nodes being pushed -/

/-- A step that stores at most into the node being pushed or into a new one. -/
theorem Owned.move (owned : Owned state) (moved : after.threads = update state.threads who phase)
    (same : after.pushed = state.pushed)
    (agree : ∀ address, state.heap address ≠ none → (state.threads who).node ≠ some address →
      after.heap address = state.heap address)
    (node : ∀ tmp, phase.node = some tmp → (state.threads who).node = some tmp ∨ state.heap tmp = none)
    (holds : phase.Holds after.heap) : Owned after := by
  have nodes : after.nodes = state.nodes := by rw [State.nodes, same]; rfl
  have listed : ∀ address ∈ state.nodes, after.heap address = state.heap address := by
    intro address member
    exact agree address (owned.allocated member) fun mine => owned.fresh who address mine member
  have others : ∀ other tmp, other ≠ who → (state.threads other).node = some tmp → phase.node ≠ some tmp := by
    intro other tmp different theirs mine
    rcases node tmp mine with kept | new
    · exact different (owned.apart other who tmp theirs kept)
    · exact (owned.holds other).allocated theirs new
  exact {
    holds := by
      intro other
      rw [moved]
      by_cases here : other = who
      · rw [here, update_self]
        exact holds
      · rw [update_of_ne here]
        apply (owned.holds other).frame
        intro tmp theirs
        exact agree tmp ((owned.holds other).allocated theirs) fun mine => here (owned.apart other who tmp theirs mine)
    fresh := by
      intro other tmp
      rw [moved, nodes]
      by_cases here : other = who
      · rw [here, update_self]
        intro mine
        rcases node tmp mine with kept | new
        · exact owned.fresh who tmp kept
        · exact fun member => owned.allocated member new
      · rw [update_of_ne here]
        exact owned.fresh other tmp
    apart := by
      intro first second tmp
      rw [moved]
      by_cases here : first = who <;> by_cases there : second = who
      · simp [here, there]
      · rw [here, update_self, update_of_ne there]
        exact fun mine theirs => absurd mine (others second tmp there theirs)
      · rw [there, update_self, update_of_ne here]
        exact fun theirs mine => absurd mine (others first tmp here theirs)
      · rw [update_of_ne here, update_of_ne there]
        exact owned.apart first second tmp
    distinct := nodes ▸ owned.distinct
    contents := by
      rw [same]
      intro entry member
      rw [listed entry.1 (List.mem_map_of_mem member)]
      exact owned.contents entry member }

/-- `sem_post`, from when on the push counts as executed -/
theorem Owned.post (owned : Owned state) {obj : δ} {tmp : Nat} (posting : state.threads who = .posting obj tmp)
    (moved : after.threads = update state.threads who .idle) (heap : after.heap = state.heap)
    (grown : after.pushed = (tmp, obj) :: state.pushed) : Owned after := by
  have mine : (state.threads who).node = some tmp := by rw [posting]; rfl
  have nodes : after.nodes = tmp :: state.nodes := by rw [State.nodes, grown]; rfl
  exact {
    holds := by
      intro other
      rw [moved, heap]
      by_cases here : other = who
      · rw [here, update_self]
        trivial
      · rw [update_of_ne here]
        exact owned.holds other
    fresh := by
      intro other address
      rw [moved, nodes]
      by_cases here : other = who
      · simp [here, Phase.node]
      · rw [update_of_ne here]
        intro theirs
        rw [List.mem_cons, not_or]
        refine ⟨?_, owned.fresh other address theirs⟩
        rintro rfl
        exact here (owned.apart other who address theirs mine)
    apart := by
      intro first second address
      rw [moved]
      by_cases here : first = who
      · simp [here, Phase.node]
      · by_cases there : second = who
        · simp [there, Phase.node]
        · rw [update_of_ne here, update_of_ne there]
          exact owned.apart first second address
    distinct := by
      rw [nodes, List.nodup_cons]
      exact ⟨owned.fresh who tmp mine, owned.distinct⟩
    contents := by
      rw [grown, heap]
      intro entry member
      rcases List.mem_cons.mp member with rfl | before
      · have holds := owned.holds who
        rwa [posting] at holds
      · exact owned.contents entry before }

/-! ## The list -/

/-- A step outside the critical section, which leaves the list as it is. -/
theorem Pushing.outside (inv : Pushing state) (moved : after.threads = update state.threads who phase)
    (was : (state.threads who).critical = false) (stays : phase.critical = false) (sem : after.sem = state.sem)
    (head : after.head = state.head) (tail : after.tail = state.tail) (size : after.size = state.size)
    (pushed : after.pushed = state.pushed)
    (agree : ∀ address, state.heap address ≠ none → (state.threads who).node ≠ some address →
      after.heap address = state.heap address)
    (node : ∀ tmp, phase.node = some tmp → (state.threads who).node = some tmp ∨ state.heap tmp = none)
    (holds : phase.Holds after.heap) : Pushing after := by
  have owned := inv.owned
  have same : SameList state after := {
    head, tail, size, pushed
    heap := by
      intro address member
      exact agree address (owned.allocated member) fun mine => owned.fresh who address mine member }
  exact {
    exclusive := inv.exclusive.stay moved sem (stays.trans was.symm)
    owned := owned.move moved pushed agree node holds
    settled := by
      intro free
      rw [same.nodes]
      exact (inv.settled (sem ▸ free)).frame same same.heap
    fits := by
      intro other
      rw [moved]
      by_cases here : other = who
      · rw [here, update_self]
        exact Phase.fits_outside stays
      · rw [update_of_ne here]
        apply (inv.fits other).frame same
        intro tmp theirs
        exact agree tmp ((owned.holds other).allocated theirs) fun mine => here (owned.apart other who tmp theirs mine) }

/-- While a thread is in the critical section the phases of the others say nothing about the list. -/
theorem Exclusive.fits (inv : Exclusive after) (moved : after.threads = update state.threads who phase)
    (inside : phase.critical = true) (fits : phase.Fits after) : ∀ other, (after.threads other).Fits after := by
  intro other
  by_cases here : other = who
  · rw [here, moved, update_self]
    exact fits
  · apply Phase.fits_outside
    rw [← Bool.not_eq_true]
    intro beside
    exact here (inv.one other who beside (by rw [moved, update_self]; exact inside))

theorem Pushing.inside (inv : Pushing state) (moved : after.threads = update state.threads who phase)
    (was : (state.threads who).critical = true) (stays : phase.critical = true) (sem : after.sem = state.sem)
    (pushed : after.pushed = state.pushed)
    (agree : ∀ address, state.heap address ≠ none → (state.threads who).node ≠ some address →
      after.heap address = state.heap address)
    (node : ∀ tmp, phase.node = some tmp → (state.threads who).node = some tmp)
    (holds : phase.Holds after.heap) (fits : phase.Fits after) : Pushing after := by
  have exclusive := inv.exclusive.stay moved sem (stays.trans was.symm)
  exact {
    exclusive
    owned := inv.owned.move moved pushed agree (fun tmp mine => .inl (node tmp mine)) holds
    settled := by
      intro free
      have taken := inv.exclusive.taken who was
      omega
    fits := exclusive.fits moved stays fits }

/-! ## Steps -/

theorem Pushing.call (inv : Pushing state) {obj : δ} (idle : state.threads who = .idle) :
    Pushing (state.go who (.allocating obj)) :=
  inv.outside rfl (by rw [idle]; rfl) rfl rfl rfl rfl rfl rfl (fun _ _ _ => rfl) (by simp [Phase.node]) trivial

theorem Pushing.mallocStep (inv : Pushing state) {block : Option (Nat × SingleNode δ)}
    (moved : mallocStep state who block = some after) : Pushing after := by
  simp only [SharedList.mallocStep] at moved
  split at moved <;> try contradiction
  · rename_i phase
    cases moved
    exact inv.outside rfl (by rw [phase]; rfl) rfl rfl rfl rfl rfl rfl (fun _ _ _ => rfl) (by simp [Phase.node]) trivial
  · rename_i obj address garbage phase
    split at moved <;> try contradiction
    rename_i unused
    rw [Option.isNone_iff_eq_none] at unused
    cases moved
    refine inv.outside rfl (by rw [phase]; rfl) rfl rfl rfl rfl rfl rfl ?_ ?_ ⟨garbage, Heap.write_same _ _ _⟩
    · intro other used _
      exact Heap.write_other _ _ fun same => used (same ▸ unused)
    · rintro tmp ⟨⟩
      exact .inr unused

theorem Pushing.fill (inv : Pushing state) {obj : δ} {tmp : Nat} (phase : state.threads who = .filling obj tmp) :
    Pushing (state.store who (.waiting obj tmp) tmp fun node => { node with element := obj }) := by
  have holds := inv.owned.holds who
  have mine : (state.threads who).node = some tmp := by rw [phase]; rfl
  rw [phase] at holds
  obtain ⟨node, found⟩ := holds
  simp only [State.store, found]
  exact inv.outside rfl (by rw [phase]; rfl) rfl rfl rfl rfl rfl rfl (fun address _ => store_agrees mine address)
    (fun _ kept => .inl (mine.trans kept)) ⟨_, Heap.write_same _ _ _, rfl⟩

/-- `sem_wait` -/
theorem Pushing.enter (inv : Pushing state) {obj : δ} {tmp : Nat} (phase : state.threads who = .waiting obj tmp)
    (free : 0 < state.sem) : Pushing { state.go who (.linking obj tmp) with sem := state.sem - 1 } := by
  have binary := inv.exclusive.binary
  have settled := inv.settled (by omega)
  have holds := inv.owned.holds who
  have mine : (state.threads who).node = some tmp := by rw [phase]; rfl
  rw [phase] at holds
  have exclusive : Exclusive { state.go who (.linking obj tmp) with sem := state.sem - 1 } :=
    inv.exclusive.enter rfl free rfl
  exact {
    exclusive
    owned := inv.owned.move rfl rfl (fun _ _ _ => rfl) (fun _ kept => .inl (mine.trans kept)) holds
    settled := by
      intro still
      simp only at still
      omega
    fits := exclusive.fits rfl rfl ⟨settled.chain, settled.size, settled.tail⟩ }

/-- `tmp->next = list->head` -/
theorem Pushing.link (inv : Pushing state) {obj : δ} {tmp : Nat} (phase : state.threads who = .linking obj tmp) :
    Pushing (state.store who (.heading obj tmp) tmp fun node => { node with next := state.head }) := by
  have holds := inv.owned.holds who
  have fits := inv.fits who
  have mine : (state.threads who).node = some tmp := by rw [phase]; rfl
  rw [phase] at holds fits
  obtain ⟨node, found, element⟩ := holds
  simp only [State.store, found]
  refine inv.inside rfl (by rw [phase]; rfl) rfl rfl rfl (fun address _ => store_agrees mine address)
    (fun _ kept => mine.trans kept) ⟨_, Heap.write_same _ _ _, element⟩ ⟨⟨?_, fits.size, fits.tail⟩, _, Heap.write_same _ _ _, rfl⟩
  apply fits.chain.frame
  intro address member
  exact Heap.write_other _ _ fun same => inv.owned.fresh who tmp mine (same ▸ member)

/-- A step inside the critical section that leaves the nodes as they are. -/
theorem Pushing.stays (inv : Pushing state) (moved : after.threads = update state.threads who phase)
    (was : (state.threads who).critical = true) (stays : phase.critical = true) (sem : after.sem = state.sem)
    (pushed : after.pushed = state.pushed) (heap : after.heap = state.heap)
    (node : ∀ tmp, phase.node = some tmp → (state.threads who).node = some tmp)
    (holds : phase.Holds state.heap) (fits : phase.Fits after) : Pushing after :=
  inv.inside moved was stays sem pushed (by simp [heap]) node (by rw [heap]; exact holds) fits

/-- `sem_post` -/
theorem Pushing.leave (inv : Pushing state) {obj : δ} {tmp : Nat} (phase : state.threads who = .posting obj tmp) :
    Pushing { state.go who .idle with sem := state.sem + 1, pushed := (tmp, obj) :: state.pushed } := by
  have fits := inv.fits who
  have inside : (state.threads who).critical = true := by rw [phase]; rfl
  rw [phase] at fits
  exact {
    exclusive := inv.exclusive.leave rfl inside rfl rfl
    owned := inv.owned.post phase rfl rfl rfl
    settled := fun _ => ⟨fits.chain, fits.size, fits.tail⟩
    fits := by
      intro other
      apply Phase.fits_outside
      simp only [State.go]
      by_cases here : other = who
      · simp [here, Phase.critical]
      · rw [update_of_ne here, ← Bool.not_eq_true]
        exact fun beside => here (inv.exclusive.one other who beside inside) }

theorem Pushing.pushFront (inv : Pushing state) (moved : pushFront state who = some after) : Pushing after := by
  have holds := inv.owned.holds who
  have fits := inv.fits who
  simp only [SharedList.pushFront] at moved
  cases phase : state.threads who <;> simp only [phase] at moved holds fits
  case idle => contradiction
  case allocating => contradiction
  case crashed => contradiction
  case filling obj tmp =>
      cases moved
      exact inv.fill phase
  case waiting obj tmp =>
      split at moved <;> try contradiction
      rename_i free
      cases moved
      exact inv.enter phase free
  case linking obj tmp =>
      cases moved
      exact inv.link phase
  case heading obj tmp =>
      cases moved
      obtain ⟨settled, node, found, next⟩ := fits
      refine inv.stays rfl (by rw [phase]; rfl) rfl rfl rfl rfl (by simp [phase, Phase.node]) holds
        ⟨⟨rfl, node, found, ?_⟩, settled.size, settled.tail⟩
      rw [next]
      exact settled.chain
  case testing obj tmp =>
      cases moved
      obtain ⟨chain, size, tail⟩ := fits
      by_cases empty : state.size = 0
      · rw [if_pos empty]
        have none : state.nodes = [] := List.length_eq_zero_iff.mp (by omega)
        exact inv.stays rfl (by rw [phase]; rfl) rfl rfl rfl rfl (by simp [phase, Phase.node]) holds ⟨chain, size, none⟩
      · rw [if_neg empty]
        have filled : state.nodes ≠ [] := by
          intro none
          rw [none] at size
          exact empty size
        refine inv.stays rfl (by rw [phase]; rfl) rfl rfl rfl rfl (by simp [phase, Phase.node]) holds ⟨chain, size, ?_⟩
        change state.tail = (tmp :: state.nodes).getLast?
        rw [List.getLast?_cons, tail, List.getLast?_eq_some_getLast filled, Option.getD_some]
  case tailing obj tmp =>
      cases moved
      obtain ⟨chain, size, none⟩ := fits
      refine inv.stays rfl (by rw [phase]; rfl) rfl rfl rfl rfl (by simp [phase, Phase.node]) holds ⟨chain, size, ?_⟩
      change some tmp = (tmp :: state.nodes).getLast?
      rw [none, List.getLast?_singleton]
  case counting obj tmp =>
      obtain ⟨chain, size, tail⟩ := fits
      split at moved
      · cases moved
        refine inv.stays rfl (by rw [phase]; rfl) rfl rfl rfl rfl (by simp [phase, Phase.node]) holds ⟨chain, ?_, tail⟩
        change state.size + 1 = ((tmp :: state.nodes).length : Int)
        rw [List.length_cons, size, Int.natCast_succ]
      · rename_i full
        cases moved
        refine inv.stays rfl (by rw [phase]; rfl) rfl rfl rfl rfl (by simp [Phase.node]) trivial ?_
        change intMax ≤ (state.nodes.length : Int)
        omega
  case posting obj tmp =>
      cases moved
      exact inv.leave phase

theorem Pushing.next (inv : Pushing state) {action : Action ι δ} (moved : next state action = some after) :
    Pushing after := by
  cases action with
  | call who obj =>
      simp only [SharedList.next] at moved
      split at moved <;> try contradiction
      rename_i idle
      cases moved
      exact inv.call idle
  | malloc who block => exact inv.mallocStep moved
  | step who => exact inv.pushFront moved

/-- In every interleaving one thread at a time changes the list, whenever the
semaphore is free the list holds every push that has been executed, the latest
first, and no thread crashes before `size` is full. -/
theorem push_front_keeps_all (state : State ι δ) (reached : (machine ι δ).Reachable state) :
    (∀ who other, (state.threads who).critical = true → (state.threads other).critical = true → who = other) ∧
    (0 < state.sem →
      Segment SingleNode.next state.heap state.head (state.pushed.map Prod.fst) none ∧
      (state.pushed.map Prod.fst).Nodup ∧
      (∀ entry ∈ state.pushed, ∃ node, state.heap entry.1 = some node ∧ node.element = entry.2) ∧
      state.size = state.pushed.length ∧
      state.tail = (state.pushed.map Prod.fst).getLast?) ∧
    ∀ who, state.threads who = .crashed → intMax ≤ state.pushed.length := by
  have inv : Pushing state := reached.invariant Pushing pushing_init fun inv moved => inv.next moved
  refine ⟨inv.exclusive.one, ?_, ?_⟩
  · intro free
    have binary := inv.exclusive.binary
    have settled := inv.settled (by omega)
    refine ⟨settled.chain, inv.owned.distinct, inv.owned.contents, ?_, settled.tail⟩
    rw [settled.size, State.nodes, List.length_map]
  · intro who crashed
    have fits := inv.fits who
    rw [crashed] at fits
    simpa [Phase.Fits, State.nodes] using fits

/-- Two threads push at once, and the second waits for the first. -/
theorem push_front_keeps_all_two : ∃ state, (machine Bool Char).Reachable state ∧
    0 < state.sem ∧ state.pushed = [(7, 'b'), (3, 'a')] ∧ state.size = 2 ∧ state.tail = some 3 := by
  have reached : (machine Bool Char).Reachable _ :=
    ⟨[.call true 'a', .call false 'b', .malloc false (some (7, ⟨'x', none⟩)), .malloc true (some (3, ⟨'y', some 9⟩)),
      .step true, .step true, .step false] ++ List.replicate 6 (.step true) ++ List.replicate 6 (.step false), rfl⟩
  obtain ⟨-, settled, -⟩ := push_front_keeps_all _ reached
  obtain ⟨-, -, -, size, tail⟩ := settled (by decide)
  exact ⟨_, reached, by decide, rfl, size, tail⟩

end SysProg.Threading.SharedList
