import SysProg.Library.Threads
import SysProg.Threading.SharedList.Chain

namespace SysProg.Threading.SharedList

open Function

/-! # `push_thread` and `main` of `05-threading/class/linkedlist.c`

Every thread pushes the elements of `A` in turn, and allocations succeed. When
the threads have been joined, `main` prints the elements and frees the nodes.
-/

variable {ι δ : Type}

/-- `called` is how often a thread has called `push_front`. -/
structure Program (ι δ : Type) where
  list : State ι δ
  called : ι → Nat

inductive ProgramAction (ι δ : Type) where
  | call (who : ι)
  | malloc (who : ι) (address : Nat) (garbage : SingleNode δ)
  | step (who : ι)

section

variable [DecidableEq ι]

def pushThread (A : List δ) (program : Program ι δ) : ProgramAction ι δ → Option (Program ι δ)
  | .call who =>
      match A[program.called who]? with
      | some obj =>
          (next program.list (.call who obj)).map fun list =>
            { list, called := update program.called who (program.called who + 1) }
      | none => none
  | .malloc who address garbage =>
      (next program.list (.malloc who (some (address, garbage)))).map fun list => { program with list }
  | .step who => (next program.list (.step who)).map fun list => { program with list }

def programMachine (ι : Type) [DecidableEq ι] (A : List δ) : Machine (Program ι δ) (ProgramAction ι δ) where
  init := { list := singleListInit, called := fun _ => 0 }
  next := pushThread A

end

/-- `pthread_join` returns for every thread. -/
def Program.Joined (A : List δ) (program : Program ι δ) : Prop :=
  ∀ who, program.list.threads who = .idle ∧ program.called who = A.length

/-- The loop of `main` that prints the elements. -/
def printList (heap : Heap (SingleNode δ)) : Nat → Ptr → Except Trap (List δ)
  | _, none => .ok []
  | 0, some _ => .error .diverged
  | fuel + 1, some address =>
      match heap address with
      | none => .error .freed
      | some node => do return node.element :: (← printList heap fuel node.next)

/-- The end of `main`: what it prints, the nodes that `single_list_free` frees, and the heap that is left. -/
def State.finish (state : State ι δ) (fuel : Nat) : Except Trap (List δ × List Nat × Heap (SingleNode δ)) := do
  let printed ← printList state.heap fuel state.head
  let (freed, left) ← state.heap.freeChain SingleNode.next fuel state.head
  return (printed, freed, left)

/-! ## What a step of `push_front` does -/

/-- The object that the thread is pushing. -/
def Phase.obj : Phase δ → Option δ
  | .idle | .crashed => none
  | .allocating obj | .filling obj _ | .waiting obj _ | .linking obj _ | .heading obj _ | .testing obj _
  | .tailing obj _ | .counting obj _ | .posting obj _ => some obj

def SameAllocated (heap other : Heap (SingleNode δ)) : Prop :=
  ∀ address, other address = none ↔ heap address = none

variable {heap : Heap (SingleNode δ)} {state after : State ι δ} {who : ι}

theorem SameAllocated.write {tmp : Nat} (found : heap tmp ≠ none) (stored : SingleNode δ) :
    SameAllocated heap (heap.write tmp stored) := by
  intro address
  by_cases same : address = tmp
  · rw [same, Heap.write_same]
    exact iff_of_false nofun found
  · rw [Heap.write_other _ _ same]

section

variable [DecidableEq ι]

/-- A statement of `push_front` keeps the object, the node and what is allocated, or it is the last. -/
inductive Moves (state after : State ι δ) (who : ι) : Prop
  | goes (phase : Phase δ) (threads : after.threads = update state.threads who phase)
      (obj : phase.obj = (state.threads who).obj) (node : phase.node = (state.threads who).node)
      (pushed : after.pushed = state.pushed) (allocated : SameAllocated state.heap after.heap)
      (held : phase.critical = true ∨ (state.threads who).critical = false ∧ after.sem = state.sem)
  | crashes (threads : after.threads = update state.threads who .crashed) (pushed : after.pushed = state.pushed)
  | posts (obj : δ) (tmp : Nat) (posting : state.threads who = .posting obj tmp)
      (threads : after.threads = update state.threads who .idle) (pushed : after.pushed = (tmp, obj) :: state.pushed)
      (heap : after.heap = state.heap) (sem : after.sem = state.sem + 1)

theorem store_moves {phase : Phase δ} {tmp : Nat} {change : SingleNode δ → SingleNode δ}
    (obj : phase.obj = (state.threads who).obj) (node : phase.node = (state.threads who).node)
    (held : phase.critical = true ∨ (state.threads who).critical = false) :
    Moves state (state.store who phase tmp change) who := by
  cases found : state.heap tmp with
  | none =>
      simp only [State.store, found]
      exact .crashes rfl rfl
  | some object =>
      simp only [State.store, found]
      exact .goes phase rfl obj node rfl (.write (by simp [found]) _) (held.imp_right fun outside => ⟨outside, rfl⟩)

theorem pushFront_moves (moved : pushFront state who = some after) : Moves state after who := by
  have same : SameAllocated state.heap state.heap := fun _ => Iff.rfl
  simp only [pushFront] at moved
  cases phase : state.threads who
  all_goals simp only [phase] at moved
  case idle | allocating | crashed => contradiction
  case filling =>
      cases moved
      exact store_moves (by rw [phase]; rfl) (by rw [phase]; rfl) (.inr (by rw [phase]; rfl))
  case linking =>
      cases moved
      exact store_moves (by rw [phase]; rfl) (by rw [phase]; rfl) (.inl rfl)
  case waiting obj tmp =>
      split at moved <;> cases moved
      exact .goes (.linking obj tmp) rfl (by rw [phase]; rfl) (by rw [phase]; rfl) rfl same (.inl rfl)
  case heading obj tmp =>
      cases moved
      exact .goes (.testing obj tmp) rfl (by rw [phase]; rfl) (by rw [phase]; rfl) rfl same (.inl rfl)
  case testing obj tmp =>
      cases moved
      by_cases empty : state.size = 0
      · simp only [empty, if_true]
        exact .goes (.tailing obj tmp) rfl (by rw [phase]; rfl) (by rw [phase]; rfl) rfl same (.inl rfl)
      · simp only [empty, if_false]
        exact .goes (.counting obj tmp) rfl (by rw [phase]; rfl) (by rw [phase]; rfl) rfl same (.inl rfl)
  case tailing obj tmp =>
      cases moved
      exact .goes (.counting obj tmp) rfl (by rw [phase]; rfl) (by rw [phase]; rfl) rfl same (.inl rfl)
  case counting obj tmp =>
      split at moved
      · cases moved
        exact .goes (.posting obj tmp) rfl (by rw [phase]; rfl) (by rw [phase]; rfl) rfl same (.inl rfl)
      · cases moved
        exact .crashes rfl rfl
  case posting obj tmp =>
      cases moved
      exact .posts obj tmp phase rfl rfl rfl rfl

/-! ## What has been pushed -/

/-- How many of the objects that satisfy `p` the thread has pushed. -/
def pushedBy (A : List δ) (p : δ → Bool) (thread : Phase δ × Nat) : Nat :=
  (A.take (if thread.1.obj.isSome then thread.2 - 1 else thread.2)).countP p

def Program.thread (program : Program ι δ) (who : ι) : Phase δ × Nat :=
  (program.list.threads who, program.called who)

end

section

variable [Fintype ι]

structure Program.Counted (A : List δ) (program : Program ι δ) : Prop where
  pushing : Pushing program.list
  within : ∀ who, program.called who ≤ A.length
  current : ∀ who obj, (program.list.threads who).obj = some obj →
    ∃ before, program.called who = before + 1 ∧ A[before]? = some obj
  counted : ∀ p, (program.list.pushed.map Prod.snd).countP p = tally (pushedBy A p) program.thread
  covered : ∀ address, program.list.heap address ≠ none →
    address ∈ program.list.nodes ∨ ∃ who, (program.list.threads who).node = some address
  held : program.list.sem = 0 → ∃ who, (program.list.threads who).critical = true

variable {A : List δ} {program : Program ι δ} {p : δ → Bool}

theorem Program.Counted.length_le (counted : program.Counted A) :
    program.list.pushed.length ≤ Fintype.card ι * A.length := by
  have total := counted.counted fun _ => true
  rw [List.countP_true, List.length_map] at total
  have bound : tally (pushedBy A fun _ => true) program.thread ≤ Fintype.card ι • A.length := by
    refine Finset.sum_le_card_nsmul Finset.univ (fun who => pushedBy A (fun _ => true) (program.thread who)) _ ?_
    intro who _
    rw [pushedBy, List.countP_true, List.length_take]
    exact Nat.min_le_right ..
  rw [total]
  exact bound

variable [DecidableEq ι]

theorem counted_init : ((programMachine ι A).init).Counted A where
  pushing := pushing_init
  within _ := Nat.zero_le _
  current _ _ := nofun
  counted p := by
    have none : tally (pushedBy A p) (programMachine ι A).init.thread = 0 := tally_eq_zero.mpr fun _ => rfl
    rw [none]
    rfl
  covered _ found := absurd rfl found
  held closed := absurd closed Nat.one_ne_zero

/-- One thread changes, and with it what it has pushed. -/
theorem Program.tally_moves (program : Program ι δ) {list : State ι δ} {called : ι → Nat} {who : ι} {phase : Phase δ} {count : Nat}
    (threads : list.threads = update program.list.threads who phase)
    (calls : called = update program.called who count) (weight : Phase δ × Nat → Nat) :
    tally weight (Program.mk list called).thread + weight (program.thread who) =
      tally weight program.thread + weight (phase, count) := by
  have same : (Program.mk list called).thread = update program.thread who (phase, count) := by
    funext other
    by_cases here : other = who
    · simp [Program.thread, threads, calls, here]
    · simp [Program.thread, threads, calls, here]
  rw [same]
  exact tally_update weight program.thread who (phase, count)

theorem pushedBy_posted (p : δ → Bool) {before : Nat} {obj : δ} (element : A[before]? = some obj) (tmp : Nat) :
    pushedBy A p (.idle, before + 1) = pushedBy A p (.posting obj tmp, before + 1) + if p obj = true then 1 else 0 := by
  have taken : A.take (before + 1) = A.take before ++ [obj] := by
    rw [List.take_add_one, element]
    rfl
  show (A.take (before + 1)).countP p = (A.take before).countP p + _
  rw [taken, List.countP_append, List.countP_singleton]

/-- A step that leaves the number of calls as it is. -/
theorem Program.Counted.keeps {list : State ι δ} (counted : program.Counted A) (pushing : Pushing list) {who : ι}
    {phase : Phase δ} (threads : list.threads = update program.list.threads who phase)
    (obj : ∀ mine, phase.obj = some mine → (program.list.threads who).obj = some mine)
    (tallied : ∀ p, (list.pushed.map Prod.snd).countP p + pushedBy A p (program.thread who) =
      (program.list.pushed.map Prod.snd).countP p + pushedBy A p (phase, program.called who))
    (covered : ∀ address, list.heap address ≠ none → address ∈ list.nodes ∨
      ∃ other, (update program.list.threads who phase other).node = some address)
    (held : list.sem = 0 → ∃ other, (update program.list.threads who phase other).critical = true) :
    (Program.mk list program.called).Counted A where
  pushing := pushing
  within := counted.within
  current other mine holds := by
    simp only [threads] at holds
    by_cases same : other = who
    · rw [same, update_self] at holds
      rw [same]
      exact counted.current who mine (obj mine holds)
    · rw [update_of_ne same] at holds
      exact counted.current other mine holds
  counted p := by
    show (list.pushed.map Prod.snd).countP p = _
    have now := tallied p
    have before := counted.counted p
    have moved := program.tally_moves threads (update_eq_self who program.called).symm (pushedBy A p)
    omega
  covered := by
    simp only [threads]
    exact covered
  held := by
    simp only [threads]
    exact held

theorem Program.Counted.still_held (counted : program.Counted A) {list : State ι δ} {who : ι} {phase : Phase δ}
    (inside : phase.critical = true ∨ (program.list.threads who).critical = false ∧ list.sem = program.list.sem)
    (closed : list.sem = 0) : ∃ other, (update program.list.threads who phase other).critical = true := by
  rcases inside with now | ⟨outside, same⟩
  · exact ⟨who, by rw [update_self, now]⟩
  · obtain ⟨other, critical⟩ := counted.held (same.symm.trans closed)
    have different : other ≠ who := by
      intro here
      rw [here, outside] at critical
      contradiction
    exact ⟨other, by rw [update_of_ne different, critical]⟩

theorem Program.Counted.step (counted : program.Counted A) {list : State ι δ} {who : ι}
    (short : (Fintype.card ι * A.length : Nat) < intMax) (moved : pushFront program.list who = some list) :
    (Program.mk list program.called).Counted A := by
  have pushing : Pushing list := counted.pushing.pushFront moved
  cases pushFront_moves moved with
  | goes phase threads obj node pushed allocated inside =>
      have nodes : list.nodes = program.list.nodes := by rw [State.nodes, pushed]; rfl
      refine counted.keeps pushing threads (fun mine holds => obj ▸ holds) (fun p => ?_) (fun address found => ?_)
        (counted.still_held inside)
      · rw [pushed, pushedBy, pushedBy, obj]
        rfl
      · rw [nodes]
        refine (counted.covered address (mt (allocated address).mpr found)).imp_right ?_
        rintro ⟨other, mine⟩
        by_cases same : other = who
        · exact ⟨other, by rw [same, update_self, node, ← same, mine]⟩
        · exact ⟨other, by rw [update_of_ne same, mine]⟩
  | crashes threads pushed =>
      have full := pushing.fits who
      have bound := counted.length_le
      rw [threads, update_self] at full
      have most : intMax ≤ (program.list.pushed.length : Int) := by
        simpa [Phase.Fits, State.nodes, pushed] using full
      omega
  | posts obj tmp posting threads pushed heap sem =>
      obtain ⟨before, calls, element⟩ := counted.current who obj (by rw [posting]; rfl)
      refine counted.keeps pushing threads (by simp [Phase.obj]) (fun p => ?_) (fun address found => ?_)
        (fun closed => absurd (sem.symm.trans closed) (Nat.succ_ne_zero _))
      · have grown := pushedBy_posted p element tmp
        simp only [pushed, List.map_cons, List.countP_cons, Program.thread, posting, calls]
        omega
      · rw [heap] at found
        rcases counted.covered address found with listed | ⟨other, mine⟩
        · exact .inl (by simp only [State.nodes, pushed, List.map_cons]; exact List.mem_cons_of_mem _ listed)
        · by_cases same : other = who
          · rw [same, posting] at mine
            cases mine
            exact .inl (by simp [State.nodes, pushed])
          · exact .inr ⟨other, by rw [update_of_ne same, mine]⟩

theorem Program.Counted.malloc (counted : program.Counted A) {list : State ι δ} {who : ι} {address : Nat}
    {garbage : SingleNode δ} (moved : mallocStep program.list who (some (address, garbage)) = some list) :
    (Program.mk list program.called).Counted A := by
  have pushing : Pushing list := counted.pushing.mallocStep moved
  simp only [mallocStep] at moved
  cases phase : program.list.threads who
  all_goals simp only [phase] at moved
  case allocating obj =>
      split at moved <;> cases moved
      refine counted.keeps pushing rfl (fun mine holds => by rw [phase]; exact holds) (fun p => ?_) (fun other found => ?_)
        (counted.still_held (.inr ⟨by rw [phase]; rfl, rfl⟩))
      · rw [Program.thread, phase]
        rfl
      · by_cases new : other = address
        · exact .inr ⟨who, by rw [update_self, new]; rfl⟩
        · have old : program.list.heap other ≠ none := by
            intro free
            exact found ((Heap.write_other _ _ new).trans free)
          refine (counted.covered other old).imp_right ?_
          rintro ⟨holder, mine⟩
          have different : holder ≠ who := by
            intro same
            rw [same, phase] at mine
            contradiction
          exact ⟨holder, by rw [update_of_ne different, mine]⟩
  all_goals contradiction

theorem Program.Counted.call (counted : program.Counted A) {list : State ι δ} {who : ι} {obj : δ}
    (element : A[program.called who]? = some obj) (moved : next program.list (.call who obj) = some list) :
    (Program.mk list (update program.called who (program.called who + 1))).Counted A := by
  have pushing : Pushing list := counted.pushing.next moved
  simp only [next] at moved
  split at moved <;> cases moved
  rename_i idle
  have more : program.called who < A.length := (List.getElem?_eq_some_iff.mp element).1
  refine ⟨pushing, ?_, ?_, ?_, ?_, ?_⟩
  · intro other
    by_cases same : other = who
    · rw [same]
      show update program.called who (program.called who + 1) who ≤ A.length
      rw [update_self]
      exact more
    · show update program.called who (program.called who + 1) other ≤ A.length
      rw [update_of_ne same]
      exact counted.within other
  · intro other mine holds
    show ∃ before, update program.called who (program.called who + 1) other = before + 1 ∧ A[before]? = some mine
    simp only [State.go] at holds
    by_cases same : other = who
    · rw [same, update_self] at holds
      cases holds
      exact ⟨program.called who, by rw [same, update_self], element⟩
    · rw [update_of_ne same] at holds ⊢
      exact counted.current other mine holds
  · intro p
    have moved : tally (pushedBy A p) (Program.mk (program.list.go who (.allocating obj))
          (update program.called who (program.called who + 1))).thread + pushedBy A p (program.thread who) =
        tally (pushedBy A p) program.thread + pushedBy A p (.allocating obj, program.called who + 1) :=
      program.tally_moves rfl rfl _
    have before := counted.counted p
    have unchanged : pushedBy A p (program.thread who) = pushedBy A p (.allocating obj, program.called who + 1) := by
      rw [Program.thread, idle]
      rfl
    show (program.list.pushed.map Prod.snd).countP p = _
    omega
  · intro address found
    refine (counted.covered address found).imp_right ?_
    rintro ⟨holder, mine⟩
    have different : holder ≠ who := by
      intro same
      rw [same, idle] at mine
      contradiction
    exact ⟨holder, by simpa only [State.go, update_of_ne different] using mine⟩
  · exact counted.still_held (.inr ⟨by rw [idle]; rfl, rfl⟩)

theorem Reachable.counted (short : (Fintype.card ι * A.length : Nat) < intMax)
    (reached : (programMachine ι A).Reachable program) : program.Counted A := by
  refine reached.invariant (Program.Counted A) counted_init ?_
  intro before after action counted moved
  cases action with
  | call who =>
      simp only [programMachine, pushThread] at moved
      split at moved
      · rename_i obj element
        obtain ⟨list, went, rfl⟩ := Option.map_eq_some_iff.mp moved
        exact counted.call element went
      · cases moved
  | malloc who address garbage =>
      obtain ⟨list, went, rfl⟩ := Option.map_eq_some_iff.mp moved
      exact counted.malloc went
  | step who =>
      obtain ⟨list, went, rfl⟩ := Option.map_eq_some_iff.mp moved
      exact counted.step short went

/-! ## The end of `main` -/

omit [Fintype ι] [DecidableEq ι] in
theorem printList_segment {heap : Heap (SingleNode δ)} (entries : List (Nat × δ)) {ptr : Ptr} {fuel : Nat}
    (chain : Segment SingleNode.next heap ptr (entries.map Prod.fst) none)
    (contents : ∀ entry ∈ entries, ∃ node, heap entry.1 = some node ∧ node.element = entry.2)
    (enough : entries.length ≤ fuel) : printList heap fuel ptr = .ok (entries.map Prod.snd) := by
  induction entries generalizing ptr fuel with
  | nil =>
      cases chain
      cases fuel <;> rfl
  | cons entry entries ih =>
      obtain ⟨rfl, node, found, rest⟩ := chain
      obtain ⟨fuel, rfl⟩ : ∃ less, fuel = less + 1 := ⟨fuel - 1, by simp at enough; omega⟩
      obtain ⟨same, lookup, element⟩ := contents entry List.mem_cons_self
      obtain rfl := Option.some.inj (found.symm.trans lookup)
      have printed := ih rest (fun later member => contents later (List.mem_cons_of_mem _ member)) (by simpa using enough)
      simp only [printList, found, printed, ok_bind, element]
      rfl

omit [DecidableEq ι] in
theorem Program.Counted.settled (counted : program.Counted A) (joined : program.Joined A) :
    Settled program.list program.list.nodes := by
  have binary := counted.pushing.exclusive.binary
  refine counted.pushing.settled ?_
  by_contra notFree
  obtain ⟨who, critical⟩ := counted.held (by omega)
  rw [(joined who).1] at critical
  contradiction

omit [DecidableEq ι] in
theorem Program.Counted.countP (counted : program.Counted A) (joined : program.Joined A) (p : δ → Bool) :
    (program.list.pushed.map Prod.snd).countP p = Fintype.card ι * A.countP p := by
  have each : ∀ who, pushedBy A p (program.thread who) = A.countP p := by
    intro who
    obtain ⟨idle, all⟩ := joined who
    rw [Program.thread, idle, all]
    show (A.take A.length).countP p = A.countP p
    rw [List.take_length]
  rw [counted.counted p, tally, Finset.sum_congr rfl fun who _ => each who, Finset.sum_const, Finset.card_univ,
    smul_eq_mul]

/-- When any number of threads have pushed the elements of `A`, in any interleaving, `main` prints
each element once for every thread that has pushed it, frees every node that was allocated, each once,
and leaves nothing allocated. -/
theorem list_program_prints_all (A : List δ) (program : Program ι δ) (short : (Fintype.card ι * A.length : Nat) < intMax)
    (reached : (programMachine ι A).Reachable program) (joined : program.Joined A) (fuel : Nat)
    (enough : Fintype.card ι * A.length ≤ fuel) :
    ∃ printed freed left, program.list.finish fuel = .ok (printed, freed, left) ∧
      (∀ p, printed.countP p = Fintype.card ι * A.countP p) ∧
      freed.Nodup ∧ (∀ address, address ∈ freed ↔ program.list.heap address ≠ none) ∧
      ∀ address, left address = none := by
  have counted := Reachable.counted short reached
  have settled := counted.settled joined
  have owned := counted.pushing.owned
  have length := counted.length_le
  have allocated : ∀ address, program.list.heap address ≠ none → address ∈ program.list.nodes := by
    intro address found
    rcases counted.covered address found with listed | ⟨who, mine⟩
    · exact listed
    · rw [(joined who).1] at mine
      cases mine
  have room : program.list.nodes.length ≤ fuel := by
    rw [State.nodes, List.length_map]
    exact Nat.le_trans length enough
  have printed := printList_segment program.list.pushed settled.chain owned.contents (Nat.le_trans length enough)
  obtain ⟨left, freed, contents⟩ := settled.chain.freeChain owned.distinct room
  refine ⟨_, _, left, ?_, counted.countP joined, owned.distinct, fun address => ⟨?_, allocated address⟩, ?_⟩
  · simp only [State.finish, printed, ok_bind, freed]
    rfl
  · intro member
    obtain ⟨entry, pushed, rfl⟩ := List.mem_map.mp member
    obtain ⟨node, found, -⟩ := owned.contents entry pushed
    rw [found]
    exact Option.some_ne_none node
  · intro address
    rw [contents]
    split
    · rfl
    · by_contra found
      exact absurd (allocated address found) ‹_›

end

/-- Two threads, each with one push; the second waits for the first. -/
theorem list_program_prints_all_two : ∃ program : Program Bool Char, (programMachine Bool ['a']).Reachable program ∧
    ∃ printed freed left, program.list.finish 2 = .ok (printed, freed, left) ∧
      printed.countP (· = 'a') = 2 ∧ freed.Nodup := by
  have reached : (programMachine Bool ['a']).Reachable _ :=
    ⟨[.call true, .call false, .malloc true 3 ⟨'x', none⟩, .malloc false 7 ⟨'y', some 9⟩, .step true, .step true, .step false] ++
      List.replicate 6 (.step true) ++ List.replicate 6 (.step false), rfl⟩
  obtain ⟨printed, freed, left, finished, counts, once, -⟩ := list_program_prints_all ['a'] _ (by decide) reached
    (fun who => by cases who <;> exact ⟨rfl, rfl⟩) 2 (Nat.le_refl 2)
  exact ⟨_, reached, printed, freed, left, finished, counts _, once⟩

end SysProg.Threading.SharedList
