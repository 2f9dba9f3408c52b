import SysProg.Chat.Deque.Behaviour

namespace SysProg.Chat

variable {δ : Type}

/-! # The links of the list

What a doubly linked list should be, and how far `llist_addf` and `llist_addl`
keep it: neither links the node it adds from the node beside it.
-/

/-- `visited` are the nodes that have been added and not removed, from front to
back, and both chains go through all of them. -/
structure Linked (store : Store δ) (visited : List Nat) : Prop where
  distinct : visited.Nodup
  allocated : ∀ address, store.heap address ≠ none ↔ address ∈ visited
  forward : Segment LNode.next store.heap store.list.head visited none
  backward : Segment LNode.prev store.heap store.list.tail visited.reverse none
  first : store.list.head = visited.head?
  last : store.list.tail = visited.getLast?
  headEmpty : store.list.head = none ↔ store.list.size = 0
  tailEmpty : store.list.tail = none ↔ store.list.size = 0

/-- The list is linked, and `llist_destroy` frees all its nodes, each once. -/
def WellLinked (store : Store δ) : Prop :=
  ∃ visited, Linked store visited ∧
    ∀ fuel, visited.length ≤ fuel →
      ∃ after, llistDestroy fuel store = .ok (visited, after) ∧ ∀ address, after.heap address = none

/-- No call reads or frees a node that is not allocated, and `holds` is true
before and after each call. -/
def Throughout (holds : Store δ → Prop) : Store δ → List (Call δ × Nat) → Prop
  | store, [] => holds store
  | store, call :: rest =>
      holds store ∧ ∃ answer after, perform store call = .ok (answer, after) ∧ Throughout holds after rest

/-- Whatever unused addresses `malloc` returns, a new list is well linked
before and after each of the calls. -/
def KeepsLinked (calls : List (Call δ)) : Prop :=
  ∀ nodes : List Nat, nodes.length = calls.length → Served llistInit (calls.zip nodes) →
    Throughout WellLinked llistInit (calls.zip nodes)

/-- Every addition in the sequence is made while the list is empty. -/
def oneAtATime : List δ → List (Call δ) → Bool
  | _, [] => true
  | values, call :: rest => (!call.allocates || values.isEmpty) && oneAtATime (call.effect values) rest

theorem Linked.wellLinked {store : Store δ} {visited : List Nat} (linked : Linked store visited) :
    WellLinked store := by
  refine ⟨visited, linked, ?_⟩
  intro fuel enough
  obtain ⟨left, freed, contents⟩ := linked.forward.freeChain linked.distinct enough
  refine ⟨{ store with heap := left }, by simp [llistDestroy, freed], ?_⟩
  intro address
  simp only [contents]
  split
  · rfl
  · rename_i absent
    by_contra present
    exact absent ((linked.allocated address).mp present)

/-! ## Lists of at most one node -/

/-- The list of one node. -/
def lone (address : Nat) (data : δ) : Store δ where
  list := { head := some address, tail := some address, size := 1 }
  heap := Heap.write (fun _ => none) address { data, next := none, prev := none }

theorem lone_found (address : Nat) (data : δ) :
    (lone address data).heap address = some { data, next := none, prev := none } := by
  simp [lone]

/-- The list holds the values, of which there is at most one. -/
inductive Small : Store δ → List δ → Prop
  | empty : Small llistInit []
  | single (address : Nat) (data : δ) : Small (lone address data) [data]

theorem linked_init : Linked (llistInit : Store δ) [] where
  distinct := List.nodup_nil
  allocated := by simp [llistInit]
  forward := rfl
  backward := rfl
  first := rfl
  last := rfl
  headEmpty := by simp [llistInit]
  tailEmpty := by simp [llistInit]

theorem linked_lone (address : Nat) (data : δ) : Linked (lone address data) [address] where
  distinct := List.nodup_singleton address
  allocated := by
    intro other
    by_cases same : other = address
    · simp [lone, same]
    · simp [lone, same, Heap.write_other]
  forward := ⟨rfl, _, lone_found address data, rfl⟩
  backward := ⟨rfl, _, lone_found address data, rfl⟩
  first := rfl
  last := rfl
  headEmpty := by simp [lone]
  tailEmpty := by simp [lone]

theorem Small.wellLinked {store : Store δ} {values : List δ} (small : Small store values) : WellLinked store := by
  cases small with
  | empty => exact linked_init.wellLinked
  | single address data => exact (linked_lone address data).wellLinked

theorem free_lone (address : Nat) (data : δ) : (lone address data).heap.free address = fun _ => none := by
  funext other
  by_cases same : other = address
  · simp [same]
  · simp [lone, same, Heap.free_other, Heap.write_other]

/-- A call that adds nothing to a list that is not empty keeps it small. -/
theorem Small.perform {store : Store δ} {values : List δ} (small : Small store values) (call : Call δ)
    (node : Nat) (admitted : call.allocates = true → values = []) :
    ∃ answer after, perform store (call, node) = .ok (answer, after) ∧ Small after (call.effect values) := by
  cases small with
  | empty =>
      cases call with
      | addf data => exact ⟨none, _, rfl, .single node data⟩
      | addl data => exact ⟨none, _, rfl, .single node data⟩
      | remf => exact ⟨none, _, rfl, .empty⟩
      | reml => exact ⟨none, _, rfl, .empty⟩
  | single address data =>
      cases call with
      | addf value => exact absurd (admitted rfl) (by simp)
      | addl value => exact absurd (admitted rfl) (by simp)
      | remf =>
          refine ⟨some data, llistInit, ?_, .empty⟩
          simp only [Chat.perform, llistRemf, lone, Heap.write_same]
          have heap := free_lone address data
          simp only [lone] at heap
          rw [heap]
          rfl
      | reml =>
          refine ⟨some data, llistInit, ?_, .empty⟩
          simp only [Chat.perform, llistReml, lone, Heap.write_same]
          have heap := free_lone address data
          simp only [lone] at heap
          rw [heap]
          rfl

/-! ## A second node -/

theorem lone_lookup {address node : Nat} {data : δ} (added : LNode δ) (fresh : node ≠ address) :
    (lone address data).heap.write node added address = some { data, next := none, prev := none } := by
  rw [Heap.write_other _ _ fresh.symm]
  exact lone_found address data

/-- The old head's `prev` stays `NULL`, so the new head is not reached from the tail. -/
theorem addf_not_linked {address node : Nat} {data value : δ} {after : Store δ} {answer : Option δ}
    (fresh : node ≠ address) (performed : perform (lone address data) (.addf value, node) = .ok (answer, after)) :
    ¬ WellLinked after := by
  cases performed
  rintro ⟨visited, linked, -⟩
  have member : node ∈ visited := (linked.allocated node).mp (by simp)
  have all := linked.backward.singleton (lone_lookup _ fresh) rfl
  rw [← List.mem_reverse, all, List.mem_singleton] at member
  exact fresh member

/-- The old tail's `next` stays `NULL`, so the new tail is not reached from the head. -/
theorem addl_not_linked {address node : Nat} {data value : δ} {after : Store δ} {answer : Option δ}
    (fresh : node ≠ address) (performed : perform (lone address data) (.addl value, node) = .ok (answer, after)) :
    ¬ WellLinked after := by
  cases performed
  rintro ⟨visited, linked, -⟩
  have member : node ∈ visited := (linked.allocated node).mp (by simp)
  have all := linked.forward.singleton (lone_lookup _ fresh) rfl
  rw [all, List.mem_singleton] at member
  exact fresh member

theorem Throughout.holds {holds : Store δ → Prop} {store : Store δ} {calls : List (Call δ × Nat)}
    (throughout : Throughout holds store calls) : holds store := by
  cases calls with
  | nil => exact throughout
  | cons call rest => exact throughout.1

/-! ## Whole sequences of calls -/

theorem throughout_of_oneAtATime {store : Store δ} {values : List δ} {calls : List (Call δ)} {nodes : List Nat}
    (small : Small store values) (single : oneAtATime values calls = true) :
    Throughout WellLinked store (calls.zip nodes) := by
  induction calls generalizing store values nodes with
  | nil => exact small.wellLinked
  | cons call rest ih =>
      cases nodes with
      | nil => exact small.wellLinked
      | cons node nodes =>
          simp only [oneAtATime, Bool.and_eq_true, Bool.or_eq_true, Bool.not_eq_true', List.isEmpty_iff] at single
          obtain ⟨alone, later⟩ := single
          have admitted : call.allocates = true → values = [] := by
            intro allocates
            simpa [allocates] using alone
          obtain ⟨answer, after, performed, smaller⟩ := small.perform call node admitted
          exact ⟨small.wellLinked, answer, after, performed, ih smaller later⟩

theorem oneAtATime_of_throughout {store : Store δ} {values : List δ} {calls : List (Call δ)} {bound : Nat}
    (below : Below bound store) (small : Small store values)
    (throughout : Throughout WellLinked store (calls.zip (List.range' bound calls.length))) :
    oneAtATime values calls = true := by
  induction calls generalizing store values bound with
  | nil => rfl
  | cons call rest ih =>
      simp only [List.length_cons, List.range'_succ, List.zip_cons_cons] at throughout
      obtain ⟨-, answer, after, performed, later⟩ := throughout
      have admitted : call.allocates = true → values = [] := by
        intro allocates
        cases small with
        | empty => rfl
        | single address data =>
            have fresh : bound ≠ address := by
              rintro rfl
              have absent := below bound (Nat.le_refl bound)
              simp [lone] at absent
            cases call with
            | addf value => exact absurd later.holds (addf_not_linked fresh performed)
            | addl value => exact absurd later.holds (addl_not_linked fresh performed)
            | remf => contradiction
            | reml => contradiction
      obtain ⟨answered, next, ran, smaller⟩ := small.perform call bound admitted
      rw [performed] at ran
      cases ran
      simp only [oneAtATime, Bool.and_eq_true, Bool.or_eq_true, Bool.not_eq_true', List.isEmpty_iff]
      refine ⟨?_, ih (below.next performed) smaller later⟩
      cases allocates : call.allocates with
      | false => exact .inl rfl
      | true => exact .inr (admitted allocates)

/-- The list stays well linked through exactly those sequences of calls that
never add to a list with a node in it. -/
theorem keepsLinked_iff_oneAtATime (calls : List (Call δ)) : KeepsLinked calls ↔ oneAtATime [] calls = true := by
  constructor
  · intro keeps
    have below : Below 0 (llistInit : Store δ) := fun _ _ => rfl
    exact oneAtATime_of_throughout below .empty
      (keeps (List.range' 0 calls.length) (by simp) (served_of_below calls below))
  · intro single nodes _ _
    exact throughout_of_oneAtATime .empty single

/-- Two values put in at the back: the head's `next` stays `NULL`. -/
theorem two_behind_not_linked : ¬ KeepsLinked [Call.addl 1, .addl 2] := by
  intro keeps
  have served : Served llistInit ([Call.addl 1, .addl 2].zip [0, 1]) := served_of_below _ (fun _ _ => rfl : Below 0 _)
  obtain ⟨-, _, _, first, -, _, _, second, linked⟩ := keeps [0, 1] rfl served
  cases first
  exact addl_not_linked (by decide : 1 ≠ 0) second linked

end SysProg.Chat
