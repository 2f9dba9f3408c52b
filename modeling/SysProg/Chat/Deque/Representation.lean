import SysProg.Chat.Deque.Mirror

namespace SysProg.Chat

variable {δ : Type}

/-- An element of the list: where its node is, how it went in, and its data. -/
structure Cell (δ : Type) where
  address : Nat
  origin : Origin
  value : δ

/-- The nodes that `next` links lead through from the head. -/
def frontRun (cells : List (Cell δ)) : List Nat :=
  (cells.takeWhile (·.origin != .back)).map Cell.address

/-- The nodes that `prev` links lead through from the tail. -/
def backRun (cells : List (Cell δ)) : List Nat :=
  (cells.reverse.takeWhile (·.origin != .front)).map Cell.address

/-- Elements put in front, then the one that went in alone, then those behind. -/
def Origin.Before (left right : Origin) : Prop :=
  (left = .front ∨ right ≠ .front) ∧ (right = .back ∨ left ≠ .back) ∧ (left ≠ .sole ∨ right ≠ .sole)

/-- Where a run of links ends: at `NULL`, or at a stale pointer. -/
def Ends (stale : Ptr → Prop) (flag : Bool) (final : Ptr) : Prop :=
  if flag then stale final else final = none

/-- The list holds the cells, and its links lead as far as its shape says. -/
structure Represents (stale : Ptr → Prop) (store : Store δ) (cells : List (Cell δ)) (shape : Shape) : Prop where
  origins : shape.origins = cells.map Cell.origin
  ordered : shape.origins.Pairwise Origin.Before
  distinct : (cells.map Cell.address).Nodup
  stored : ∀ cell ∈ cells, ∃ node, store.heap cell.address = some node ∧ node.data = cell.value
  forward : ∃ final, Segment LNode.next store.heap store.list.head (frontRun cells) final ∧
    Ends stale shape.staleHead final
  backward : ∃ final, Segment LNode.prev store.heap store.list.tail (backRun cells) final ∧
    Ends stale shape.staleTail final
  size : store.list.size = cells.length

theorem represents_init (stale : Ptr → Prop) : Represents stale (llistInit : Store δ) [] .empty where
  origins := rfl
  ordered := .nil
  distinct := .nil
  stored := by simp
  forward := ⟨none, rfl, rfl⟩
  backward := ⟨none, rfl, rfl⟩
  size := rfl

variable {stale kept : Ptr → Prop} {store : Store δ} {cells : List (Cell δ)} {shape : Shape}

theorem Ends.mono {flag : Bool} {final : Ptr} (ends : Ends stale flag final)
    (keeps : ∀ ptr, stale ptr → kept ptr) : Ends kept flag final := by
  cases flag with
  | false => exact ends
  | true => exact keeps final ends

theorem mem_frontRun {address : Nat} (member : address ∈ frontRun cells) :
    ∃ cell ∈ cells, cell.address = address := by
  obtain ⟨cell, taken, rfl⟩ := List.mem_map.mp member
  exact ⟨cell, List.takeWhile_subset _ taken, rfl⟩

theorem mem_backRun {address : Nat} (member : address ∈ backRun cells) :
    ∃ cell ∈ cells, cell.address = address := by
  obtain ⟨cell, taken, rfl⟩ := List.mem_map.mp member
  exact ⟨cell, List.mem_reverse.mp (List.takeWhile_subset _ taken), rfl⟩

theorem backRun_cons_front {cell : Cell δ} (front : cell.origin = .front) :
    backRun (cell :: cells) = backRun cells := by
  simp only [backRun, List.reverse_cons, List.takeWhile_append]
  split
  · rename_i whole
    have all : cells.reverse.takeWhile (·.origin != .front) = cells.reverse :=
      (List.takeWhile_prefix _).eq_of_length whole
    simp [all, front]
  · rfl

theorem backRun_cons_pass {cell : Cell δ} (passes : cell.origin ≠ .front)
    (others : ∀ other ∈ cells, other.origin ≠ .front) :
    backRun (cell :: cells) = (cells.map Cell.address).reverse ++ [cell.address] := by
  have all : ∀ other ∈ (cell :: cells).reverse, (other.origin != .front) = true := by
    intro other member
    rcases List.mem_cons.mp (List.mem_reverse.mp member) with rfl | later
    · simpa using passes
    · simpa using others other later
  rw [backRun, List.takeWhile_eq_self_iff.mpr all]
  simp

theorem backRun_pass (others : ∀ other ∈ cells, other.origin ≠ .front) :
    backRun cells = (cells.map Cell.address).reverse := by
  have all : ∀ other ∈ cells.reverse, (other.origin != .front) = true := by
    intro other member
    simpa using others other (List.mem_reverse.mp member)
  rw [backRun, List.takeWhile_eq_self_iff.mpr all, List.map_reverse]

theorem Represents.fresh_ne {node : Nat} (rep : Represents stale store cells shape)
    (unused : store.heap node = none) {cell : Cell δ} (member : cell ∈ cells) : cell.address ≠ node := by
  rintro rfl
  obtain ⟨found, lookup, -⟩ := rep.stored cell member
  rw [lookup] at unused
  contradiction

theorem Represents.addf {node : Nat} (rep : Represents stale store cells shape)
    (room : (shape.origins.length : Int) < intMax) (unused : store.heap node = none) (data : δ) :
    ∃ after, llistAddf store (some data) (some node) = .ok (0, after) ∧
      ∀ kept : Ptr → Prop, (∀ ptr, stale ptr → kept ptr) →
        Represents kept after (⟨node, if shape.origins = [] then .sole else .front, data⟩ :: cells)
          (shape.after (.addf data : Call δ)) := by
  have count : store.list.size = shape.origins.length := by rw [rep.size, rep.origins, List.length_map]
  have performed : llistAddf store (some data) (some node) = .ok (0, {
      heap := store.heap.write node { data, next := store.list.head, prev := none }
      list := {
        head := some node
        tail := if store.list.size + 1 = 1 then some node else store.list.tail
        size := store.list.size + 1 } }) := by
    rw [llistAddf, increment_eq_ok (by rw [count]; exact room)]
    rfl
  refine ⟨_, performed, ?_⟩
  intro kept keeps
  obtain ⟨last, forward, forwardEnds⟩ := rep.forward
  obtain ⟨first, backward, backwardEnds⟩ := rep.backward
  have nodeFresh : ∀ cell ∈ cells, cell.address ≠ node := fun cell => rep.fresh_ne unused
  have elsewhere : ∀ cell ∈ cells, (store.heap.write node ⟨data, store.list.head, none⟩) cell.address =
      store.heap cell.address := fun cell member => Heap.write_other _ _ (nodeFresh cell member)
  refine {
    origins := by simp [Shape.after, rep.origins]
    ordered := ?_
    distinct := ?_
    stored := ?_
    forward := ⟨last, ?_, forwardEnds.mono keeps⟩
    backward := ?_
    size := by simp [rep.size] }
  · refine List.pairwise_cons.mpr ⟨?_, rep.ordered⟩
    intro origin member
    have occupied : shape.origins ≠ [] := List.ne_nil_of_mem member
    simp [Origin.Before, occupied]
  · simp only [List.map_cons, List.nodup_cons, List.mem_map, not_exists, not_and]
    exact ⟨nodeFresh, rep.distinct⟩
  · intro cell member
    rcases List.mem_cons.mp member with rfl | later
    · exact ⟨_, Heap.write_same _ _ _, rfl⟩
    · obtain ⟨found, lookup, holds⟩ := rep.stored cell later
      exact ⟨found, (elsewhere cell later).trans lookup, holds⟩
  · have passes : ((if shape.origins = [] then Origin.sole else .front) != .back) = true := by split <;> rfl
    simp only [frontRun, List.takeWhile_cons, passes, if_true, List.map_cons]
    refine ⟨rfl, _, Heap.write_same _ _ _, forward.frame ?_⟩
    intro address member
    obtain ⟨cell, inside, rfl⟩ := mem_frontRun member
    exact elsewhere cell inside
  · by_cases empty : shape.origins = []
    · have none : cells = [] := by simpa [empty] using rep.origins.symm
      subst none
      have first : store.list.size + 1 = 1 := by simp [rep.size]
      refine ⟨.none, ?_, by simp [Ends, Shape.after, empty]⟩
      simp only [backRun, empty, if_true, first]
      exact ⟨rfl, _, Heap.write_same _ _ _, rfl⟩
    · have occupied : cells ≠ [] := by
        rintro rfl
        exact empty (by simp [rep.origins])
      have notFirst : store.list.size + 1 ≠ 1 := by
        have := List.length_pos_iff.mpr occupied
        have := rep.size
        omega
      refine ⟨first, ?_, by simpa [Shape.after, empty] using backwardEnds.mono keeps⟩
      rw [backRun_cons_front (by simp [empty])]
      simp only [notFirst, if_false]
      refine backward.frame ?_
      intro address member
      obtain ⟨cell, inside, rfl⟩ := mem_backRun member
      exact elsewhere cell inside

theorem Represents.cons_ne {cell : Cell δ} (rep : Represents stale store (cell :: cells) shape)
    {other : Cell δ} (member : other ∈ cells) : other.address ≠ cell.address := by
  intro same
  have outside := (List.nodup_cons.mp rep.distinct).1
  exact outside (List.mem_map.mpr ⟨other, member, same⟩)

/-- `llist_remf` on a represented list whose front element is linked returns
that element. The freed node may be where the links from the tail now end. -/
theorem Represents.remf {cell : Cell δ} (rep : Represents stale store (cell :: cells) shape)
    (linked : cell.origin ≠ .back) :
    ∃ after, llistRemf store = .ok (some cell.value, after) ∧ after.heap = store.heap.free cell.address ∧
      ∀ kept : Ptr → Prop, (∀ ptr, stale ptr → kept ptr) → kept (some cell.address) →
        Represents kept after cells (shape.after (.remf : Call δ)) := by
  obtain ⟨last, forward, forwardEnds⟩ := rep.forward
  obtain ⟨first, backward, backwardEnds⟩ := rep.backward
  have passes : (cell.origin != .back) = true := by simpa using linked
  simp only [frontRun, List.takeWhile_cons, passes, if_true, List.map_cons] at forward
  obtain ⟨head, node, lookup, onward⟩ := forward
  have holds : node.data = cell.value := by
    obtain ⟨found, same, holds⟩ := rep.stored cell (by simp)
    rw [lookup] at same
    cases same
    exact holds
  have elsewhere : ∀ other ∈ cells, (store.heap.free cell.address) other.address = store.heap other.address :=
    fun other member => Heap.free_other _ (rep.cons_ne member)
  have count : store.list.size = cells.length + 1 := by simpa using rep.size
  have performed : llistRemf store = .ok (some cell.value, {
      heap := store.heap.free cell.address
      list := {
        head := node.next
        tail := if store.list.size - 1 = 0 then none else store.list.tail
        size := store.list.size - 1 } }) := by
    have less := decrement_eq_ok (show 0 < store.list.size by omega)
    simp [llistRemf, head, lookup, holds, less]
  refine ⟨_, performed, rfl, ?_⟩
  intro kept keeps freed
  refine {
    origins := by simp [Shape.after, rep.origins]
    ordered := ?_
    distinct := (List.nodup_cons.mp rep.distinct).2
    stored := ?_
    forward := ⟨last, onward.frame ?_, forwardEnds.mono keeps⟩
    backward := ?_
    size := by simp [count] }
  · have ordered := rep.ordered
    rw [rep.origins] at ordered
    simp only [Shape.after, rep.origins, List.map_cons, List.tail_cons]
    exact (List.pairwise_cons.mp ordered).2
  · intro other member
    obtain ⟨found, same, value⟩ := rep.stored other (by simp [member])
    exact ⟨found, (elsewhere other member).trans same, value⟩
  · intro address member
    obtain ⟨other, inside, rfl⟩ := mem_frontRun member
    exact elsewhere other inside
  · by_cases empty : cells = []
    · subst empty
      exact ⟨none, by simp [count, backRun, Segment], by simp [Ends, Shape.after, rep.origins]⟩
    · have notLast : store.list.size - 1 ≠ 0 := by
        have := List.length_pos_iff.mpr empty
        omega
      simp only [notLast, if_false]
      cases origin : cell.origin with
      | back => exact absurd origin linked
      | front =>
          rw [backRun_cons_front origin] at backward
          refine ⟨first, backward.frame ?_, ?_⟩
          · intro address member
            obtain ⟨other, inside, rfl⟩ := mem_backRun member
            exact elsewhere other inside
          · simpa [Shape.after, rep.origins, empty, origin] using backwardEnds.mono keeps
      | sole =>
          have behind : ∀ other ∈ cells, other.origin ≠ .front := by
            intro other member
            have ordered := rep.ordered
            rw [rep.origins] at ordered
            have before := (List.pairwise_cons.mp ordered).1 other.origin (List.mem_map_of_mem member)
            have notFront := before.1
            simpa [origin] using notFront
          rw [backRun_cons_pass (by simp [origin]) behind] at backward
          refine ⟨some cell.address, ?_, by simpa [Ends, Shape.after, rep.origins, empty, origin] using freed⟩
          rw [backRun_pass behind]
          refine backward.dropLast.frame ?_
          intro address member
          obtain ⟨other, inside, rfl⟩ := List.mem_map.mp (List.mem_reverse.mp member)
          exact elsewhere other inside

theorem Represents.remf_empty (rep : Represents stale store [] shape) (clear : shape.staleHead = false) :
    llistRemf store = .ok (none, store) := by
  obtain ⟨last, head, ends⟩ := rep.forward
  simp only [Ends, clear, Bool.false_eq_true, if_false] at ends
  have null : store.list.head = none := by simpa [frontRun, Segment, ends] using head
  simp [llistRemf, null]

/-- An addition to a list of `INT_MAX` nodes. -/
theorem Represents.addf_missed {node : Nat} {data : δ} (rep : Represents stale store cells shape)
    (missed : shape.admits (.addf data) = false) :
    llistAddf store (some data) (some node) = .error .overflow := by
  have count : store.list.size = shape.origins.length := by rw [rep.size, rep.origins, List.length_map]
  have full : ¬ store.list.size < intMax := by
    rw [count]
    simpa [Shape.admits] using missed
  have overflow : increment store.list.size = .error .overflow := if_neg full
  rw [llistAddf, overflow]
  rfl

theorem Represents.remf_missed (rep : Represents stale store cells shape)
    (dangling : ∀ ptr, stale ptr → ∃ address, ptr = some address ∧ store.heap address = none)
    (missed : shape.admits (.remf : Call δ) = false) :
    ∀ after, llistRemf store ≠ .ok ((cells.map Cell.value).head?, after) := by
  obtain ⟨last, head, ends⟩ := rep.forward
  have stops : frontRun cells = [] := by
    cases cells with
    | nil => rfl
    | cons cell rest =>
        have back : cell.origin = .back := by simpa [Shape.admits, rep.origins] using missed
        simp [frontRun, back]
  rw [stops] at head
  change store.list.head = last at head
  intro after performed
  cases flag : shape.staleHead with
  | true =>
      obtain ⟨address, rfl, gone⟩ := dangling last (by simpa [Ends, flag] using ends)
      simp [llistRemf, head, gone] at performed
  | false =>
      have null : last = none := by simpa [Ends, flag] using ends
      cases cells with
      | nil => simp [Shape.admits, rep.origins, flag] at missed
      | cons cell rest => simp [llistRemf, head, null] at performed

end SysProg.Chat
