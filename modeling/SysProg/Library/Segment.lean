import SysProg.Library.Block
import Mathlib.Logic.Function.Basic
import Mathlib.Data.List.Nodup

namespace SysProg

/-! # Linked segments of a heap

Pointers are optional addresses, with `none` for `NULL`, and a heap maps the
addresses that are allocated to the objects there.
-/

abbrev Ptr := Option Nat

abbrev Heap (ν : Type) := Nat → Option ν

namespace Heap

variable {ν : Type}

def write (heap : Heap ν) (address : Nat) (node : ν) : Heap ν := Function.update heap address (some node)

def free (heap : Heap ν) (address : Nat) : Heap ν := Function.update heap address none

@[simp] theorem write_same (heap : Heap ν) (address : Nat) (node : ν) :
    heap.write address node address = some node := by
  simp [write]

theorem write_other (heap : Heap ν) {address other : Nat} (node : ν) (different : other ≠ address) :
    heap.write address node other = heap other := by
  simp [write, different]

@[simp] theorem free_same (heap : Heap ν) (address : Nat) : heap.free address address = none := by
  simp [free]

theorem free_other (heap : Heap ν) {address other : Nat} (different : other ≠ address) :
    heap.free address other = heap other := by
  simp [free, different]

/-- Follows `link` from a pointer and frees each object on the way: the
addresses freed, in order, and the heap that is left. -/
def freeChain (link : ν → Ptr) : Nat → Heap ν → Ptr → Except Trap (List Nat × Heap ν)
  | _, heap, none => .ok ([], heap)
  | 0, _, some _ => .error .diverged
  | fuel + 1, heap, some address =>
      match heap address with
      | none => .error .freed
      | some node => do
          let (freed, rest) ← freeChain link fuel (heap.free address) (link node)
          return (address :: freed, rest)

end Heap

/-- Following `link` from a pointer visits exactly the given addresses, all
allocated, and then arrives at `final`. -/
def Segment {ν : Type} (link : ν → Ptr) (heap : Heap ν) : Ptr → List Nat → Ptr → Prop
  | ptr, [], final => ptr = final
  | ptr, address :: rest, final =>
      ptr = some address ∧ ∃ node, heap address = some node ∧ Segment link heap (link node) rest final

namespace Segment

variable {ν : Type} {link : ν → Ptr} {heap other : Heap ν}

theorem frame {ptr final : Ptr} {visited : List Nat} (segment : Segment link heap ptr visited final)
    (same : ∀ address ∈ visited, other address = heap address) :
    Segment link other ptr visited final := by
  induction visited generalizing ptr with
  | nil => exact segment
  | cons address rest ih =>
      obtain ⟨start, node, found, tail⟩ := segment
      exact ⟨start, node, (same address (by simp)).trans found,
        ih tail (fun later member => same later (by simp [member]))⟩

theorem split {ptr final : Ptr} {front back : List Nat}
    (segment : Segment link heap ptr (front ++ back) final) :
    ∃ middle, Segment link heap ptr front middle ∧ Segment link heap middle back final := by
  induction front generalizing ptr with
  | nil => exact ⟨ptr, rfl, segment⟩
  | cons address rest ih =>
      obtain ⟨start, node, found, tail⟩ := segment
      obtain ⟨middle, first, second⟩ := ih tail
      exact ⟨middle, ⟨start, node, found, first⟩, second⟩

theorem dropLast {ptr final : Ptr} {front : List Nat} {last : Nat}
    (segment : Segment link heap ptr (front ++ [last]) final) :
    Segment link heap ptr front (some last) := by
  obtain ⟨middle, first, arrived, -⟩ := segment.split
  exact arrived ▸ first

/-- A chain whose first object links to nothing has no other object. -/
theorem singleton {address : Nat} {node : ν} {visited : List Nat}
    (segment : Segment link heap (some address) visited none) (found : heap address = some node)
    (ended : link node = none) : visited = [address] := by
  cases visited with
  | nil => contradiction
  | cons first rest =>
      obtain ⟨start, object, lookup, tail⟩ := segment
      cases start
      rw [found] at lookup
      cases lookup
      rw [ended] at tail
      cases rest with
      | nil => rfl
      | cons second others => cases tail.1

theorem freeChain {ptr : Ptr} {visited : List Nat} {fuel : Nat} (segment : Segment link heap ptr visited none)
    (nodup : visited.Nodup) (enough : visited.length ≤ fuel) :
    ∃ left, heap.freeChain link fuel ptr = .ok (visited, left) ∧
      ∀ address, left address = if address ∈ visited then none else heap address := by
  induction visited generalizing heap ptr fuel with
  | nil =>
      cases segment
      exact ⟨heap, by cases fuel <;> rfl, by simp⟩
  | cons address rest ih =>
      obtain ⟨rfl, node, found, tail⟩ := segment
      obtain ⟨absent, distinct⟩ := List.nodup_cons.mp nodup
      obtain ⟨fuel, rfl⟩ : ∃ less, fuel = less + 1 := ⟨fuel - 1, by simp at enough; omega⟩
      have kept : Segment link (heap.free address) (link node) rest none := by
        apply tail.frame
        intro later member
        exact Heap.free_other heap (fun same => absent (same ▸ member))
      obtain ⟨left, freed, contents⟩ := ih kept distinct (by simpa using enough)
      refine ⟨left, by simp [Heap.freeChain, found, freed], ?_⟩
      intro other
      rw [contents]
      by_cases same : other = address
      · simp [same]
      · simp [same, Heap.free_other heap same]

end Segment

end SysProg
