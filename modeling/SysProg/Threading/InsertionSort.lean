import SysProg.Library.ForkJoin
import Mathlib.Order.Lattice
import Mathlib.Data.List.Infix

namespace SysProg.Threading.InsertionSort

/-! # `insertion_sort`

The same function in `05-threading/class/insertion_sort.c` and in
`05-threading/class/merge_sort.c`. A `size_t` is a natural number, since it
indexes or counts elements in memory.
-/

open Prog

variable {α : Type} [LinearOrder α]

/-- `for(size_t j=i; j>a; --j) ...`, followed by `next`. The loop is at
`j = a + left`. -/
def shift (a : Nat) (tmp : α) (next : Prog α) : Nat → Prog α
  | 0 => next
  | left + 1 =>
      .read (a + left) fun x =>
        if x > tmp then .read (a + left) fun x => .write (a + left + 1) x (shift a tmp next left)
        else .write (a + left + 1) tmp next

/-- `if(arr[a] > tmp) arr[a] = tmp;`, followed by `next`. -/
def settle (a : Nat) (tmp : α) (next : Prog α) : Prog α :=
  .read a fun x => if x > tmp then .write a tmp next else next

/-- The outer loop, with `rest` iterations left. -/
def insertFrom (a : Nat) : Nat → Nat → Prog α
  | 0, _ => .done
  | rest + 1, i => .read i fun tmp => shift a tmp (settle a tmp (insertFrom a rest (i + 1))) (i - a)

def insertionSort (a b : Nat) : Prog α := insertFrom a (b - (a + 1)) (a + 1)

/-! ## One insertion -/

variable {tmp x y : α} {next : Prog α}

omit [LinearOrder α] in
theorem exec_read_at (front : List α) (value : α) (post : List α) (next : α → Prog α) :
    (Prog.read front.length next).exec (front ++ value :: post) = (next value).exec (front ++ value :: post) := by
  simp [exec]

omit [LinearOrder α] in
theorem exec_write_at (front : List α) (old value : α) (post : List α) (next : Prog α) :
    (Prog.write front.length value next).exec (front ++ old :: post) = next.exec (front ++ value :: post) := by
  simp [exec]

/-- An element larger than `tmp` moves into the hole on its right; behind one that
is not, `tmp` goes into the hole. -/
theorem shift_last (front low : List α) (hole : α) (post : List α) :
    (shift front.length tmp next (low ++ [x]).length).exec (front ++ (low ++ [x]) ++ hole :: post) =
      if x > tmp then (shift front.length tmp next low.length).exec (front ++ low ++ x :: x :: post)
      else next.exec (front ++ (low ++ [x]) ++ tmp :: post) := by
  have here : front ++ (low ++ [x]) ++ hole :: post = (front ++ low) ++ x :: hole :: post := by simp
  have behind : (front ++ low) ++ x :: hole :: post = (front ++ low ++ [x]) ++ hole :: post := by simp
  have length : front.length + low.length = (front ++ low).length := List.length_append.symm
  have next : (front ++ low).length + 1 = (front ++ low ++ [x]).length := by simp only [List.length_append]; rfl
  rw [List.length_append, List.length_singleton, shift, here, length, exec_read_at]
  split
  · rw [exec_read_at, next, behind, exec_write_at]
    simp
  · rw [next, behind, exec_write_at]
    simp

theorem shift_all_larger (front low moved : List α) (hole : α) (post : List α) (larger : ∀ x ∈ moved, tmp < x) :
    (shift front.length tmp next (low ++ moved).length).exec (front ++ (low ++ moved) ++ hole :: post) =
      (shift front.length tmp next low.length).exec (front ++ low ++ moved.head?.getD hole :: (moved ++ post)) := by
  induction moved using List.reverseRecOn generalizing hole post with
  | nil => simp
  | append_singleton moved x ih =>
      have last : tmp < x := larger x (by simp)
      have rest := ih x (x :: post) (fun y member => larger y (by simp [member]))
      rw [← List.append_assoc, shift_last, if_pos last, rest]
      cases moved <;> simp

/-- Exactly one of the two stores of `tmp` is made, and behind the elements that
are not larger. -/
theorem insert_exec (front kept moved post : List α) (notLarger : ∀ x ∈ kept, x ≤ tmp)
    (larger : ∀ x ∈ moved, tmp < x) (some : kept ++ moved ≠ []) :
    (shift front.length tmp (settle front.length tmp next) (kept ++ moved).length).exec
        (front ++ (kept ++ moved) ++ tmp :: post) =
      next.exec (front ++ (kept ++ tmp :: moved) ++ post) := by
  rw [shift_all_larger front kept moved tmp post larger]
  rcases List.eq_nil_or_concat kept with rfl | ⟨low, y, rfl⟩
  · obtain ⟨first, rest, rfl⟩ := List.exists_cons_of_ne_nil some
    have least : tmp < first := larger first (by simp)
    simp only [List.length_nil, shift, settle, List.head?_cons, Option.getD_some, List.append_nil, List.nil_append]
    rw [exec_read_at]
    simp only [gt_iff_lt, least, if_true]
    rw [exec_write_at]
    simp
  · rw [List.concat_eq_append] at notLarger ⊢
    have last : y ≤ tmp := notLarger y (by simp)
    rw [shift_last, if_neg (not_lt.mpr last), settle]
    obtain ⟨first, rest, split⟩ := List.exists_cons_of_ne_nil (show low ++ [y] ≠ [] by simp)
    have least : first ≤ tmp := notLarger first (by simp [split])
    have here : front ++ (low ++ [y]) ++ tmp :: (moved ++ post) = front ++ first :: (rest ++ tmp :: (moved ++ post)) := by
      simp [split]
    rw [here, exec_read_at]
    simp only [gt_iff_lt, not_lt.mpr least, if_false]
    rw [← here]
    simp

/-- The elements of an ascending list that are not larger than a value come first. -/
theorem exists_kept (tmp : α) {values : List α} (ascending : values.Pairwise (· ≤ ·)) :
    ∃ kept moved, values = kept ++ moved ∧ (∀ x ∈ kept, x ≤ tmp) ∧ ∀ x ∈ moved, tmp < x := by
  induction values with
  | nil => exact ⟨[], [], rfl, by simp, by simp⟩
  | cons x values ih =>
      obtain ⟨before, later⟩ := List.pairwise_cons.mp ascending
      by_cases larger : tmp < x
      · refine ⟨[], x :: values, rfl, by simp, List.forall_mem_cons.mpr ⟨larger, ?_⟩⟩
        exact fun y member => lt_of_lt_of_le larger (before y member)
      · obtain ⟨kept, moved, rfl, notLarger, others⟩ := ih later
        exact ⟨x :: kept, moved, rfl, List.forall_mem_cons.mpr ⟨not_lt.mp larger, notLarger⟩, others⟩

theorem ascending_insert {kept moved : List α} (ascending : (kept ++ moved).Pairwise (· ≤ ·))
    (notLarger : ∀ x ∈ kept, x ≤ tmp) (larger : ∀ x ∈ moved, tmp < x) :
    (kept ++ tmp :: moved).Pairwise (· ≤ ·) := by
  obtain ⟨low, high, across⟩ := List.pairwise_append.mp ascending
  refine List.pairwise_append.mpr ⟨low, List.pairwise_cons.mpr ⟨fun x member => (larger x member).le, high⟩, ?_⟩
  intro x left
  exact List.forall_mem_cons.mpr ⟨notLarger x left, across x left⟩

/-! ## The whole range -/

theorem insertFrom_exec (front sorted rest post : List α) (some : sorted ≠ []) (ascending : sorted.Pairwise (· ≤ ·)) :
    ∃ result, (insertFrom front.length rest.length (front ++ sorted).length).exec (front ++ sorted ++ rest ++ post) =
        .ok (front ++ result ++ post) ∧ result.Pairwise (· ≤ ·) ∧ result.Perm (sorted ++ rest) := by
  induction rest generalizing sorted with
  | nil => exact ⟨sorted, by simp [insertFrom, exec], ascending, by simp⟩
  | cons tmp rest ih =>
      obtain ⟨kept, moved, rfl, notLarger, larger⟩ := exists_kept tmp ascending
      obtain ⟨result, ran, sorted, perm⟩ := ih (kept ++ tmp :: moved) (by simp)
        (ascending_insert ascending notLarger larger)
      refine ⟨result, ?_, sorted, perm.trans ?_⟩
      · have here : front ++ (kept ++ moved) ++ tmp :: rest ++ post = front ++ (kept ++ moved) ++ tmp :: (rest ++ post) := by
          simp
        have distance : (front ++ (kept ++ moved)).length - front.length = (kept ++ moved).length := by simp
        have advanced : (front ++ (kept ++ moved)).length + 1 = (front ++ (kept ++ tmp :: moved)).length := by
          simp only [List.length_append, List.length_cons]
          omega
        rw [List.length_cons, insertFrom, here, exec_read_at, distance,
          insert_exec front kept moved (rest ++ post) notLarger larger some, advanced]
        rw [List.append_assoc _ rest] at ran
        exact ran
      · have moves : (kept ++ tmp :: moved).Perm (kept ++ moved ++ [tmp]) := by
          rw [List.append_assoc]
          exact (List.perm_append_singleton tmp moved).symm.append_left kept
        have joined : kept ++ moved ++ [tmp] ++ rest = kept ++ moved ++ tmp :: rest := by simp
        exact joined ▸ moves.append_right rest

/-- The elements from `a` to before `b`. -/
def range (A : List α) (a b : Nat) : List α := (A.drop a).take (b - a)

omit [LinearOrder α] in
theorem range_split {a b : Nat} (A : List α) (ordered : a ≤ b) : A = A.take a ++ range A a b ++ A.drop b := by
  have split := List.take_append_drop (b - a) (A.drop a)
  rw [List.drop_drop, Nat.add_sub_cancel' ordered] at split
  rw [range, List.append_assoc, split, List.take_append_drop]

omit [LinearOrder α] in
theorem length_range {a b : Nat} (A : List α) (inside : b ≤ A.length) : (range A a b).length = b - a := by
  rw [range, List.length_take, List.length_drop]
  omega

theorem insertionSort_exec (A : List α) {a b : Nat} (ordered : a ≤ b) (inside : b ≤ A.length) :
    ∃ result, (insertionSort a b).exec A = .ok (A.take a ++ result ++ A.drop b) ∧
      result.Pairwise (· ≤ ·) ∧ result.Perm (range A a b) := by
  have begins : (A.take a).length = a := by simp; omega
  have length := length_range A (a := a) inside
  cases values : range A a b with
  | nil =>
      rw [values, List.length_nil] at length
      have done : b - (a + 1) = 0 := by omega
      refine ⟨[], ?_, List.Pairwise.nil, .refl _⟩
      rw [← values, ← range_split A ordered, insertionSort, done]
      rfl
  | cons first rest =>
      rw [values, List.length_cons] at length
      obtain ⟨result, ran, ascending, perm⟩ := insertFrom_exec (A.take a) [first] rest (A.drop b) (by simp)
        (List.pairwise_singleton _ _)
      refine ⟨result, ?_, ascending, perm⟩
      have count : rest.length = b - (a + 1) := by omega
      have position : (A.take a ++ [first]).length = a + 1 := by
        rw [List.length_append, begins, List.length_singleton]
      have whole : A.take a ++ [first] ++ rest ++ A.drop b = A := by
        have split := range_split A ordered
        rw [values] at split
        simpa using split.symm
      rw [count, position, begins, whole] at ran
      exact ran

/-- `insertion_sort` sorts the elements from `a` to before `b` and leaves the others alone. -/
theorem insertionSort_sorts (A : List α) (a b : Nat) (ordered : a ≤ b) (inside : b ≤ A.length) :
    ∃ B, (insertionSort a b).exec A = .ok B ∧ B.length = A.length ∧ (range B a b).Pairwise (· ≤ ·) ∧
      (range B a b).Perm (range A a b) ∧ ∀ index, index < a ∨ b ≤ index → B[index]? = A[index]? := by
  obtain ⟨result, ran, ascending, perm⟩ := insertionSort_exec A ordered inside
  have begins : (A.take a).length = a := by simp; omega
  have length : result.length = b - a := perm.length_eq.trans (length_range A inside)
  have same : range (A.take a ++ result ++ A.drop b) a b = result := by
    rw [range, List.append_assoc, List.drop_left' begins, List.take_left' length]
  refine ⟨_, ran, ?_, by rwa [same], by rwa [same], ?_⟩
  · simp only [List.length_append, List.length_take, List.length_drop, length]
    omega
  · intro index outside
    rcases outside with before | behind
    · rw [List.append_assoc, List.getElem?_append_left (by omega), List.getElem?_take_of_lt before]
    · rw [List.getElem?_append_right (by simp; omega), List.getElem?_drop]
      congr 1
      simp only [List.length_append, begins, length]
      omega

theorem insertionSort_sorts_ties :
    ∃ B, (insertionSort 1 5).exec [9, 3, 1, 3, 1, 0] = .ok B ∧ (range B 1 5).Pairwise (· ≤ ·) ∧
      (range B 1 5).Perm [3, 1, 3, 1] := by
  obtain ⟨B, ran, -, ascending, perm, -⟩ := insertionSort_sorts [9, 3, 1, 3, 1, 0] 1 5 (by decide) (by decide)
  exact ⟨B, ran, ascending, perm⟩

/-- The call in `main` leaves the last element out. -/
example : (insertionSort 0 2).exec [10, 5, 23] = .ok [5, 10, 23] := rfl

end SysProg.Threading.InsertionSort
