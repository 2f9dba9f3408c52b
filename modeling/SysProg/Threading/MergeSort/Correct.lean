import SysProg.Threading.MergeSort.Footprint

namespace SysProg.Threading.MergeSort

open Prog

variable {α : Type}

/-- `tmp` with the elements stored so far. -/
def tmpHolding (size : Nat) (out : List α) : Block α :=
  out.map some ++ List.replicate (size - out.length) none

theorem tmpHolding_load {size : Nat} {out : List α} {index : Nat} {value : α} (found : out[index]? = some value) :
    (tmpHolding size out).load index = .ok value := by
  have bound : index < out.length := (List.getElem?_eq_some_iff.mp found).1
  rw [Block.load_eq_ok, tmpHolding, List.getElem?_append_left (by simpa using bound)]
  simp [found]

theorem storeThen_holding {size : Nat} {out : List α} (room : out.length < size) (value : α)
    (next : Block α → Prog α) :
    storeThen (tmpHolding size out) out.length value next = next (tmpHolding size (out ++ [value])) := by
  obtain ⟨spare, rfl⟩ : ∃ spare, size = out.length + (spare + 1) := ⟨size - out.length - 1, by omega⟩
  have bound : out.length < (tmpHolding (out.length + (spare + 1)) out).length := by
    simp [tmpHolding]
  have stored : (tmpHolding (out.length + (spare + 1)) out).set out.length (some value) =
      tmpHolding (out.length + (spare + 1)) (out ++ [value]) := by
    simp [tmpHolding, List.replicate_succ]
    omega
  simp only [storeThen, Block.store_eq_ok _ _ _ bound, stored]

theorem prefix_drop {memory rest : List α} {index : Nat} {value : α} (held : value :: rest <+: memory.drop index) :
    memory[index]? = some value ∧ rest <+: memory.drop (index + 1) := by
  obtain ⟨tail, joined⟩ := held
  constructor
  · rw [← Nat.add_zero index, ← List.getElem?_drop, ← joined]
    rfl
  · refine ⟨tail, ?_⟩
    rw [← List.drop_drop, ← joined]
    rfl

variable {memory : List α} {size : Nat}

/-- What is still to be taken from a half: the elements from `index` to `last`. -/
structure Remaining (memory : List α) (index last : Nat) (values : List α) : Prop where
  held : values <+: memory.drop index
  count : index + values.length = last + 1

theorem Remaining.tail {index last : Nat} {value : α} {values : List α}
    (remaining : Remaining memory index last (value :: values)) : Remaining memory (index + 1) last values where
  held := (prefix_drop remaining.held).2
  count := by
    have := remaining.count
    simp only [List.length_cons] at this
    omega

theorem Remaining.inside {index last : Nat} {value : α} {values : List α}
    (remaining : Remaining memory index last (value :: values)) : index ≤ last := by
  have := remaining.count
  simp only [List.length_cons] at this
  omega

theorem Remaining.finished {index last : Nat} (remaining : Remaining memory index last []) : ¬ index ≤ last := by
  have := remaining.count
  simp only [List.length_nil] at this
  omega

/-- The `int` behind the last element of a full `tmp` is not used as an index. -/
theorem takeRest_performs {last index : Nat} {next : Int → Block α → Prog α} (values out : List α) (fuel : Nat)
    (remaining : Remaining memory index last values) (room : out.length + values.length ≤ size)
    (fits : size ≤ 2 ^ 31) (enough : values.length < fuel) :
    Performs (takeRest last next fuel index (wrapInt out.length) (tmpHolding size out)) memory []
      (next (wrapInt (out ++ values).length) (tmpHolding size (out ++ values))) memory := by
  induction values generalizing index fuel out with
  | nil =>
      obtain ⟨fuel, rfl⟩ : ∃ less, fuel = less + 1 := ⟨fuel - 1, by simp at enough; omega⟩
      simp only [takeRest, remaining.finished, if_false, List.append_nil]
      exact .refl
  | cons value values ih =>
      obtain ⟨fuel, rfl⟩ : ∃ less, fuel = less + 1 := ⟨fuel - 1, by simp at enough; omega⟩
      simp only [List.length_cons] at room enough
      have rest := ih (out ++ [value]) fuel remaining.tail (by simp; omega) (by omega)
      simp only [takeRest, remaining.inside, if_true]
      refine .read (prefix_drop remaining.held).1 ?_
      rw [wrapInt_natCast (show out.length < 2 ^ 31 by omega), storeThen_holding (by omega)]
      simpa using rest

variable [LinearOrder α]

/-- The order in which `merge` takes elements: on a tie, from the second half. -/
def merged (left right : List α) : List α := List.merge right left (fun y x => decide (y ≤ x))

theorem merged_cons_left {x y : α} {left right : List α} (less : x < y) :
    merged (x :: left) (y :: right) = x :: merged left (y :: right) := by
  simp [merged, less]

theorem merged_cons_right {x y : α} {left right : List α} (notLess : ¬ x < y) :
    merged (x :: left) (y :: right) = y :: merged (x :: left) right := by
  simp [merged, not_lt.mp notLess]

/-- The first loop stops with one half used up, and what it has stored goes
before the merge of what is left. -/
theorem takeBoth_performs {aIndex bIndex aEnd bEnd : Nat} (left right out : List α) (fuel : Nat)
    (leftRemaining : Remaining memory aIndex aEnd left) (rightRemaining : Remaining memory bIndex bEnd right)
    (room : out.length + left.length + right.length ≤ size) (fits : size ≤ 2 ^ 31)
    (enough : left.length + right.length < fuel) :
    ∃ leftOver rightOver stored a b, (leftOver = [] ∨ rightOver = []) ∧
      stored ++ merged leftOver rightOver = out ++ merged left right ∧
      Remaining memory a aEnd leftOver ∧ Remaining memory b bEnd rightOver ∧
      ∀ next : Nat → Nat → Int → Block α → Prog α,
        Performs (takeBoth aEnd bEnd next fuel aIndex bIndex (wrapInt out.length) (tmpHolding size out)) memory []
          (next a b (wrapInt stored.length) (tmpHolding size stored)) memory := by
  induction fuel generalizing left right out aIndex bIndex with
  | zero => omega
  | succ fuel ih =>
      cases left with
      | nil =>
          have ended : ¬ (aIndex ≤ aEnd ∧ bIndex ≤ bEnd) := fun both => leftRemaining.finished both.1
          refine ⟨[], right, out, aIndex, bIndex, .inl rfl, rfl, leftRemaining, rightRemaining, fun next => ?_⟩
          simp only [takeBoth, ended, if_false]
          exact .refl
      | cons x left =>
          cases right with
          | nil =>
              have ended : ¬ (aIndex ≤ aEnd ∧ bIndex ≤ bEnd) := fun both => rightRemaining.finished both.2
              refine ⟨x :: left, [], out, aIndex, bIndex, .inr rfl, rfl, leftRemaining, rightRemaining, fun next => ?_⟩
              simp only [takeBoth, ended, if_false]
              exact .refl
          | cons y right =>
              have both : aIndex ≤ aEnd ∧ bIndex ≤ bEnd := ⟨leftRemaining.inside, rightRemaining.inside⟩
              have readLeft := (prefix_drop leftRemaining.held).1
              have readRight := (prefix_drop rightRemaining.held).1
              simp only [List.length_cons] at room enough
              have index := wrapInt_natCast (show out.length < 2 ^ 31 by omega)
              by_cases less : x < y
              · obtain ⟨leftOver, rightOver, stored, a, b, empty, joined, restLeft, restRight, ran⟩ :=
                  ih left (y :: right) (out ++ [x]) leftRemaining.tail rightRemaining
                    (by simp; omega) (by simp; omega)
                refine ⟨leftOver, rightOver, stored, a, b, empty, ?_, restLeft, restRight, ?_⟩
                · rw [joined, merged_cons_left less, List.append_assoc, List.singleton_append]
                · intro next
                  have rest := ran next
                  simp only [takeBoth, both, and_self, if_true]
                  refine .read readLeft (.read readRight ?_)
                  rw [if_pos less]
                  refine .read readLeft ?_
                  rw [index, storeThen_holding (by omega)]
                  simpa using rest
              · obtain ⟨leftOver, rightOver, stored, a, b, empty, joined, restLeft, restRight, ran⟩ :=
                  ih (x :: left) right (out ++ [y]) leftRemaining rightRemaining.tail
                    (by simp; omega) (by simp; omega)
                refine ⟨leftOver, rightOver, stored, a, b, empty, ?_, restLeft, restRight, ?_⟩
                · rw [joined, merged_cons_right less, List.append_assoc, List.singleton_append]
                · intro next
                  have rest := ran next
                  simp only [takeBoth, both, and_self, if_true]
                  refine .read readLeft (.read readRight ?_)
                  rw [if_neg less]
                  refine .read readRight ?_
                  rw [index, storeThen_holding (by omega)]
                  simpa using rest

/-- An `int` that has wrapped is greater than every position as a `size_t`. -/
theorem toSize_wrapInt {n stop : Nat} (fits : stop < 2 ^ 31) (behind : n = stop + 1) : stop < toSize (wrapInt n) := by
  unfold toSize wrapInt
  omega

omit [LinearOrder α] in
theorem writeBack_performs {start stop : Nat} {next : Prog α} (stored values front old post : List α) (fuel : Nat)
    (replaced : old.length = values.length) (position : start + stored.length = front.length)
    (ending : front.length + values.length = stop + 1) (fits : stop < 2 ^ 31)
    (enough : values.length < fuel) :
    Performs (writeBack start stop (tmpHolding size (stored ++ values)) next fuel (wrapInt front.length))
      (front ++ old ++ post) (List.range' front.length values.length) next (front ++ values ++ post) := by
  induction values generalizing stored front old fuel with
  | nil =>
      obtain ⟨fuel, rfl⟩ : ∃ less, fuel = less + 1 := ⟨fuel - 1, by simp at enough; omega⟩
      simp only [List.length_nil, Nat.add_zero] at ending replaced
      have finished := Nat.not_le.mpr (toSize_wrapInt fits ending)
      have none : old = [] := List.eq_nil_of_length_eq_zero replaced
      simp only [writeBack, finished, if_false, none]
      exact .refl
  | cons value values ih =>
      obtain ⟨fuel, rfl⟩ : ∃ less, fuel = less + 1 := ⟨fuel - 1, by simp at enough; omega⟩
      obtain ⟨replacedValue, older, rfl⟩ : ∃ first rest, old = first :: rest := by
        cases old with
        | nil => simp at replaced
        | cons first rest => exact ⟨first, rest, rfl⟩
      simp only [List.length_cons] at ending replaced enough
      have inside : front.length ≤ stop := by omega
      have index : (front.length + 2 ^ 64 - start) % 2 ^ 64 = stored.length := by omega
      have loaded : (tmpHolding size (stored ++ value :: values)).load stored.length = .ok value :=
        tmpHolding_load (by simp)
      have rest := ih (stored ++ [value]) (front ++ [value]) older fuel (by omega) (by simp; omega)
        (by simp; omega) (by omega)
      have bound : front.length < (front ++ (replacedValue :: older) ++ post).length := by simp
      simp only [writeBack, wrapInt_natCast (show front.length < 2 ^ 31 by omega),
        toSize_natCast (show front.length < 2 ^ 64 by omega), inside, if_true, index, loaded,
        Int.natCast_nonneg, Int.toNat_natCast, List.length_cons, List.range'_succ]
      refine .write bound ?_
      simpa using rest

theorem merged_perm (left right : List α) : (merged left right).Perm (left ++ right) :=
  (List.merge_perm_append (fun y x => decide (y ≤ x))).trans List.perm_append_comm

theorem merged_sorted {left right : List α} (leftSorted : left.Pairwise (· ≤ ·))
    (rightSorted : right.Pairwise (· ≤ ·)) : (merged left right).Pairwise (· ≤ ·) := by
  have transitive : ∀ a b c : α, decide (a ≤ b) = true → decide (b ≤ c) = true → decide (a ≤ c) = true := by
    intro a b c first second
    simp only [decide_eq_true_eq] at first second ⊢
    exact first.trans second
  have total : ∀ a b : α, (decide (a ≤ b) || decide (b ≤ a)) = true := by
    intro a b
    simpa using le_total a b
  have sorted := List.pairwise_merge transitive total right left
    (by simpa using rightSorted) (by simpa using leftSorted)
  simpa [merged] using sorted

theorem merged_of_empty {left right : List α} (empty : left = [] ∨ right = []) :
    merged left right = left ++ right := by
  rcases empty with rfl | rfl <;> simp [merged]

omit [LinearOrder α] in
theorem remaining_of_split {front values post : List α} {last : Nat}
    (ending : front.length + values.length = last + 1) :
    Remaining (front ++ values ++ post) front.length last values :=
  ⟨⟨post, by simp⟩, ending⟩

theorem merge_performs {stop : Nat} (next : Prog α) (front left right post : List α)
    (nonempty : front.length < stop) (fits : stop < 2 ^ 31)
    (half : front.length + left.length = (front.length + stop) / 2 + 1)
    (whole : front.length + left.length + right.length = stop + 1) :
    Performs (merge front.length stop next) (front ++ (left ++ right) ++ post)
      (List.range' front.length (left.length + right.length)) next (front ++ merged left right ++ post) := by
  have mid := mergeMid_eq (show front.length + stop < 2 ^ 64 by omega)
  have notEmpty : ¬ front.length ≥ stop := by omega
  have size : stop - front.length + 1 = left.length + right.length := by omega
  have length : (merged left right).length = left.length + right.length := by
    rw [(merged_perm left right).length_eq, List.length_append]
  have leftStart : Remaining (front ++ (left ++ right) ++ post) front.length ((front.length + stop) / 2) left := by
    have split : front ++ (left ++ right) ++ post = front ++ left ++ (right ++ post) := by simp
    rw [split]
    exact remaining_of_split half
  have rightStart : Remaining (front ++ (left ++ right) ++ post) ((front.length + stop) / 2 + 1) stop right := by
    have split : front ++ (left ++ right) ++ post = front ++ left ++ right ++ post := by simp
    rw [split, ← half, ← List.length_append]
    exact remaining_of_split (by simp; omega)
  have fresh : (Block.malloc (left.length + right.length) : Block α) =
      tmpHolding (left.length + right.length) [] := by simp [tmpHolding, Block.malloc]
  obtain ⟨leftOver, rightOver, stored, a, b, empty, joined, restLeft, restRight, taken⟩ :=
    takeBoth_performs left right [] (left.length + right.length + 1) leftStart rightStart
      (show [].length + left.length + right.length ≤ left.length + right.length by simp)
      (by omega) (Nat.lt_succ_self _)
  have zero : wrapInt ((0 : Nat) : Int) = 0 := by decide
  simp only [List.length_nil, zero] at taken
  rw [merged_of_empty empty, List.nil_append, ← List.append_assoc] at joined
  have total := congrArg List.length joined
  simp only [List.length_append, length] at total
  simp only [merge, notEmpty, if_false, mid, size, fresh]
  refine (taken _).trans ((takeRest_performs leftOver stored _ restLeft (by omega) (by omega) (by omega)).trans
    ((takeRest_performs rightOver (stored ++ leftOver) _ restRight (by simp; omega) (by omega) (by omega)).trans ?_))
  rw [joined, ← length]
  exact writeBack_performs [] (merged left right) front (left ++ right) post _
    (by rw [length, List.length_append]) (by simp) (by omega) fits (by omega)

theorem mergeSort_exec {stop : Nat} (fuel : Nat) (front values post : List α)
    (ending : front.length + values.length = stop + 1) (nonempty : values ≠ [])
    (fits : stop < 2 ^ 31 - 1) (enough : stop - front.length < fuel) :
    ∃ sorted, (mergeSort fuel front.length stop).exec (front ++ values ++ post) = .ok (front ++ sorted ++ post) ∧
      sorted.Pairwise (· ≤ ·) ∧ sorted.Perm values := by
  induction fuel generalizing front values post stop with
  | zero => omega
  | succ fuel ih =>
      have positive := List.length_pos_iff.mpr nonempty
      simp only [mergeSort]
      split
      · have single : values.length = 1 := by omega
        obtain ⟨value, rfl⟩ := List.length_eq_one_iff.mp single
        exact ⟨[value], rfl, List.pairwise_singleton _ _, .refl _⟩
      · have mid := sortMid_eq (show front.length ≤ stop by omega) (show stop < 2 ^ 52 by omega)
        rw [mid, ofDouble_toDouble (show stop < 2 ^ 52 by omega),
          ofDouble_toDouble (show front.length < 2 ^ 52 by omega)]
        obtain ⟨left, right, rfl, leftLength⟩ : ∃ left right, values = left ++ right ∧
            front.length + left.length = (front.length + stop) / 2 + 1 :=
          ⟨values.take ((front.length + stop) / 2 + 1 - front.length),
            values.drop ((front.length + stop) / 2 + 1 - front.length), by simp, by simp; omega⟩
        simp only [List.length_append] at ending
        obtain ⟨sortedLeft, ranLeft, leftSorted, leftPerm⟩ := ih front left (right ++ post) leftLength
          (List.length_pos_iff.mp (by omega)) (by omega) (by omega)
        obtain ⟨sortedRight, ranRight, rightSorted, rightPerm⟩ := ih (front ++ sortedLeft) right post
          (by simp [leftPerm.length_eq]; omega) (List.length_pos_iff.mp (by omega)) fits
          (by simp [leftPerm.length_eq]; omega)
        have lengths := leftPerm.length_eq
        have merging := (merge_performs .done front sortedLeft sortedRight post (by omega)
          (Nat.lt_trans fits (by decide)) (by omega) (by have := rightPerm.length_eq; omega)).exec_eq
        refine ⟨merged sortedLeft sortedRight, ?_, merged_sorted leftSorted rightSorted,
          (merged_perm _ _).trans (leftPerm.append rightPerm)⟩
        simp only [List.append_assoc, List.length_append, lengths, leftLength] at ranLeft ranRight merging ⊢
        simp only [exec, ranLeft, ok_bind, ranRight, merging]

/-- The elements `A[start..end]`. -/
def slice (memory : List α) (start stop : Nat) : List α := (memory.drop start).take (stop + 1 - start)

omit [LinearOrder α] in
theorem slice_split {start stop : Nat} (A : List α) (ordered : start ≤ stop) :
    A = A.take start ++ slice A start stop ++ A.drop (stop + 1) := by
  have split := List.take_append_drop (stop + 1 - start) (A.drop start)
  rw [List.drop_drop, show start + (stop + 1 - start) = stop + 1 by omega] at split
  rw [slice, List.append_assoc, split, List.take_append_drop]

omit [LinearOrder α] in
theorem slice_of_split {start stop : Nat} {front values post : List α} (begins : front.length = start)
    (ends : start + values.length = stop + 1) : slice (front ++ values ++ post) start stop = values := by
  subst begins
  rw [slice, List.append_assoc, List.drop_left, List.take_left' (by omega)]

omit [LinearOrder α] in
theorem getElem?_outside {start stop index : Nat} {front values others post : List α}
    (begins : front.length = start) (ends : start + values.length = stop + 1)
    (same : others.length = values.length) (outside : index < start ∨ stop < index) :
    (front ++ others ++ post)[index]? = (front ++ values ++ post)[index]? := by
  rcases outside with before | after
  · rw [List.append_assoc, List.append_assoc, List.getElem?_append_left (by omega),
      List.getElem?_append_left (by omega)]
  · rw [List.getElem?_append_right (by simp; omega), List.getElem?_append_right (by simp; omega)]
    simp [same]

theorem mergeMid_eq_sortMid {start stop : Nat} (ordered : start ≤ stop) (fits : stop < 2 ^ 31 - 1) :
    mergeMid start stop = sortMid start stop := by
  rw [mergeMid_eq (by omega), sortMid_eq ordered (by omega)]

theorem mergeSort_exec_slice {start stop fuel : Nat} {A : List α} (ordered : start ≤ stop) (inside : stop < A.length)
    (fits : stop < 2 ^ 31 - 1) (enough : stop - start < fuel) :
    ∃ sorted, (mergeSort fuel start stop).exec A = .ok (A.take start ++ sorted ++ A.drop (stop + 1)) ∧
      sorted.Pairwise (· ≤ ·) ∧ sorted.Perm (slice A start stop) := by
  have begins : (A.take start).length = start := by simp; omega
  have ends : start + (slice A start stop).length = stop + 1 := by simp [slice]; omega
  obtain ⟨sorted, ran, ascending, perm⟩ := mergeSort_exec fuel (A.take start) (slice A start stop)
    (A.drop (stop + 1)) (by rw [begins, ends]) (List.length_pos_iff.mp (by omega)) fits (by rw [begins]; exact enough)
  rw [begins, ← slice_split A ordered] at ran
  exact ⟨sorted, ran, ascending, perm⟩

/-- Every interleaving of `merge_sort` and the threads it starts is finite,
can be continued until all have ended, and then leaves the same sorted range. -/
theorem mergeSort_sorts (start stop fuel : Nat) (A : List α) (ordered : start ≤ stop)
    (inside : stop < A.length) (fits : stop < 2 ^ 31 - 1) (enough : stop - start < fuel) :
    (∃ B : List α,
      (∀ prog memory, Reaches (mergeSort fuel start stop) A prog memory →
        (prog = .done ∧ memory = B) ∨ ∃ moved later, Step prog memory moved later) ∧
      (slice B start stop).Pairwise (· ≤ ·) ∧ (slice B start stop).Perm (slice A start stop) ∧
      B.length = A.length ∧ ∀ index, index < start ∨ stop < index → B[index]? = A[index]?) ∧
    Acc Becomes (mergeSort fuel start stop : Prog α) ∧
    ∀ first last, start ≤ first → first ≤ last → last ≤ stop → mergeMid first last = sortMid first last := by
  have begins : (A.take start).length = start := by simp; omega
  have ends : start + (slice A start stop).length = stop + 1 := by simp [slice]; omega
  obtain ⟨sorted, ran, ascending, perm⟩ := mergeSort_exec_slice ordered inside fits enough
  have same := perm.length_eq
  have sliced : slice (A.take start ++ sorted ++ A.drop (stop + 1)) start stop = sorted :=
    slice_of_split begins (by omega)
  refine ⟨⟨A.take start ++ sorted ++ A.drop (stop + 1), ?_, ?_, ?_, ?_, ?_⟩, becomes_wellFounded.apply _, ?_⟩
  · intro prog memory reaches
    exact reaches.outcome (mergeSort_confined fuel fits).raceFree ran
  · rw [sliced]
    exact ascending
  · rw [sliced]
    exact perm
  · simp
    omega
  · intro index outside
    rw [getElem?_outside begins ends same outside, ← slice_split A ordered]
  · intro first last _ inOrder below
    exact mergeMid_eq_sortMid inOrder (by omega)

theorem mergeSort_sorts_middle :
    ∃ B : List Nat,
      (∀ prog memory, Reaches (mergeSort 4 1 4) [9, 3, 1, 3, 2, 0] prog memory →
        (prog = .done ∧ memory = B) ∨ ∃ moved later, Step prog memory moved later) ∧
      (slice B 1 4).Pairwise (· ≤ ·) ∧ (slice B 1 4).Perm [3, 1, 3, 2] := by
  obtain ⟨⟨B, outcome, ascending, perm, -⟩, -⟩ :=
    mergeSort_sorts 1 4 4 [9, 3, 1, 3, 2, 0] (by decide) (by decide) (by decide)
      (by decide)
  exact ⟨B, outcome, ascending, perm⟩

end SysProg.Threading.MergeSort
