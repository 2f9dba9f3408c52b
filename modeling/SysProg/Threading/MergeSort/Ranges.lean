import SysProg.Threading.MergeSort.Correct

namespace SysProg.Threading.MergeSort

open Prog

variable {α : Type} [LinearOrder α]

/-! ## The ranges of `merge` -/

/-- `merge` sorts the range, with every element of a range of two or more written back,
and makes no access outside the array or `tmp`. -/
structure Merges (A : List α) (start stop : Nat) (written : List Nat) (B : List α) : Prop where
  performs : Performs (merge start stop .done) A written .done B
  sorted : (slice B start stop).Pairwise (· ≤ ·)
  perm : (slice B start stop).Perm (slice A start stop)
  others : ∀ index, index < start ∨ stop < index → B[index]? = A[index]?
  all : start < stop → ∀ index, start ≤ index → index ≤ stop → index ∈ written

/-! ### Elements that an `int` can index -/

/-- What an `int` can index. -/
def Below (index : Nat) : Prop := index < 2 ^ 31

variable {start stop : Nat} {A : List α} {next : Prog α}

theorem wrapInt_lt (value : Int) : wrapInt value < 2 ^ 31 := by
  unfold wrapInt
  omega

omit [LinearOrder α] in
theorem storeThen_writes {tmp : Block α} {i : Int} {value : α} {next : Block α → Prog α}
    (rest : ∀ tmp, (next tmp).Writes Below) : (storeThen tmp i value next).Writes Below := by
  unfold storeThen
  split
  · exact rest _
  · trivial

theorem takeBoth_writes {aEnd bEnd aIndex bIndex : Nat} {next : Nat → Nat → Int → Block α → Prog α} (fuel : Nat)
    (i : Int) (tmp : Block α) (rest : ∀ a b i tmp, (next a b i tmp).Writes Below) :
    (takeBoth aEnd bEnd next fuel aIndex bIndex i tmp).Writes Below := by
  induction fuel generalizing aIndex bIndex i tmp with
  | zero => trivial
  | succ fuel ih =>
      simp only [takeBoth]
      split
      · intro x y
        beta_reduce
        split
        · exact fun value => storeThen_writes fun tmp => ih _ tmp
        · exact fun value => storeThen_writes fun tmp => ih _ tmp
      · exact rest _ _ _ _

omit [LinearOrder α] in
theorem takeRest_writes {last index : Nat} {next : Int → Block α → Prog α} (fuel : Nat) (i : Int) (tmp : Block α)
    (rest : ∀ i tmp, (next i tmp).Writes Below) : (takeRest last next fuel index i tmp).Writes Below := by
  induction fuel generalizing index i tmp with
  | zero => trivial
  | succ fuel ih =>
      simp only [takeRest]
      split
      · exact fun value => storeThen_writes fun tmp => ih _ tmp
      · exact rest _ _

omit [LinearOrder α] in
theorem writeBack_writes {tmp : Block α} (fuel : Nat) {i : Int} (small : i < 2 ^ 31) (rest : next.Writes Below) :
    (writeBack start stop tmp next fuel i).Writes Below := by
  induction fuel generalizing i with
  | zero => trivial
  | succ fuel ih =>
      simp only [writeBack]
      split
      · split
        · split
          · have below : Below i.toNat := by
              unfold Below
              omega
            exact ⟨below, ih (wrapInt_lt _)⟩
          · trivial
        · trivial
      · exact rest

theorem merge_writes (start stop : Nat) (rest : next.Writes Below) : (merge start stop next).Writes Below := by
  unfold merge
  split
  · exact rest
  · apply takeBoth_writes
    intro a b i tmp
    apply takeRest_writes
    intro i tmp
    apply takeRest_writes
    intro i tmp
    generalize stop - start + 1 + 1 = fuel
    exact writeBack_writes fuel (wrapInt_lt start) rest

/-! ### The ranges that are merged -/

theorem Merges.inside {written : List Nat} {B : List α} (merges : Merges A start stop written B) (ordered : start ≤ stop) :
    start = stop ∨ stop < 2 ^ 31 := by
  rcases Nat.lt_or_eq_of_le ordered with more | same
  · exact .inr (merges.performs.written_inside (merge_writes start stop trivial) (merges.all more stop ordered (Nat.le_refl _)))
  · exact .inl same

theorem merges_one (inside : stop < A.length) : Merges A stop stop [] A where
  performs := by
    rw [merge, if_pos (Nat.le_refl _)]
    exact .refl
  sorted := by
    have single : (slice A stop stop).length = 1 := by
      simp [slice]
      omega
    obtain ⟨value, only⟩ := List.length_eq_one_iff.mp single
    rw [only]
    exact List.pairwise_singleton _ _
  perm := .refl _
  others _ _ := rfl
  all more := absurd more (Nat.lt_irrefl _)

omit [LinearOrder α] in
theorem slice_append (A : List α) (start mid stop : Nat) (lower : start ≤ mid + 1) (upper : mid ≤ stop) :
    slice A start stop = slice A start mid ++ slice A (mid + 1) stop := by
  have count : stop + 1 - start = (mid + 1 - start) + (stop + 1 - (mid + 1)) := by omega
  have next : start + (mid + 1 - start) = mid + 1 := by omega
  rw [slice, count, List.take_add, List.drop_drop, next]
  rfl

theorem merges_range (nonempty : start < stop) (inside : stop < A.length) (fits : stop < 2 ^ 31)
    (leftSorted : (slice A start (mergeMid start stop)).Pairwise (· ≤ ·))
    (rightSorted : (slice A (mergeMid start stop + 1) stop).Pairwise (· ≤ ·)) :
    ∃ written B, Merges A start stop written B := by
  have half : mergeMid start stop = (start + stop) / 2 := mergeMid_eq (by omega)
  rw [half] at leftSorted rightSorted
  have begins : (A.take start).length = start := by simp; omega
  have leftLength : start + (slice A start ((start + stop) / 2)).length = (start + stop) / 2 + 1 := by simp [slice]; omega
  have rightLength : (start + stop) / 2 + 1 + (slice A ((start + stop) / 2 + 1) stop).length = stop + 1 := by
    simp [slice]
    omega
  have parts := slice_append A start ((start + stop) / 2) stop (by omega) (by omega)
  have ran := merge_performs .done (A.take start) (slice A start ((start + stop) / 2))
    (slice A ((start + stop) / 2 + 1) stop) (A.drop (stop + 1)) (begins.symm ▸ nonempty) fits (by rw [begins, leftLength])
    (by rw [begins, leftLength, rightLength])
  rw [begins, ← parts, ← slice_split A (Nat.le_of_lt nonempty)] at ran
  have perm := merged_perm (slice A start ((start + stop) / 2)) (slice A ((start + stop) / 2 + 1) stop)
  rw [← parts] at perm
  have ends : start + (slice A start stop).length = stop + 1 := by simp [slice]; omega
  have same := perm.length_eq
  have sliced : slice (A.take start ++ merged (slice A start ((start + stop) / 2))
      (slice A ((start + stop) / 2 + 1) stop) ++ A.drop (stop + 1)) start stop =
      merged (slice A start ((start + stop) / 2)) (slice A ((start + stop) / 2 + 1) stop) :=
    slice_of_split begins (by rw [same, ends])
  refine ⟨_, _, ran, ?_, ?_, ?_, ?_⟩
  · rw [sliced]
    exact merged_sorted leftSorted rightSorted
  · rw [sliced]
    exact perm
  · intro index outside
    rw [getElem?_outside begins ends same outside, ← slice_split A (Nat.le_of_lt nonempty)]
  · intro _ index lower upper
    rw [List.mem_range'_1]
    omega

/-- `merge` is right for a range, whatever its halves hold, if and only if it has one element
or an `int` can index its last one. -/
theorem merges_iff (start stop : Nat) (A : List α) (ordered : start ≤ stop) (inside : stop < A.length)
    (leftSorted : (slice A start (mergeMid start stop)).Pairwise (· ≤ ·))
    (rightSorted : (slice A (mergeMid start stop + 1) stop).Pairwise (· ≤ ·)) :
    (∃ written B, Merges A start stop written B) ↔ start = stop ∨ stop < 2 ^ 31 := by
  constructor
  · rintro ⟨written, B, merges⟩
    exact merges.inside ordered
  · intro small
    rcases Nat.lt_or_eq_of_le ordered with more | rfl
    · exact merges_range more inside (small.resolve_left (Nat.ne_of_lt more)) leftSorted rightSorted
    · exact ⟨[], A, merges_one inside⟩

theorem merges_three : ∃ written B, Merges [9, 1, 3, 2, 0] 1 3 written B :=
  (merges_iff 1 3 [9, 1, 3, 2, 0] (by decide) (by decide) (by decide) (by decide)).mpr (.inr (by decide))

theorem slice_replicate_sorted (start stop count : Nat) (value : α) :
    (slice (List.replicate count value) start stop).Pairwise (· ≤ ·) := by
  rw [slice, List.drop_replicate, List.take_replicate]
  exact List.pairwise_replicate.mpr (.inr le_rfl)

/-- At 2^31 the index has wrapped: the last element of the range is not written. -/
theorem wide_range_unfinished :
    ¬ ∀ (start stop : Nat) (A : List Int), start ≤ stop → stop < A.length → stop < 2 ^ 52 →
      (slice A start (mergeMid start stop)).Pairwise (· ≤ ·) →
      (slice A (mergeMid start stop + 1) stop).Pairwise (· ≤ ·) → ∃ written B, Merges A start stop written B := by
  intro always
  have ordered : 0 ≤ 2 ^ 31 := Nat.zero_le _
  have inside : 2 ^ 31 < (List.replicate (2 ^ 31 + 1) (0 : Int)).length := by
    rw [List.length_replicate]
    exact Nat.lt_succ_self _
  obtain ⟨written, B, merges⟩ := always 0 (2 ^ 31) (List.replicate (2 ^ 31 + 1) 0) ordered inside (by decide)
    (slice_replicate_sorted _ _ _ _) (slice_replicate_sorted _ _ _ _)
  rcases merges.inside ordered with none | small
  · exact absurd none (by decide)
  · exact absurd small (Nat.lt_irrefl _)

end SysProg.Threading.MergeSort
