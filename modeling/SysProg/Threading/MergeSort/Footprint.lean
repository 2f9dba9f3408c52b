import SysProg.Threading.MergeSort

namespace SysProg.Threading.MergeSort

open Prog

variable {α : Type} [LinearOrder α]

/-! ## The midpoints -/

theorem toDouble_exact {n : Nat} (fits : n < 2 ^ 52) : toDouble n = n := by
  have half : roundTo 53 (((2 * n : ℕ) : ℚ) / 2) = ((2 * n : ℕ) : ℚ) / 2 := roundTo_half (by omega)
  have same : ((2 * n : ℕ) : ℚ) / 2 = n := by
    push_cast
    ring
  rwa [same] at half

theorem ofDouble_toDouble {n : Nat} (fits : n < 2 ^ 52) : ofDouble (toDouble n) = n := by
  rw [toDouble_exact fits, ofDouble, Nat.floor_natCast]

theorem sortMid_eq {start stop : Nat} (ordered : start ≤ stop) (fits : stop < 2 ^ 52) :
    sortMid start stop = (start + stop) / 2 := by
  obtain ⟨length, rfl⟩ := Nat.exists_eq_add_of_le ordered
  have difference : ((start + length : ℕ) : ℚ) - start = length := by
    push_cast
    ring
  have exact : roundTo 53 (length : ℚ) = length := toDouble_exact (by omega)
  have half : roundTo 53 ((length : ℚ) / 2) = (length : ℚ) / 2 := roundTo_half (by omega)
  have sum : (start : ℚ) + (length : ℚ) / 2 = ((start + (start + length) : ℕ) : ℚ) / 2 := by
    push_cast
    ring
  have middle : roundTo 53 (((start + (start + length) : ℕ) : ℚ) / 2) = _ := roundTo_half (by omega)
  simp only [sortMid, toDouble_exact fits, toDouble_exact (show start < 2 ^ 52 by omega), difference, exact,
    half, sum, middle, ofDouble]
  exact Nat.floor_div_eq_div _ _

theorem mergeMid_eq {start stop : Nat} (fits : start + stop < 2 ^ 64) :
    mergeMid start stop = (start + stop) / 2 := by
  rw [mergeMid, Nat.mod_eq_of_lt fits]

/-! ## Where `merge` and `merge_sort` read and write -/

variable {region : Nat → Prop}

omit [LinearOrder α] in
theorem storeThen_confined {tmp : Block α} {i : Int} {value : α} {next : Block α → Prog α}
    (rest : ∀ tmp, Confined region (next tmp)) : Confined region (storeThen tmp i value next) := by
  unfold storeThen
  split
  · exact rest _
  · exact confined_trap _

theorem takeBoth_confined {aEnd bEnd : Nat} {next : Nat → Nat → Int → Block α → Prog α} {aIndex bIndex : Nat}
    (fuel : Nat) (i : Int) (tmp : Block α)
    (aInside : ∀ index, aIndex ≤ index → index ≤ aEnd → region index)
    (bInside : ∀ index, bIndex ≤ index → index ≤ bEnd → region index)
    (rest : ∀ a b i tmp, aIndex ≤ a → bIndex ≤ b → Confined region (next a b i tmp)) :
    Confined region (takeBoth aEnd bEnd next fuel aIndex bIndex i tmp) := by
  induction fuel generalizing aIndex bIndex i tmp with
  | zero => exact confined_trap _
  | succ fuel ih =>
      simp only [takeBoth]
      split
      · rename_i inside
        have aHere := aInside aIndex (Nat.le_refl _) inside.1
        have bHere := bInside bIndex (Nat.le_refl _) inside.2
        apply Confined.read aHere
        intro x
        apply Confined.read bHere
        intro y
        split
        · apply Confined.read aHere
          intro value
          apply storeThen_confined
          intro tmp
          exact ih _ tmp (fun index le => aInside index (by omega)) bInside
            (fun a b i tmp le => rest a b i tmp (by omega))
        · apply Confined.read bHere
          intro value
          apply storeThen_confined
          intro tmp
          exact ih _ tmp aInside (fun index le => bInside index (by omega))
            (fun a b i tmp leA leB => rest a b i tmp leA (by omega))
      · exact rest _ _ _ _ (Nat.le_refl _) (Nat.le_refl _)

omit [LinearOrder α] in
theorem takeRest_confined {last index : Nat} {next : Int → Block α → Prog α} (fuel : Nat) (i : Int)
    (tmp : Block α) (inside : ∀ position, index ≤ position → position ≤ last → region position)
    (rest : ∀ i tmp, Confined region (next i tmp)) :
    Confined region (takeRest last next fuel index i tmp) := by
  induction fuel generalizing index i tmp with
  | zero => exact confined_trap _
  | succ fuel ih =>
      simp only [takeRest]
      split
      · rename_i here
        apply Confined.read (inside index (Nat.le_refl _) here)
        intro value
        apply storeThen_confined
        intro tmp
        exact ih _ tmp (fun position le => inside position (by omega))
      · exact rest _ _

theorem toSize_natCast {n : Nat} (fits : n < 2 ^ 64) : toSize n = n := by
  unfold toSize
  omega

theorem wrapInt_natCast {n : Nat} (fits : n < 2 ^ 31) : wrapInt n = n :=
  wrapInt_of_range (by omega) (by omega)

theorem wrapInt_succ {n : Nat} (fits : n + 1 < 2 ^ 31) : wrapInt ((n : Int) + 1) = ((n + 1 : Nat) : Int) := by
  rw [show (n : Int) + 1 = ((n + 1 : Nat) : Int) by push_cast; rfl]
  exact wrapInt_natCast fits

omit [LinearOrder α] in
theorem writeBack_confined {start stop i : Nat} {tmp : Block α} {next : Prog α} (fuel : Nat)
    (fits : stop < 2 ^ 31 - 1) (afterStart : start ≤ i) (bounded : i ≤ stop + 1)
    (inside : ∀ position, start ≤ position → position ≤ stop → region position)
    (rest : Confined region next) : Confined region (writeBack start stop tmp next fuel i) := by
  induction fuel generalizing i with
  | zero => exact confined_trap _
  | succ fuel ih =>
      simp only [writeBack, toSize_natCast (show i < 2 ^ 64 by omega)]
      split
      · rename_i here
        split
        · simp only [Int.natCast_nonneg, if_true, Int.toNat_natCast]
          apply Confined.write (inside i afterStart here)
          rw [wrapInt_succ (by omega)]
          exact ih (by omega) (by omega)
        · exact confined_trap _
      · exact rest

theorem merge_confined {start stop : Nat} {next : Prog α} (fits : stop < 2 ^ 31 - 1)
    (inside : ∀ position, start ≤ position → position ≤ stop → region position)
    (rest : Confined region next) : Confined region (merge start stop next) := by
  unfold merge
  split
  · exact rest
  · have mid := mergeMid_eq (show start + stop < 2 ^ 64 by omega)
    apply takeBoth_confined
    · exact fun index lower upper => inside index lower (by omega)
    · exact fun index lower upper => inside index (by omega) upper
    · intro a b i tmp aLower bLower
      apply takeRest_confined
      · exact fun index lower upper => inside index (by omega) (by omega)
      · intro i tmp
        apply takeRest_confined
        · exact fun index lower upper => inside index (by omega) upper
        · intro i tmp
          rw [wrapInt_natCast (show start < 2 ^ 31 by omega)]
          exact writeBack_confined _ fits (Nat.le_refl _) (by omega) inside rest

/-- `merge_sort` reads and writes only its own range, and so do the threads it
runs at the same time, at every level of the recursion. -/
theorem mergeSort_confined {start stop : Nat} (fuel : Nat) (fits : stop < 2 ^ 31 - 1) :
    Confined (fun index => start ≤ index ∧ index ≤ stop) (mergeSort fuel start stop : Prog α) := by
  induction fuel generalizing start stop with
  | zero => exact confined_trap _
  | succ fuel ih =>
      simp only [mergeSort]
      split
      · exact confined_done
      · have mid := sortMid_eq (show start ≤ stop by omega) (show stop < 2 ^ 52 by omega)
        rw [mid, ofDouble_toDouble (show stop < 2 ^ 52 by omega), ofDouble_toDouble (show start < 2 ^ 52 by omega)]
        apply Confined.fork (ih (by omega)) (ih fits)
        · exact merge_confined fits (fun position lower upper => ⟨lower, upper⟩) confined_done
        · intro index first second
          omega
        · intro index bounds
          omega
        · intro index bounds
          omega

end SysProg.Threading.MergeSort
