import Mathlib.Data.List.Basic

namespace SysProg

/-! # `fgets`

A stream is the bytes that are left of it; it ends with the end of the file, or with an
error. A call reads up to a newline, and not more bytes than there is room for.
-/

/-- The bytes that are read, and those that are left. -/
def fgetsLine : Nat → List UInt8 → List UInt8 × List UInt8
  | 0, input => ([], input)
  | _ + 1, [] => ([], [])
  | room + 1, c :: rest => if c = 10 then ([c], rest) else (c :: (fgetsLine room rest).1, (fgetsLine room rest).2)

/-- A terminator is stored behind the line; as a string it ends with the first one. -/
def lineString (line : List UInt8) : List UInt8 := line.takeWhile (· ≠ 0)

/-- The call has met the end of the stream. -/
def MetEnd (room : Nat) (line rest : List UInt8) : Prop := rest = [] ∧ line.length < room ∧ line.getLast? ≠ some 10

instance (room : Nat) (line rest : List UInt8) : Decidable (MetEnd room line rest) :=
  inferInstanceAs (Decidable (rest = [] ∧ line.length < room ∧ line.getLast? ≠ some 10))

/-- `fgets(buf, room + 1, stream)`, which is `none` for `NULL`. -/
def fgets (error : Bool) (room : Nat) (input : List UInt8) : Option (List UInt8 × List UInt8) :=
  let (line, rest) := fgetsLine room input
  if line = [] ∨ error = true ∧ MetEnd room line rest then none else some (line, rest)

variable {error : Bool} {room : Nat} {input line rest : List UInt8}

theorem fgetsLine_append (room : Nat) (input : List UInt8) : (fgetsLine room input).1 ++ (fgetsLine room input).2 = input := by
  induction room generalizing input with
  | zero => rfl
  | succ room ih =>
      cases input with
      | nil => rfl
      | cons c rest =>
          rw [fgetsLine]
          split
          · rfl
          · exact congrArg (c :: ·) (ih rest)

theorem fgetsLine_length (room : Nat) (input : List UInt8) : (fgetsLine room input).1.length ≤ room := by
  induction room generalizing input with
  | zero => exact Nat.le_refl 0
  | succ room ih =>
      cases input with
      | nil => exact Nat.zero_le _
      | cons c rest =>
          rw [fgetsLine]
          split
          · exact Nat.le_add_left 1 room
          · exact Nat.succ_le_succ (ih rest)

/-- A newline ends the line. -/
theorem fgetsLine_newline (room : Nat) (input : List UInt8) : 10 ∉ (fgetsLine room input).1.dropLast := by
  induction room generalizing input with
  | zero => exact List.not_mem_nil
  | succ room ih =>
      cases input with
      | nil => exact List.not_mem_nil
      | cons c rest =>
          rw [fgetsLine]
          split
          · exact List.not_mem_nil
          · rename_i other
            cases later : (fgetsLine room rest).1 with
            | nil => exact List.not_mem_nil
            | cons next more =>
                have none := ih rest
                rw [later] at none
                rw [List.dropLast_cons_cons, List.mem_cons, not_or]
                exact ⟨Ne.symm other, none⟩

theorem fgetsLine_empty (empty : (fgetsLine (room + 1) input).1 = []) : input = [] := by
  cases input with
  | nil => rfl
  | cons c rest =>
      rw [fgetsLine] at empty
      split at empty
      · cases empty
      · cases empty

/-- What is read in one call. -/
structure Line (room : Nat) (line : List UInt8) : Prop where
  nonempty : line ≠ []
  fits : line.length ≤ room
  newline : 10 ∉ line.dropLast

theorem fgets_eq_some (read : fgets error room input = some (line, rest)) : line ++ rest = input ∧ Line room line := by
  simp only [fgets] at read
  split at read <;> cases read
  rename_i goes
  rw [not_or] at goes
  exact ⟨fgetsLine_append room input, goes.1, fgetsLine_length room input, fgetsLine_newline room input⟩

theorem fgets_shorter (read : fgets error room input = some (line, rest)) : rest.length < input.length := by
  obtain ⟨split, whole⟩ := fgets_eq_some read
  have := List.length_pos_of_ne_nil whole.nonempty
  rw [← split, List.length_append]
  omega

/-- Without an error everything is read. -/
theorem fgets_eq_none (ended : fgets false (room + 1) input = none) : input = [] := by
  simp only [fgets, Bool.false_eq_true, false_and, or_false] at ended
  split at ended
  · exact fgetsLine_empty ‹_›
  · cases ended

/-- The lines of all calls, up to the one that returns `NULL`. -/
def fgetsAll (error : Bool) (room : Nat) (input : List UInt8) : List (List UInt8) :=
  match _ : fgets error room input with
  | none => []
  | some (line, rest) => line :: fgetsAll error room rest
termination_by input.length
decreasing_by exact fgets_shorter ‹_›

theorem fgetsAll_none (ended : fgets error room input = none) : fgetsAll error room input = [] := by
  rw [fgetsAll]
  split
  · rfl
  · rename_i read
    rw [ended] at read
    cases read

theorem fgetsAll_some (read : fgets error room input = some (line, rest)) :
    fgetsAll error room input = line :: fgetsAll error room rest := by
  rw [fgetsAll]
  split
  · rename_i ended
    rw [read] at ended
    cases ended
  · rename_i found
    rw [read] at found
    cases found
    rfl

/-- A line that fits is read at once. -/
theorem fgets_line {front : List UInt8} (free : 10 ∉ front) (fits : front.length < room) (error : Bool) (rest : List UInt8) :
    fgets error room (front ++ 10 :: rest) = some (front ++ [10], rest) := by
  have reads : fgetsLine room (front ++ 10 :: rest) = (front ++ [10], rest) := by
    induction front generalizing room with
    | nil =>
        obtain ⟨more, rfl⟩ := Nat.exists_eq_succ_of_ne_zero (Nat.ne_of_gt fits)
        rfl
    | cons c front ih =>
        obtain ⟨more, rfl⟩ := Nat.exists_eq_succ_of_ne_zero (Nat.ne_of_gt (Nat.zero_lt_of_lt fits))
        rw [List.mem_cons, not_or] at free
        rw [List.cons_append, fgetsLine, if_neg (Ne.symm free.1), ih free.2 (Nat.lt_of_succ_lt_succ fits)]
        rfl
  rw [fgets, reads]
  simp [MetEnd]

/-- What is left after the last newline is read last, unless there is an error. -/
theorem fgets_last (free : 10 ∉ input) (fits : input.length < room) (error : Bool) :
    fgets error room input = if input = [] ∨ error = true then none else some (input, []) := by
  have reads : fgetsLine room input = (input, []) := by
    induction input generalizing room with
    | nil =>
        cases room with
        | zero => rfl
        | succ room => rfl
    | cons c input ih =>
        obtain ⟨more, rfl⟩ := Nat.exists_eq_succ_of_ne_zero (Nat.ne_of_gt (Nat.zero_lt_of_lt fits))
        rw [List.mem_cons, not_or] at free
        rw [fgetsLine, if_neg (Ne.symm free.1), ih free.2 (Nat.lt_of_succ_lt_succ fits)]
  have unended : input.getLast? ≠ some 10 := fun newline => free (List.mem_of_getLast? newline)
  rw [fgets, reads]
  simp [MetEnd, fits, unended]

/-- Lines that fit are read one by one. -/
theorem fgetsAll_lines {lines : List (List UInt8)} {last : List UInt8}
    (each : ∀ line ∈ lines, 10 ∉ line ∧ line.length < room) (free : 10 ∉ last) (fits : last.length < room)
    (error : Bool) :
    fgetsAll error room (lines.flatMap (· ++ [10]) ++ last) =
      lines.map (· ++ [10]) ++ if last = [] ∨ error = true then [] else [last] := by
  induction lines with
  | nil =>
      have read := fgets_last free fits error
      split at read
      · rename_i nothing
        rw [if_pos nothing]
        exact fgetsAll_none read
      · rename_i something
        rw [if_neg something]
        refine (fgetsAll_some read).trans (congrArg (last :: ·) (fgetsAll_none ?_))
        rw [fgets_last List.not_mem_nil (Nat.zero_lt_of_lt fits), if_pos (.inl rfl)]
  | cons line lines ih =>
      obtain ⟨first, later⟩ := List.forall_mem_cons.mp each
      have read := fgets_line first.1 first.2 error (lines.flatMap (· ++ [10]) ++ last)
      rw [List.flatMap_cons, List.append_assoc, List.append_assoc, List.singleton_append, fgetsAll_some read, ih later]
      rfl

end SysProg
