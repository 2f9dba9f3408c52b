import SysProg.Memory.Feast.Orders

namespace SysProg.Memory.Feast

/-! ## Texts that `scanf` gets through -/

/-- A byte that may belong to integers and what separates them. -/
def isNumeric (byte : UInt8) : Bool := isSpace byte || isSign byte || isDigit byte

/-- The text begins with `-1`, perhaps with zeros before the digit. -/
def MinusOne (text : List UInt8) : Prop :=
  ∃ zeros after, text = 45 :: (zeros ++ 49 :: after) ∧ (∀ byte ∈ zeros, byte = 48) ∧ DigitsEnd after

/-- Every byte up to the end, or up to a `-1`, may belong to an integer. -/
def Scannable (text : List UInt8) : Prop :=
  ∃ before after, text = before ++ after ∧ (∀ byte ∈ before, isNumeric byte = true) ∧ (after = [] ∨ MinusOne after)

variable {text rest digits skipped : List UInt8} {c : UInt8} {scan : Scan} {held : Nat → Int} {calls : Nat}

theorem scannable_nil : Scannable [] := ⟨[], [], rfl, by simp, .inl rfl⟩

theorem scannable_cons : Scannable (c :: rest) ↔ MinusOne (c :: rest) ∨ isNumeric c = true ∧ Scannable rest := by
  constructor
  · rintro ⟨before, after, split, numeric, ends⟩
    cases before with
    | nil =>
        rw [List.nil_append] at split
        rw [split]
        rcases ends with rfl | minusOne
        · exact absurd split (List.cons_ne_nil c rest)
        · exact .inl minusOne
    | cons byte before =>
        cases split
        obtain ⟨first, later⟩ := List.forall_mem_cons.mp numeric
        exact .inr ⟨first, before, after, rfl, later, ends⟩
  · rintro (minusOne | ⟨first, before, after, rfl, numeric, ends⟩)
    · exact ⟨[], c :: rest, rfl, by simp, .inr minusOne⟩
    · exact ⟨c :: before, after, rfl, List.forall_mem_cons.mpr ⟨first, numeric⟩, ends⟩

theorem MinusOne.head (minusOne : MinusOne (c :: rest)) : c = 45 := by
  obtain ⟨zeros, after, split, -⟩ := minusOne
  cases split
  rfl

/-- Bytes that may belong to an integer, other than `-`. -/
theorem scannable_append (inside : ∀ byte ∈ skipped, isNumeric byte = true ∧ byte ≠ 45) :
    Scannable (skipped ++ rest) ↔ Scannable rest := by
  induction skipped with
  | nil => rfl
  | cons byte skipped ih =>
      obtain ⟨⟨numeric, other⟩, later⟩ := List.forall_mem_cons.mp inside
      rw [List.cons_append, scannable_cons, ih later]
      constructor
      · rintro (minusOne | ⟨-, scannable⟩)
        · exact absurd minusOne.head other
        · exact scannable
      · exact fun scannable => .inr ⟨numeric, scannable⟩

theorem minusOne_iff (all : ∀ byte ∈ digits, isDigit byte = true) (ends : DigitsEnd rest) :
    MinusOne (45 :: (digits ++ rest)) ↔ digitsValue digits = 1 := by
  rw [digitsValue_eq_one all]
  constructor
  · rintro ⟨zeros, after, split, zero, stops⟩
    have allDigits : ∀ byte ∈ zeros ++ [49], isDigit byte = true := by
      intro byte member
      rcases List.mem_append.mp member with front | last
      · rw [zero byte front]
        rfl
      · rw [List.mem_singleton.mp last]
        rfl
    have same : digits ++ rest = (zeros ++ [49]) ++ after := by simpa using split
    have taken := congrArg (List.takeWhile isDigit) same
    rw [List.takeWhile_append_of_pos all, List.takeWhile_append_of_pos allDigits, ends.takeWhile, stops.takeWhile,
      List.append_nil, List.append_nil] at taken
    exact ⟨zeros, taken, zero⟩
  · rintro ⟨zeros, rfl, zero⟩
    exact ⟨zeros, rest, by simp, zero, ends⟩

theorem isNumeric_of_isSpace (space : isSpace c = true) : isNumeric c = true ∧ c ≠ 45 := by
  refine ⟨by simp [isNumeric, space], ?_⟩
  rintro rfl
  contradiction

theorem isNumeric_of_isDigit (digit : isDigit c = true) : isNumeric c = true ∧ c ≠ 45 := by
  refine ⟨by simp [isNumeric, digit], ?_⟩
  rintro rfl
  contradiction

theorem isNumeric_of_isSign (sign : isSign c = true) : isNumeric c = true := by simp [isNumeric, sign]

theorem not_minusOne_of_digitsEnd (ends : DigitsEnd rest) : ¬ MinusOne (c :: rest) := by
  intro minusOne
  have minus := minusOne.head
  rw [minus, ← List.nil_append rest, minusOne_iff (by simp) ends] at minusOne
  contradiction

theorem convert_eq_minusOne {negative : Bool} :
    convert negative digits = .stored (-1) ↔ negative = true ∧ digitsValue digits = 1 := by
  unfold convert
  cases negative with
  | true =>
      simp only [if_true, true_and]
      split
      · simp only [Scan.stored.injEq]
        omega
      · simp only [reduceCtorEq, false_iff]
        omega
  | false =>
      simp only [Bool.false_eq_true, if_false, false_and, iff_false]
      split
      · simp only [Scan.stored.injEq]
        omega
      · simp

/-- What a call leaves is to be got through like its input, unless it has read `-1`. -/
theorem scannable_of_scans (scans : Scans text scan rest) : Scannable text ↔ scan = .stored (-1) ∨ Scannable rest := by
  cases scans with
  | blank skipped =>
      have whole : Scannable (text ++ []) ↔ Scannable [] :=
        scannable_append fun byte member => isNumeric_of_isSpace (skipped byte member)
      rw [List.append_nil] at whole
      simp only [reduceCtorEq, false_or, whole]
  | stray skipped =>
      rw [scannable_append fun byte member => isNumeric_of_isSpace (skipped byte member)]
      simp only [reduceCtorEq, false_or]
  | sign skipped sign ends =>
      rw [scannable_append fun byte member => isNumeric_of_isSpace (skipped byte member), scannable_cons]
      simp only [reduceCtorEq, false_or, not_minusOne_of_digitsEnd ends, isNumeric_of_isSign sign, true_and]
  | @number _ _ digits _ skipped signed some all ends =>
      have behind : Scannable (digits ++ rest) ↔ Scannable rest :=
        scannable_append fun byte member => isNumeric_of_isDigit (all byte member)
      rw [scannable_append fun byte member => isNumeric_of_isSpace (skipped byte member), convert_eq_minusOne]
      rcases signed with rfl | ⟨c, rfl, signed⟩
      · simp [behind]
      · rw [List.singleton_append, scannable_cons, behind, isNumeric_of_isSign signed]
        by_cases minus : c = 45
        · rw [minus, minusOne_iff all ends]
          simp
        · have other : ¬ MinusOne (c :: (digits ++ rest)) := fun minusOne => minus minusOne.head
          simp [other, minus]

theorem scans_shorter (scans : Scans text scan rest) (scannable : Scannable rest) (more : rest ≠ []) :
    rest.length < text.length := by
  cases scans with
  | blank => contradiction
  | stray skipped space sign digit =>
      rcases scannable_cons.mp scannable with minusOne | ⟨numeric, -⟩
      · rw [minusOne.head] at sign
        contradiction
      · simp [isNumeric, space, sign, digit] at numeric
  | sign =>
      rw [List.length_append, List.length_cons]
      omega
  | number _ _ some =>
      have positive := List.length_pos_iff.mpr some
      simp only [List.length_append]
      omega

/-! ## The loop -/

/-- `serve_dishes` returns. -/
def Terminates (held : Nat → Int) (text : List UInt8) : Prop :=
  ∃ fuel after, serveDishes (getNextDishOrder held) fuel (.ofText text) laid = .ok after

theorem processes_of_scannable (scannable : Scannable text) (calls : Nat) :
    ∃ orders, Processes (getNextDishOrder held) ⟨⟨text, false⟩, calls⟩ orders := by
  induction size : text.length using Nat.strongRecOn generalizing text calls with
  | ind size ih =>
      obtain ⟨scan, rest, scans⟩ := exists_scans text
      have given : getNextDishOrder held ⟨⟨text, false⟩, calls⟩ = _ := getNextDishOrder_eq scans
      by_cases real : orderOf scan (held calls) = -1
      · exact ⟨[], .ended (real ▸ given)⟩
      · have later : Scannable rest := by
          refine ((scannable_of_scans scans).mp scannable).resolve_left ?_
          rintro rfl
          exact real rfl
        by_cases empty : rest = []
        · subst empty
          exact ⟨[_], .order given real (processes_eof held [] _)⟩
        · rw [List.isEmpty_eq_false_iff.mpr empty] at given
          have less := scans_shorter scans later empty
          obtain ⟨orders, processes⟩ := ih rest.length (size ▸ less) later (calls + 1) rfl
          exact ⟨_ :: orders, .order given real processes⟩

/-- With a variable that does not hold `-1` the loop stays at a byte that is no
part of an integer. -/
theorem stuck_step (stuck : ¬ Scannable text) (calls : Nat) :
    ∃ order rest, getNextDishOrder (fun _ => 0) ⟨⟨text, false⟩, calls⟩ = (order, ⟨⟨rest, false⟩, calls + 1⟩) ∧
      order ≠ -1 ∧ ¬ Scannable rest := by
  obtain ⟨scan, rest, scans⟩ := exists_scans text
  have given : getNextDishOrder (fun _ => 0) ⟨⟨text, false⟩, calls⟩ = _ := getNextDishOrder_eq scans
  rw [scannable_of_scans scans, not_or] at stuck
  have some : rest ≠ [] := by
    rintro rfl
    exact stuck.2 scannable_nil
  rw [List.isEmpty_eq_false_iff.mpr some] at given
  refine ⟨_, rest, given, ?_, stuck.2⟩
  cases scan with
  | stored value => exact fun same => stuck.1 (congrArg Scan.stored same)
  | unrepresentable | failed => decide

theorem serveDishes_stuck (stuck : ¬ Scannable text) (fuel calls : Nat) (table : Table) :
    serveDishes (getNextDishOrder fun _ => 0) fuel ⟨⟨text, false⟩, calls⟩ table = .error .diverged := by
  induction fuel generalizing text calls table with
  | zero => rfl
  | succ fuel ih =>
      obtain ⟨order, rest, given, real, still⟩ := stuck_step stuck calls
      simp only [serveDishes, given, ne_eq, real, not_false_eq_true, if_true]
      exact ih still (calls + 1) (serveDish table order)

/-- `serve_dishes` returns whatever the variable holds if and only if no byte that
cannot belong to an integer comes before the end of the input and before a `-1`. -/
theorem terminates_iff (text : List UInt8) : (∀ held, Terminates held text) ↔ Scannable text := by
  constructor
  · intro terminates
    by_contra stuck
    obtain ⟨fuel, after, ran⟩ := terminates fun _ => 0
    rw [Stdin.ofText, serveDishes_stuck stuck] at ran
    contradiction
  · intro scannable held
    obtain ⟨orders, processes⟩ := processes_of_scannable scannable 0
    obtain ⟨fuel, ran⟩ := processes.serveDishes
    exact ⟨fuel, _, ran laid⟩

/-- The text `x`. -/
theorem letter_never_ends : ¬ ∀ (text : List UInt8) (held : Nat → Int), Terminates held text := by
  intro terminates
  have stuck : ¬ Scannable [120] := by
    rw [scannable_cons]
    rintro (minusOne | ⟨numeric, -⟩)
    · exact absurd minusOne.head (by decide)
    · contradiction
  obtain ⟨fuel, after, ran⟩ := terminates [120] fun _ => 0
  rw [Stdin.ofText, serveDishes_stuck stuck] at ran
  contradiction

end SysProg.Memory.Feast
