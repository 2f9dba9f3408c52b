import SysProg.Library.Strtok
import Mathlib.Data.List.Induction

namespace SysProg

/-! # `scanf("%d", ...)`

White space is skipped; then an optional sign and as many digits as follow are
taken. A byte that does not belong to them stays in the stream. The end-of-file
indicator is set when the function has tried to read behind the last byte. A
number that no `int` represents is undefined in C, and told apart here.
-/

def isSpace (byte : UInt8) : Bool := byte = 32 || (9 ≤ byte && byte ≤ 13)

def isSign (byte : UInt8) : Bool := byte = 43 || byte = 45

def isDigit (byte : UInt8) : Bool := 48 ≤ byte && byte ≤ 57

/-- What is left to read, and the end-of-file indicator. -/
structure Stream where
  input : List UInt8
  eof : Bool
deriving DecidableEq, Repr

inductive Scan where
  | stored (value : Int)
  | unrepresentable
  | failed
deriving DecidableEq, Repr

def digitsValue (digits : List UInt8) : Nat := digits.foldl (fun value digit => 10 * value + (digit.toNat - 48)) 0

def convert (negative : Bool) (digits : List UInt8) : Scan :=
  let value : Int := if negative then -digitsValue digits else digitsValue digits
  if -2 ^ 31 ≤ value ∧ value < 2 ^ 31 then .stored value else .unrepresentable

/-- The digits of a number whose sign has been read. -/
def scanDigits (negative : Bool) (input : List UInt8) : Scan × Stream :=
  let digits := input.takeWhile isDigit
  let rest := input.dropWhile isDigit
  (if digits = [] then .failed else convert negative digits, { input := rest, eof := rest.isEmpty })

def scanInt (input : List UInt8) : Scan × Stream :=
  match input.dropWhile isSpace with
  | [] => (.failed, { input := [], eof := true })
  | c :: rest => if isSign c then scanDigits (c = 45) rest else scanDigits false (c :: rest)

/-! ## What one call takes -/

/-- The list does not go on with a digit. -/
def DigitsEnd (rest : List UInt8) : Prop := rest = [] ∨ ∃ byte later, rest = byte :: later ∧ isDigit byte = false

/-- A sign, or none. -/
def SignOrNone (sign : List UInt8) : Prop := sign = [] ∨ ∃ c, sign = [c] ∧ isSign c = true

/-- The input, what the call does with it, and what it leaves. -/
inductive Scans : List UInt8 → Scan → List UInt8 → Prop
  | blank {spaces : List UInt8} (skipped : ∀ byte ∈ spaces, isSpace byte = true) : Scans spaces .failed []
  | stray {spaces : List UInt8} {c : UInt8} {rest : List UInt8} (skipped : ∀ byte ∈ spaces, isSpace byte = true)
      (space : isSpace c = false) (sign : isSign c = false) (digit : isDigit c = false) :
      Scans (spaces ++ c :: rest) .failed (c :: rest)
  | sign {spaces : List UInt8} {c : UInt8} {rest : List UInt8} (skipped : ∀ byte ∈ spaces, isSpace byte = true)
      (sign : isSign c = true) (ends : DigitsEnd rest) : Scans (spaces ++ c :: rest) .failed rest
  | number {spaces sign digits rest : List UInt8} (skipped : ∀ byte ∈ spaces, isSpace byte = true)
      (signed : SignOrNone sign) (some : digits ≠ []) (all : ∀ byte ∈ digits, isDigit byte = true)
      (ends : DigitsEnd rest) : Scans (spaces ++ (sign ++ (digits ++ rest))) (convert (sign = [45]) digits) rest

variable {input spaces digits rest : List UInt8} {scan : Scan} {c : UInt8} {negative : Bool}

/-! ## Digits -/

theorem digitsValue_concat (digits : List UInt8) (digit : UInt8) :
    digitsValue (digits ++ [digit]) = 10 * digitsValue digits + (digit.toNat - 48) := by
  simp [digitsValue]

theorem toNat_of_isDigit (digit : isDigit c = true) : 48 ≤ c.toNat ∧ c.toNat ≤ 57 := by
  simpa [isDigit, UInt8.le_iff_toNat_le] using digit

theorem digitsValue_eq_zero (all : ∀ byte ∈ digits, isDigit byte = true) :
    digitsValue digits = 0 ↔ ∀ byte ∈ digits, byte = 48 := by
  induction digits using List.reverseRecOn with
  | nil => simp [digitsValue]
  | append_singleton digits digit ih =>
      have bounds := toNat_of_isDigit (all digit (by simp))
      have zero : digit = 48 ↔ digit.toNat = 48 := UInt8.toNat_inj.symm
      rw [digitsValue_concat, List.forall_mem_append, List.forall_mem_singleton, zero,
        ← ih fun byte member => all byte (by simp [member])]
      omega

theorem digitsValue_eq_one (all : ∀ byte ∈ digits, isDigit byte = true) :
    digitsValue digits = 1 ↔ ∃ zeros, digits = zeros ++ [49] ∧ ∀ byte ∈ zeros, byte = 48 := by
  rcases List.eq_nil_or_concat digits with rfl | ⟨front, digit, rfl⟩
  · simp [digitsValue]
  · rw [List.concat_eq_append] at all ⊢
    have bounds := toNat_of_isDigit (all digit (by simp))
    have one : digit = 49 ↔ digit.toNat = 49 := UInt8.toNat_inj.symm
    have zeros : digitsValue front = 0 ↔ _ := digitsValue_eq_zero fun byte member => all byte (by simp [member])
    rw [digitsValue_concat]
    constructor
    · intro value
      refine ⟨front, ?_, zeros.mp (by omega)⟩
      rw [one.mpr (by omega)]
    · rintro ⟨others, split, zero⟩
      obtain ⟨rfl, last⟩ := List.append_inj' split rfl
      have same : digit = 49 := by simpa using last
      have none := zeros.mpr zero
      have value := one.mp same
      omega

/-! ## The kinds of input -/

theorem isSpace_of_isSign (sign : isSign c = true) : isSpace c = false := by
  simp only [isSign, Bool.or_eq_true, decide_eq_true_eq] at sign
  rcases sign with rfl | rfl <;> decide

theorem isSpace_of_isDigit (digit : isDigit c = true) : isSpace c = false := by
  simp only [isDigit, isSpace, Bool.and_eq_true, decide_eq_true_eq, Bool.or_eq_false_iff, decide_eq_false_iff_not,
    Bool.and_eq_false_iff, UInt8.le_iff_toNat_le, ← UInt8.toNat_inj] at digit ⊢
  simp at digit ⊢
  omega

theorem isSign_of_isDigit (digit : isDigit c = true) : isSign c = false := by
  simp only [isDigit, isSign, Bool.and_eq_true, decide_eq_true_eq, Bool.or_eq_false_iff, decide_eq_false_iff_not,
    UInt8.le_iff_toNat_le, ← UInt8.toNat_inj] at digit ⊢
  simp at digit ⊢
  omega

theorem dropWhile_spaces (skipped : ∀ byte ∈ spaces, isSpace byte = true) (space : isSpace c = false)
    (rest : List UInt8) : (spaces ++ c :: rest).dropWhile isSpace = c :: rest := by
  rw [List.dropWhile_append_of_pos skipped, List.dropWhile_cons_of_neg (by simp [space])]

theorem DigitsEnd.takeWhile (ends : DigitsEnd rest) : rest.takeWhile isDigit = [] := by
  rcases ends with rfl | ⟨byte, later, rfl, other⟩
  · rfl
  · rw [List.takeWhile_cons_of_neg (by simp [other])]

theorem DigitsEnd.dropWhile (ends : DigitsEnd rest) : rest.dropWhile isDigit = rest := by
  rcases ends with rfl | ⟨byte, later, rfl, other⟩
  · rfl
  · rw [List.dropWhile_cons_of_neg (by simp [other])]

theorem scanDigits_none (ends : DigitsEnd rest) :
    scanDigits negative rest = (.failed, { input := rest, eof := rest.isEmpty }) := by
  simp only [scanDigits, ends.takeWhile, ends.dropWhile, if_true]

theorem scanDigits_some (some : digits ≠ []) (all : ∀ byte ∈ digits, isDigit byte = true) (ends : DigitsEnd rest) :
    scanDigits negative (digits ++ rest) = (convert negative digits, { input := rest, eof := rest.isEmpty }) := by
  simp only [scanDigits, List.takeWhile_append_of_pos all, List.dropWhile_append_of_pos all, ends.takeWhile,
    ends.dropWhile, List.append_nil, some, if_false]

theorem Scans.scanInt_eq (scans : Scans input scan rest) :
    scanInt input = (scan, { input := rest, eof := rest.isEmpty }) := by
  cases scans with
  | blank skipped =>
      have none : input.dropWhile isSpace = [] := List.dropWhile_eq_nil_iff.mpr skipped
      rw [scanInt, none]
      rfl
  | stray skipped space sign digit =>
      simp only [scanInt, dropWhile_spaces skipped space, sign, Bool.false_eq_true, if_false]
      exact scanDigits_none (.inr ⟨_, _, rfl, digit⟩)
  | sign skipped sign ends =>
      simp only [scanInt, dropWhile_spaces skipped (isSpace_of_isSign sign), sign, if_true]
      exact scanDigits_none ends
  | @number spaces sign digits _ skipped signed some all ends =>
      rcases signed with rfl | ⟨c, rfl, signed⟩
      · obtain ⟨c, later, rfl⟩ := List.exists_cons_of_ne_nil some
        have digit := all c (by simp)
        rw [List.nil_append, List.cons_append]
        simp only [scanInt, dropWhile_spaces skipped (isSpace_of_isDigit digit), isSign_of_isDigit digit,
          Bool.false_eq_true, if_false]
        exact scanDigits_some some all ends
      · rw [List.singleton_append]
        simp only [scanInt, dropWhile_spaces skipped (isSpace_of_isSign signed), signed, if_true,
          List.cons.injEq, and_true]
        exact scanDigits_some some all ends

theorem exists_scans (input : List UInt8) : ∃ scan rest, Scans input scan rest := by
  obtain ⟨spaces, tail, rfl, skipped, rfl | ⟨c, tail, rfl, space⟩⟩ := exists_run isSpace input
  · rw [List.append_nil]
    exact ⟨_, _, .blank skipped⟩
  · cases sign : isSign c with
    | true =>
        obtain ⟨digits, rest, rfl, all, ends⟩ := exists_run isDigit tail
        cases digits with
        | nil => exact ⟨_, _, .sign skipped sign ends⟩
        | cons d digits =>
            exact ⟨_, _, .number skipped (.inr ⟨c, rfl, sign⟩) (List.cons_ne_nil d digits) all ends⟩
    | false =>
        obtain ⟨digits, rest, split, all, ends⟩ := exists_run isDigit (c :: tail)
        cases digits with
        | nil =>
            rw [List.nil_append] at split
            rcases ends with rfl | ⟨byte, later, rfl, digit⟩
            · exact absurd split (List.cons_ne_nil c tail)
            · cases split
              exact ⟨_, _, .stray skipped space sign digit⟩
        | cons d digits =>
            rw [split]
            exact ⟨_, _, .number skipped (.inl rfl) (List.cons_ne_nil d digits) all ends⟩

end SysProg
