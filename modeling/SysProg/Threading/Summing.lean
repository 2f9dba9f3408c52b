import SysProg.Library.Scanf
import SysProg.Library.Block
import Mathlib.Tactic.Ring
import Mathlib.Tactic.Linarith

namespace SysProg.Threading.Summing

/-! # `05-threading/class/add.c`

The calls for the thread succeed. A loop that runs out of fuel is `Trap.diverged`.
-/

/-- `atoi`, which C leaves undefined where no `int` represents the number. -/
def atoi (text : List UInt8) : Except Trap Int :=
  match (scanInt text).1 with
  | .stored value => .ok value
  | .failed => .ok 0
  | .unrepresentable => .error .indeterminate

/-- What is printed: `Usage: %s <int>`, `%d must be >= 0` or `sum=%d`. -/
inductive Message where
  | usage (program : List UInt8)
  | mustBe (x : Int)
  | sum (value : Int)
deriving DecidableEq

/-- The loop of `runner` from the value `i`, with the `sum` so far. -/
def runnerLoop (upper : Int) : Nat → Int → Int → Except Trap Int
  | 0, _, _ => .error .diverged
  | fuel + 1, i, sum =>
      if i ≤ upper then runnerLoop upper fuel (wrapInt (i + 1)) (wrapInt (sum + i)) else .ok sum

/-- `runner`, with the `sum` that it leaves. -/
def runner (fuel : Nat) (param : List UInt8) : Except Trap Int := do
  runnerLoop (← atoi param) fuel 1 0

/-- `main`, with its exit status. The number tested is that of `argv[0]`. -/
def main (fuel : Nat) (argv : List (List UInt8)) : Except Trap (Int × Message) :=
  match argv with
  | [] => .error .outOfBounds
  | [program, param] => do
      let x ← atoi program
      if x < 0 then return (1, .mustBe x) else return (0, .sum (← runner fuel param))
  | program :: _ => .ok (1, .usage program)

/-- The program ends, and rejects a negative number or prints the sum up to it. -/
def Sums (argv : List (List UInt8)) (n : Int) : Prop :=
  ∃ fuel code message, main fuel argv = .ok (code, message) ∧
    (n < 0 ∧ code = 1 ∨ code = 0 ∧ message = .sum (n * (n + 1) / 2))

variable {upper i sum n x : Int} {fuel : Nat} {program param : List UInt8}

/-! ## The loop -/

theorem runnerLoop_above (above : upper < i) (fuel : Nat) : runnerLoop upper (fuel + 1) i sum = .ok sum := by
  rw [runnerLoop, if_neg (Int.not_le.mpr above)]

theorem runnerLoop_lt (small : sum < 2 ^ 31) {total : Int} (ran : runnerLoop upper fuel i sum = .ok total) :
    total < 2 ^ 31 := by
  induction fuel generalizing i sum with
  | zero => contradiction
  | succ fuel ih =>
      rw [runnerLoop] at ran
      split at ran
      · refine ih ?_ ran
        unfold wrapInt
        omega
      · cases ran
        exact small

/-- With `rest` iterations left the sum so far is that of the numbers below `i`. -/
theorem runnerLoop_sum (rest : Nat) (positive : 1 ≤ i) (most : i + rest = upper + 1) (small : upper ≤ 65535)
    (below : 2 * sum + i = i * i) : runnerLoop upper (rest + 1) i sum = .ok (upper * (upper + 1) / 2) := by
  induction rest generalizing i sum with
  | zero =>
      have last : i = upper + 1 := by omega
      rw [runnerLoop_above (by omega)]
      have double : upper * (upper + 1) = sum * 2 := by
        rw [last] at below
        linarith
      rw [double, Int.mul_ediv_cancel _ (by decide)]
  | succ rest ih =>
      have inside : i ≤ upper := by omega
      have square : (i + 1) * (i + 1) ≤ 65536 * 65536 := by nlinarith
      have next : 2 * (sum + i) + (i + 1) = (i + 1) * (i + 1) := by linarith
      have sumRange : wrapInt (sum + i) = sum + i := wrapInt_of_range (by nlinarith) (by linarith)
      have iRange : wrapInt (i + 1) = i + 1 := wrapInt_of_range (by omega) (by omega)
      rw [runnerLoop, if_pos inside, sumRange, iRange]
      exact ih (by omega) (by omega) next

/-! ## The numbers that are summed -/

theorem runnerLoop_sums_iff : (∃ fuel, runnerLoop n fuel 1 0 = .ok (n * (n + 1) / 2)) ↔ -1 ≤ n ∧ n ≤ 65535 := by
  constructor
  · rintro ⟨fuel, ran⟩
    constructor
    · by_contra less
      have product : 2 ≤ n * (n + 1) := by nlinarith
      cases fuel with
      | zero => contradiction
      | succ fuel =>
          rw [runnerLoop_above (by omega)] at ran
          have zero := Except.ok.inj ran
          omega
    · by_contra more
      have product : 65536 * 65537 ≤ n * (n + 1) := by nlinarith
      have small := runnerLoop_lt (by decide) ran
      omega
  · rintro ⟨least, most⟩
    by_cases none : n < 1
    · refine ⟨1, ?_⟩
      rw [runnerLoop_above none]
      obtain rfl | rfl : n = -1 ∨ n = 0 := by omega
      · rfl
      · rfl
    · refine ⟨n.toNat + 1, runnerLoop_sum n.toNat (Int.le_refl 1) ?_ most (by decide)⟩
      omega

theorem main_ok (tested : atoi program = .ok x) (given : atoi param = .ok n) (fuel : Nat) :
    main fuel [program, param] = if x < 0 then .ok (1, .mustBe x) else do
      return (0, .sum (← runnerLoop n fuel 1 0)) := by
  simp only [main, tested, ok_bind, runner, given]
  split <;> rfl

/-- The program is right for the number if and only if it is tested for what it is, that
is, the number of `argv[0]` is negative with it, and its sum is an `int`. -/
theorem sums_iff (program param : List UInt8) (n : Int) (given : atoi param = .ok n) :
    Sums [program, param] n ↔ ∃ x, atoi program = .ok x ∧ (x < 0 ∧ n < 0 ∨ 0 ≤ x ∧ -1 ≤ n ∧ n ≤ 65535) := by
  cases tested : atoi program with
  | error reason =>
      constructor
      · rintro ⟨fuel, code, message, ran, -⟩
        rw [main, tested] at ran
        contradiction
      · rintro ⟨x, value, -⟩
        contradiction
  | ok x =>
      have value {P : Int → Prop} : (∃ y, Except.ok x = (.ok y : Except Trap Int) ∧ P y) ↔ P x := by simp
      rw [value, ← runnerLoop_sums_iff]
      constructor
      · rintro ⟨fuel, code, message, ran, result⟩
        rw [main_ok tested given] at ran
        split at ran
        · rename_i negative
          cases ran
          exact .inl ⟨negative, (result.resolve_right fun printed => absurd printed.1 (by decide)).1⟩
        · rename_i nonnegative
          obtain ⟨total, looped, same⟩ := bind_eq_ok.mp ran
          cases same
          obtain ⟨-, printed⟩ := result.resolve_left fun rejected => absurd rejected.2 (by decide)
          rw [Message.sum.inj printed] at looped
          exact .inr ⟨Int.not_lt.mp nonnegative, fuel, looped⟩
      · rintro (⟨negative, rejected⟩ | ⟨nonnegative, fuel, looped⟩)
        · exact ⟨0, 1, .mustBe x, by rw [main_ok tested given, if_pos negative], .inl ⟨rejected, rfl⟩⟩
        · refine ⟨fuel, 0, .sum (n * (n + 1) / 2), ?_, .inr ⟨rfl, rfl⟩⟩
          rw [main_ok tested given, if_neg (Int.not_lt.mpr nonnegative), looped]
          rfl

/-- `./add` -/
def addProgram : List UInt8 := [46, 47, 97, 100, 100]

theorem sums_hundred : Sums [addProgram, [49, 48, 48]] 100 :=
  (sums_iff addProgram [49, 48, 48] 100 rfl).mpr ⟨0, rfl, .inr ⟨by decide, by decide, by decide⟩⟩

/-- `-5` is accepted. -/
theorem negative_accepted : ¬ ∀ (param : List UInt8) (n : Int), atoi param = .ok n → Sums [addProgram, param] n := by
  intro sums
  obtain ⟨fuel, code, message, ran, result⟩ := sums [45, 53] (-5) rfl
  cases fuel with
  | zero => contradiction
  | succ fuel =>
      have zero : main (fuel + 1) [addProgram, [45, 53]] = .ok (0, .sum 0) := rfl
      obtain ⟨rfl, rfl⟩ := Prod.mk.inj (Except.ok.inj (zero.symm.trans ran))
      rcases result with rejected | printed
      · exact absurd rejected.2 (by decide)
      · exact absurd printed.2 (by decide)

end SysProg.Threading.Summing
