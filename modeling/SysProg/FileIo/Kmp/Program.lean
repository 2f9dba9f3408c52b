import SysProg.FileIo.Kmp.Output
import SysProg.FileIo.Kmp.Reading.Interrupted

namespace SysProg.FileIo.Kmp

/-! # `main` of `02-file-io/kmp.c` -/

/-- What the operating system does for one run: the bytes behind the path if it
can be opened, the results of `read`, whether `close` succeeds, and the host of
`OUT_FILE`. -/
structure System where
  file : CString → Option (List UInt8)
  results : List IoResult
  closes : Bool
  host : Host

/-- `main`, with the exit status and what it leaves in `OUT_FILE`. -/
def main (system : System) (fuel : Nat) (argv : List CString) (out : Output) : Except Trap (Int × Output) :=
  match argv with
  | [_, path, pattern] => do
      let outcome ← readStrBuf (system.file path) system.closes system.results
      if outcome.code = -1 then return (1, out)
      match outcome.text, outcome.length with
      | some text, some length => return (0, ← find system.host fuel ⟨text, length.toNat⟩ pattern out)
      | _, _ => .error .indeterminate
  | _ => .ok (1, out)

/-- A call of `read` fails, or is interrupted, after some pieces of the file. -/
inductive Breaks : List UInt8 → List IoResult → Prop
  | here {rest : List UInt8} {result : IoResult} {results : List IoResult}
      (broken : result = .failed ∨ result = .interrupted) : Breaks rest (result :: results)
  | piece {bytes rest : List UInt8} {results : List IoResult} (some : bytes ≠ []) (most : bytes.length ≤ readSize)
      (later : Breaks rest results) : Breaks (bytes ++ rest) (.done bytes.length :: results)

variable {received file : List UInt8} {buffer : Buffer} {text : Block UInt8} {results : List IoResult}
  {accesses : List Access}

theorem Breaks.readLoop {closes : Bool} (breaks : Breaks file results) (filled : Filled received buffer text)
    (short : (received ++ file).length ≤ mostRead) :
    ∃ outcome, readLoop closes results file buffer accesses = .ok outcome ∧ outcome.code = -1 := by
  induction breaks generalizing received buffer text accesses with
  | here broken =>
      obtain rfl | rfl := broken
      · simp only [Kmp.readLoop, filled.block]
        exact ⟨_, rfl, rfl⟩
      · exact ⟨_, readLoop_interrupted filled.block, rfl⟩
  | @piece bytes rest results nonempty most later ih =>
      rw [← List.append_assoc] at short
      rcases filled.piece nonempty most with ⟨-, after, next, grown, goes⟩ | ⟨beyond, -⟩
      · obtain ⟨more, same⟩ := goes results rest accesses
        rw [same]
        exact ih grown short
      · rw [List.length_append] at short
        omega

theorem Delivers.readLoop_unclosed (delivers : Delivers file results) (filled : Filled received buffer text)
    (short : (received ++ file).length ≤ mostRead) :
    ∃ outcome, Kmp.readLoop false results file buffer accesses = .ok outcome ∧ outcome.code = -1 := by
  induction delivers generalizing received buffer text accesses with
  | finished =>
      exact ⟨_, readLoop_finished filled.block, rfl⟩
  | @piece bytes rest results nonempty most later ih =>
      rw [← List.append_assoc] at short
      rcases filled.piece nonempty most with ⟨-, after, next, grown, goes⟩ | ⟨beyond, -⟩
      · obtain ⟨more, same⟩ := goes results rest accesses
        rw [same]
        exact ih grown short
      · rw [List.length_append] at short
        omega

theorem main_fails {system : System} {fuel : Nat} {name path pattern : CString} {out : Output} {outcome : ReadOutcome}
    (ran : readStrBuf (system.file path) system.closes system.results = .ok outcome) (failed : outcome.code = -1) :
    main system fuel [name, path, pattern] out = .ok (1, out) := by
  simp only [main, ran, ok_bind, failed, if_true]
  rfl

/-- Whatever the sizes of the reads, a run whose reads and `close` succeed, with an output file that takes
all that is written, exits with 0 and leaves as many lines as naive comparison finds occurrences, or the file
as it was if the pattern is longer than the text; a run in which a read or `close` does not succeed exits
with 1 and leaves the file as it was. -/
theorem main_reports (system : System) (complete : system.host.Complete) (name path pattern : CString)
    (text previous : List UInt8) (opened : system.file path = some text) (short : text.length < 2 ^ 30 - 512)
    (nonempty : pattern.bytes ≠ []) (fuel : Nat) (enough : pattern.strlen + 2 ≤ fuel) :
    (Delivers text system.results ∧ system.closes = true → ∃ after,
      main system fuel [name, path, pattern] (.previous previous) = .ok (0, after) ∧
        after.file = if pattern.strlen ≤ text.length then matchLines text pattern else previous) ∧
    (Breaks text system.results ∨ Delivers text system.results ∧ system.closes = false →
      main system fuel [name, path, pattern] (.previous previous) = .ok (1, .previous previous)) := by
  have fits : ([] ++ text).length ≤ mostRead := Nat.le_of_lt short
  constructor
  · rintro ⟨delivers, closes⟩
    obtain ⟨outcome, ran, holds, -⟩ := delivers.readStrBuf short
    obtain ⟨block, held, spare, begins⟩ := holds.text
    have searched : ∃ after, find system.host fuel ⟨block, text.length⟩ pattern (.previous previous) = .ok after ∧
        after.file = if pattern.strlen ≤ text.length then matchLines text pattern else previous := by
      rw [← begins]
      split
      · exact leaves_matchLines spare complete nonempty enough ‹_› previous
      · exact (leaves_previous (Nat.lt_of_not_le ‹_›) previous previous).mpr rfl
    obtain ⟨after, found, file⟩ := searched
    have code : outcome.code ≠ -1 := by
      rw [holds.code]
      decide
    refine ⟨after, ?_, file⟩
    simp only [main, opened, closes, ran, ok_bind, code, if_false, held, holds.length, Int.toNat_natCast, found]
    rfl
  · rintro (breaks | ⟨delivers, unclosed⟩)
    · obtain ⟨outcome, ran, failed⟩ := breaks.readLoop filled_start fits
      exact main_fails (by rw [opened]; exact ran) failed
    · obtain ⟨outcome, ran, failed⟩ := delivers.readLoop_unclosed filled_start fits
      exact main_fails (by rw [opened, unclosed]; exact ran) failed

theorem main_reports_overlap : ∃ after,
    main ⟨fun _ => some [97, 98, 97, 98, 97], [.done 2, .done 3, .done 0], true, allWritten⟩ 5
      [⟨[107], by decide⟩, ⟨[102], by decide⟩, ⟨[97, 98, 97], by decide⟩] (.previous [1]) = .ok (0, after) ∧
      after.file = matchLines [97, 98, 97, 98, 97] ⟨[97, 98, 97], by decide⟩ :=
  (main_reports ⟨fun _ => some [97, 98, 97, 98, 97], [.done 2, .done 3, .done 0], true, allWritten⟩
    ⟨rfl, fun _ _ => rfl⟩ _ _ _ _ [1] rfl (by decide) (by decide) 5 (by decide)).1
    ⟨@Delivers.piece [97, 98] [97, 98, 97] _ (by decide) (by decide)
      (@Delivers.piece [97, 98, 97] [] _ (by decide) (by decide) .finished), rfl⟩

end SysProg.FileIo.Kmp
