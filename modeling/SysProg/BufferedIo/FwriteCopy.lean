import SysProg.Library.Block
import Mathlib.Data.List.TakeDrop

namespace SysProg.BufferedIo.FwriteCopy

/-! # `03-buffered-io/fwrite_copy.c`

`main` with two names, from the opening of the files to its return. `buf` is
only written after a call of `fread` that has filled it, and so it is the item
that this call returns. The loop takes fuel; see `main` for how much it is given.
-/

/-- `BUF_SIZE` -/
def bufSize : Nat := 512

/-- The outcome of each call, those of `fread` and `fwrite` by their number. -/
structure Host where
  srcOpens : Bool
  dstOpens : Bool
  fdopens : Bool
  reads : Nat → Bool
  writes : Nat → Bool
  srcCloses : Bool
  dstCloses : Bool

/-- A stream that is read: what is left of the file, and the indicators. -/
structure SrcStream where
  rest : List UInt8
  eof : Bool
  error : Bool

/-- What `main` returns and prints, the names that it passes to `perror`, and the
new file, if there is one. -/
structure Outcome where
  code : Int
  printed : List String
  reported : List String
  dst : Option (List UInt8)

/-- `fread(buf, size, 1, stream)`, with the item if it returns `1`. An item that
is cut short by the end of the file has been read, too. -/
def fread (reads : Bool) (size : Nat) (stream : SrcStream) : Option (List UInt8) × SrcStream :=
  if reads then
    if size ≤ stream.rest.length then (some (stream.rest.take size), { stream with rest := stream.rest.drop size })
    else (none, { stream with rest := [], eof := true })
  else (none, { stream with error := true })

/-- The loop: the streams after it, or `none` where `fwrite` fails. -/
def copyLoop (host : Host) : Nat → Nat → SrcStream → List UInt8 → Except Trap (Option SrcStream × List UInt8)
  | 0, _, _, _ => .error .diverged
  | fuel + 1, call, src, dst =>
      match fread (host.reads call) bufSize src with
      | (some buf, src) =>
          if host.writes call then copyLoop host fuel (call + 1) src (dst ++ buf) else .ok (none, dst)
      | (none, src) => .ok (some src, dst)

/-- `main`. Every iteration but the last reads at least one byte. -/
def main (host : Host) (file : List UInt8) : Except Trap Outcome :=
  if ¬ host.srcOpens then .ok { code := 1, printed := [], reported := ["fopen"], dst := none }
  else if ¬ host.dstOpens then .ok { code := 1, printed := [], reported := ["open"], dst := none }
  else if ¬ host.fdopens then .ok { code := 1, printed := [], reported := ["fopen"], dst := some [] }
  else do
    match ← copyLoop host (file.length + 1) 0 { rest := file, eof := false, error := false } [] with
    | (none, dst) => return { code := 1, printed := [], reported := ["fwrite"], dst := some dst }
    | (some src, dst) =>
        if src.error then return { code := 1, printed := [], reported := ["fread"], dst := some dst }
        let printed := ["received EOF\n"]
        if ¬ host.srcCloses then return { code := 1, printed, reported := ["fclose"], dst := some dst }
        if ¬ host.dstCloses then return { code := 1, printed, reported := ["fclose"], dst := some dst }
        return { code := 0, printed, reported := [], dst := some dst }

/-! ## What is copied -/

/-- Every call succeeds. -/
structure Host.Succeeds (host : Host) : Prop where
  srcOpens : host.srcOpens = true
  dstOpens : host.dstOpens = true
  fdopens : host.fdopens = true
  reads : ∀ call, host.reads call = true
  writes : ∀ call, host.writes call = true
  srcCloses : host.srcCloses = true
  dstCloses : host.dstCloses = true

variable {host : Host}

/-- The items of the file that are whole. -/
def wholeItems (file : List UInt8) : List UInt8 := file.take (file.length / bufSize * bufSize)

theorem wholeItems_append {item rest : List UInt8} (size : item.length = bufSize) :
    wholeItems (item ++ rest) = item ++ wholeItems rest := by
  have count : (item ++ rest).length / bufSize * bufSize = item.length + rest.length / bufSize * bufSize := by
    rw [List.length_append, size, Nat.add_div_left _ (by decide), Nat.succ_mul, Nat.add_comm]
  rw [wholeItems, count, List.take_append, List.take_of_length_le (Nat.le_add_right _ _), Nat.add_sub_cancel_left]
  rfl

theorem wholeItems_of_short {file : List UInt8} (short : file.length < bufSize) : wholeItems file = [] := by
  rw [wholeItems, Nat.div_eq_of_lt short, Nat.zero_mul, List.take_zero]

theorem wholeItems_eq_iff (file : List UInt8) : wholeItems file = file ↔ bufSize ∣ file.length := by
  rw [wholeItems, List.take_eq_self_iff, Nat.dvd_iff_div_mul_eq]
  have less := Nat.div_mul_le_self file.length bufSize
  omega

theorem copyLoop_copies (succeeds : host.Succeeds) {fuel : Nat} (call : Nat) (file dst : List UInt8)
    (enough : file.length < fuel) :
    copyLoop host fuel call { rest := file, eof := false, error := false } dst =
      .ok (some { rest := [], eof := true, error := false }, dst ++ wholeItems file) := by
  induction fuel generalizing call file dst with
  | zero => omega
  | succ fuel ih =>
      by_cases whole : bufSize ≤ file.length
      · have size : (file.take bufSize).length = bufSize := by
          rw [List.length_take]
          omega
        have less : (file.drop bufSize).length < fuel := by
          have positive : 0 < bufSize := by decide
          rw [List.length_drop]
          omega
        have split : wholeItems (file.take bufSize ++ file.drop bufSize) = _ := wholeItems_append size
        rw [List.take_append_drop] at split
        simp only [copyLoop, fread, succeeds.reads, succeeds.writes, whole, if_true]
        rw [ih (call + 1) (file.drop bufSize) (dst ++ file.take bufSize) less, split, List.append_assoc]
      · simp only [copyLoop, fread, succeeds.reads, whole, if_true, if_false]
        rw [wholeItems_of_short (Nat.not_le.mp whole), List.append_nil]

theorem main_eq (succeeds : host.Succeeds) (file : List UInt8) :
    main host file = .ok { code := 0, printed := ["received EOF\n"], reported := [], dst := some (wholeItems file) } := by
  have copied := copyLoop_copies succeeds 0 file [] (Nat.lt_succ_self file.length)
  simp [main, succeeds.srcOpens, succeeds.dstOpens, succeeds.fdopens, succeeds.srcCloses, succeeds.dstCloses, copied]

/-- The copy is the file if and only if the length of the file is a multiple of
the size of the buffer: what is left over at the end is not written. -/
theorem copies_exactly_iff (host : Host) (succeeds : host.Succeeds) (file : List UInt8) :
    (∃ outcome, main host file = .ok outcome ∧ outcome.dst = some file) ↔ bufSize ∣ file.length := by
  rw [main_eq succeeds, ← wholeItems_eq_iff]
  simp

/-- No call fails. -/
def allSucceed : Host where
  srcOpens := true
  dstOpens := true
  fdopens := true
  reads := fun _ => true
  writes := fun _ => true
  srcCloses := true
  dstCloses := true

theorem allSucceed_succeeds : allSucceed.Succeeds := ⟨rfl, rfl, rfl, fun _ => rfl, fun _ => rfl, rfl, rfl⟩

theorem copies_exactly_one_block :
    ∃ outcome, main allSucceed (List.replicate 512 7) = .ok outcome ∧ outcome.dst = some (List.replicate 512 7) :=
  (copies_exactly_iff allSucceed allSucceed_succeeds (List.replicate 512 7)).mpr
    (by rw [List.length_replicate]; decide)

/-- The copy of a file of one byte is empty. -/
theorem one_byte_not_copied : ¬ ∀ (host : Host) (file : List UInt8), host.Succeeds →
    ∃ outcome, main host file = .ok outcome ∧ outcome.dst = some file := by
  intro copies
  obtain ⟨outcome, ran, same⟩ := copies allSucceed [7] allSucceed_succeeds
  cases ran
  exact absurd same (by decide)

end SysProg.BufferedIo.FwriteCopy
