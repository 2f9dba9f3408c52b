import Mathlib.Algebra.Order.Ring.Nat
import SysProg.Library.Block

namespace SysProg.BufferedIo.FgetcBuffer

/-! # `03-buffered-io/fgetc_buffer.c`

`fgetc` returns the bytes of the file and then `EOF`, at its end or for an error; the
allocations succeed. `copied` counts the bytes that have been moved to a larger buffer.
-/

/-- `INIT_BUF` -/
def initBuf : Nat := 32

/-- The loop that copies to `tmp`, from `i` on. -/
def copyLoop : Nat → Nat → Block UInt8 → Block UInt8 → Except Trap (Block UInt8)
  | 0, _, _, tmp => .ok tmp
  | count + 1, i, buf, tmp => do
      let tmp ← tmp.store i (← buf.load i)
      copyLoop count (i + 1) buf tmp

structure Buffer where
  cap : Int
  buf : Block UInt8
  len : Int
  copied : Nat

def start : Buffer where
  cap := initBuf
  buf := Block.malloc (initBuf + 1)
  len := 0
  copied := 0

/-- What the test for a full buffer does. -/
def Buffer.grow (buffer : Buffer) : Except Trap Buffer :=
  if buffer.len = buffer.cap then do
    let tmp ← copyLoop buffer.cap.toNat 0 buffer.buf (Block.malloc (buffer.cap * 2 + 1).toNat)
    return { buffer with cap := wrapInt (buffer.cap * 2), buf := tmp, copied := buffer.copied + buffer.cap.toNat }
  else .ok buffer

def Buffer.append (buffer : Buffer) (c : UInt8) : Except Trap Buffer := do
  let buf ← buffer.buf.store buffer.len c
  return { buffer with buf, len := wrapInt (buffer.len + 1) }

/-- The loop of `main`. -/
def readLoop : List UInt8 → Buffer → Except Trap Buffer
  | [], buffer => .ok buffer
  | c :: rest, buffer => do
      let buffer ← buffer.grow
      let buffer ← buffer.append c
      readLoop rest buffer

inductive Message where
  | usage
  | printed (text : List UInt8)
  | perror (name : String)
deriving DecidableEq

/-- The argument's file, where `fopen` succeeds, and whether it ends with an error. -/
structure File where
  content : List UInt8
  error : Bool

/-- The rest of `main`, with the loop's copies. -/
def main (fopen : String → Option File) (argv : List String) : Except Trap (Int × List Message × Nat) :=
  match argv with
  | [_, path] =>
      match fopen path with
      | none => .ok (1, [.perror "fopen"], 0)
      | some file => do
          let buffer ← readLoop file.content start
          if file.error then return (1, [.perror "fgetc"], buffer.copied)
          else
            let buf ← buffer.buf.store buffer.len 0
            return (0, [.printed (← buf.cString)], buffer.copied)
  | _ => .ok (1, [.usage], 0)

/-! ## The buffer -/

variable {values received : List UInt8} {buf tmp : Block UInt8} {buffer : Buffer}

theorem copyLoop_copies (begins : buf.Begins values) {count i : Nat} (all : i + count = values.length)
    (room : values.length ≤ tmp.length) (moved : tmp.Begins (values.take i)) :
    ∃ after, copyLoop count i buf tmp = .ok after ∧ after.length = tmp.length ∧ after.Begins values := by
  induction count generalizing i tmp with
  | zero =>
      rw [List.take_of_length_le (by omega)] at moved
      exact ⟨tmp, rfl, rfl, moved⟩
  | succ count ih =>
      have inside : i < values.length := by omega
      have place : (values.take i).length = i := by rw [List.length_take]; omega
      obtain ⟨next, stored, length, more⟩ := moved.store (by omega) values[i]
      rw [place] at stored
      rw [← List.take_succ_eq_append_getElem inside] at more
      obtain ⟨after, ran, size, whole⟩ := ih (by omega) (length ▸ room) more
      refine ⟨after, ?_, size.trans length, whole⟩
      rw [copyLoop, begins.load inside, ok_bind, stored, ok_bind]
      exact ran

/-- The bytes so far are in a buffer with one more place, whose capacity has been doubled only
where they needed it. -/
structure Holds (received : List UInt8) (buffer : Buffer) : Prop where
  count : buffer.len = received.length
  begins : buffer.buf.Begins received
  block : ∃ exponent, 5 ≤ exponent ∧ exponent ≤ 30 ∧ buffer.cap = ((2 ^ exponent : Nat) : Int) ∧
    buffer.buf.length = 2 ^ exponent + 1 ∧ received.length ≤ 2 ^ exponent ∧ buffer.copied + initBuf = 2 ^ exponent ∧
    (exponent = 5 ∨ 2 ^ exponent < 2 * received.length)

theorem holds_start : Holds [] start where
  count := rfl
  begins := List.nil_prefix
  block := ⟨5, by decide, by decide, rfl, rfl, by decide, rfl, .inl rfl⟩

theorem Holds.append (holds : Holds received buffer) (c : UInt8) (short : received.length < 2 ^ 30) :
    ∃ grown next, buffer.grow = .ok grown ∧ grown.append c = .ok next ∧ Holds (received ++ [c]) next := by
  obtain ⟨count, begins, exponent, least, most, capacity, size, fits, copies, tight⟩ := holds
  have total : (received ++ [c]).length = received.length + 1 := by rw [List.length_append, List.length_singleton]
  have counted : wrapInt ((received.length : Int) + 1) = ((received ++ [c]).length : Int) :=
    wrapInt_length_concat received c (by omega)
  by_cases full : buffer.len = buffer.cap
  · have same : received.length = 2 ^ exponent := by omega
    have small : exponent < 30 := by
      by_contra large
      rw [show exponent = 30 by omega] at same
      omega
    have double : wrapInt (buffer.cap * 2) = ((2 ^ (exponent + 1) : Nat) : Int) := by
      rw [capacity, Int.natCast_pow]
      exact wrapInt_double small
    have larger : (buffer.cap * 2 + 1).toNat = 2 ^ (exponent + 1) + 1 := by
      rw [capacity, Nat.pow_succ]
      omega
    have cap : buffer.cap.toNat = received.length := by omega
    have pow : 2 ^ (exponent + 1) = 2 ^ exponent * 2 := Nat.pow_succ ..
    have positive : 0 < 2 ^ exponent := Nat.two_pow_pos exponent
    have fresh : (Block.malloc (2 ^ (exponent + 1) + 1) : Block UInt8).length = 2 ^ (exponent + 1) + 1 := Block.length_malloc _
    obtain ⟨tmp, ran, length, moved⟩ :=
      copyLoop_copies begins (Nat.zero_add received.length) (by rw [fresh]; omega) List.nil_prefix
    rw [fresh] at length
    obtain ⟨next, stored, kept, more⟩ := moved.store (by omega) c
    refine ⟨{ cap := wrapInt (buffer.cap * 2), buf := tmp, len := buffer.len, copied := buffer.copied + buffer.cap.toNat },
      { cap := wrapInt (buffer.cap * 2), buf := next, len := wrapInt (buffer.len + 1),
        copied := buffer.copied + buffer.cap.toNat }, ?_, ?_, ?_⟩
    · rw [Buffer.grow, if_pos full, larger, cap, ran]
      rfl
    · rw [← count] at stored
      rw [Buffer.append, stored]
      rfl
    · refine ⟨by rw [count, counted], more, exponent + 1, by omega, small, double, by rw [kept, length], ?_, ?_, .inr ?_⟩
      all_goals simp only [total]
      all_goals omega
  · obtain ⟨next, stored, kept, more⟩ := begins.store (by omega) c
    refine ⟨buffer, { buffer with buf := next, len := wrapInt (buffer.len + 1) }, by rw [Buffer.grow, if_neg full], ?_, ?_⟩
    · rw [← count] at stored
      rw [Buffer.append, stored]
      rfl
    · refine ⟨by rw [count, counted], more, exponent, least, most, capacity, by rw [kept, size], ?_, copies, ?_⟩
      all_goals rw [total]
      · omega
      · omega

theorem Holds.reads {content : List UInt8} (holds : Holds received buffer) (short : (received ++ content).length ≤ 2 ^ 30) :
    ∃ final, readLoop content buffer = .ok final ∧ Holds (received ++ content) final := by
  induction content generalizing received buffer with
  | nil => exact ⟨buffer, rfl, by rwa [List.append_nil]⟩
  | cons c content ih =>
      have less : received.length < 2 ^ 30 := by
        rw [List.length_append, List.length_cons] at short
        omega
      obtain ⟨grown, next, grew, appended, more⟩ := holds.append c less
      rw [List.append_cons] at short ⊢
      obtain ⟨final, ran, whole⟩ := ih more short
      refine ⟨final, ?_, whole⟩
      rw [readLoop, grew, ok_bind, appended, ok_bind]
      exact ran

/-- A file of up to `2 ^ 30` bytes is printed up to its first NUL, with every byte inside the buffer; where reading it
has failed nothing is printed. No more than twice as many bytes have been copied as the file has. -/
theorem main_prints (fopen : String → Option File) (program path : String) (file : File) (found : fopen path = some file)
    (short : file.content.length ≤ 2 ^ 30) :
    ∃ copied, copied ≤ 2 * file.content.length ∧ main fopen [program, path] = .ok
      (if file.error then (1, [.perror "fgetc"], copied) else (0, [.printed (file.content.takeWhile (· ≠ 0))], copied)) := by
  obtain ⟨final, ran, whole⟩ := holds_start.reads (by rwa [List.nil_append])
  rw [List.nil_append] at whole
  obtain ⟨count, begins, exponent, least, most, capacity, size, fits, copies, tight⟩ := whole
  refine ⟨final.copied, ?_, ?_⟩
  · rw [initBuf] at copies
    rcases tight with five | twice
    · rw [five] at copies
      omega
    · omega
  · simp only [main, found, ran, ok_bind]
    cases file.error with
    | true => rfl
    | false =>
        obtain ⟨ended, stored, -, string⟩ := begins.store (by omega) 0
        rw [← count] at stored
        simp only [stored, ok_bind, string.cString]
        rfl

/-- Forty bytes, with a NUL. -/
theorem main_prints_forty :
    let file : File := { content := List.replicate 39 97 ++ [0], error := false }
    ∃ copied, copied ≤ 80 ∧ main (fun _ => some file) ["fgetc_buffer", "a"] =
      .ok (0, [.printed (List.replicate 39 97)], copied) := by
  intro file
  exact main_prints (fun _ => some file) "fgetc_buffer" "a" file rfl (by decide)

end SysProg.BufferedIo.FgetcBuffer
