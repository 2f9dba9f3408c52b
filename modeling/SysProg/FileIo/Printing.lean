import SysProg.Library.Block

namespace SysProg.FileIo.Printing

/-! # Copying to stdout

`print_file` of `02-file-io/cat.c`, `print_fd` of `02-file-io/echo.c` and `main`
of `04-process-management/read_fifo.c`. The results of the `read` calls are given
one by one; a result `done nr` delivers the next `nr` bytes of the input.
-/

/-- `READ_SIZE` of `cat.c` -/
def readSize : Nat := 500

/-- `BUFFER_SIZE` of `echo.c` -/
def bufferSize : Nat := 500

/-- What differs between the loops: the size of the buffer, how much `read` is
asked for, the name that `perror` is given when it fails, and what is printed at
the end of the input. -/
structure Copier where
  size : Nat
  request : Nat
  name : String
  closing : List String

/-- What the loop prints, what is printed after it, and the names that are passed to `perror`. -/
structure Outcome where
  printed : List UInt8
  closing : List String
  reported : List String

def Copier.loop (copier : Copier) : List IoResult → List UInt8 → Block UInt8 → List UInt8 → Except Trap Outcome
  | [], _, _, _ => .error .diverged
  | result :: results, rest, buffer, printed =>
      match result with
      | .done 0 => .ok { printed, closing := copier.closing, reported := [] }
      | .interrupted => copier.loop results rest buffer printed
      | .failed => .ok { printed, closing := [], reported := [copier.name] }
      | .done nr => do
          let buffer ← buffer.storeFrom 0 (rest.take nr)
          let buffer ← buffer.store nr 0
          copier.loop results (rest.drop nr) buffer (printed ++ (← buffer.cString))

def Copier.copy (copier : Copier) (results : List IoResult) (content : List UInt8) : Except Trap Outcome :=
  copier.loop results content (Block.malloc copier.size) []

def cat : Copier where
  size := readSize + 1
  request := readSize
  name := "ERROR"
  closing := []

/-- `print_file` -/
def printFile : List IoResult → List UInt8 → Except Trap Outcome := cat.copy

def echo : Copier where
  size := bufferSize + 1
  request := bufferSize
  name := "read"
  closing := ["received EOF\n"]

/-- `print_fd` -/
def printFd : List IoResult → List UInt8 → Except Trap Outcome := echo.copy

def readFifo : Copier where
  size := 64
  request := 64
  name := "read"
  closing := []

/-- `main` of `read_fifo.c` with one argument: what it returns, too. -/
def main (opens : Bool) (results : List IoResult) (content : List UInt8) : Except Trap (Int × Outcome) :=
  if opens then do
    let outcome ← readFifo.copy results content
    return (if outcome.reported = [] then 0 else 1, outcome)
  else .ok (1, { printed := [], closing := [], reported := ["open"] })

/-- The results deliver the content in pieces of at most `request` bytes, with
interruptions. -/
inductive Chunks (request : Nat) : List UInt8 → List IoResult → Prop
  | finished : Chunks request [] [.done 0]
  | interrupted {content : List UInt8} {results : List IoResult} (later : Chunks request content results) :
      Chunks request content (.interrupted :: results)
  | piece {bytes rest : List UInt8} {results : List IoResult} (some : bytes ≠ []) (most : bytes.length ≤ request)
      (later : Chunks request rest results) : Chunks request (bytes ++ rest) (.done bytes.length :: results)

/-! ## What is printed -/

variable {copier : Copier} {content bytes rest printed : List UInt8} {results : List IoResult}
  {buffer : Block UInt8} {outcome : Outcome}

theorem loop_finished : copier.loop (.done 0 :: results) rest buffer printed =
    .ok { printed, closing := copier.closing, reported := [] } := rfl

theorem loop_piece (some : bytes ≠ []) : copier.loop (.done bytes.length :: results) (bytes ++ rest) buffer printed =
    (do let buffer ← buffer.storeFrom 0 bytes
        let buffer ← buffer.store bytes.length 0
        copier.loop results rest buffer (printed ++ (← buffer.cString))) := by
  cases bytes with
  | nil => contradiction
  | cons byte bytes => simp [Copier.loop]

/-- A piece that leaves room for the terminator is printed up to its first NUL. -/
theorem loop_piece_fits (copier : Copier) (results : List IoResult) (rest printed : List UInt8) (some : bytes ≠ [])
    (room : bytes.length < buffer.length) :
    ∃ after : Block UInt8, after.length = buffer.length ∧
      copier.loop (.done bytes.length :: results) (bytes ++ rest) buffer printed =
        copier.loop results rest after (printed ++ bytes.takeWhile (· ≠ 0)) := by
  have empty : buffer.Begins [] := List.nil_prefix
  obtain ⟨filled, delivered, size, begins⟩ := empty.storeFrom bytes (by simpa using Nat.le_of_lt room)
  rw [List.nil_append] at begins
  obtain ⟨after, terminated, length, whole⟩ := begins.store (size ▸ room) 0
  refine ⟨after, length.trans size, ?_⟩
  have delivered : buffer.storeFrom 0 bytes = .ok filled := delivered
  simp only [loop_piece some, delivered, ok_bind, terminated, whole.cString]

/-- A piece that fills the buffer leaves no room for the terminator. -/
theorem loop_piece_full (some : bytes ≠ []) (full : bytes.length = buffer.length) :
    copier.loop (.done bytes.length :: results) (bytes ++ rest) buffer printed = .error .outOfBounds := by
  have empty : buffer.Begins [] := List.nil_prefix
  obtain ⟨filled, delivered, size, -⟩ := empty.storeFrom bytes (by simpa using Nat.le_of_eq full)
  have delivered : buffer.storeFrom 0 bytes = .ok filled := delivered
  have beyond := Block.store_beyond filled bytes.length 0 (Nat.le_of_eq (size.trans full.symm))
  rw [loop_piece some, delivered, ok_bind, beyond]
  rfl

/-- A run without a piece that fills the buffer prints no NUL, and what it prints
is the content if there is none in it. -/
theorem loop_prints (chunks : Chunks copier.request content results) (buffer : Block UInt8) (printed : List UInt8)
    (most : copier.request ≤ buffer.length) (room : .done buffer.length ∉ results) :
    ∃ text, copier.loop results content buffer printed =
        .ok { printed := printed ++ text, closing := copier.closing, reported := [] } ∧
      0 ∉ text ∧ (0 ∉ content → text = content) := by
  induction chunks generalizing buffer printed with
  | finished => exact ⟨[], by rw [loop_finished, List.append_nil], List.not_mem_nil, fun _ => rfl⟩
  | interrupted later ih =>
      rw [List.mem_cons, not_or] at room
      exact ih buffer printed most room.2
  | @piece bytes rest results some short later ih =>
      rw [List.mem_cons, not_or] at room
      have less : bytes.length < buffer.length := by
        apply Nat.lt_of_le_of_ne (Nat.le_trans short most)
        exact fun same => room.1 (by rw [same])
      obtain ⟨after, length, step⟩ := loop_piece_fits copier results rest printed some less
      obtain ⟨text, ran, clean, same⟩ := ih after (printed ++ bytes.takeWhile (· ≠ 0)) (length ▸ most) (length ▸ room.2)
      refine ⟨bytes.takeWhile (· ≠ 0) ++ text, ?_, ?_, fun free => ?_⟩
      · rw [step, ran, List.append_assoc]
      · rw [List.mem_append, not_or]
        refine ⟨fun member => ?_, clean⟩
        simpa using List.mem_takeWhile_imp member
      · rw [List.mem_append, not_or] at free
        rw [Block.takeWhile_free free.1, same free.2]

theorem loop_overruns (chunks : Chunks copier.request content results) (most : copier.request ≤ buffer.length)
    (full : .done buffer.length ∈ results) (nonempty : 0 < buffer.length) :
    copier.loop results content buffer printed = .error .outOfBounds := by
  induction chunks generalizing buffer printed with
  | finished =>
      rw [List.mem_singleton, IoResult.done.injEq] at full
      omega
  | interrupted later ih =>
      rw [List.mem_cons, or_iff_right (by simp)] at full
      exact ih most full nonempty
  | @piece bytes rest results some short later ih =>
      by_cases here : bytes.length = buffer.length
      · exact loop_piece_full some here
      · rw [List.mem_cons, or_iff_right (by simpa using Ne.symm here)] at full
        have less : bytes.length < buffer.length := Nat.lt_of_le_of_ne (Nat.le_trans short most) here
        obtain ⟨after, length, step⟩ := loop_piece_fits copier results rest printed some less
        rw [step]
        exact ih (length ▸ most) (length ▸ full) (length ▸ nonempty)

/-- A run ends, with the content as what it has printed. -/
def Prints (content : List UInt8) (run : Except Trap Outcome) : Prop :=
  ∃ outcome, run = .ok outcome ∧ outcome.printed = content ∧ outcome.reported = []

theorem copy_prints_iff (most : copier.request ≤ copier.size) (nonempty : 0 < copier.size)
    (chunks : Chunks copier.request content results) :
    Prints content (copier.copy results content) ↔ 0 ∉ content ∧ .done copier.size ∉ results := by
  have length : (Block.malloc copier.size : Block UInt8).length = copier.size := Block.length_malloc _
  by_cases full : .done copier.size ∈ results
  · have overrun : copier.copy results content = .error .outOfBounds :=
      loop_overruns chunks (by rwa [length]) (by rwa [length]) (by rwa [length])
    simp [Prints, overrun, full]
  · obtain ⟨text, ran, clean, same⟩ := loop_prints chunks (Block.malloc copier.size) []
      (by rwa [length]) (by rwa [length])
    constructor
    · rintro ⟨outcome, returned, printed, -⟩
      rw [Copier.copy, ran] at returned
      cases returned
      subst printed
      exact ⟨clean, full⟩
    · rintro ⟨free, -⟩
      exact ⟨_, ran, same free, rfl⟩

theorem main_prints_iff (chunks : Chunks 64 content results) :
    Prints content ((main true results content).map Prod.snd) ↔ 0 ∉ content ∧ .done 64 ∉ results := by
  have same : (main true results content).map Prod.snd = readFifo.copy results content := by
    cases copied : readFifo.copy results content with
    | error reason => simp [main, copied, bind, Except.bind, Except.map]
    | ok outcome => simp [main, copied, Except.map]
  rw [same]
  exact copy_prints_iff (Nat.le_refl 64) (by decide) chunks

theorem Chunks.length_le {request count : Nat} (chunks : Chunks request content results)
    (member : .done count ∈ results) : count ≤ request := by
  induction chunks with
  | finished =>
      rw [List.mem_singleton, IoResult.done.injEq] at member
      omega
  | interrupted later ih =>
      rw [List.mem_cons, or_iff_right (by simp)] at member
      exact ih member
  | piece some short later ih =>
      rw [List.mem_cons, IoResult.done.injEq] at member
      rcases member with rfl | member
      · exact short
      · exact ih member

/-- A buffer with a byte to spare for the terminator. -/
theorem copy_prints_iff_of_spare (spare : copier.size = copier.request + 1)
    (chunks : Chunks copier.request content results) : Prints content (copier.copy results content) ↔ 0 ∉ content := by
  rw [copy_prints_iff (by omega) (by omega) chunks, and_iff_left]
  intro member
  have := chunks.length_le member
  omega

/-- Whatever the pieces, the content is printed if and only if it has no NUL in it,
and in `read_fifo.c` no piece fills the buffer. -/
theorem prints_content_iff (content : List UInt8) (first second : List IoResult) :
    (Chunks readSize content first → Chunks readSize content second →
      (Prints content (printFile first content) ∧ Prints content (printFile second content) ↔ 0 ∉ content)) ∧
    (Chunks bufferSize content first → Chunks bufferSize content second →
      (Prints content (printFd first content) ∧ Prints content (printFd second content) ↔ 0 ∉ content)) ∧
    (Chunks 64 content first → Chunks 64 content second →
      (Prints content ((main true first content).map Prod.snd) ∧
        Prints content ((main true second content).map Prod.snd) ↔
          0 ∉ content ∧ .done 64 ∉ first ∧ .done 64 ∉ second)) := by
  refine ⟨fun one two => ?_, fun one two => ?_, fun one two => ?_⟩
  · rw [printFile, copy_prints_iff_of_spare rfl one, copy_prints_iff_of_spare rfl two, and_self_iff]
  · rw [printFd, copy_prints_iff_of_spare rfl one, copy_prints_iff_of_spare rfl two, and_self_iff]
  · rw [main_prints_iff one, main_prints_iff two]
    exact and_and_left.symm

theorem prints_content_two_bytes :
    let whole := [IoResult.done 2, .done 0]
    let pieces := [IoResult.done 1, .interrupted, .done 1, .done 0]
    (Prints [97, 98] (printFile whole [97, 98]) ∧ Prints [97, 98] (printFile pieces [97, 98])) ∧
    (Prints [97, 98] (printFd whole [97, 98]) ∧ Prints [97, 98] (printFd pieces [97, 98])) ∧
    (Prints [97, 98] ((main true whole [97, 98]).map Prod.snd) ∧
      Prints [97, 98] ((main true pieces [97, 98]).map Prod.snd)) := by
  intro whole pieces
  have atOnce {request : Nat} (most : 2 ≤ request) : Chunks request [97, 98] whole :=
    .piece (List.cons_ne_nil 97 [98]) most .finished
  have apart {request : Nat} (most : 1 ≤ request) : Chunks request [97, 98] pieces :=
    .piece (List.cons_ne_nil 97 []) most (.interrupted (.piece (List.cons_ne_nil 98 []) most .finished))
  obtain ⟨file, fd, fifo⟩ := prints_content_iff [97, 98] whole pieces
  exact ⟨(file (atOnce (by decide)) (apart (by decide))).mpr (by decide),
    (fd (atOnce (by decide)) (apart (by decide))).mpr (by decide),
    (fifo (atOnce (by decide)) (apart (by decide))).mpr (by decide)⟩

/-- A NUL ends what is printed of its piece, and a piece of 64 bytes overruns the
buffer of `read_fifo.c`. -/
theorem nul_not_printed_and_full_buffer_overrun :
    (¬ ∀ (content : List UInt8) (first second : List IoResult),
      Chunks readSize content first → Chunks readSize content second →
        Prints content (printFile first content) ∧ Prints content (printFile second content)) ∧
    ¬ ∀ (content : List UInt8) (first second : List IoResult),
      Chunks 64 content first → Chunks 64 content second →
        Prints content ((main true first content).map Prod.snd) ∧
          Prints content ((main true second content).map Prod.snd) := by
  constructor
  · intro prints
    have chunks : Chunks readSize [0] [.done 1, .done 0] := .piece (List.cons_ne_nil 0 []) (by decide) .finished
    have free := (copy_prints_iff_of_spare rfl chunks).mp (prints [0] _ _ chunks chunks).1
    exact free List.mem_cons_self
  · intro prints
    let content : List UInt8 := List.replicate 64 97
    have chunks : Chunks 64 content [.done 64, .done 0] :=
      .piece (List.cons_ne_nil 97 (List.replicate 63 97)) (by decide) .finished
    have room := ((main_prints_iff chunks).mp (prints content _ _ chunks chunks).1).2
    exact room List.mem_cons_self

end SysProg.FileIo.Printing
