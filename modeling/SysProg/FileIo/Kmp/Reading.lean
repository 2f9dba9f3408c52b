import SysProg.Library.Block

namespace SysProg.FileIo.Kmp

/-! # `read_str_buf` of `02-file-io/kmp.c`

The results of the `read` calls are given one by one; a result `done r` delivers
the next `r` bytes of the file. Allocations of a possible size succeed.
-/

/-- `READ_SIZE` -/
def readSize : Nat := 512

/-- `EINTR` -/
def eintr : Int := 4

/-- `capacity`, `n` and `sb->text`, which is `none` after `realloc` has returned `NULL`. -/
structure Buffer where
  capacity : Int
  n : Int
  text : Option (Block UInt8)

/-- A call of `read` or the store of a terminator, with `n` and `capacity` at the
time and the size of the block. -/
inductive Access where
  | read (n capacity : Int) (size : Nat)
  | terminator (n capacity : Int) (size : Nat)
deriving DecidableEq, Repr

/-- The value that `read_str_buf` returns and what it has left in `sb`, where
`none` is a member that has not been set. -/
structure ReadOutcome where
  code : Int
  text : Option (Block UInt8)
  length : Option Int
  accesses : List Access

/-- The rest of an iteration after `read` has returned `r`, with the bytes that it delivered. -/
def Buffer.receive (buffer : Buffer) (text : Block UInt8) (r : Nat) (bytes : List UInt8) : Except Trap Buffer := do
  let text ← text.storeFrom buffer.n bytes
  let n := wrapInt (buffer.n + r)
  let text ← text.store n 0
  if buffer.capacity < wrapInt (n + readSize) then
    let capacity := wrapInt (buffer.capacity * 2)
    return { capacity, n, text := text.realloc (wrapInt (capacity + 1)) }
  else return { capacity := buffer.capacity, n, text := some text }

/-- The loop of `read_str_buf`, and what follows it. The test for `EINTR` looks
at `r`, which is `-1` there. -/
def readLoop (closes : Bool) : List IoResult → List UInt8 → Buffer → List Access → Except Trap ReadOutcome
  | [], _, _, _ => .error .diverged
  | result :: results, rest, buffer, accesses =>
      match buffer.text with
      | none => .error .outOfBounds
      | some text =>
          let accesses := accesses ++ [.read buffer.n buffer.capacity text.length]
          match result with
          | .done 0 => .ok { code := if closes then 0 else -1, text := some text, length := some buffer.n, accesses }
          | .done r => do
              let after ← buffer.receive text r (rest.take r)
              readLoop closes results (rest.drop r) after
                (accesses ++ [.terminator after.n buffer.capacity text.length])
          | .interrupted | .failed =>
              if (-1 : Int) = eintr then readLoop closes results rest buffer accesses
              else .ok { code := -1, text := some text, length := none, accesses }

/-- `read_str_buf`, with the bytes of the file if it can be opened. -/
def readStrBuf (file : Option (List UInt8)) (closes : Bool) (results : List IoResult) : Except Trap ReadOutcome :=
  match file with
  | none => .ok { code := -1, text := none, length := none, accesses := [] }
  | some bytes =>
      readLoop closes results bytes
        { capacity := readSize, n := 0, text := some (Block.malloc (readSize + 1)) } []

/-- The results deliver the file, in pieces of at most `READ_SIZE` bytes. -/
inductive Delivers : List UInt8 → List IoResult → Prop
  | finished : Delivers [] [.done 0]
  | piece {bytes rest : List UInt8} {results : List IoResult} (some : bytes ≠ []) (most : bytes.length ≤ readSize)
      (later : Delivers rest results) : Delivers (bytes ++ rest) (.done bytes.length :: results)

/-- The access is inside the `capacity + 1` bytes of the block, and a `read` leaves
room for the terminator. -/
def Access.Inside : Access → Prop
  | .read n capacity size => 0 ≤ n ∧ n + readSize ≤ capacity ∧ size = capacity + 1
  | .terminator n capacity size => 0 ≤ n ∧ n ≤ capacity ∧ size = capacity + 1

end SysProg.FileIo.Kmp
