import SysProg.Library.Block

namespace SysProg.FileIo.Kmp

/-! # `02-file-io/kmp.c`

The search half of the program. The `int` lengths are those of objects in
memory and are taken without overflow. Loops whose bound is not a counter take
fuel; exhausting it is `Trap.diverged`.
-/

/-- `struct StringBuffer`: text buffer and its size. -/
structure StringBuffer where
  text : Block UInt8
  length : Nat

/-- A NUL-terminated string, such as `argv[2]`. -/
structure CString where
  bytes : List UInt8
  nulFree : 0 ∉ bytes

def CString.block (string : CString) : Block UInt8 := Block.ofList (string.bytes ++ [0])

def CString.strlen (string : CString) : Nat := string.bytes.length

/-- The outcome of `open` and, for each `write` call by its number and the
count of bytes it requests, the outcome of that call. -/
structure Host where
  opens : Bool
  write : Nat → Nat → IoResult

/-- `OUT_FILE`, the number of `write` calls made on it, and the iterations of
the text loop in which `write_all` reported success. -/
structure Output where
  file : List UInt8
  writes : Nat
  matched : List Nat
deriving DecidableEq, Repr

/-- `"found match\n"` -/
def foundMatch : List UInt8 := [102, 111, 117, 110, 100, 32, 109, 97, 116, 99, 104, 10]

/-- `write_all`. The offset `i` stays at the value it is called with, as in the
source; only `len` shrinks. -/
def writeAll (host : Host) (buf : List UInt8) (i : Nat) : Nat → Nat → Output → Except Trap (Int × Output)
  | 0, _, _ => .error .diverged
  | fuel + 1, len, out =>
      if i < len then
        let called := { out with writes := out.writes + 1 }
        match host.write out.writes len with
        | .interrupted => writeAll host buf i fuel len called
        | .failed => .ok (-1, called)
        | .done nw => writeAll host buf i fuel (len - nw)
            { called with file := out.file ++ (buf.drop i).take nw }
      else .ok (0, out)

/-- `while (j != -1 && text[i] != pattern[j]) j = A[j];`, which both passes
run: `build_prefix_table` with the pattern as the text. -/
def fallBack (A : Block Int) (text pattern : Block UInt8) (i : Int) : Nat → Int → Except Trap Int
  | 0, _ => .error .diverged
  | fuel + 1, j =>
      if j = -1 then .ok j
      else do
        let c ← text.load i
        let d ← pattern.load j
        if c = d then return j
        fallBack A text pattern i fuel (← A.load j)

/-- The first `for` loop of `build_prefix_table`, with `rest` iterations left. -/
def fillTable (fuel : Nat) (p : Block UInt8) : Nat → Nat → Int → Block Int → Except Trap (Block Int)
  | 0, _, _, A => .ok A
  | rest + 1, i, j, A => do
      let j ← fallBack A p p i fuel j
      fillTable fuel p rest (i + 1) (j + 1) (← A.store (i + 1) (j + 1))

/-- The second `for` loop of `build_prefix_table`: the entries it prints. -/
def printTable (A : Block Int) (m : Nat) : Except Trap (List Int) :=
  (List.range (m + 1)).mapM fun i : Nat => A.load i

def buildPrefixTable (fuel : Nat) (A : Block Int) (p : Block UInt8) (m : Nat) :
    Except Trap (Block Int × List Int) := do
  let A ← fillTable fuel p m 0 (-1) (← A.store 0 (-1))
  return (A, ← printTable A m)

/-- The `for` loop of `kmp_search`, with `rest` iterations left. -/
def searchFrom (host : Host) (fuel : Nat) (A : Block Int) (pattern : Block UInt8) (m : Nat) (sb : StringBuffer) :
    Nat → Nat → Int → Output → Except Trap Output
  | 0, _, _, out => .ok out
  | rest + 1, i, j, out => do
      let j ← fallBack A sb.text pattern i fuel j
      if j + 1 = m then
        let (code, out) ← writeAll host foundMatch 0 fuel 12 out
        if code = -1 then return out
        searchFrom host fuel A pattern m sb rest (i + 1) (← A.load m) { out with matched := out.matched ++ [i] }
      else searchFrom host fuel A pattern m sb rest (i + 1) (j + 1) out

/-- `kmp_search`. Opening with `O_TRUNC` empties the file. -/
def kmpSearch (host : Host) (fuel : Nat) (A : Block Int) (pattern : Block UInt8) (m : Nat) (sb : StringBuffer)
    (out : Output) : Except Trap Output :=
  if host.opens then searchFrom host fuel A pattern m sb sb.length 0 0 { out with file := [] }
  else .ok out

/-- `find`. The table is an uninitialised array of `m + 1` elements. -/
def find (host : Host) (fuel : Nat) (sb : StringBuffer) (pattern : CString) (out : Output) : Except Trap Output :=
  let m := pattern.strlen
  if m > sb.length then .ok out
  else do
    let (A, _) ← buildPrefixTable fuel (Block.malloc (m + 1)) pattern.block m
    kmpSearch host fuel A pattern.block m sb out

end SysProg.FileIo.Kmp
