import SysProg.Library.ForkJoin
import SysProg.Library.Rounding

namespace SysProg.Threading.MergeSort

/-! # `05-threading/class/merge_sort.c`

A `size_t` is a natural number, since it indexes or counts elements in memory.
The `int i` of `merge` is a 32-bit integer that wraps, and is converted where
the source mixes it with a `size_t`. Loops take fuel; see `merge` and
`mergeSort` for how much they are given.
-/

variable {α : Type} [LinearOrder α]

/-- An `int` converted to `size_t`. -/
def toSize (i : Int) : Nat := (i % 2 ^ 64).toNat

def storeThen (tmp : Block α) (i : Int) (value : α) (next : Block α → Prog α) : Prog α :=
  match tmp.store i value with
  | .ok tmp => next tmp
  | .error reason => .trap reason

/-- The loop that takes from both halves. The comparison reads both elements
and the assignment reads the chosen one again. -/
def takeBoth (aEnd bEnd : Nat) (next : Nat → Nat → Int → Block α → Prog α) :
    Nat → Nat → Nat → Int → Block α → Prog α
  | 0, _, _, _, _ => .trap .diverged
  | fuel + 1, aIndex, bIndex, i, tmp =>
      if aIndex ≤ aEnd ∧ bIndex ≤ bEnd then
        .read aIndex fun x => .read bIndex fun y =>
          if x < y then
            .read aIndex fun value => storeThen tmp i value fun tmp =>
              takeBoth aEnd bEnd next fuel (aIndex + 1) bIndex (wrapInt (i + 1)) tmp
          else
            .read bIndex fun value => storeThen tmp i value fun tmp =>
              takeBoth aEnd bEnd next fuel aIndex (bIndex + 1) (wrapInt (i + 1)) tmp
      else next aIndex bIndex i tmp

/-- `while(index <= last) tmp[i++] = A[index++];`, for either half. -/
def takeRest (last : Nat) (next : Int → Block α → Prog α) : Nat → Nat → Int → Block α → Prog α
  | 0, _, _, _ => .trap .diverged
  | fuel + 1, index, i, tmp =>
      if index ≤ last then
        .read index fun value => storeThen tmp i value fun tmp =>
          takeRest last next fuel (index + 1) (wrapInt (i + 1)) tmp
      else next i tmp

/-- `for(i=start; i<=end; ++i) A[i] = tmp[i - start];` -/
def writeBack (start stop : Nat) (tmp : Block α) (next : Prog α) : Nat → Int → Prog α
  | 0, _ => .trap .diverged
  | fuel + 1, i =>
      if toSize i ≤ stop then
        match tmp.load ((toSize i + 2 ^ 64 - start) % 2 ^ 64 : Nat) with
        | .ok value =>
            if 0 ≤ i then .write i.toNat value (writeBack start stop tmp next fuel (wrapInt (i + 1)))
            else .trap .outOfBounds
        | .error reason => .trap reason
      else next

/-- `(start + end) / 2` in `merge` -/
def mergeMid (start stop : Nat) : Nat := (start + stop) % 2 ^ 64 / 2

/-- `merge`, followed by `next`. No loop runs more often than `tmp` has
elements, and one more test ends it. -/
def merge (start stop : Nat) (next : Prog α) : Prog α :=
  if start ≥ stop then next
  else
    let mid := mergeMid start stop
    let tmpLen := stop - start + 1
    takeBoth mid stop
      (fun aIndex bIndex i tmp =>
        takeRest mid
          (fun i tmp =>
            takeRest stop
              (fun _ tmp => writeBack start stop tmp next (tmpLen + 1) (wrapInt start))
              (tmpLen + 1) bIndex i tmp)
          (tmpLen + 1) aIndex i tmp)
      (tmpLen + 1) start (mid + 1) 0 (Block.malloc tmpLen)

/-- A `size_t` converted to `double`. -/
def toDouble (n : Nat) : ℚ := roundTo 53 n

/-- A `double` converted to `size_t`. -/
def ofDouble (q : ℚ) : Nat := ⌊q⌋₊

/-- `start + (end-start) / 2` in `merge_sort`, computed in `double`. -/
def sortMid (start stop : Nat) : Nat :=
  let start := toDouble start
  let stop := toDouble stop
  ofDouble (roundTo 53 (start + roundTo 53 (roundTo 53 (stop - start) / 2)))

/-- `merge_sort`: the first half in a new thread, the second in this one. The
fuel bounds the depth of the recursion. -/
def mergeSort : Nat → Nat → Nat → Prog α
  | 0, _, _ => .trap .diverged
  | fuel + 1, start, stop =>
      if start ≥ stop then .done
      else
        let mid := sortMid start stop
        .fork (mergeSort fuel start mid) (mergeSort fuel (mid + 1) (ofDouble (toDouble stop)))
          (merge (ofDouble (toDouble start)) (ofDouble (toDouble stop)) .done)

end SysProg.Threading.MergeSort
