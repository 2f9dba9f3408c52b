import Mathlib.Algebra.Ring.Int.Defs
import Mathlib.Algebra.Ring.Nat
import Mathlib.Data.List.TakeWhile

namespace SysProg

/-! # C objects

Blocks of memory with explicit bounds and indeterminate contents, the results
of system calls, and the 32-bit `int`. A computation that C leaves undefined, or that does not return
within the given fuel, is a `Trap`.
-/

inductive Trap where
  | outOfBounds
  | indeterminate
  | freed
  | overflow
  | diverged
deriving DecidableEq, Repr

/-! Sequencing of computations that may trap. -/

@[simp] theorem ok_bind {α β : Type} (value : α) (next : α → Except Trap β) :
    (Except.ok value >>= next) = next value := rfl

@[simp] theorem pure_eq_ok {α : Type} (value : α) : (pure value : Except Trap α) = .ok value := rfl

theorem bind_eq_ok {α β : Type} {first : Except Trap α} {second : α → Except Trap β} {result : β} :
    (first >>= second) = .ok result ↔ ∃ middle, first = .ok middle ∧ second middle = .ok result := by
  cases first with
  | error reason => simp [bind, Except.bind]
  | ok value => simp

/-- An allocated block. A cell is `none` until it is first stored to. -/
abbrev Block (α : Type) := List (Option α)

namespace Block

variable {α : Type}

def malloc (size : Nat) : Block α := List.replicate size none

def ofList (values : List α) : Block α := values.map some

def load (block : Block α) (index : Int) : Except Trap α :=
  if 0 ≤ index then
    match block[index.toNat]? with
    | none => .error .outOfBounds
    | some none => .error .indeterminate
    | some (some value) => .ok value
  else .error .outOfBounds

def store (block : Block α) (index : Int) (value : α) : Except Trap (Block α) :=
  if 0 ≤ index ∧ index.toNat < block.length then .ok (block.set index.toNat (some value))
  else .error .outOfBounds

/-- Stores to consecutive cells. -/
def storeFrom (block : Block α) (index : Int) : List α → Except Trap (Block α)
  | [] => .ok block
  | value :: rest => do storeFrom (← block.store index value) (index + 1) rest

/-- Loads from consecutive cells. -/
def loadFrom (block : Block α) (index : Int) : Nat → Except Trap (List α)
  | 0 => .ok []
  | count + 1 => do
      let value ← block.load index
      return value :: (← loadFrom block (index + 1) count)

/-- `realloc` to a size given as an `int`, which becomes a `size_t`. No object
has `2 ^ 63` bytes or more; a smaller request succeeds. -/
def realloc (block : Block α) (size : Int) : Option (Block α) :=
  if size % 2 ^ 64 < 2 ^ 63 then
    some (block.take (size % 2 ^ 64).toNat ++ malloc ((size % 2 ^ 64).toNat - block.length))
  else none

@[simp] theorem length_malloc (size : Nat) : (malloc size : Block α).length = size := List.length_replicate

@[simp] theorem length_ofList (values : List α) : (ofList values).length = values.length := List.length_map _

theorem load_eq_ok {block : Block α} {index : Nat} {value : α} :
    block.load index = .ok value ↔ block[index]? = some (some value) := by
  simp only [load, Int.natCast_nonneg, if_true, Int.toNat_natCast]
  split <;> simp_all

theorem load_ofList {values : List α} {index : Nat} (bound : index < values.length) :
    (ofList values).load index = .ok values[index] := by
  rw [load_eq_ok]
  simp [ofList, bound]

theorem store_eq_ok (block : Block α) (index : Nat) (value : α) (bound : index < block.length) :
    block.store index value = .ok (block.set index (some value)) := by
  simp [store, bound]

theorem store_beyond (block : Block α) (index : Nat) (value : α) (beyond : block.length ≤ index) :
    block.store index value = .error .outOfBounds := by
  rw [store, if_neg]
  rw [Int.toNat_natCast]
  exact fun inside => Nat.not_lt.mpr beyond inside.2

theorem load_append (front : Block α) (value : α) (tail : Block α) :
    load (front ++ some value :: tail) front.length = .ok value := by
  rw [load_eq_ok]
  simp

theorem store_append (front : Block α) (cell : Option α) (tail : Block α) (value : α) :
    store (front ++ cell :: tail) front.length value = .ok (front ++ some value :: tail) := by
  rw [store_eq_ok _ _ _ (by simp), List.set_append_right _ _ (Nat.le_refl _), Nat.sub_self, List.set_cons_zero]

/-- Stores after `front` leave the cells behind them alone. -/
theorem storeFrom_append (front tail : Block α) (values : List α) (bound : values.length ≤ tail.length) :
    storeFrom (front ++ tail) front.length values = .ok (front ++ ofList values ++ tail.drop values.length) := by
  induction values generalizing front tail with
  | nil => simp [storeFrom, ofList]
  | cons value values ih =>
      cases tail with
      | nil => simp at bound
      | cons cell tail =>
          have rest := ih (front ++ [some value]) tail (by simpa using bound)
          simp only [storeFrom, store_append, ok_bind]
          simpa [ofList] using rest

theorem storeFrom_beyond (front tail : Block α) (values : List α) (beyond : tail.length < values.length) :
    storeFrom (front ++ tail) front.length values = .error .outOfBounds := by
  induction values generalizing front tail with
  | nil => exact absurd beyond (Nat.not_lt_zero _)
  | cons value values ih =>
      cases tail with
      | nil =>
          rw [List.append_nil, storeFrom, store_beyond _ _ _ (Nat.le_refl _)]
          rfl
      | cons cell tail =>
          have rest := ih (front ++ [some value]) tail (Nat.lt_of_succ_lt_succ beyond)
          simp only [storeFrom, store_append, ok_bind]
          simpa using rest

/-! The values stored from the first cell on. -/

def Begins (block : Block α) (values : List α) : Prop := ofList values <+: block

theorem Begins.length_le {block : Block α} {values : List α} (begins : block.Begins values) :
    values.length ≤ block.length := by
  simpa [ofList] using List.IsPrefix.length_le begins

theorem Begins.left {block : Block α} {values more : List α} (begins : block.Begins (values ++ more)) :
    block.Begins values := by
  refine List.IsPrefix.trans ?_ begins
  simp [ofList]

theorem Begins.load {block : Block α} {values : List α} (begins : block.Begins values) {index : Nat}
    (bound : index < values.length) : block.load index = .ok values[index] := by
  obtain ⟨rest, rfl⟩ := begins
  rw [load_eq_ok, List.getElem?_append_left (by simpa [ofList] using bound)]
  simp [ofList, bound]

theorem Begins.store {block : Block α} {values : List α} (begins : block.Begins values)
    (bound : values.length < block.length) (value : α) :
    ∃ after, block.store values.length value = .ok after ∧ after.length = block.length ∧
      after.Begins (values ++ [value]) := by
  refine ⟨_, store_eq_ok _ _ _ bound, List.length_set .., ?_⟩
  obtain ⟨rest, rfl⟩ := begins
  cases rest with
  | nil => simp [ofList] at bound
  | cons cell rest =>
      refine ⟨rest, ?_⟩
      rw [List.set_append_right _ _ (by simp [ofList])]
      simp [ofList]

theorem Begins.storeFrom {block : Block α} {values : List α} (begins : block.Begins values) (more : List α)
    (bound : values.length + more.length ≤ block.length) :
    ∃ after, block.storeFrom values.length more = .ok after ∧ after.length = block.length ∧
      after.Begins (values ++ more) := by
  induction more generalizing block values with
  | nil => exact ⟨block, rfl, rfl, by simpa using begins⟩
  | cons value rest ih =>
      rw [List.length_cons] at bound
      obtain ⟨next, stored, length, begun⟩ := begins.store (by omega) value
      obtain ⟨after, finished, size, all⟩ := ih begun (by simp; omega)
      refine ⟨after, ?_, size.trans length, by simpa using all⟩
      simp only [Block.storeFrom, stored, ok_bind]
      simpa using finished

theorem Begins.loadFrom {block : Block α} {values : List α} (begins : block.Begins values) {index count : Nat}
    (bound : index + count ≤ values.length) :
    block.loadFrom index count = .ok ((values.drop index).take count) := by
  induction count generalizing index with
  | zero => rfl
  | succ count ih =>
      have first : index < values.length := by omega
      have rest := @ih (index + 1) (by omega)
      rw [Int.natCast_add, Int.natCast_one] at rest
      rw [Block.loadFrom, begins.load first, ok_bind, rest, ok_bind, List.drop_eq_getElem_cons first, List.take_succ_cons]
      rfl

theorem Begins.realloc {block : Block α} {values : List α} (begins : block.Begins values) (size : Nat)
    (small : size < 2 ^ 63) (bound : values.length ≤ size) :
    ∃ after, block.realloc size = some after ∧ after.length = size ∧ after.Begins values := by
  have exact : ((size : Int) % 2 ^ 64).toNat = size := by omega
  refine ⟨block.take size ++ malloc (size - block.length), ?_, ?_, ?_⟩
  · rw [Block.realloc, if_pos (by omega), exact]
  · simp [malloc]
    omega
  · apply List.IsPrefix.trans _ (List.prefix_append _ _)
    rw [List.prefix_take_iff]
    exact ⟨begins, by simpa [ofList] using bound⟩

/-- The string that starts at the first cell. -/
def cString : Block UInt8 → Except Trap (List UInt8)
  | [] => .error .outOfBounds
  | none :: _ => .error .indeterminate
  | some byte :: rest => if byte = 0 then .ok [] else do return byte :: (← cString rest)

theorem cString_eq_ok {block : Block UInt8} {text : List UInt8} (holds : block.cString = .ok text) :
    0 ∉ text ∧ ∃ spare, block = ofList text ++ some 0 :: spare := by
  induction block generalizing text with
  | nil => contradiction
  | cons cell block ih =>
      cases cell with
      | none => contradiction
      | some byte =>
          rw [cString] at holds
          split at holds
          · rename_i nul
            cases holds
            exact ⟨by simp, block, by rw [nul]; rfl⟩
          · rename_i other
            obtain ⟨tail, later, whole⟩ := bind_eq_ok.mp holds
            cases whole
            obtain ⟨nulFree, spare, rfl⟩ := ih later
            exact ⟨by simp [nulFree, Ne.symm other], spare, rfl⟩

theorem Begins.cString {block : Block UInt8} {values : List UInt8} (begins : block.Begins (values ++ [0])) :
    block.cString = .ok (values.takeWhile (· ≠ 0)) := by
  induction values generalizing block with
  | nil =>
      obtain ⟨rest, rfl⟩ := begins
      rfl
  | cons value values ih =>
      obtain ⟨rest, rfl⟩ := begins
      have tail := ih (List.prefix_append (ofList (values ++ [0])) rest)
      simp only [ofList, List.cons_append, List.map_cons, Block.cString] at tail ⊢
      split
      · rename_i nul
        simp [nul]
      · rename_i other
        rw [tail]
        simp [other]

theorem takeWhile_free {text : List UInt8} (free : 0 ∉ text) : text.takeWhile (· ≠ 0) = text := by
  refine List.takeWhile_eq_self_iff.mpr fun byte member => ?_
  simpa using ne_of_mem_of_not_mem member free

theorem Begins.cString_free {block : Block UInt8} {text : List UInt8} (begins : block.Begins (text ++ [0]))
    (free : 0 ∉ text) : block.cString = .ok text := by
  rw [begins.cString, takeWhile_free free]

theorem cString_terminated {text : List UInt8} (free : 0 ∉ text) (spare : Block UInt8) :
    cString (ofList text ++ some 0 :: spare) = .ok text := by
  have begins : Begins (ofList text ++ some 0 :: spare) (text ++ [0]) := ⟨spare, by simp [ofList]⟩
  exact begins.cString_free free

/-- A buffer with one place for the terminator, after bytes have been read into it. -/
theorem cString_received {size : Nat} {received : List UInt8} (fits : received.length ≤ size) :
    (do
      let buf ← (malloc (size + 1)).storeFrom 0 received
      let buf ← buf.store received.length 0
      buf.cString) = .ok (received.takeWhile (· ≠ 0)) := by
  have begun : Begins (malloc (size + 1)) ([] : List UInt8) := List.nil_prefix
  have room : ([] : List UInt8).length + received.length ≤ (malloc (size + 1) : Block UInt8).length := by
    rw [length_malloc, List.length_nil]
    omega
  obtain ⟨filled, stored, length, begins⟩ := begun.storeFrom received room
  rw [List.nil_append] at begins
  obtain ⟨ended, terminated, -, string⟩ := begins.store (by rw [length, length_malloc]; omega) 0
  have first : (malloc (size + 1)).storeFrom 0 received = .ok filled := stored
  simp only [first, ok_bind, terminated, string.cString]

end Block

/-- What one `read`, `write`, `send` or `recv` call returns: a byte count, or
`-1` with `errno` set to `EINTR` or to something else. -/
inductive IoResult where
  | done (count : Nat)
  | interrupted
  | failed
deriving DecidableEq, Repr

/-- The value a signed 32-bit `int` holds after a conversion or an operation
that leaves its range. -/
def wrapInt (value : Int) : Int := (value + 2 ^ 31) % 2 ^ 32 - 2 ^ 31

/-- The value is one that an `int` can hold. -/
def InInt (value : Int) : Prop := -2 ^ 31 ≤ value ∧ value < 2 ^ 31

theorem wrapInt_of_range {value : Int} (lower : -2 ^ 31 ≤ value) (upper : value < 2 ^ 31) :
    wrapInt value = value := by
  unfold wrapInt
  omega

/-- A count of the values so far, which goes up with the next one. -/
theorem wrapInt_length_concat {α : Type} (values : List α) (value : α) (short : values.length < 2 ^ 31 - 1) :
    wrapInt ((values.length : Int) + 1) = ((values ++ [value]).length : Int) := by
  rw [wrapInt_of_range (by omega) (by omega), List.length_append]
  rfl

theorem wrapInt_double {exponent : Nat} (small : exponent < 30) :
    wrapInt (2 ^ exponent * 2) = ((2 ^ (exponent + 1) : Nat) : Int) := by
  have half : 2 ^ exponent ≤ 2 ^ 29 := Nat.pow_le_pow_right (by decide) (by omega)
  have double : (2 : Int) ^ exponent * 2 = ((2 ^ exponent * 2 : Nat) : Int) := by simp
  rw [Nat.pow_succ, double, wrapInt_of_range (by omega) (by omega)]

end SysProg
