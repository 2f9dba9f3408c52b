import Mathlib.Algebra.Order.Ring.Nat
import Mathlib.Data.Nat.Bitwise
import SysProg.Library.Strcat

namespace SysProg.FileIo.Ls

/-! # `02-file-io/ls.c`

The names are those that `readdir` returns, and `stat` is given by the path that it is
called with; allocations of a possible size succeed.
-/

/-- A NUL-terminated string. -/
structure Text where
  bytes : List UInt8
  free : 0 ∉ bytes

/-! ## `print_mode` -/

/-- The bits and names of `modes`, in the order in which they are printed. -/
def modes : List (Nat × UInt8) :=
  [(0o400, 114), (0o200, 119), (0o100, 120), (0o040, 114), (0o020, 119), (0o010, 120), (0o004, 114), (0o002, 119),
    (0o001, 120)]

def printMode (mode : Nat) : List UInt8 :=
  (modes.map fun entry => if mode &&& entry.1 ≠ 0 then entry.2 else 45) ++ [10]

/-- `S_ISDIR(mode)` -/
def isDir (mode : Nat) : Bool := mode &&& 0o170000 = 0o040000

/-! ## `main` -/

/-- The loop that doubles `cap`. -/
def growPath : Nat → Int → Int → Block UInt8 → Except Trap (Int × Block UInt8)
  | 0, _, _, _ => .error .diverged
  | fuel + 1, len, cap, path =>
      if len ≥ cap then
        match path.realloc (wrapInt (cap * 2)) with
        | none => .error .outOfBounds
        | some path => growPath fuel len (wrapInt (cap * 2)) path
      else .ok (cap, path)

/-- `strcpy`, and the two calls of `strcat`. -/
def joinPath (path : Block UInt8) (dir name : List UInt8) : Except Trap (Block UInt8) := do
  let path ← path.storeFrom 0 (dir ++ [0])
  let path ← path.strcat 0 [47]
  path.strcat 0 name

/-- `printed` is what is on stdout, `reported` what `perror` is given. -/
structure Output where
  printed : List UInt8
  reported : List String
deriving DecidableEq

def Output.print (output : Output) (text : List UInt8) : Output := { output with printed := output.printed ++ text }

/-- The loop over the directory, from the given `cap` and `path`; its result has the last `cap`. -/
def listLoop (stat : List UInt8 → Option Nat) (dir : List UInt8) :
    List Text → Int → Block UInt8 → Output → Except Trap (Int × Output)
  | [], cap, _, output => .ok (cap, output)
  | name :: rest, cap, path, output => do
      let (cap, path) ← growPath 33 (wrapInt (dir.length + name.bytes.length + 1 : Nat)) cap path
      let path ← joinPath path dir name.bytes
      let text ← path.cString
      match stat text with
      | none => listLoop stat dir rest cap path { output with reported := output.reported ++ ["stat"] }
      | some mode =>
          let output := ((output.print (text ++ [32])).print [if isDir mode then 100 else 45]).print (printMode mode)
          listLoop stat dir rest cap path output

/-- `main` from `readdir` on, where `opendir` has succeeded. -/
def list (stat : List UInt8 → Option Nat) (dir : Text) (names : List Text) : Except Trap (Int × Output) :=
  listLoop stat dir.bytes names 4 (Block.malloc 4) { printed := [], reported := [] }

/-! ## What `print_mode` prints can be read back -/

/-- The permissions that the characters before the newline stand for. -/
def permissions (text : List UInt8) : Nat :=
  (text.takeWhile (· ≠ 10)).foldl (fun mode name => 2 * mode + if name = 45 then 0 else 1) 0

theorem and_bit (mode bit : Nat) : mode &&& 2 ^ bit ≠ 0 ↔ mode / 2 ^ bit % 2 = 1 := by
  rw [Nat.and_two_pow, Nat.testBit_eq_decide_div_mod_eq]
  by_cases set : mode / 2 ^ bit % 2 = 1
  · simp [set]
  · simp [set]

/-- The character of one bit, as a digit. -/
theorem digit_printed (mode : Nat) {bit exponent : Nat} (power : bit = 2 ^ exponent) {name : UInt8} (visible : name ≠ 45) :
    (if (if mode &&& bit ≠ 0 then name else 45) = 45 then 0 else 1) = mode / bit % 2 := by
  subst power
  by_cases set : mode &&& 2 ^ exponent ≠ 0
  · rw [if_pos set, if_neg visible, (and_bit mode exponent).mp set]
  · have clear := (and_bit mode exponent).not.mp set
    rw [if_neg set, if_pos rfl]
    omega

theorem printMode_chars (mode : Nat) : (printMode mode).takeWhile (· ≠ 10) =
    modes.map fun entry => if mode &&& entry.1 ≠ 0 then entry.2 else 45 := by
  have visible : ∀ entry ∈ modes, entry.2 ≠ 10 := by decide
  rw [printMode, List.takeWhile_append_of_pos]
  · simp
  · intro char member
    obtain ⟨entry, listed, rfl⟩ := List.mem_map.mp member
    split
    · simpa using visible entry listed
    · decide

theorem append_digit (mode : Nat) {high low size more : Nat} (next : high = low * 2) (twice : more = 2 * size) :
    2 * (mode / high % size) + mode / low % 2 = mode / low % more := by
  rw [next, twice, ← Nat.div_div_eq_div_mul, Nat.mod_mul, Nat.add_comm]

/-- The nine characters stand for the nine lowest bits. -/
theorem permissions_printMode (mode : Nat) : permissions (printMode mode) = mode % 512 := by
  have r {bit exponent : Nat} (power : bit = 2 ^ exponent) := digit_printed mode power (show (114 : UInt8) ≠ 45 by decide)
  have w {bit exponent : Nat} (power : bit = 2 ^ exponent) := digit_printed mode power (show (119 : UInt8) ≠ 45 by decide)
  have x {bit exponent : Nat} (power : bit = 2 ^ exponent) := digit_printed mode power (show (120 : UInt8) ≠ 45 by decide)
  rw [permissions, printMode_chars]
  simp only [modes, List.map_cons, List.map_nil, List.foldl_cons, List.foldl_nil]
  rw [@r 256 8 rfl, @w 128 7 rfl, @x 64 6 rfl, @r 32 5 rfl, @w 16 4 rfl, @x 8 3 rfl, @r 4 2 rfl, @w 2 1 rfl, @x 1 0 rfl]
  have top : 2 * 0 + mode / 256 % 2 = mode / 256 % 2 := by rw [Nat.mul_zero, Nat.zero_add]
  rw [top, @append_digit mode 256 128 2 4 rfl rfl, @append_digit mode 128 64 4 8 rfl rfl, @append_digit mode 64 32 8 16 rfl rfl,
    @append_digit mode 32 16 16 32 rfl rfl, @append_digit mode 16 8 32 64 rfl rfl, @append_digit mode 8 4 64 128 rfl rfl,
    @append_digit mode 4 2 128 256 rfl rfl, @append_digit mode 2 1 256 512 rfl rfl, Nat.div_one]

/-! ## The path -/

variable {dir name : List UInt8} {path : Block UInt8} {exponent fuel len : Nat}

/-- The capacity is doubled while the path does not fit, and no further. -/
theorem growPath_grows (small : exponent ≤ 30) (enough : 31 ≤ exponent + fuel) (size : path.length = 2 ^ exponent)
    (short : len < 2 ^ 30) :
    ∃ (final : Nat) (grown : Block UInt8), growPath fuel len (2 ^ exponent : Nat) path = .ok ((2 ^ final : Nat), grown) ∧
      final ≤ 30 ∧ grown.length = 2 ^ final ∧ len < 2 ^ final ∧ (final = exponent ∨ 2 ^ final ≤ 2 * len) := by
  induction fuel generalizing exponent path with
  | zero => omega
  | succ fuel ih =>
      rcases Nat.lt_or_ge len (2 ^ exponent) with fits | wide
      · refine ⟨exponent, path, ?_, small, size, fits, .inl rfl⟩
        rw [growPath, if_neg (by omega)]
      · have least : exponent < 30 := by
          by_contra most
          have same : exponent = 30 := by omega
          rw [same] at wide
          exact absurd (Nat.lt_of_lt_of_le short wide) (Nat.lt_irrefl _)
        have half : 2 ^ (exponent + 1) ≤ 2 ^ 30 := Nat.pow_le_pow_right (by decide) least
        have begun : path.Begins [] := List.nil_prefix
        obtain ⟨next, grown, length, -⟩ := begun.realloc (2 ^ (exponent + 1)) (by omega) (Nat.zero_le _)
        have double : wrapInt (((2 ^ exponent : Nat) : Int) * 2) = ((2 ^ (exponent + 1) : Nat) : Int) := by
          rw [Int.natCast_pow]
          exact wrapInt_double least
        obtain ⟨final, last, ran, most, whole, room, tight⟩ := ih least (by omega) length
        refine ⟨final, last, ?_, most, whole, room, .inr ?_⟩
        · rw [growPath, if_pos (by omega), double, grown]
          exact ran
        · rcases tight with same | twice
          · rw [same, Nat.pow_succ]
            omega
          · exact twice

theorem joinPath_joins (dirFree : 0 ∉ dir) (nameFree : 0 ∉ name) (fits : dir.length + name.length + 1 < path.length) :
    ∃ joined : Block UInt8, joinPath path dir name = .ok joined ∧ joined.length = path.length ∧
      joined.cString = .ok (dir ++ [47] ++ name) := by
  have copied : path.storeFrom 0 (dir ++ [0]) = .ok (Block.ofList dir ++ some 0 :: path.drop (dir.length + 1)) := by
    have stored := Block.storeFrom_append [] path (dir ++ [0]) (by simp; omega)
    simpa [Block.ofList] using stored
  have slash : Block.strcat (Block.ofList dir ++ some 0 :: path.drop (dir.length + 1)) 0 [47] =
      .ok (Block.ofList (dir ++ [47]) ++ some 0 :: (path.drop (dir.length + 1)).drop 1) :=
    Block.strcat_fits dirFree (Nat.zero_le _) (by rw [List.length_drop, List.length_singleton]; omega)
  have slashFree : 0 ∉ dir ++ [47] := by
    rw [List.mem_append, not_or]
    exact ⟨dirFree, by decide⟩
  have named : Block.strcat (Block.ofList (dir ++ [47]) ++ some 0 :: (path.drop (dir.length + 1)).drop 1) 0 name =
      .ok (Block.ofList (dir ++ [47] ++ name) ++ some 0 :: ((path.drop (dir.length + 1)).drop 1).drop name.length) :=
    Block.strcat_fits slashFree (Nat.zero_le _) (by rw [List.length_drop, List.length_drop]; omega)
  have wholeFree : 0 ∉ dir ++ [47] ++ name := by
    rw [List.mem_append, not_or]
    exact ⟨slashFree, nameFree⟩
  refine ⟨Block.ofList (dir ++ [47] ++ name) ++ some 0 :: ((path.drop (dir.length + 1)).drop 1).drop name.length, ?_, ?_,
    Block.cString_terminated wholeFree _⟩
  · rw [joinPath, copied, ok_bind, slash, ok_bind]
    exact named
  · simp only [List.length_append, List.length_cons, List.length_drop, Block.length_ofList, List.length_nil]
    omega

/-! ## The listing -/

/-- The line for a name. -/
def line (stat : List UInt8 → Option Nat) (dir name : List UInt8) : List UInt8 :=
  match stat (dir ++ [47] ++ name) with
  | none => []
  | some mode => dir ++ [47] ++ name ++ [32] ++ [if isDir mode then 100 else 45] ++ printMode mode

def failure (stat : List UInt8 → Option Nat) (dir name : List UInt8) : List String :=
  match stat (dir ++ [47] ++ name) with
  | none => ["stat"]
  | some _ => []

theorem listLoop_prints (stat : List UInt8 → Option Nat) (dirFree : 0 ∉ dir) (names : List Text)
    (short : ∀ name ∈ names, dir.length + name.bytes.length + 1 < 2 ^ 30) (small : exponent ≤ 30)
    (size : path.length = 2 ^ exponent) (output : Output) :
    ∃ final : Nat, listLoop stat dir names (2 ^ exponent : Nat) path output = .ok ((2 ^ final : Nat),
        { printed := output.printed ++ names.flatMap fun name => line stat dir name.bytes
          reported := output.reported ++ names.flatMap fun name => failure stat dir name.bytes }) ∧
      (final = exponent ∨ ∃ name ∈ names, 2 ^ final ≤ 2 * (dir.length + name.bytes.length + 1)) := by
  induction names generalizing exponent path output with
  | nil => exact ⟨exponent, by simp [listLoop], .inl rfl⟩
  | cons name rest ih =>
      have shortName := short name List.mem_cons_self
      have enough : 31 ≤ exponent + 33 := by omega
      obtain ⟨next, grown, grew, most, length, room, tight⟩ := growPath_grows small enough size shortName
      have counted : wrapInt (dir.length + name.bytes.length + 1 : Nat) = ((dir.length + name.bytes.length + 1 : Nat) : Int) :=
        wrapInt_of_range (by omega) (by omega)
      obtain ⟨joined, joins, kept, text⟩ := joinPath_joins dirFree name.free (length ▸ room)
      have shortRest := fun other member => short other (List.mem_cons_of_mem name member)
      have first : ∀ shown, listLoop stat dir rest (2 ^ next : Nat) joined
          { printed := output.printed ++ line stat dir name.bytes, reported := output.reported ++ failure stat dir name.bytes } =
          shown → listLoop stat dir (name :: rest) (2 ^ exponent : Nat) path output = shown := by
        intro shown ran
        simp only [listLoop, counted, grew, ok_bind, joins, text]
        rw [line, failure] at ran
        cases found : stat (dir ++ [47] ++ name.bytes) with
        | none =>
            rw [found] at ran
            simpa using ran
        | some mode =>
            rw [found] at ran
            simpa [Output.print] using ran
      obtain ⟨final, ran, tightRest⟩ := ih shortRest most (kept.trans length)
        { printed := output.printed ++ line stat dir name.bytes, reported := output.reported ++ failure stat dir name.bytes }
      refine ⟨final, ?_, ?_⟩
      · rw [first _ ran, List.flatMap_cons, List.flatMap_cons, List.append_assoc, List.append_assoc]
      · rcases tightRest with same | ⟨other, member, twice⟩
        · rw [same]
          exact tight.imp_right fun twice => ⟨name, List.mem_cons_self, twice⟩
        · exact .inr ⟨other, List.mem_cons_of_mem _ member, twice⟩

/-- Whatever the names are, the paths stay inside the buffer, whose last capacity is at most twice what a path
has needed; every entry that `stat` finds has its line, whose mode can be read back, and every other
one a message. -/
theorem list_prints (stat : List UInt8 → Option Nat) (dir : Text) (names : List Text)
    (short : ∀ name ∈ names, dir.bytes.length + name.bytes.length + 1 < 2 ^ 30) :
    (∃ cap : Nat, list stat dir names = .ok (cap,
        { printed := names.flatMap fun name => line stat dir.bytes name.bytes
          reported := names.flatMap fun name => failure stat dir.bytes name.bytes }) ∧
      (cap = 4 ∨ ∃ name ∈ names, cap ≤ 2 * (dir.bytes.length + name.bytes.length + 1))) ∧
    ∀ mode, permissions (printMode mode) = mode % 512 := by
  refine ⟨?_, permissions_printMode⟩
  obtain ⟨final, ran, tight⟩ := @listLoop_prints dir.bytes (Block.malloc 4) 2 stat dir.free names short (by decide) rfl
    { printed := [], reported := [] }
  exact ⟨2 ^ final, ran, tight.imp_left fun same => congrArg (2 ^ ·) same⟩

/-- A directory and a file, and a name that is gone. -/
theorem list_prints_two :
    let dir : Text := ⟨[46], by decide⟩
    let names : List Text := [⟨[98, 105, 110], by decide⟩, ⟨[120], by decide⟩, ⟨[97], by decide⟩]
    let stat (path : List UInt8) : Option Nat :=
      if path = [46, 47, 98, 105, 110] then some 0o040755 else if path = [46, 47, 97] then some 0o100640 else none
    ∃ cap : Nat, list stat dir names = .ok (cap, {
      printed := [46, 47, 98, 105, 110, 32, 100, 114, 119, 120, 114, 45, 120, 114, 45, 120, 10] ++
        [46, 47, 97, 32, 45, 114, 119, 45, 114, 45, 45, 45, 45, 45, 10]
      reported := ["stat"] }) := by
  intro dir names stat
  obtain ⟨⟨cap, ran, -⟩, -⟩ := list_prints stat dir names (by decide)
  exact ⟨cap, ran⟩

end SysProg.FileIo.Ls
