import SysProg.Library.Strcat

namespace SysProg.Process.Mkfifo

/-! # `04-process-management/mkfifo.c`

The allocations of a possible size succeed.
-/

/-- `BUFINIT` -/
def bufInit : Nat := 128

/-- A NUL-terminated string. -/
structure Text where
  bytes : List UInt8
  free : 0 ∉ bytes

/-- The current directory, the bytes that the block of `abs` contains at first, and whether
`mkfifo` succeeds. -/
structure Host where
  dir : Text
  fresh : Nat → UInt8
  mkfifo : Bool

/-- What `getcwd` returns: the buffer, or `NULL` with `ERANGE` or another error. -/
inductive Getcwd where
  | found (buf : Block UInt8)
  | range
  | failed

/-- `getcwd(buf, size)`. For a `NULL` buffer it allocates one of the size itself, which is
refused where `realloc` has just been. -/
def getcwd (dir : Text) (buf : Option (Block UInt8)) (size : Nat) : Except Trap Getcwd :=
  match buf with
  | none => .ok .failed
  | some buf =>
      if dir.bytes.length < size then do return .found (← buf.storeFrom 0 (dir.bytes ++ [0])) else .ok .range

/-- The loop from the given `cap` and `cwd`, which ends with `cwd`, or in the failure. -/
def getcwdLoop (dir : Text) : Nat → Int → Option (Block UInt8) → Except Trap (Option (Block UInt8))
  | 0, _, _ => .error .diverged
  | fuel + 1, cap, cwd => do
      match ← getcwd dir cwd (cap % 2 ^ 64).toNat with
      | .found cwd => return some cwd
      | .failed => return none
      | .range =>
          let cap := wrapInt (cap * 2)
          getcwdLoop dir fuel cap (cwd.bind fun cwd => cwd.realloc cap)

/-- The three calls of `strcat`. -/
def appendPath (abs : Block UInt8) (cwd name : List UInt8) : Except Trap (Block UInt8) := do
  let abs ← abs.strcat 0 cwd
  let abs ← abs.strcat 0 [47]
  abs.strcat cwd.length name

/-- `abs`, from the strings in `cwd` and `name`. -/
def buildAbs (fresh : Nat → UInt8) (cwd name : List UInt8) : Except Trap (Block UInt8) :=
  appendPath (Block.ofList ((List.range (cwd.length + name.length + 2)).map fresh)) cwd name

inductive Message where
  | usage (program : List UInt8)
  | creating (abs : List UInt8)
  | perror (name : String)
deriving DecidableEq

/-- `fifo` is the string that `mkfifo` is given. -/
structure Output where
  messages : List Message
  fifo : Option (List UInt8)
deriving DecidableEq

def main (host : Host) (fuel : Nat) (argv : List Text) : Except Trap (Int × Output) :=
  match argv with
  | [] => .error .outOfBounds
  | [_, name] => do
      match ← getcwdLoop host.dir fuel bufInit (some (Block.malloc bufInit)) with
      | none => return (1, { messages := [.perror "getcwd"], fifo := none })
      | some cwd =>
          let abs ← buildAbs host.fresh (← cwd.cString) name.bytes
          let path ← abs.cString
          if host.mkfifo then return (0, { messages := [.creating path], fifo := some path })
          else return (1, { messages := [.creating path, .perror "mkfifo"], fifo := some path })
  | program :: _ => .ok (1, { messages := [.usage program.bytes], fifo := none })

/-! ## The loop -/

variable {dir : Text} {buf : Block UInt8} {exponent fuel : Nat}

theorem cap_size (small : exponent ≤ 30) : (((2 ^ exponent : Nat) : Int) % 2 ^ 64).toNat = 2 ^ exponent := by
  have most : 2 ^ exponent ≤ 2 ^ 30 := Nat.pow_le_pow_right (by decide) small
  generalize 2 ^ exponent = cap at most ⊢
  omega

theorem getcwdLoop_found (small : exponent ≤ 30) (size : buf.length = 2 ^ exponent)
    (fits : dir.bytes.length < 2 ^ exponent) :
    ∃ cwd, getcwdLoop dir (fuel + 1) (2 ^ exponent : Nat) (some buf) = .ok (some cwd) ∧ cwd.cString = .ok dir.bytes := by
  have empty : buf.Begins [] := List.nil_prefix
  have room : (dir.bytes ++ [0]).length ≤ buf.length := by
    rw [List.length_append, List.length_singleton, size]
    exact fits
  obtain ⟨cwd, stored, -, begins⟩ := empty.storeFrom (dir.bytes ++ [0]) ((Nat.zero_add _).trans_le room)
  have found : buf.storeFrom 0 (dir.bytes ++ [0]) = .ok cwd := stored
  refine ⟨cwd, ?_, Block.Begins.cString_free begins dir.free⟩
  rw [getcwdLoop, getcwd, cap_size small, if_pos fits, found]
  rfl

theorem getcwdLoop_doubles (small : exponent < 30) (wide : 2 ^ exponent ≤ dir.bytes.length) :
    ∃ next : Block UInt8, next.length = 2 ^ (exponent + 1) ∧
      getcwdLoop dir (fuel + 1) (2 ^ exponent : Nat) (some buf) =
        getcwdLoop dir fuel (2 ^ (exponent + 1) : Nat) (some next) := by
  have empty : buf.Begins [] := List.nil_prefix
  have half : 2 ^ (exponent + 1) ≤ 2 ^ 30 := Nat.pow_le_pow_right (by decide) small
  obtain ⟨next, grown, size, -⟩ := empty.realloc (2 ^ (exponent + 1)) (by omega) (Nat.zero_le _)
  refine ⟨next, size, ?_⟩
  have double : wrapInt (((2 ^ exponent : Nat) : Int) * 2) = ((2 ^ (exponent + 1) : Nat) : Int) := by
    rw [Int.natCast_pow]
    exact wrapInt_double small
  have wraps : getcwd dir (some buf) (((2 ^ exponent : Nat) : Int) % 2 ^ 64).toNat = .ok .range := by
    rw [getcwd, cap_size (Nat.le_of_lt small), if_neg (Nat.not_lt.mpr wide)]
  rw [getcwdLoop, wraps]
  show getcwdLoop dir fuel (wrapInt (((2 ^ exponent : Nat) : Int) * 2)) _ = _
  rw [double, Option.bind_some, grown]

/-- The capacity of `2 ^ 30` bytes cannot be doubled. -/
theorem getcwdLoop_refused (wide : 2 ^ 30 ≤ dir.bytes.length) :
    getcwdLoop dir (fuel + 2) (2 ^ 30 : Nat) (some buf) = .ok none := by
  rw [getcwdLoop, getcwd, cap_size (Nat.le_refl 30), if_neg (Nat.not_lt.mpr wide), ok_bind]
  have refused : buf.realloc (wrapInt ((2 ^ 30 : Nat) * 2)) = none := rfl
  simp only [Option.bind_some, refused]
  rfl

theorem getcwdLoop_whole (short : dir.bytes.length < 2 ^ 30) (small : exponent ≤ 30) (size : buf.length = 2 ^ exponent)
    (enough : 31 ≤ exponent + fuel) :
    ∃ cwd, getcwdLoop dir fuel (2 ^ exponent : Nat) (some buf) = .ok (some cwd) ∧ cwd.cString = .ok dir.bytes := by
  induction fuel generalizing exponent buf with
  | zero => omega
  | succ fuel ih =>
      by_cases fits : dir.bytes.length < 2 ^ exponent
      · exact getcwdLoop_found small size fits
      · have wide := Nat.not_lt.mp fits
        have less : exponent < 30 := (Nat.pow_lt_pow_iff_right Nat.one_lt_two).mp (Nat.lt_of_le_of_lt wide short)
        obtain ⟨next, doubled, continues⟩ := getcwdLoop_doubles less wide
        rw [continues]
        exact ih less doubled (by omega)

theorem getcwdLoop_long (long : 2 ^ 30 ≤ dir.bytes.length) (small : exponent ≤ 30) (enough : 32 ≤ exponent + fuel) :
    getcwdLoop dir fuel (2 ^ exponent : Nat) (some buf) = .ok none := by
  induction fuel generalizing exponent buf with
  | zero => omega
  | succ fuel ih =>
      rcases Nat.lt_or_eq_of_le small with less | rfl
      · have wide : 2 ^ exponent ≤ dir.bytes.length :=
          Nat.le_trans (Nat.pow_le_pow_right (by decide) small) long
        obtain ⟨next, -, continues⟩ := getcwdLoop_doubles less wide
        rw [continues]
        exact ih less (by omega)
      · obtain ⟨more, rfl⟩ : ∃ more, fuel = more + 1 := ⟨fuel - 1, by omega⟩
        exact getcwdLoop_refused long

/-! ## The path -/

variable {fresh : Nat → UInt8} {text cwd name : List UInt8} {spare : Block UInt8}

theorem appendPath_fits (free : 0 ∉ text) (cwdFree : 0 ∉ cwd) (fits : cwd.length + name.length + 1 ≤ spare.length) :
    ∃ spare', appendPath (Block.ofList text ++ some 0 :: spare) cwd name =
      .ok (Block.ofList (text ++ cwd ++ [47] ++ name) ++ some 0 :: spare') := by
  have cwdInside : 0 ∉ text ++ cwd := by simp [free, cwdFree]
  have slashInside : 0 ∉ text ++ cwd ++ [47] := by simp [free, cwdFree]
  have first := Block.strcat_fits free (Nat.zero_le _) (show cwd.length ≤ spare.length by omega)
  have second := Block.strcat_fits cwdInside (Nat.zero_le _)
    (show [(47 : UInt8)].length ≤ (spare.drop cwd.length).length by simp; omega)
  have third := Block.strcat_fits slashInside (show cwd.length ≤ _ by simp; omega)
    (show name.length ≤ ((spare.drop cwd.length).drop [(47 : UInt8)].length).length by simp; omega)
  rw [appendPath, first, ok_bind, second, ok_bind]
  exact ⟨_, third⟩

theorem appendPath_overruns (free : 0 ∉ text) (cwdFree : 0 ∉ cwd)
    (beyond : spare.length < cwd.length + name.length + 1) :
    appendPath (Block.ofList text ++ some 0 :: spare) cwd name = .error .outOfBounds := by
  have cwdInside : 0 ∉ text ++ cwd := by simp [free, cwdFree]
  have slashInside : 0 ∉ text ++ cwd ++ [47] := by simp [free, cwdFree]
  rw [appendPath]
  by_cases cwdFits : cwd.length ≤ spare.length
  · rw [Block.strcat_fits free (Nat.zero_le _) cwdFits, ok_bind]
    by_cases slashFits : [(47 : UInt8)].length ≤ (spare.drop cwd.length).length
    · rw [Block.strcat_fits cwdInside (Nat.zero_le _) slashFits, ok_bind]
      simp only [List.length_singleton, List.length_drop] at slashFits
      exact Block.strcat_overruns slashInside (by simp; omega) (by simp; omega)
    · rw [Block.strcat_overruns cwdInside (Nat.zero_le _) (Nat.not_le.mp slashFits)]
      rfl
  · rw [Block.strcat_overruns free (Nat.zero_le _) (Nat.not_le.mp cwdFits)]
    rfl

theorem fresh_cons (fresh : Nat → UInt8) (size : Nat) :
    (List.range (size + 1)).map fresh = fresh 0 :: (List.range size).map fun i => fresh (i + 1) := by
  rw [List.range_succ_eq_map, List.map_cons, List.map_map]
  rfl

theorem buildAbs_of_nul (nul : fresh 0 = 0) (cwdFree : 0 ∉ cwd) (nameFree : 0 ∉ name) :
    ∃ abs, buildAbs fresh cwd name = .ok abs ∧ abs.cString = .ok (cwd ++ [47] ++ name) := by
  have empty : Block.ofList ((List.range (cwd.length + name.length + 2)).map fresh) = Block.ofList [] ++
      some 0 :: Block.ofList ((List.range (cwd.length + name.length + 1)).map fun i => fresh (i + 1)) := by
    rw [fresh_cons, nul]
    rfl
  obtain ⟨spare, built⟩ := appendPath_fits List.not_mem_nil cwdFree (show cwd.length + name.length + 1 ≤
    (Block.ofList ((List.range (cwd.length + name.length + 1)).map fun i => fresh (i + 1))).length by simp)
  refine ⟨_, (congrArg (appendPath · cwd name) empty).trans built, ?_⟩
  exact Block.cString_terminated (by simp [cwdFree, nameFree]) spare

/-- Bytes before the first NUL, or no NUL at all, leave too little room. -/
theorem buildAbs_of_other (other : fresh 0 ≠ 0) (cwdFree : 0 ∉ cwd) :
    buildAbs fresh cwd name = .error .outOfBounds := by
  have contents := fresh_cons fresh (cwd.length + name.length + 1)
  by_cases terminated : 0 ∈ (List.range (cwd.length + name.length + 2)).map fresh
  · obtain ⟨text, rest, split, free⟩ := List.eq_append_cons_of_mem terminated
    have nonempty : text ≠ [] := by
      rintro rfl
      rw [split] at contents
      exact other (List.cons.inj contents).1.symm
    have positive := List.length_pos_iff.mpr nonempty
    have length := congrArg List.length split
    simp only [List.length_map, List.length_range, List.length_append, List.length_cons] at length
    have block : Block.ofList (text ++ 0 :: rest) = Block.ofList text ++ some 0 :: Block.ofList rest := by simp [Block.ofList]
    rw [buildAbs, split, block]
    exact appendPath_overruns free cwdFree (by simp; omega)
  · rw [buildAbs, appendPath, Block.strcat, List.drop_zero, Block.cString_unterminated terminated]
    rfl

/-! ## The whole program -/

/-- The loop ends with the whole directory in `cwd`, and `mkfifo` is given the directory, a
slash and the name, with no access outside `abs`. -/
structure Builds (host : Host) (fuel : Nat) (program name : Text) : Prop where
  whole : ∃ cwd, getcwdLoop host.dir fuel bufInit (some (Block.malloc bufInit)) = .ok (some cwd) ∧
    cwd.cString = .ok host.dir.bytes
  passed : ∃ code output, main host fuel [program, name] = .ok (code, output) ∧
    output.fifo = some (host.dir.bytes ++ [47] ++ name.bytes)

variable {host : Host} {program : Text}

theorem Builds.nul {name : Text} (builds : Builds host fuel program name) : host.fresh 0 = 0 := by
  obtain ⟨cwd, looped, whole⟩ := builds.whole
  obtain ⟨code, output, ran, -⟩ := builds.passed
  by_contra other
  simp only [main, looped, ok_bind, whole, buildAbs_of_other other host.dir.free] at ran
  contradiction

theorem Builds.short {name : Text} (builds : Builds host fuel program name) (enough : 25 ≤ fuel) :
    host.dir.bytes.length < 2 ^ 30 := by
  obtain ⟨cwd, looped, -⟩ := builds.whole
  by_contra long
  have exponent : bufInit = 2 ^ 7 := rfl
  rw [exponent, getcwdLoop_long (Nat.not_lt.mp long) (by decide) (by omega)] at looped
  cases looped

theorem main_of_abs {name : Text} {cwd abs : Block UInt8} {path : List UInt8}
    (looped : getcwdLoop host.dir fuel bufInit (some (Block.malloc bufInit)) = .ok (some cwd))
    (whole : cwd.cString = .ok host.dir.bytes) (built : buildAbs host.fresh host.dir.bytes name.bytes = .ok abs)
    (ends : abs.cString = .ok path) :
    ∃ code output, main host fuel [program, name] = .ok (code, output) ∧ output.fifo = some path := by
  simp only [main, looped, ok_bind, whole, built, ends]
  split
  · exact ⟨_, _, rfl, rfl⟩
  · exact ⟨_, _, rfl, rfl⟩

/-- The path is built, for a directory of any length and every name, if and only if the
block of `abs` begins with a NUL and `cap` need not be doubled beyond an `int`. -/
theorem mkfifo_builds_iff (host : Host) (program name : Text) (fuel : Nat) (enough : 25 ≤ fuel) :
    Builds host fuel program name ↔ host.fresh 0 = 0 ∧ host.dir.bytes.length < 2 ^ 30 := by
  constructor
  · intro builds
    exact ⟨builds.nul, builds.short enough⟩
  · rintro ⟨nul, short⟩
    obtain ⟨cwd, looped, whole⟩ := getcwdLoop_whole short (show 7 ≤ 30 by decide)
      (Block.length_malloc _) (show 31 ≤ 7 + fuel by omega)
    obtain ⟨abs, built, ends⟩ := buildAbs_of_nul nul host.dir.free name.free
    exact ⟨⟨cwd, looped, whole⟩, main_of_abs looped whole built ends⟩

/-- `/tmp` and `f`, with zeroed memory. -/
theorem mkfifo_builds_tmp :
    let dir : Text := { bytes := [47, 116, 109, 112], free := by decide }
    let name : Text := { bytes := [102], free := by decide }
    Builds { dir, fresh := fun _ => 0, mkfifo := true } 25 name name := by
  intro dir name
  exact (mkfifo_builds_iff { dir, fresh := fun _ => 0, mkfifo := true } name name 25 (Nat.le_refl _)).mpr
    ⟨rfl, by decide⟩

/-- What the block contains before its first NUL comes before the directory, and the path
does not end inside the block. -/
theorem leftover_bytes_overrun : ¬ ∀ (host : Host) (program name : Text), Builds host 25 program name := by
  intro builds
  let dir : Text := { bytes := [47, 116, 109, 112], free := by decide }
  let name : Text := { bytes := [102], free := by decide }
  let host : Host := { dir, fresh := fun i => if i = 0 then 120 else 0, mkfifo := true }
  have nul : (120 : UInt8) = 0 := (builds host name name).nul
  exact absurd nul (by decide)

end SysProg.Process.Mkfifo
