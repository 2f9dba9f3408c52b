import SysProg.Process.Shell

namespace SysProg.Process.Shell

/-! ## The buffer of `ezsh_read_line` -/

/-- `ezsh_read_line` has these bytes in a buffer of `cap + 1` bytes. -/
structure Buffered (received : List UInt8) (cap len : Int) (buf : Block UInt8) : Prop where
  count : len = received.length
  begins : buf.Begins received
  block : ∃ exponent, exponent ≤ 30 ∧ cap = ((2 ^ exponent : Nat) : Int) ∧ buf.length = 2 ^ exponent + 1 ∧
    received.length ≤ 2 ^ exponent

variable {received line rest : List UInt8} {cap len : Int} {buf : Block UInt8} {c : UInt8}

theorem buffered_start : Buffered [] capInit 0 (Block.malloc (capInit + 1)) where
  count := rfl
  begins := List.nil_prefix
  block := ⟨3, by decide, rfl, rfl, by decide⟩

theorem copyFrom_copies (begins : buf.Begins received) (left : Nat) {i : Nat} {tmp : Block UInt8}
    (count : i + left = received.length) (room : received.length ≤ tmp.length)
    (copied : tmp.Begins (received.take i)) :
    ∃ after, copyFrom buf left i tmp = .ok after ∧ after.length = tmp.length ∧ after.Begins received := by
  induction left generalizing i tmp with
  | zero =>
      rw [List.take_of_length_le (by omega)] at copied
      exact ⟨tmp, rfl, rfl, copied⟩
  | succ left ih =>
      have bound : i < received.length := by omega
      have length : (received.take i).length = i := by
        rw [List.length_take]
        omega
      obtain ⟨next, stored, size, more⟩ := copied.store (by omega) received[i]
      rw [length] at stored
      rw [← List.take_succ_eq_append_getElem bound] at more
      obtain ⟨after, ran, same, whole⟩ := ih (by omega) (by omega) more
      refine ⟨after, ?_, same.trans size, whole⟩
      rw [copyFrom, begins.load bound, ok_bind, stored, ok_bind]
      exact ran

theorem makeBufferOrExit_eq {size : Nat} (small : size < 2 ^ 63) :
    makeBufferOrExit size = some (Block.malloc size) := by
  have exact : ((size : Int) % 2 ^ 64).toNat = size := by omega
  rw [makeBufferOrExit, if_pos (by omega), exact]

theorem Buffered.grow (buffered : Buffered received cap len buf) (full : len = cap) (other : c ≠ 10)
    (short : received.length < 2 ^ 30) :
    ∃ nextCap nextLen nextBuf, Buffered (received ++ [c]) nextCap nextLen nextBuf ∧
      ∀ rest, readLoop (c :: rest) cap len buf = readLoop rest nextCap nextLen nextBuf := by
  obtain ⟨count, begins, exponent, limit, capacity, size, fits⟩ := buffered
  have whole : received.length = 2 ^ exponent := by omega
  have less : exponent < 30 := (Nat.pow_lt_pow_iff_right Nat.one_lt_two).mp (by omega)
  have half : 2 ^ exponent ≤ 2 ^ 29 := Nat.pow_le_pow_right (by decide) (by omega)
  have double : wrapInt (cap * 2) = ((2 ^ (exponent + 1) : Nat) : Int) := by
    rw [capacity]
    exact wrapInt_double less
  have asked : wrapInt (((2 ^ (exponent + 1) : Nat) : Int) + 1) = ((2 ^ (exponent + 1) + 1 : Nat) : Int) := by
    rw [wrapInt_of_range (by omega) (by omega)]
    rfl
  have fresh : (Block.malloc (2 ^ (exponent + 1) + 1) : Block UInt8).length = 2 ^ (exponent + 1) + 1 :=
    Block.length_malloc _
  obtain ⟨tmp, copied, same, begun⟩ := copyFrom_copies begins received.length (Nat.zero_add _)
    (by rw [fresh]; omega) List.nil_prefix
  obtain ⟨after, stored, length, more⟩ := begun.store (by rw [same, fresh]; omega) c
  have positive : 0 < 2 ^ exponent := Nat.two_pow_pos exponent
  refine ⟨_, _, after, ⟨rfl, more, exponent + 1, less, rfl, by rw [length, same, fresh], ?_⟩, fun rest => ?_⟩
  · rw [List.length_append, List.length_singleton]
    omega
  · rw [readLoop, if_neg other, if_pos full, double, asked, makeBufferOrExit_eq (by omega), count]
    simp only [Int.toNat_natCast, copied, ok_bind, stored, wrapInt_length_concat received c (by omega)]

theorem Buffered.store (buffered : Buffered received cap len buf) (spare : len ≠ cap) (other : c ≠ 10) :
    ∃ nextCap nextLen nextBuf, Buffered (received ++ [c]) nextCap nextLen nextBuf ∧
      ∀ rest, readLoop (c :: rest) cap len buf = readLoop rest nextCap nextLen nextBuf := by
  obtain ⟨count, begins, exponent, limit, capacity, size, fits⟩ := buffered
  have bound : 2 ^ exponent ≤ 2 ^ 30 := Nat.pow_le_pow_right (by decide) limit
  have room : received.length < 2 ^ exponent := by omega
  obtain ⟨after, stored, length, more⟩ := begins.store (by omega) c
  refine ⟨cap, _, after, ⟨rfl, more, exponent, limit, capacity, length.trans size, ?_⟩, fun rest => ?_⟩
  · rw [List.length_append, List.length_singleton]
    omega
  · rw [readLoop, if_neg other, if_neg spare, count, stored, ok_bind, wrapInt_length_concat received c (by omega)]

theorem Buffered.byte (buffered : Buffered received cap len buf) (other : c ≠ 10) (short : received.length < 2 ^ 30) :
    ∃ nextCap nextLen nextBuf, Buffered (received ++ [c]) nextCap nextLen nextBuf ∧
      ∀ rest, readLoop (c :: rest) cap len buf = readLoop rest nextCap nextLen nextBuf := by
  by_cases full : len = cap
  · exact buffered.grow full other short
  · exact buffered.store full other

/-- A further byte when the buffer cannot be doubled. -/
theorem Buffered.exits (buffered : Buffered received cap len buf) (other : c ≠ 10) (long : received.length = 2 ^ 30)
    (rest : List UInt8) : readLoop (c :: rest) cap len buf = .ok (.exit 1 rest) := by
  obtain ⟨count, -, exponent, limit, capacity, -, fits⟩ := buffered
  have last : exponent = 30 := by
    rcases Nat.lt_or_eq_of_le limit with less | same
    · have : 2 ^ exponent ≤ 2 ^ 29 := Nat.pow_le_pow_right (by decide) (by omega)
      omega
    · exact same
  have full : len = cap := by
    rw [count, long, capacity, last]
  have refused : makeBufferOrExit (wrapInt (wrapInt (((2 ^ 30 : Nat) : Int) * 2) + 1)) = none := by decide
  rw [readLoop, if_neg other, if_pos full, capacity, last, refused]

/-! ## Lines -/

theorem Buffered.newline (buffered : Buffered received cap len buf) :
    ∃ after, after.Begins (received ++ [0]) ∧
      ∀ rest, readLoop (10 :: rest) cap len buf = .ok (.line after rest) := by
  obtain ⟨count, begins, exponent, -, -, size, fits⟩ := buffered
  obtain ⟨after, stored, -, more⟩ := begins.store (by omega) 0
  refine ⟨after, more, fun rest => ?_⟩
  rw [readLoop, if_pos rfl, count, stored]
  rfl

/-- Bytes of a line that fit. -/
theorem Buffered.bytes (buffered : Buffered received cap len buf) (free : 10 ∉ line)
    (short : (received ++ line).length ≤ 2 ^ 30) :
    ∃ nextCap nextLen nextBuf, Buffered (received ++ line) nextCap nextLen nextBuf ∧
      ∀ rest, readLoop (line ++ rest) cap len buf = readLoop rest nextCap nextLen nextBuf := by
  induction line generalizing received cap len buf with
  | nil => exact ⟨cap, len, buf, by simpa using buffered, fun rest => rfl⟩
  | cons c line ih =>
      simp only [List.mem_cons, not_or] at free
      simp only [List.length_append, List.length_cons] at short
      obtain ⟨nextCap, nextLen, nextBuf, more, step⟩ := buffered.byte (Ne.symm free.1) (by omega)
      obtain ⟨lastCap, lastLen, lastBuf, whole, later⟩ := ih more free.2 (by simp; omega)
      refine ⟨lastCap, lastLen, lastBuf, by simpa using whole, fun rest => ?_⟩
      rw [List.cons_append, step, later]

theorem readLine_line (free : 10 ∉ line) (short : line.length ≤ 2 ^ 30) :
    ∃ buf, buf.Begins (line ++ [0]) ∧ ∀ rest, ezshReadLine (line ++ 10 :: rest) = .ok (.line buf rest) := by
  obtain ⟨cap, len, buf, whole, read⟩ := buffered_start.bytes free short
  obtain ⟨after, begins, ended⟩ := whole.newline
  refine ⟨after, begins, fun rest => ?_⟩
  rw [ezshReadLine, read, ended]

/-- The line is returned without its newline and with a NUL, and nothing after the
newline is taken from the input. Until then the part of it that has been read is in
a buffer of `cap + 1` bytes, however often the buffer has been doubled. -/
theorem readLine_exact (line rest : List UInt8) (free : 10 ∉ line) (short : line.length < 2 ^ 30) :
    (∃ buf, buf.Begins (line ++ [0]) ∧ ezshReadLine (line ++ 10 :: rest) = .ok (.line buf rest)) ∧
    ∀ received, received <+: line → ∃ cap len buf, Buffered received cap len buf ∧
      ∀ more, ezshReadLine (received ++ more) = readLoop more cap len buf := by
  constructor
  · obtain ⟨buf, begins, read⟩ := readLine_line free (Nat.le_of_lt short)
    exact ⟨buf, begins, read rest⟩
  · intro received front
    have fits : received.length ≤ 2 ^ 30 := Nat.le_trans front.length_le (Nat.le_of_lt short)
    exact buffered_start.bytes (fun member => free (front.subset member)) fits

theorem readLine_exact_doubled :
    let line : List UInt8 := List.replicate 17 97
    (∃ buf, buf.Begins (line ++ [0]) ∧ ezshReadLine (line ++ [10, 98]) = .ok (.line buf [98])) ∧
    ∀ received, received <+: line → ∃ cap len buf, Buffered received cap len buf ∧
      ∀ more, ezshReadLine (received ++ more) = readLoop more cap len buf :=
  readLine_exact (List.replicate 17 97) [98] (by decide) (by decide)

theorem readLine_fragment (free : 10 ∉ line) (short : line.length ≤ 2 ^ 30) :
    ezshReadLine line = .ok (.exit 0 []) := by
  obtain ⟨cap, len, buf, -, read⟩ := buffered_start.bytes free short
  have ended := read []
  rw [List.append_nil] at ended
  rw [ezshReadLine, ended, readLoop]

/-- A line that does not fit ends the program. -/
theorem readLine_long (free : 10 ∉ line) (long : 2 ^ 30 < line.length) (rest : List UInt8) :
    ∃ left, ezshReadLine (line ++ rest) = .ok (.exit 1 left) := by
  have size : (line.take (2 ^ 30)).length = 2 ^ 30 := by
    rw [List.length_take]
    omega
  obtain ⟨cap, len, buf, whole, read⟩ := buffered_start.bytes
    (fun member => free (List.mem_of_mem_take member)) (by rw [List.nil_append, size])
  obtain ⟨c, later, dropped⟩ : ∃ c later, line.drop (2 ^ 30) = c :: later := by
    apply List.exists_cons_of_ne_nil
    rw [ne_eq, List.drop_eq_nil_iff]
    omega
  have other : c ≠ 10 := by
    rintro rfl
    exact free (List.mem_of_mem_drop (dropped ▸ List.mem_cons_self))
  have split : line ++ rest = line.take (2 ^ 30) ++ c :: (later ++ rest) := by
    rw [← List.cons_append, ← dropped, ← List.append_assoc, List.take_append_drop]
  refine ⟨later ++ rest, ?_⟩
  rw [ezshReadLine, split, read]
  exact whole.exits other (by rw [List.nil_append, size]) _

/-- A line takes at least its newline from the input. -/
def ReadLine.Consumes (input : List UInt8) : ReadLine → Prop
  | .line _ rest => rest.length < input.length
  | .exit _ rest => rest.length ≤ input.length

theorem ReadLine.Consumes.cons {result : ReadLine} {input : List UInt8} (consumes : result.Consumes input)
    (c : UInt8) : result.Consumes (c :: input) := by
  cases result with
  | line buf rest => exact Nat.lt_succ_of_lt consumes
  | exit code rest => exact Nat.le_succ_of_le consumes

theorem readLoop_consumes {input : List UInt8} {result : ReadLine} (read : readLoop input cap len buf = .ok result) :
    result.Consumes input := by
  induction input generalizing cap len buf with
  | nil =>
      cases read
      exact Nat.le_refl 0
  | cons c input ih =>
      rw [readLoop] at read
      split at read
      · obtain ⟨ended, -, returned⟩ := bind_eq_ok.mp read
        cases returned
        exact Nat.lt_succ_self _
      · split at read
        · split at read
          · cases read
            exact Nat.le_succ _
          · obtain ⟨copied, -, later⟩ := bind_eq_ok.mp read
            obtain ⟨stored, -, rest⟩ := bind_eq_ok.mp later
            exact (ih rest).cons c
        · obtain ⟨stored, -, rest⟩ := bind_eq_ok.mp read
          exact (ih rest).cons c

end SysProg.Process.Shell
