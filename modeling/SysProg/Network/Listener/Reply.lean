import SysProg.Network.Listener
import Mathlib.Algebra.Order.Ring.Nat
import Mathlib.Data.List.TakeWhile

namespace SysProg.Network.Listener

/-! ## The buffer of `input_reply` -/

/-- `input_reply` has these bytes in a buffer of `cap` bytes, which has been doubled
only where the bytes needed it. -/
structure Held (received : List UInt8) (n cap : Int) (buf : Block UInt8) : Prop where
  count : n = received.length
  begins : buf.Begins received
  block : ∃ exponent, exponent ≤ 30 ∧ cap = ((2 ^ exponent : Nat) : Int) ∧ buf.length = 2 ^ exponent ∧
    received.length ≤ 2 ^ exponent ∧ (exponent = 3 ∨ 3 < exponent ∧ 2 ^ (exponent - 1) < received.length)

variable {received line rest : List UInt8} {n cap : Int} {buf : Block UInt8} {c : UInt8} {error : Bool}

theorem held_start : Held [] 0 bufInit (Block.malloc bufInit) where
  count := rfl
  begins := List.nil_prefix
  block := ⟨3, by decide, rfl, rfl, by decide, .inl rfl⟩

/-- The next byte has a place after the test for a full buffer. -/
theorem Held.grow (held : Held received n cap buf) (c : UInt8) (short : received.length < 2 ^ 30) :
    ∃ nextCap grown nextBuf, growBuffer n cap buf = .ok (nextCap, grown) ∧ grown.store n c = .ok nextBuf ∧
      Held (received ++ [c]) (wrapInt (n + 1)) nextCap nextBuf := by
  obtain ⟨count, begins, exponent, limit, capacity, size, fits, needed⟩ := held
  by_cases full : n = cap
  · have whole : received.length = 2 ^ exponent := by omega
    have less : exponent < 30 := (Nat.pow_lt_pow_iff_right Nat.one_lt_two).mp (by omega)
    have half : 2 ^ exponent ≤ 2 ^ 29 := Nat.pow_le_pow_right (by decide) (by omega)
    have positive : 0 < 2 ^ exponent := Nat.two_pow_pos exponent
    have double : wrapInt (cap * 2) = ((2 ^ (exponent + 1) : Nat) : Int) := by
      rw [capacity]
      exact wrapInt_double less
    obtain ⟨grown, moved, length, kept⟩ := begins.realloc (2 ^ (exponent + 1)) (by omega) (by omega)
    obtain ⟨after, stored, same, more⟩ := kept.store (by omega) c
    refine ⟨_, grown, after, by rw [growBuffer, if_pos full, double, moved], count ▸ stored, ?_⟩
    rw [count, wrapInt_length_concat received c (by omega)]
    refine ⟨rfl, more, exponent + 1, less, rfl, same.trans length, ?_, .inr ?_⟩
    · rw [List.length_append, List.length_singleton]
      omega
    · rw [List.length_append, List.length_singleton, Nat.add_sub_cancel]
      omega
  · have room : received.length < buf.length := by omega
    obtain ⟨after, stored, same, more⟩ := begins.store room c
    refine ⟨cap, buf, after, by rw [growBuffer, if_neg full], count ▸ stored, ?_⟩
    rw [count, wrapInt_length_concat received c (by omega)]
    refine ⟨rfl, more, exponent, limit, capacity, same.trans size, ?_, ?_⟩
    · rw [List.length_append, List.length_singleton]
      omega
    · rw [List.length_append, List.length_singleton]
      omega

theorem Held.byte (held : Held received n cap buf) (other : c ≠ 10) (short : received.length < 2 ^ 30) :
    ∃ nextN nextCap nextBuf, Held (received ++ [c]) nextN nextCap nextBuf ∧
      ∀ error rest, replyLoop error (c :: rest) n cap buf = replyLoop error rest nextN nextCap nextBuf := by
  obtain ⟨nextCap, grown, nextBuf, grew, stored, more⟩ := held.grow c short
  refine ⟨_, nextCap, nextBuf, more, fun error rest => ?_⟩
  rw [replyLoop, grew, ok_bind]
  simp only [stored, ok_bind, other, if_false]

theorem Held.bytes (held : Held received n cap buf) (free : 10 ∉ line) (short : (received ++ line).length < 2 ^ 30) :
    ∃ nextN nextCap nextBuf, Held (received ++ line) nextN nextCap nextBuf ∧
      ∀ error rest, replyLoop error (line ++ rest) n cap buf = replyLoop error rest nextN nextCap nextBuf := by
  induction line generalizing received n cap buf with
  | nil => exact ⟨n, cap, buf, by simpa using held, fun error rest => rfl⟩
  | cons c line ih =>
      simp only [List.mem_cons, not_or] at free
      simp only [List.length_append, List.length_cons] at short
      obtain ⟨nextN, nextCap, nextBuf, more, step⟩ := held.byte (Ne.symm free.1) (by omega)
      obtain ⟨lastN, lastCap, lastBuf, whole, later⟩ := ih more free.2 (by simp; omega)
      refine ⟨lastN, lastCap, lastBuf, by simpa using whole, fun error rest => ?_⟩
      rw [List.cons_append, step, later]

/-- The newline, and the terminator. -/
theorem Held.newline (held : Held received n cap buf) (short : received.length < 2 ^ 30) :
    ∃ nextCap nextBuf, Held (received ++ [10]) (received ++ [10]).length nextCap nextBuf ∧
      ∀ error rest, replyLoop error (10 :: rest) n cap buf = (do
        return .returned (← nextBuf.store (received ++ [10]).length 0) rest) := by
  obtain ⟨nextCap, grown, nextBuf, grew, stored, more⟩ := held.grow 10 short
  have next : wrapInt (n + 1) = (received ++ [10]).length := more.count
  refine ⟨nextCap, nextBuf, next ▸ more, fun error rest => ?_⟩
  rw [replyLoop, grew, ok_bind]
  simp only [stored, ok_bind, if_true, next]

/-- There is no place for the terminator where the bytes are exactly a power of two from
eight on. -/
theorem Held.full_iff (held : Held received n cap buf) :
    received.length = buf.length ↔ ∃ exponent, 3 ≤ exponent ∧ received.length = 2 ^ exponent := by
  obtain ⟨-, -, exponent, -, -, size, fits, needed⟩ := held
  constructor
  · intro full
    exact ⟨exponent, by omega, full.trans size⟩
  · rintro ⟨other, least, exact⟩
    have below : other ≤ exponent := (Nat.pow_le_pow_iff_right Nat.one_lt_two).mp (by omega)
    have above : exponent ≤ other := by
      rcases needed with first | ⟨positive, more⟩
      · omega
      · have less : exponent - 1 < other := (Nat.pow_lt_pow_iff_right Nat.one_lt_two).mp (by omega)
        omega
    rw [exact, size, Nat.le_antisymm below above]

/-- A line ended by a newline is returned up to its first NUL if and only if its
length, with the newline, is not a power of two from eight on. -/
theorem inputReply_returns_iff (error : Bool) (line rest : List UInt8) (free : 10 ∉ line)
    (short : line.length < 2 ^ 30) :
    (∃ buf, inputReply error (line ++ 10 :: rest) = .ok (.returned buf rest) ∧
      buf.cString = .ok ((line ++ [10]).takeWhile (· ≠ 0))) ↔
      ∀ exponent, 3 ≤ exponent → line.length + 1 ≠ 2 ^ exponent := by
  obtain ⟨n, cap, buf, held, read⟩ := held_start.bytes free short
  rw [List.nil_append] at held
  obtain ⟨nextCap, nextBuf, whole, ended⟩ := held.newline short
  have total : (line ++ [10]).length = line.length + 1 := by rw [List.length_append, List.length_singleton]
  have returns : inputReply error (line ++ 10 :: rest) = (do
      return .returned (← nextBuf.store (line ++ [10]).length 0) rest) := by
    rw [inputReply, read, ended]
  rw [returns]
  constructor
  · rintro ⟨result, returned, -⟩ exponent least exact
    have full := whole.full_iff.mpr ⟨exponent, least, total.trans exact⟩
    rw [Block.store_beyond _ _ _ (Nat.le_of_eq full.symm)] at returned
    contradiction
  · intro never
    have different : (line ++ [10]).length ≠ nextBuf.length := by
      intro full
      obtain ⟨exponent, least, exact⟩ := whole.full_iff.mp full
      exact never exponent least (total.symm.trans exact)
    obtain ⟨after, stored, -, string⟩ := whole.begins.store (Nat.lt_of_le_of_ne whole.begins.length_le different) 0
    exact ⟨after, by rw [stored, ok_bind]; rfl, string.cString⟩

theorem inputReply_returns_six_bytes :
    let line : List UInt8 := List.replicate 6 97
    ∃ buf, inputReply false (line ++ [10, 98]) = .ok (.returned buf [98]) ∧
      buf.cString = .ok ((line ++ [10]).takeWhile (· ≠ 0)) := by
  intro line
  refine (inputReply_returns_iff false line [98] (by decide) (by decide)).mpr fun exponent least => ?_
  have more : 2 ^ 3 ≤ 2 ^ exponent := Nat.pow_le_pow_right (by decide) least
  have length : line.length = 6 := rfl
  omega

/-- The terminator of a line of seven bytes is stored behind the buffer. -/
theorem seven_bytes_overrun : ¬ ∀ (error : Bool) (line rest : List UInt8), 10 ∉ line → line.length < 2 ^ 30 →
    ∃ buf, inputReply error (line ++ 10 :: rest) = .ok (.returned buf rest) ∧
      buf.cString = .ok ((line ++ [10]).takeWhile (· ≠ 0)) := by
  intro returns
  obtain ⟨buf, returned, -⟩ := returns false (List.replicate 7 97) [] (by decide) (by decide)
  have overrun : inputReply false (List.replicate 7 97 ++ [10]) = .error .outOfBounds := by decide
  rw [overrun] at returned
  contradiction

end SysProg.Network.Listener
