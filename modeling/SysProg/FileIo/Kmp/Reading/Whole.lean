import SysProg.FileIo.Kmp.Reading

namespace SysProg.FileIo.Kmp

/-! ## The text after some reads -/

/-- The cell behind the text: it is first written after the first read. -/
def endCell (received : List UInt8) : Option UInt8 := if received = [] then none else some 0

structure Filled (received : List UInt8) (buffer : Buffer) (text : Block UInt8) : Prop where
  count : buffer.n = received.length
  block : buffer.text = some text
  power : ∃ exponent, exponent ≤ 21 ∧ buffer.capacity = ((512 * 2 ^ exponent : Nat) : Int) ∧
    received.length + 512 ≤ 512 * 2 ^ exponent ∧
    text = Block.ofList received ++ endCell received :: Block.malloc (512 * 2 ^ exponent - received.length)

variable {received bytes rest : List UInt8} {buffer : Buffer} {text : Block UInt8} {closes : Bool}
  {results : List IoResult} {accesses : List Access}

theorem filled_start : Filled [] { capacity := readSize, n := 0, text := some (Block.malloc (readSize + 1)) }
    (Block.malloc (readSize + 1)) where
  count := rfl
  block := rfl
  power := ⟨0, by decide, rfl, by decide, rfl⟩

/-- What a read overwrites is the old terminator and cells not yet used. -/
theorem drop_unused {cell : Option UInt8} {count size : Nat} (some : 0 < count) (room : count ≤ size) :
    (cell :: Block.malloc size).drop count = none :: (Block.malloc (size - count) : Block UInt8) := by
  obtain ⟨less, rfl⟩ : ∃ less, count = less + 1 := ⟨count - 1, by omega⟩
  have left : size - less = (size - (less + 1)) + 1 := by omega
  rw [List.drop_succ_cons, Block.malloc, List.drop_replicate, left, List.replicate_succ]
  rfl

theorem stored (received : List UInt8) (capacity : Nat) (nonempty : bytes ≠ [])
    (room : received.length + bytes.length ≤ capacity) :
    ∃ middle, Block.storeFrom (Block.ofList received ++ endCell received :: Block.malloc (capacity - received.length))
        received.length bytes = .ok middle ∧
      Block.store middle (received ++ bytes).length 0 =
        .ok (Block.ofList (received ++ bytes) ++ some 0 :: Block.malloc (capacity - (received ++ bytes).length)) := by
  have positive := List.length_pos_iff.mpr nonempty
  have front : (Block.ofList received).length = received.length := Block.length_ofList _
  have whole : (Block.ofList (received ++ bytes)).length = (received ++ bytes).length := Block.length_ofList _
  have joined : Block.ofList received ++ Block.ofList bytes = Block.ofList (received ++ bytes) := by
    simp [Block.ofList]
  have unused : capacity - received.length - bytes.length = capacity - (received ++ bytes).length := by
    rw [List.length_append]
    omega
  refine ⟨_, front ▸ Block.storeFrom_append _ _ bytes (by simp [Block.malloc]; omega), ?_⟩
  rw [drop_unused positive (by omega), joined, unused]
  exact whole ▸ Block.store_append _ _ _ 0

theorem endCell_append (nonempty : bytes ≠ []) : endCell (received ++ bytes) = some 0 := by
  simp [endCell, nonempty]

/-- `realloc` from one capacity to the double one. -/
theorem realloc_double (received : List UInt8) (cell : Option UInt8) {capacity : Nat}
    (room : received.length ≤ capacity) (small : capacity < 2 ^ 30) :
    Block.realloc (Block.ofList received ++ cell :: Block.malloc (capacity - received.length))
        ((2 * capacity + 1 : Nat) : Int) =
      some (Block.ofList received ++ cell :: Block.malloc (2 * capacity - received.length)) := by
  have size : (Block.ofList received ++ cell :: Block.malloc (capacity - received.length)).length = capacity + 1 := by
    simp [Block.ofList, Block.malloc]
    omega
  have exact : (((2 * capacity + 1 : Nat) : Int) % 2 ^ 64).toNat = 2 * capacity + 1 := by omega
  have sum : capacity - received.length + (2 * capacity + 1 - (capacity + 1)) = 2 * capacity - received.length := by
    omega
  rw [Block.realloc, if_pos (by omega), exact, List.take_of_length_le (by omega), size, List.append_assoc,
    List.cons_append, Block.malloc, Block.malloc, List.replicate_append_replicate, sum]
  rfl

/-- The most that fits before `capacity` leaves the range of `int`. -/
def mostRead : Nat := 2 ^ 30 - 512

theorem two_pow_le {exponent : Nat} (limit : exponent ≤ 21) : 512 * 2 ^ exponent ≤ 2 ^ 30 := by
  have : 2 ^ exponent ≤ 2 ^ 21 := Nat.pow_le_pow_right (by decide) limit
  omega

/-- The text after one successful read, before it may grow. -/
def terminatedText (received : List UInt8) (capacity : Nat) : Block UInt8 :=
  Block.ofList received ++ some 0 :: Block.malloc (capacity - received.length)

theorem Filled.receive_eq (filled : Filled received buffer text) (nonempty : bytes ≠ [])
    (most : bytes.length ≤ readSize) : ∃ exponent, exponent ≤ 21 ∧ received.length + 512 ≤ 512 * 2 ^ exponent ∧
      buffer.capacity = ((512 * 2 ^ exponent : Nat) : Int) ∧
      buffer.receive text bytes.length bytes = .ok (
        if 512 * 2 ^ exponent < (received ++ bytes).length + 512 then {
          capacity := wrapInt (buffer.capacity * 2)
          n := (received ++ bytes).length
          text := (terminatedText (received ++ bytes) (512 * 2 ^ exponent)).realloc
            (wrapInt (wrapInt (buffer.capacity * 2) + 1)) }
        else {
          capacity := buffer.capacity
          n := (received ++ bytes).length
          text := some (terminatedText (received ++ bytes) (512 * 2 ^ exponent)) }) := by
  obtain ⟨count, -, exponent, limit, capacity, room, rfl⟩ := filled
  have bound := two_pow_le limit
  simp only [readSize] at most
  obtain ⟨middle, first, second⟩ := stored received (512 * 2 ^ exponent) nonempty (by omega)
  have length : (received ++ bytes).length = received.length + bytes.length := List.length_append
  have sum : wrapInt ((received.length : Int) + bytes.length) = ((received ++ bytes).length : Int) := by
    rw [wrapInt_of_range (by omega) (by omega), length, Int.natCast_add]
  have needed : wrapInt (((received ++ bytes).length : Int) + readSize) =
      (((received ++ bytes).length + 512 : Nat) : Int) := by
    rw [readSize, wrapInt_of_range (by omega) (by omega)]
    rfl
  refine ⟨exponent, limit, room, capacity, ?_⟩
  simp only [Buffer.receive, count, first, ok_bind, sum, second, capacity, needed, Int.ofNat_lt, terminatedText]
  split <;> rfl

/-- A successful read that stays below the limit. -/
theorem Filled.receive (filled : Filled received buffer text) (nonempty : bytes ≠ [])
    (most : bytes.length ≤ readSize) (fits : (received ++ bytes).length ≤ mostRead) :
    ∃ after next, buffer.receive text bytes.length bytes = .ok after ∧ Filled (received ++ bytes) after next := by
  obtain ⟨exponent, limit, room, capacity, step⟩ := filled.receive_eq nonempty most
  have bound := two_pow_le limit
  have length : (received ++ bytes).length = received.length + bytes.length := List.length_append
  simp only [readSize, mostRead] at most fits
  rw [step]
  split
  · rename_i short
    have less : 512 * 2 ^ exponent < 2 ^ 30 := by omega
    have below : exponent < 21 := by
      by_contra
      have : exponent = 21 := by omega
      rw [this] at less
      omega
    have double : wrapInt (buffer.capacity * 2) = ((512 * 2 ^ (exponent + 1) : Nat) : Int) := by
      rw [capacity, wrapInt_of_range (by omega) (by omega), Nat.pow_succ]
      omega
    have size : wrapInt (((512 * 2 ^ (exponent + 1) : Nat) : Int) + 1) =
        ((2 * (512 * 2 ^ exponent) + 1 : Nat) : Int) := by
      rw [Nat.pow_succ, wrapInt_of_range (by omega) (by omega)]
      omega
    have grown : 512 * 2 ^ (exponent + 1) = 2 * (512 * 2 ^ exponent) := by
      rw [Nat.pow_succ]
      omega
    refine ⟨_, _, rfl, rfl, ?_, exponent + 1, below, double, by omega, rfl⟩
    rw [double, size, terminatedText, realloc_double _ _ (by omega) less, endCell_append nonempty, grown]
  · rename_i spare
    refine ⟨_, _, rfl, rfl, rfl, exponent, limit, capacity, by omega, ?_⟩
    rw [endCell_append nonempty, terminatedText]

/-- A read beyond the limit doubles `capacity` out of the range of `int`, and `realloc` fails. -/
theorem Filled.receive_beyond (filled : Filled received buffer text) (nonempty : bytes ≠ [])
    (most : bytes.length ≤ readSize) (beyond : mostRead < (received ++ bytes).length) :
    ∃ after, buffer.receive text bytes.length bytes = .ok after ∧ after.text = none := by
  obtain ⟨exponent, limit, room, capacity, step⟩ := filled.receive_eq nonempty most
  have bound := two_pow_le limit
  have length : (received ++ bytes).length = received.length + bytes.length := List.length_append
  simp only [readSize, mostRead] at most beyond
  have last : 512 * 2 ^ exponent = 2 ^ 30 := by
    rcases Nat.lt_or_eq_of_le limit with less | rfl
    · have : 2 ^ exponent ≤ 2 ^ 20 := Nat.pow_le_pow_right (by decide) (by omega)
      omega
    · rfl
  rw [step, if_pos (by omega)]
  refine ⟨_, rfl, ?_⟩
  have overflow : wrapInt (wrapInt (((2 ^ 30 : Nat) : Int) * 2) + 1) = -2 ^ 31 + 1 := by decide
  rw [capacity, last, overflow, Block.realloc, if_neg (by decide)]

/-! ## Whole schedules -/

theorem Filled.inside (filled : Filled received buffer text) :
    (received.length : Int) + 512 ≤ buffer.capacity ∧ text.length = buffer.capacity + 1 := by
  obtain ⟨-, -, exponent, -, capacity, room, rfl⟩ := filled
  rw [capacity]
  refine ⟨by exact_mod_cast room, ?_⟩
  rw [List.length_append, List.length_cons, Block.length_malloc, Block.length_ofList]
  omega

theorem Filled.begins (filled : Filled received buffer text) : text.Begins received := by
  obtain ⟨-, -, exponent, -, -, -, rfl⟩ := filled
  exact List.prefix_append _ _

theorem readLoop_piece {r : Nat} (positive : 0 < r) {buffer after : Buffer} {text : Block UInt8}
    (block : buffer.text = some text) (received : buffer.receive text r (rest.take r) = .ok after) :
    readLoop closes (.done r :: results) rest buffer accesses =
      readLoop closes results (rest.drop r) after
        (accesses ++ [Access.read buffer.n buffer.capacity text.length] ++
          [Access.terminator after.n buffer.capacity text.length]) := by
  obtain ⟨less, rfl⟩ : ∃ less, r = less + 1 := ⟨r - 1, by omega⟩
  simp only [readLoop, block, received, ok_bind]

theorem Filled.accesses_inside (filled : Filled received buffer text) {after : Buffer} {next : Block UInt8}
    (most : bytes.length ≤ readSize) (grown : Filled (received ++ bytes) after next)
    (inside : ∀ access ∈ accesses, access.Inside) :
    ∀ access ∈ accesses ++ [Access.read buffer.n buffer.capacity text.length] ++
      [Access.terminator after.n buffer.capacity text.length], access.Inside := by
  obtain ⟨room, size⟩ := filled.inside
  simp only [readSize] at most
  intro access member
  rcases List.mem_append.mp member with earlier | last
  · rcases List.mem_append.mp earlier with before | read
    · exact inside access before
    · rw [List.mem_singleton.mp read, filled.count]
      exact ⟨Int.natCast_nonneg _, room, size⟩
  · rw [List.mem_singleton.mp last, grown.count, List.length_append]
    exact ⟨Int.natCast_nonneg _, by omega, size⟩

/-- `read_str_buf` has returned `0` with these bytes, without a stray access. -/
structure ReadOutcome.Holds (outcome : ReadOutcome) (bytes : List UInt8) : Prop where
  code : outcome.code = 0
  length : outcome.length = some (bytes.length : Int)
  text : ∃ text, outcome.text = some text ∧ Block.Begins text bytes
  inside : ∀ access ∈ outcome.accesses, access.Inside

theorem Delivers.readLoop {file : List UInt8} (delivers : Delivers file results)
    (filled : Filled received buffer text) (short : (received ++ file).length ≤ mostRead)
    (inside : ∀ access ∈ accesses, access.Inside) :
    ∃ outcome, readLoop true results file buffer accesses = .ok outcome ∧ outcome.Holds (received ++ file) ∧
      ∃ last whole, outcome.text = some whole ∧ Filled (received ++ file) last whole := by
  induction delivers generalizing received buffer text accesses with
  | finished =>
      obtain ⟨room, size⟩ := filled.inside
      simp only [Kmp.readLoop, filled.block, filled.count, if_true, List.append_nil]
      refine ⟨_, rfl, ⟨rfl, rfl, ⟨text, rfl, filled.begins⟩, ?_⟩, buffer, text, rfl, filled⟩
      intro access member
      rcases List.mem_append.mp member with before | read
      · exact inside access before
      · rw [List.mem_singleton.mp read]
        exact ⟨Int.natCast_nonneg _, room, size⟩
  | @piece bytes rest results nonempty most later ih =>
      rw [← List.append_assoc] at short
      have part : (received ++ bytes).length ≤ mostRead := by
        rw [List.length_append] at short
        omega
      obtain ⟨after, next, step, grown⟩ := filled.receive nonempty most part
      have taken : buffer.receive text bytes.length ((bytes ++ rest).take bytes.length) = .ok after := by
        rw [List.take_left, step]
      rw [readLoop_piece (List.length_pos_iff.mpr nonempty) filled.block taken, List.drop_left, ← List.append_assoc]
      exact ih grown short (filled.accesses_inside most grown inside)

theorem Delivers.readStrBuf {file : List UInt8} (delivers : Delivers file results) (short : file.length < 2 ^ 30 - 512) :
    ∃ outcome, readStrBuf (some file) true results = .ok outcome ∧ outcome.Holds file ∧
      ∃ last whole, outcome.text = some whole ∧ Filled file last whole :=
  delivers.readLoop filled_start (Nat.le_of_lt short) (fun _ member => absurd member List.not_mem_nil)

/-- A file is read whole, whatever the sizes of the reads, and every access is
inside the block. -/
theorem read_str_buf_holds_file (file : List UInt8) (short : file.length < 2 ^ 30 - 512) (results : List IoResult)
    (delivers : Delivers file results) :
    ∃ outcome, readStrBuf (some file) true results = .ok outcome ∧ outcome.Holds file := by
  obtain ⟨outcome, ran, holds, -⟩ := delivers.readStrBuf short
  exact ⟨outcome, ran, holds⟩

theorem read_str_buf_holds_three : ∃ outcome,
    readStrBuf (some [104, 105, 10]) true [.done 2, .done 1, .done 0] = .ok outcome ∧
      outcome.Holds [104, 105, 10] :=
  read_str_buf_holds_file [104, 105, 10] (by decide) _
    (@Delivers.piece [104, 105] [10] _ (by decide) (by decide)
      (@Delivers.piece [10] [] _ (by decide) (by decide) .finished))

/-! ## The terminator -/

/-- `sb->text[sb->length]` has been written and is NUL. -/
def ReadOutcome.Terminated (outcome : ReadOutcome) : Prop :=
  ∃ text length, outcome.text = some text ∧ outcome.length = some length ∧ text.load length = .ok 0

theorem Filled.end_cell (filled : Filled received buffer text) : text[received.length]? = some (endCell received) := by
  obtain ⟨-, -, exponent, -, -, -, rfl⟩ := filled
  have front : (Block.ofList received).length = received.length := Block.length_ofList _
  rw [List.getElem?_append_right (Nat.le_of_eq front), front, Nat.sub_self, List.getElem?_cons_zero]

/-- The string that `read_str_buf` returns has its terminator if and only if the file is
not empty. -/
theorem read_str_buf_terminated_iff (file : List UInt8) (short : file.length < 2 ^ 30 - 512) (results : List IoResult)
    (delivers : Delivers file results) :
    ∃ outcome, readStrBuf (some file) true results = .ok outcome ∧ outcome.code = 0 ∧
      (outcome.Terminated ↔ file ≠ []) := by
  obtain ⟨outcome, ran, holds, last, whole, kept, filled⟩ := delivers.readStrBuf short
  refine ⟨outcome, ran, holds.code, ?_, ?_⟩
  · rintro ⟨text, length, found, counted, loaded⟩ empty
    obtain rfl := Option.some.inj (kept.symm.trans found)
    obtain rfl := Option.some.inj (holds.length.symm.trans counted)
    have cell := filled.end_cell
    rw [Block.load_eq_ok.mp loaded, endCell, if_pos empty] at cell
    contradiction
  · intro nonempty
    refine ⟨whole, file.length, kept, holds.length, Block.load_eq_ok.mpr ?_⟩
    rw [filled.end_cell, endCell, if_neg nonempty]

theorem read_str_buf_terminated_two : ∃ outcome,
    readStrBuf (some [104, 105]) true [.done 1, .done 1, .done 0] = .ok outcome ∧ outcome.code = 0 ∧
      outcome.Terminated := by
  obtain ⟨outcome, ran, code, terminated⟩ := read_str_buf_terminated_iff [104, 105] (by decide) _
    (@Delivers.piece [104] [105] _ (by decide) (by decide)
      (@Delivers.piece [105] [] _ (by decide) (by decide) .finished))
  exact ⟨outcome, ran, code, terminated.mpr (List.cons_ne_nil _ _)⟩

/-- The text of an empty file is left as it was allocated. -/
theorem empty_file_unterminated : ¬ ∀ (file : List UInt8), file.length < 2 ^ 30 - 512 → ∀ (results : List IoResult),
    Delivers file results → ∀ outcome, readStrBuf (some file) true results = .ok outcome → outcome.code = 0 →
      outcome.Terminated := by
  intro terminated
  obtain ⟨text, length, found, counted, loaded⟩ := terminated [] (by decide) _ .finished _ rfl rfl
  cases found
  cases counted
  contradiction

end SysProg.FileIo.Kmp
