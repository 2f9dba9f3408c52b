import SysProg.FileIo.Kmp.Reading.Whole

namespace SysProg.FileIo.Kmp

/-! ## Interrupted reads -/

/-- What is left of a schedule without its interruptions. -/
def uninterrupted (results : List IoResult) : List IoResult := results.filter (· ≠ .interrupted)

/-- The results before the first interruption. -/
def untilInterrupted (results : List IoResult) : List IoResult := results.takeWhile (· ≠ .interrupted)

def bytesRead : List IoResult → Nat
  | [] => 0
  | .done r :: results => r + bytesRead results
  | _ :: results => bytesRead results

/-- Both calls return, with the same value, text and length. -/
def SameResult (first second : Except Trap ReadOutcome) : Prop :=
  ∃ one other, first = .ok one ∧ second = .ok other ∧
    one.code = other.code ∧ one.text = other.text ∧ one.length = other.length

variable {received bytes rest : List UInt8} {buffer : Buffer} {text : Block UInt8} {closes : Bool}
  {results : List IoResult} {accesses : List Access}

/-- An interruption ends the loop like any other failure. -/
theorem readLoop_interrupted (block : buffer.text = some text) :
    readLoop closes (.interrupted :: results) rest buffer accesses =
      .ok { code := -1, text := some text, length := none,
            accesses := accesses ++ [.read buffer.n buffer.capacity text.length] } := by
  simp [readLoop, block, eintr]

theorem readLoop_finished (block : buffer.text = some text) :
    readLoop closes (.done 0 :: results) rest buffer accesses =
      .ok { code := if closes then 0 else -1, text := some text, length := some buffer.n,
            accesses := accesses ++ [.read buffer.n buffer.capacity text.length] } := by
  simp [readLoop, block]

theorem readLoop_null (null : buffer.text = none) (outcome : ReadOutcome) :
    readLoop closes results rest buffer accesses ≠ .ok outcome := by
  cases results <;> simp [readLoop, null]

/-- The cells of the text that have been written. -/
def written (text : Block UInt8) : Nat := text.countP Option.isSome

theorem Filled.written_eq (filled : Filled received buffer text) :
    written text = if received = [] then 0 else received.length + 1 := by
  obtain ⟨-, -, exponent, -, -, -, rfl⟩ := filled
  have bytes : (Block.ofList received).countP Option.isSome = received.length := by
    simp [Block.ofList, List.countP_map, Function.comp_def]
  have unused (size : Nat) : (Block.malloc size : Block UInt8).countP Option.isSome = 0 := by
    simp [Block.malloc, List.countP_replicate]
  rw [written, List.countP_append, bytes, List.countP_cons, unused, endCell]
  split
  · rename_i none
    simp [none]
  · rfl

theorem uninterrupted_cons {result : IoResult} (other : result ≠ .interrupted) :
    uninterrupted (result :: results) = result :: uninterrupted results := by
  simp [uninterrupted, other]

theorem Delivers.head {file : List UInt8} {result : IoResult}
    (delivers : Delivers file (uninterrupted (result :: results))) :
    result = .interrupted ∨ result = .done 0 ∧ uninterrupted results = [] ∨
      ∃ bytes rest, bytes ≠ [] ∧ bytes.length ≤ readSize ∧ result = .done bytes.length ∧ file = bytes ++ rest ∧
        Delivers rest (uninterrupted results) := by
  by_cases interrupted : result = .interrupted
  · exact .inl interrupted
  · right
    rw [uninterrupted_cons interrupted] at delivers
    generalize uninterrupted results = clean at delivers ⊢
    cases delivers with
    | finished => exact .inl ⟨rfl, rfl⟩
    | piece nonempty most later => exact .inr ⟨_, _, nonempty, most, rfl, rfl, later⟩

/-- The iteration after a read, within the limit or beyond it. -/
theorem Filled.piece (filled : Filled received buffer text) (nonempty : bytes ≠ [])
    (most : bytes.length ≤ readSize) :
    ((received ++ bytes).length ≤ mostRead ∧ ∃ after next, Filled (received ++ bytes) after next ∧
      ∀ results rest accesses, ∃ more, readLoop closes (.done bytes.length :: results) (bytes ++ rest) buffer accesses =
        readLoop closes results rest after more) ∨
    (mostRead < (received ++ bytes).length ∧ ∀ results rest accesses outcome,
      readLoop closes (.done bytes.length :: results) (bytes ++ rest) buffer accesses ≠ .ok outcome) := by
  have positive := List.length_pos_iff.mpr nonempty
  rcases Nat.lt_or_ge mostRead (received ++ bytes).length with beyond | fits
  · obtain ⟨after, step, null⟩ := filled.receive_beyond nonempty most beyond
    refine .inr ⟨beyond, fun results rest accesses outcome => ?_⟩
    rw [readLoop_piece positive filled.block (by rw [List.take_left, step]), List.drop_left]
    exact readLoop_null null outcome
  · obtain ⟨after, next, step, grown⟩ := filled.receive nonempty most fits
    refine .inl ⟨fits, after, next, grown, fun results rest accesses => ?_⟩
    rw [readLoop_piece positive filled.block (by rw [List.take_left, step]), List.drop_left]
    exact ⟨_, rfl⟩

theorem Filled.written_le {file : List UInt8} (filled : Filled received buffer text)
    (delivers : Delivers file (uninterrupted results)) {outcome : ReadOutcome}
    (ran : readLoop closes results file buffer accesses = .ok outcome) :
    ∃ final, outcome.text = some final ∧ written text ≤ written final := by
  induction results generalizing received buffer text file accesses with
  | nil => contradiction
  | cons result results ih =>
      rcases delivers.head with rfl | ⟨rfl, -⟩ | ⟨bytes, rest, nonempty, most, rfl, rfl, later⟩
      · rw [readLoop_interrupted filled.block] at ran
        cases ran
        exact ⟨text, rfl, Nat.le_refl _⟩
      · rw [readLoop_finished filled.block] at ran
        cases ran
        exact ⟨text, rfl, Nat.le_refl _⟩
      · rcases filled.piece nonempty most with ⟨-, after, next, grown, goes⟩ | ⟨-, stuck⟩
        · obtain ⟨more, same⟩ := goes results rest accesses
          rw [same] at ran
          obtain ⟨final, ended, least⟩ := ih grown later ran
          refine ⟨final, ended, Nat.le_trans ?_ least⟩
          rw [filled.written_eq, grown.written_eq, List.length_append]
          split <;> simp [nonempty]
        · exact absurd ran (stuck results rest accesses outcome)

/-- A run that is interrupted is told from one that reads on. -/
theorem Filled.interrupted_differs {file : List UInt8} (filled : Filled received buffer text) {result : IoResult}
    (other : result ≠ .interrupted) (delivers : Delivers file (uninterrupted (result :: results)))
    {interruptedResults : List IoResult} {earlier : List Access} :
    ¬ SameResult (readLoop closes (.interrupted :: interruptedResults) file buffer accesses)
      (readLoop closes (result :: results) file buffer earlier) := by
  rintro ⟨one, two, first, second, code, text, length⟩
  rw [readLoop_interrupted filled.block] at first
  cases first
  rcases delivers.head with rfl | ⟨rfl, -⟩ | ⟨bytes, rest, nonempty, most, rfl, rfl, later⟩
  · contradiction
  · rw [readLoop_finished filled.block] at second
    cases second
    contradiction
  · rcases filled.piece nonempty most with ⟨-, after, next, grown, goes⟩ | ⟨-, stuck⟩
    · obtain ⟨more, same⟩ := goes results rest earlier
      rw [same] at second
      obtain ⟨final, ended, least⟩ := grown.written_le later second
      rw [ended] at text
      cases text
      rw [filled.written_eq, grown.written_eq, List.length_append] at least
      have positive := List.length_pos_iff.mpr nonempty
      simp only [List.append_eq_nil_iff, nonempty, and_false, if_false] at least
      split at least <;> omega
    · exact absurd second (stuck results rest earlier two)

theorem SameResult.symm {first second : Except Trap ReadOutcome} (same : SameResult first second) :
    SameResult second first := by
  obtain ⟨one, other, ran, again, code, text, length⟩ := same
  exact ⟨other, one, again, ran, code.symm, text.symm, length.symm⟩

theorem untilInterrupted_cons {result : IoResult} (other : result ≠ .interrupted) :
    untilInterrupted (result :: results) = result :: untilInterrupted results := by
  simp [untilInterrupted, other]

theorem untilInterrupted_interrupted : untilInterrupted (.interrupted :: results) = [] := by
  simp [untilInterrupted]

theorem untilInterrupted_eq_nil (none : uninterrupted results = []) : untilInterrupted results = [] := by
  cases results with
  | nil => rfl
  | cons result results =>
      by_cases interrupted : result = .interrupted
      · rw [interrupted, untilInterrupted_interrupted]
      · rw [uninterrupted_cons interrupted] at none
        contradiction

theorem Filled.length_le (filled : Filled received buffer text) : received.length ≤ mostRead := by
  obtain ⟨-, -, exponent, limit, -, room, -⟩ := filled
  have bound := two_pow_le limit
  simp only [mostRead]
  omega

theorem Filled.sameResult_piece (filled : Filled received buffer text) (nonempty : bytes ≠ [])
    (most : bytes.length ≤ readSize) {first second : List IoResult} {earlier : List Access}
    (later : ∀ {after next more earlier}, Filled (received ++ bytes) after next →
      (SameResult (readLoop closes first rest after more) (readLoop closes second rest after earlier) ↔
        untilInterrupted first = untilInterrupted second ∧
          (received ++ bytes).length + bytesRead (untilInterrupted first) ≤ mostRead)) :
    SameResult (readLoop closes (.done bytes.length :: first) (bytes ++ rest) buffer accesses)
        (readLoop closes (.done bytes.length :: second) (bytes ++ rest) buffer earlier) ↔
      untilInterrupted (.done bytes.length :: first) = untilInterrupted (.done bytes.length :: second) ∧
        received.length + bytesRead (untilInterrupted (.done bytes.length :: first)) ≤ mostRead := by
  rw [untilInterrupted_cons (by simp), untilInterrupted_cons (by simp), bytesRead, List.cons.injEq,
    ← Nat.add_assoc, ← List.length_append]
  rcases filled.piece nonempty most with ⟨-, after, next, grown, goes⟩ | ⟨beyond, stuck⟩
  · obtain ⟨more, ran⟩ := goes first rest accesses
    obtain ⟨others, again⟩ := goes second rest earlier
    rw [ran, again, later grown]
    simp
  · constructor
    · rintro ⟨one, other, ran, -⟩
      exact absurd ran (stuck first rest accesses one)
    · rintro ⟨-, less⟩
      omega

theorem Filled.sameResult_iff {file : List UInt8} {first second : List IoResult} {earlier : List Access}
    (filled : Filled received buffer text) (delivers : Delivers file (uninterrupted first))
    (same : uninterrupted first = uninterrupted second) :
    SameResult (readLoop closes first file buffer accesses) (readLoop closes second file buffer earlier) ↔
      untilInterrupted first = untilInterrupted second ∧
        received.length + bytesRead (untilInterrupted first) ≤ mostRead := by
  have within := filled.length_le
  induction first generalizing received buffer text file second accesses earlier with
  | nil => cases delivers
  | cons result first ih =>
      cases second with
      | nil =>
          rw [same] at delivers
          cases delivers
      | cons other second =>
          by_cases interrupted : result = .interrupted
          · subst interrupted
            by_cases twice : other = .interrupted
            · subst twice
              rw [readLoop_interrupted filled.block, readLoop_interrupted filled.block,
                untilInterrupted_interrupted, untilInterrupted_interrupted]
              exact iff_of_true ⟨_, _, rfl, rfl, rfl, rfl, rfl⟩ ⟨rfl, within⟩
            · rw [same] at delivers
              refine iff_of_false (filled.interrupted_differs twice delivers) ?_
              rw [untilInterrupted_interrupted, untilInterrupted_cons twice]
              simp
          · by_cases twice : other = .interrupted
            · subst twice
              refine iff_of_false (fun both => filled.interrupted_differs interrupted delivers both.symm) ?_
              rw [untilInterrupted_interrupted, untilInterrupted_cons interrupted]
              simp
            · rw [uninterrupted_cons interrupted, uninterrupted_cons twice, List.cons.injEq] at same
              obtain ⟨rfl, tails⟩ := same
              rcases delivers.head with rfl | ⟨rfl, none⟩ | ⟨bytes, rest, nonempty, most, rfl, rfl, later⟩
              · contradiction
              · rw [readLoop_finished filled.block, readLoop_finished filled.block, untilInterrupted_cons interrupted,
                  untilInterrupted_cons interrupted, untilInterrupted_eq_nil none,
                  untilInterrupted_eq_nil (tails ▸ none)]
                exact iff_of_true ⟨_, _, rfl, rfl, rfl, rfl, rfl⟩ ⟨rfl, within⟩
              · exact filled.sameResult_piece nonempty most fun grown => ih grown later tails grown.length_le

/-- Two schedules that differ in interruptions only have the same result if and
only if they are interrupted first at the same place, before `capacity` leaves
the range of `int`. -/
theorem interruptions_unnoticed_iff (file : List UInt8) (closes : Bool) (first second : List IoResult)
    (delivers : Delivers file (uninterrupted first)) (same : uninterrupted first = uninterrupted second) :
    SameResult (readStrBuf (some file) closes first) (readStrBuf (some file) closes second) ↔
      untilInterrupted first = untilInterrupted second ∧ bytesRead (untilInterrupted first) ≤ 2 ^ 30 - 512 := by
  refine (filled_start.sameResult_iff delivers same).trans ?_
  rw [List.length_nil, Nat.zero_add]
  rfl

theorem delivers_one_byte : Delivers [97] [.done 1, .done 0] :=
  @Delivers.piece [97] [] _ (by decide) (by decide) .finished

theorem interruptions_unnoticed_at_end :
    SameResult (readStrBuf (some [97]) true [.done 1, .interrupted, .done 0])
      (readStrBuf (some [97]) true [.done 1, .interrupted, .interrupted, .done 0]) :=
  (interruptions_unnoticed_iff [97] true [.done 1, .interrupted, .done 0]
    [.done 1, .interrupted, .interrupted, .done 0] delivers_one_byte rfl).mpr ⟨rfl, by decide⟩

/-- One interruption before the only read makes the call fail. -/
theorem interruption_fails : ¬ ∀ (file : List UInt8) (closes : Bool) (first second : List IoResult),
    Delivers file (uninterrupted first) → uninterrupted first = uninterrupted second →
      SameResult (readStrBuf (some file) closes first) (readStrBuf (some file) closes second) := by
  intro unnoticed
  have same := unnoticed [97] true [.interrupted, .done 1, .done 0] [.done 1, .done 0] delivers_one_byte rfl
  rw [readStrBuf, readStrBuf] at same
  exact filled_start.interrupted_differs (by simp) delivers_one_byte same

end SysProg.FileIo.Kmp
