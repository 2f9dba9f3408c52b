import SysProg.Process.Shell
import Mathlib.Data.List.Forall2

namespace SysProg.Process.Shell

/-! ## What `ezsh_split_line` is for -/

/-- The array has a pointer to each word, in order, and then `NULL`. -/
structure Split.Holds (split : Split) (expected : List (List UInt8)) : Prop where
  word : ∀ i (bound : i < expected.length), ∃ offset, split.tokens[i]? = some (some (.line offset)) ∧
    Block.cString (split.line.drop offset) = .ok expected[i]
  null : split.tokens[expected.length]? = some (some .null)

/-- The function returns such an array, and does so without a stray store. -/
def SplitsExactly (moves : Int → Bool) (line : Block UInt8) (text : List UInt8) : Prop :=
  ∃ split, ezshSplitLine moves line = .ok split ∧ split.Holds (words isDelim text)

/-! ## The calls of `strtok` -/

/-- All the iterations of the loop, with the tokens that `strtok` returns in them. -/
def pushAll (moves : Int → Bool) : Tokens → List Pointer → Except Trap Tokens
  | tokens, [] => .ok tokens
  | tokens, token :: later => do pushAll moves (← tokens.push moves token) later

/-- The array after the loop. -/
def finish (moves : Int → Bool) (line : Block UInt8) (tokens : Tokens) (pointers : List Pointer) :
    Except Trap Split := do
  let tokens ← pushAll moves tokens pointers
  return { line, tokens := ← tokens.block.store tokens.n .null }

variable {moves : Int → Bool} {front spare : Block UInt8} {text : List UInt8}

/-- The words that `strtok` has found in a line, whose ends it has marked. -/
def Marks (line : Block UInt8) (offsets : List Nat) (expected : List (List UInt8)) : Prop :=
  List.Forall₂ (fun offset word => Block.cString (line.drop offset) = .ok word) offsets expected

theorem finish_cons (moves : Int → Bool) (line : Block UInt8) (tokens : Tokens) (token : Pointer)
    (later : List Pointer) : finish moves line tokens (token :: later) = (do
      finish moves line (← tokens.push moves token) later) := by
  rw [finish, pushAll]
  cases tokens.push moves token <;> rfl

theorem splitLoop_gap {gap : List UInt8} (nulFree : 0 ∉ gap) (separates : ∀ byte ∈ gap, isDelim byte = true)
    (front spare : Block UInt8) (moves : Int → Bool) (fuel : Nat) (tokens : Tokens) :
    splitLoop moves (fuel + 1) (front ++ (Block.ofList gap ++ some 0 :: spare)) front.length tokens =
      finish moves (front ++ (Block.ofList gap ++ some 0 :: spare)) tokens [] := by
  rw [splitLoop, strtok_gap nulFree separates]
  rfl

theorem splitLoop_word {gap word : List UInt8} {byte : UInt8} (nulFree : 0 ∉ gap ++ word)
    (separates : ∀ byte ∈ gap, isDelim byte = true) (nonempty : word ≠ [])
    (joined : ∀ byte ∈ word, isDelim byte = false) (stops : byte = 0 ∨ isDelim byte = true) (front spare : Block UInt8)
    (moves : Int → Bool) (fuel : Nat) (tokens : Tokens) :
    splitLoop moves (fuel + 1) (front ++ (Block.ofList gap ++ (Block.ofList word ++ some byte :: spare)))
        front.length tokens = (do
      splitLoop moves fuel (front ++ (Block.ofList gap ++ (Block.ofList word ++ some 0 :: spare)))
        (front.length + gap.length + word.length + (if byte = 0 then 0 else 1))
        (← tokens.push moves (.line (front.length + gap.length)))) := by
  rw [splitLoop, strtok_word nulFree separates nonempty joined stops]
  rfl

theorem cString_drop {gap word : List UInt8} (nulFree : 0 ∉ gap ++ word) (front spare : Block UInt8) :
    Block.cString ((front ++ (Block.ofList gap ++ (Block.ofList word ++ some 0 :: spare))).drop
      (front.length + gap.length)) = .ok word := by
  have length : front.length + gap.length = (front ++ Block.ofList gap).length := by simp
  rw [length, ← List.append_assoc, List.drop_left]
  exact Block.cString_terminated (by simp at nulFree; exact nulFree.2) spare

/-- What the loop does with the rest of the text depends on the calls of `strtok`
only through the positions of the words. -/
def Finds (front spare : Block UInt8) (text : List UInt8) : Prop :=
  ∃ offsets behind, Marks (front ++ behind) offsets (words isDelim text) ∧
    ∀ moves fuel tokens, text.length < fuel →
      splitLoop moves fuel (front ++ (Block.ofList text ++ some 0 :: spare)) front.length tokens =
        finish moves (front ++ behind) tokens (offsets.map .line)

section

variable {gap word rest : List UInt8} {byte : UInt8}

theorem finds_gap (nulFree : 0 ∉ gap) (separates : ∀ byte ∈ gap, isDelim byte = true) : Finds front spare gap := by
  refine ⟨[], Block.ofList gap ++ some 0 :: spare, ?_, ?_⟩
  · have none := words_append separates []
    rw [List.append_nil] at none
    rw [none]
    exact .nil
  · intro moves fuel tokens enough
    obtain ⟨fuel, rfl⟩ : ∃ less, fuel = less + 1 := ⟨fuel - 1, by omega⟩
    exact splitLoop_gap nulFree separates front spare moves fuel tokens

theorem finds_last (nulFree : 0 ∉ gap ++ word) (separates : ∀ byte ∈ gap, isDelim byte = true) (nonempty : word ≠ [])
    (joined : ∀ byte ∈ word, isDelim byte = false) : Finds front spare (gap ++ word) := by
  have positive := List.length_pos_iff.mpr nonempty
  refine ⟨[front.length + gap.length], Block.ofList gap ++ (Block.ofList word ++ some 0 :: spare), ?_, ?_⟩
  · rw [words_append separates, words_word nonempty joined]
    exact .cons (cString_drop nulFree front spare) .nil
  · intro moves fuel tokens enough
    rw [List.length_append] at enough
    obtain ⟨fuel, rfl⟩ : ∃ less, fuel = less + 2 := ⟨fuel - 2, by omega⟩
    have shape : Block.ofList (gap ++ word) ++ some 0 :: spare =
        Block.ofList gap ++ (Block.ofList word ++ some 0 :: spare) := by simp [Block.ofList]
    have reached : front.length + gap.length + word.length =
        (front ++ (Block.ofList gap ++ Block.ofList word)).length := by
      simp [Block.ofList]
      omega
    have joint : front ++ (Block.ofList gap ++ (Block.ofList word ++ some 0 :: spare)) =
        front ++ (Block.ofList gap ++ Block.ofList word) ++ (Block.ofList [] ++ some 0 :: spare) := by
      simp [Block.ofList]
    rw [shape, splitLoop_word nulFree separates nonempty joined (.inl rfl), if_pos rfl, Nat.add_zero, reached, joint,
      List.map_singleton, finish_cons]
    congr 1
    funext tokens
    exact splitLoop_gap (by simp) (by simp) _ spare moves fuel tokens

theorem finds_more (nulFree : 0 ∉ gap ++ word) (separates : ∀ byte ∈ gap, isDelim byte = true) (nonempty : word ≠ [])
    (joined : ∀ byte ∈ word, isDelim byte = false) (ends : isDelim byte = true)
    (later : Finds (front ++ (Block.ofList gap ++ (Block.ofList word ++ [some 0]))) spare rest) :
    Finds front spare (gap ++ (word ++ byte :: rest)) := by
  obtain ⟨offsets, behind, marks, later⟩ := later
  have joint (tail : Block UInt8) : front ++ (Block.ofList gap ++ (Block.ofList word ++ [some 0])) ++ tail =
      front ++ (Block.ofList gap ++ (Block.ofList word ++ some 0 :: tail)) := by simp
  have nonzero : byte ≠ 0 := by
    rintro rfl
    contradiction
  rw [joint] at marks
  refine ⟨(front.length + gap.length) :: offsets, Block.ofList gap ++ (Block.ofList word ++ some 0 :: behind), ?_, ?_⟩
  · rw [words_append separates, words_word_cons nonempty joined ends]
    exact .cons (cString_drop nulFree front behind) marks
  · intro moves fuel tokens enough
    simp only [List.length_append, List.length_cons] at enough
    obtain ⟨fuel, rfl⟩ : ∃ less, fuel = less + 1 := ⟨fuel - 1, by omega⟩
    have shape : Block.ofList (gap ++ (word ++ byte :: rest)) ++ some 0 :: spare =
        Block.ofList gap ++ (Block.ofList word ++ some byte :: (Block.ofList rest ++ some 0 :: spare)) := by
      simp [Block.ofList]
    have reached : front.length + gap.length + word.length + 1 =
        (front ++ (Block.ofList gap ++ (Block.ofList word ++ [some 0]))).length := by
      simp [Block.ofList]
      omega
    rw [shape, splitLoop_word nulFree separates nonempty joined (.inr ends), if_neg nonzero, reached, ← joint,
      List.map_cons, finish_cons]
    congr 1
    funext tokens
    rw [later moves fuel tokens (by omega), joint]

end

theorem finds (text : List UInt8) (nulFree : 0 ∉ text) (front spare : Block UInt8) : Finds front spare text := by
  induction size : text.length using Nat.strong_induction_on generalizing text front with
  | _ size ih =>
      cases cut isDelim text with
      | gap separates => exact finds_gap nulFree separates
      | last separates nonempty joined => exact finds_last nulFree separates nonempty joined
      | @more gap word byte rest separates nonempty joined ends =>
          simp only [List.mem_append, List.mem_cons, not_or] at nulFree
          simp only [List.length_append, List.length_cons] at size
          exact finds_more (by simp [nulFree]) separates nonempty joined ends
            (ih rest.length (by omega) rest nulFree.2.2.2 _ rfl)

/-! ## The array -/

/-- The array before it has grown. -/
def tokensAt (pointers : List Pointer) : Tokens where
  cap := 8
  n := pointers.length
  block := Block.ofList pointers ++ Block.malloc (8 - pointers.length)

theorem store_tokensAt {pointers : List Pointer} (room : pointers.length < 8) (token : Pointer) :
    (tokensAt pointers).block.store pointers.length token = .ok (tokensAt (pointers ++ [token])).block := by
  have length : (Block.ofList pointers).length = pointers.length := Block.length_ofList _
  have unused : 8 - pointers.length = (7 - pointers.length) + 1 := by omega
  have stored := Block.store_append (Block.ofList pointers) none (Block.malloc (7 - pointers.length)) token
  rw [length] at stored
  simp only [tokensAt, unused]
  refine stored.trans ?_
  simp [Block.ofList]

theorem push_tokensAt (moves : Int → Bool) {pointers : List Pointer} (room : pointers.length < 8) (token : Pointer) :
    (tokensAt pointers).push moves token = .ok (tokensAt (pointers ++ [token])) := by
  have stored := store_tokensAt room token
  have next := wrapInt_length_concat pointers token (by omega)
  rw [Tokens.push, if_neg (by simp [tokensAt]; omega)]
  simp only [tokensAt] at stored ⊢
  rw [stored, next]
  rfl

theorem pushAll_tokensAt (moves : Int → Bool) (pointers later : List Pointer)
    (room : pointers.length + later.length ≤ 8) :
    pushAll moves (tokensAt pointers) later = .ok (tokensAt (pointers ++ later)) := by
  induction later generalizing pointers with
  | nil => simp [pushAll]
  | cons token later ih =>
      rw [List.length_cons] at room
      rw [pushAll, push_tokensAt moves (by omega), ok_bind, ih _ (by simp; omega), List.append_assoc]
      rfl

theorem pushAll_append (moves : Int → Bool) (tokens : Tokens) (earlier later : List Pointer) :
    pushAll moves tokens (earlier ++ later) = (do pushAll moves (← pushAll moves tokens earlier) later) := by
  induction earlier generalizing tokens with
  | nil => rfl
  | cons token earlier ih =>
      rw [List.cons_append, pushAll, pushAll]
      cases tokens.push moves token with
      | error trap => rfl
      | ok next => exact ih next

theorem finish_few (line : Block UInt8) {pointers : List Pointer} (few : pointers.length < 8) :
    finish moves line (tokensAt []) pointers = .ok { line, tokens := (tokensAt (pointers ++ [.null])).block } := by
  rw [finish, pushAll_tokensAt moves [] pointers (by simp; omega), List.nil_append, ok_bind]
  have stored := store_tokensAt few .null
  simp only [tokensAt] at stored ⊢
  rw [stored]
  rfl

/-- The terminating `NULL` is stored behind the block. -/
theorem finish_full (line : Block UInt8) {pointers : List Pointer} (full : pointers.length = 8) :
    finish moves line (tokensAt []) pointers = .error .outOfBounds := by
  rw [finish, pushAll_tokensAt moves [] pointers (by simp [full]), List.nil_append, ok_bind]
  simp [tokensAt, Block.store, Block.ofList, Block.malloc, full]
  rfl

/-- The ninth element is the pointer that `realloc` has returned. -/
structure Spoiled (tokens : Tokens) : Prop where
  ninth : tokens.block[8]? = some (some .tokens)
  behind : 9 ≤ tokens.n
  power : ∃ exponent, exponent ≤ 30 ∧ tokens.cap = ((2 ^ exponent : Nat) : Int) ∧ tokens.block.length = 2 ^ exponent

theorem store_behind {block after : Block Pointer} {index : Int} {token : Pointer} (behind : 9 ≤ index)
    (stored : block.store index token = .ok after) :
    after[8]? = block[8]? ∧ after.length = block.length ∧ index < block.length := by
  rw [Block.store] at stored
  split at stored
  · rename_i inside
    cases stored
    refine ⟨List.getElem?_set_ne (by omega), List.length_set .., by omega⟩
  · contradiction

theorem Spoiled.store {tokens : Tokens} (spoiled : Spoiled tokens) {token : Pointer} {after : Block Pointer}
    (stored : tokens.block.store tokens.n token = .ok after) :
    Spoiled { tokens with n := wrapInt (tokens.n + 1), block := after } := by
  obtain ⟨ninth, behind, exponent, limit, cap, size⟩ := spoiled
  have bound : 2 ^ exponent ≤ 2 ^ 30 := Nat.pow_le_pow_right (by decide) limit
  obtain ⟨same, length, inside⟩ := store_behind behind stored
  have next : wrapInt (tokens.n + 1) = tokens.n + 1 := wrapInt_of_range (by omega) (by omega)
  rw [next]
  exact ⟨same.trans ninth, Int.le_add_one behind, exponent, limit, cap, length.trans size⟩

/-- `realloc` in place. -/
theorem Spoiled.grow {tokens : Tokens} (spoiled : Spoiled tokens) {grown : Block Pointer}
    (allocated : tokens.block.realloc (wrapInt (tokens.cap * 2)) = some grown) :
    Spoiled { tokens with cap := wrapInt (tokens.cap * 2), block := grown } := by
  obtain ⟨ninth, behind, exponent, limit, cap, size⟩ := spoiled
  rcases Nat.lt_or_eq_of_le limit with less | rfl
  · have half : 2 ^ exponent ≤ 2 ^ 29 := Nat.pow_le_pow_right (by decide) (by omega)
    have double : wrapInt (tokens.cap * 2) = ((2 ^ (exponent + 1) : Nat) : Int) := by
      rw [cap]
      exact wrapInt_double less
    have exact : (((2 ^ (exponent + 1) : Nat) : Int) % 2 ^ 64).toNat = 2 ^ (exponent + 1) := by omega
    rw [double, Block.realloc, if_pos (by omega), exact, List.take_of_length_le (by omega)] at allocated
    cases allocated
    have inside : 8 < tokens.block.length := (List.getElem?_eq_some_iff.mp ninth).1
    refine ⟨?_, behind, exponent + 1, less, double, ?_⟩
    · rw [← ninth]
      exact List.getElem?_append_left inside
    · rw [List.length_append, size, Block.length_malloc]
      omega
  · rw [cap, Block.realloc, if_neg (by decide)] at allocated
    contradiction

theorem Spoiled.push {tokens after : Tokens} (spoiled : Spoiled tokens) {token : Pointer}
    (pushed : tokens.push moves token = .ok after) : Spoiled after := by
  rw [Tokens.push] at pushed
  split at pushed
  · rename_i full
    cases allocated : tokens.block.realloc (wrapInt (tokens.cap * 2)) with
    | none =>
        simp only [allocated, bind_eq_ok] at pushed
        obtain ⟨block, stored, -⟩ := pushed
        obtain ⟨exponent, -, cap, size⟩ := spoiled.power
        have inside := (store_behind spoiled.behind stored).2.2
        omega
    | some grown =>
        simp only [allocated] at pushed
        split at pushed
        · contradiction
        · obtain ⟨block, stored, finished⟩ := bind_eq_ok.mp pushed
          cases finished
          exact (spoiled.grow allocated).store stored
  · obtain ⟨block, stored, finished⟩ := bind_eq_ok.mp pushed
    cases finished
    exact spoiled.store stored

theorem Spoiled.pushAll {tokens after : Tokens} (spoiled : Spoiled tokens) {pointers : List Pointer}
    (pushed : pushAll moves tokens pointers = .ok after) : Spoiled after := by
  induction pointers generalizing tokens with
  | nil =>
      cases pushed
      exact spoiled
  | cons token later ih =>
      obtain ⟨next, first, rest⟩ := bind_eq_ok.mp pushed
      exact ih (spoiled.push first) rest

/-- The first `realloc` frees the block or spoils the array. -/
theorem push_full {pointers : List Pointer} (full : pointers.length = 8) {token : Pointer} {after : Tokens}
    (pushed : (tokensAt pointers).push moves token = .ok after) : moves 16 = false ∧ Spoiled after := by
  have length : (Block.ofList pointers).length = 8 := by simp [Block.ofList, full]
  have double : wrapInt (8 * 2) = ((16 : Nat) : Int) := by decide
  have allocated : (Block.ofList pointers).realloc ((16 : Nat) : Int) =
      some (Block.ofList pointers ++ none :: Block.malloc 7) := by
    rw [Block.realloc, if_pos (by decide), length, List.take_of_length_le (by rw [length]; decide)]
    rfl
  have stored := Block.store_append (Block.ofList pointers) none (Block.malloc 7) Pointer.tokens
  rw [length] at stored
  have state : tokensAt pointers = { cap := 8, n := (8 : Nat), block := Block.ofList pointers } := by
    simp [tokensAt, full, Block.malloc]
  rw [state, Tokens.push, if_pos (show ((8 : Nat) : Int) ≥ 8 by decide)] at pushed
  simp only [double, allocated] at pushed
  split at pushed
  · contradiction
  · rename_i inPlace
    obtain ⟨grown, put, finished⟩ := bind_eq_ok.mp pushed
    cases stored.symm.trans put
    cases finished
    refine ⟨by simpa using inPlace, ?_, show (9 : Int) ≤ wrapInt (8 + 1) by decide, 4, by decide, rfl, ?_⟩
    · rw [List.getElem?_append_right (by omega), length]
      rfl
    · rw [List.length_append, length]
      rfl

/-- An array of more than eight tokens is not returned, or is spoiled. -/
theorem finish_beyond {line : Block UInt8} {pointers : List Pointer} (beyond : 8 < pointers.length) {split : Split}
    (finished : finish moves line (tokensAt []) pointers = .ok split) :
    moves 16 = false ∧ split.tokens[8]? = some (some .tokens) := by
  obtain ⟨tokens, pushed, last⟩ := bind_eq_ok.mp finished
  obtain ⟨block, stored, returned⟩ := bind_eq_ok.mp last
  cases returned
  have split : pointers = pointers.take 8 ++ pointers[8] :: pointers.drop 9 := by
    rw [← List.drop_eq_getElem_cons beyond, List.take_append_drop]
  have full : (pointers.take 8).length = 8 := by
    rw [List.length_take]
    omega
  rw [split, pushAll_append, pushAll_tokensAt moves [] _ (by simp [full]), ok_bind, List.nil_append] at pushed
  obtain ⟨next, first, rest⟩ := bind_eq_ok.mp pushed
  obtain ⟨inPlace, spoiled⟩ := push_full full first
  have ended := spoiled.pushAll rest
  exact ⟨inPlace, (store_behind ended.behind stored).1.trans ended.ninth⟩

/-! ## The whole function -/

variable {line : Block UInt8}

theorem ezshSplitLine_eq (holds : line.cString = .ok text) :
    ∃ marked offsets, Marks marked offsets (words isDelim text) ∧
      ∀ moves, ezshSplitLine moves line = finish moves marked (tokensAt []) (offsets.map .line) := by
  obtain ⟨nulFree, spare, rfl⟩ := Block.cString_eq_ok holds
  obtain ⟨offsets, marked, marks, loop⟩ := finds text nulFree [] spare
  refine ⟨marked, offsets, marks, fun moves => ?_⟩
  refine loop moves _ (tokensAt []) ?_
  simp only [Block.ofList, List.length_append, List.length_map, List.length_cons]
  omega

theorem Marks.length_eq {offsets : List Nat} {expected : List (List UInt8)} (marks : Marks line offsets expected) :
    (offsets.map Pointer.line).length = expected.length := by
  rw [List.length_map]
  exact List.Forall₂.length_eq marks

theorem tokensAt_getElem? {pointers : List Pointer} {i : Nat} (bound : i < pointers.length) :
    (tokensAt pointers).block[i]? = some (some pointers[i]) := by
  simp only [tokensAt]
  rw [List.getElem?_append_left (by simpa [Block.ofList] using bound)]
  simp [Block.ofList, bound]

theorem Marks.holds {offsets : List Nat} {expected : List (List UInt8)} (marks : Marks line offsets expected) :
    Split.Holds { line, tokens := (tokensAt (offsets.map .line ++ [.null])).block } expected := by
  have length := marks.length_eq
  rw [List.length_map] at length
  refine ⟨?_, ?_⟩
  · intro i bound
    have position : i < offsets.length := by omega
    refine ⟨offsets[i], ?_, List.Forall₂.get marks position bound⟩
    rw [tokensAt_getElem? (by simp; omega)]
    simp [List.getElem_append_left, position]
  · rw [tokensAt_getElem? (by simp [length])]
    simp [← length]

/-- The array is exact for every line of up to seven words. -/
theorem splits_few (holds : line.cString = .ok text) (few : (words isDelim text).length < 8) (moves : Int → Bool) :
    SplitsExactly moves line text := by
  obtain ⟨marked, offsets, marks, eq⟩ := ezshSplitLine_eq holds
  exact ⟨_, (eq moves).trans (finish_few marked (by rw [marks.length_eq]; exact few)), marks.holds⟩

/-- An array for more words is returned only when `realloc` leaves the block in
its place, and has a pointer to itself then. -/
theorem splits_many (holds : line.cString = .ok text) (many : 8 ≤ (words isDelim text).length) {split : Split}
    (returned : ezshSplitLine moves line = .ok split) :
    moves 16 = false ∧ split.tokens[8]? = some (some .tokens) := by
  obtain ⟨marked, offsets, marks, eq⟩ := ezshSplitLine_eq holds
  rw [eq] at returned
  rcases Nat.lt_or_eq_of_le many with beyond | full
  · exact finish_beyond (by rw [marks.length_eq]; exact beyond) returned
  · rw [finish_full marked (by rw [marks.length_eq]; exact full.symm)] at returned
    contradiction

/-- The array is exact if and only if the line has at most seven words: the eighth
leaves no room for `NULL`, and with a ninth the new block is lost. -/
theorem splits_exactly_iff (moves : Int → Bool) (line : Block UInt8) (text : List UInt8)
    (holds : line.cString = .ok text) : SplitsExactly moves line text ↔ (words isDelim text).length < 8 := by
  constructor
  · rintro ⟨split, returned, exact⟩
    by_contra many
    obtain ⟨-, spoiled⟩ := splits_many holds (Nat.not_lt.mp many) returned
    rcases Nat.lt_or_eq_of_le (Nat.not_lt.mp many) with beyond | full
    · obtain ⟨offset, pointer, -⟩ := exact.word 8 beyond
      rw [spoiled] at pointer
      simp at pointer
    · have null := exact.null
      rw [← full, spoiled] at null
      simp at null
  · intro few
    exact splits_few holds few moves

/-- `ls -l` -/
theorem splits_exactly_two : SplitsExactly (fun _ => true) (Block.ofList [108, 115, 32, 45, 108, 0])
    [108, 115, 32, 45, 108] :=
  (splits_exactly_iff (fun _ => true) (Block.ofList [108, 115, 32, 45, 108, 0]) [108, 115, 32, 45, 108] rfl).mpr
    (by decide)

/-- The eight words of `a b c d e f g h` fill the block. -/
theorem eight_words_overflow : ¬ ∀ (moves : Int → Bool) (line : Block UInt8) (text : List UInt8),
    line.cString = .ok text → SplitsExactly moves line text := by
  intro exact
  obtain ⟨split, returned, -⟩ := exact (fun _ => false)
    (Block.ofList [97, 32, 98, 32, 99, 32, 100, 32, 101, 32, 102, 32, 103, 32, 104, 0])
    [97, 32, 98, 32, 99, 32, 100, 32, 101, 32, 102, 32, 103, 32, 104] rfl
  have overflow : ezshSplitLine (fun _ => false)
      (Block.ofList [97, 32, 98, 32, 99, 32, 100, 32, 101, 32, 102, 32, 103, 32, 104, 0]) =
      .error .outOfBounds := rfl
  rw [overflow] at returned
  contradiction

end SysProg.Process.Shell
