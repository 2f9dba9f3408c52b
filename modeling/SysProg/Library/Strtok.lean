import SysProg.Library.Block
import Mathlib.Data.List.TakeWhile

namespace SysProg

/-! # Words and `strtok`

`words` are the maximal runs of a text without a separator. `strtok` finds them
one by one in a block that holds the text as a C string, and ends each by a NUL
that it stores over the separator behind it.
-/

section

variable {α : Type} {separator : α → Bool}

def words (separator : α → Bool) (text : List α) : List (List α) :=
  (text.splitOnP separator).filter fun word => !word.isEmpty

theorem words_cons {byte : α} (separates : separator byte = true) (text : List α) :
    words separator (byte :: text) = words separator text := by
  have split := List.splitOnP_append_cons [] text separates
  rw [List.nil_append, List.splitOnP_nil] at split
  rw [words, split]
  rfl

theorem words_append {gap : List α} (separates : ∀ byte ∈ gap, separator byte = true) (text : List α) :
    words separator (gap ++ text) = words separator text := by
  induction gap with
  | nil => rfl
  | cons byte gap ih =>
      rw [List.cons_append, words_cons (separates byte (by simp))]
      exact ih fun byte member => separates byte (by simp [member])

theorem words_word {word : List α} (nonempty : word ≠ []) (joined : ∀ byte ∈ word, separator byte = false) :
    words separator word = [word] := by
  rw [words, List.splitOnP_eq_singleton joined]
  simp [nonempty]

theorem words_word_cons {word : List α} {byte : α} (nonempty : word ≠ [])
    (joined : ∀ byte ∈ word, separator byte = false) (separates : separator byte = true) (text : List α) :
    words separator (word ++ byte :: text) = word :: words separator text := by
  have whole := words_word nonempty joined
  rw [words] at whole
  rw [words, List.splitOnP_append_cons word text separates, List.filter_append, whole]
  rfl

/-- A text up to and including its first word and the separator behind it. -/
inductive Cut (separator : α → Bool) : List α → Prop
  | gap {gap : List α} (separates : ∀ byte ∈ gap, separator byte = true) : Cut separator gap
  | last {gap word : List α} (separates : ∀ byte ∈ gap, separator byte = true) (nonempty : word ≠ [])
      (joined : ∀ byte ∈ word, separator byte = false) : Cut separator (gap ++ word)
  | more {gap word : List α} {byte : α} {rest : List α} (separates : ∀ byte ∈ gap, separator byte = true)
      (nonempty : word ≠ []) (joined : ∀ byte ∈ word, separator byte = false) (ends : separator byte = true) :
      Cut separator (gap ++ (word ++ byte :: rest))

theorem exists_run (holds : α → Bool) (text : List α) : ∃ front rest, text = front ++ rest ∧
    (∀ byte ∈ front, holds byte = true) ∧ (rest = [] ∨ ∃ byte later, rest = byte :: later ∧ holds byte = false) := by
  refine ⟨text.takeWhile holds, text.dropWhile holds, List.takeWhile_append_dropWhile.symm,
    fun byte member => List.mem_takeWhile_imp member, ?_⟩
  have stopped := List.head?_dropWhile_not holds text
  cases remaining : text.dropWhile holds with
  | nil => exact .inl rfl
  | cons byte later =>
      rw [remaining] at stopped
      exact .inr ⟨byte, later, rfl, stopped⟩

theorem cut (separator : α → Bool) (text : List α) : Cut separator text := by
  obtain ⟨gap, tail, rfl, separates, rfl | ⟨first, later, rfl, begins⟩⟩ := exists_run separator text
  · rw [List.append_nil]
    exact .gap separates
  · obtain ⟨word, rest, split, joined, stops⟩ := exists_run (fun byte => !separator byte) (first :: later)
    have nonempty : word ≠ [] := by
      rintro rfl
      rcases stops with rfl | ⟨byte, others, rfl, stopped⟩
      · contradiction
      · cases split
        rw [begins] at stopped
        contradiction
    have inside : ∀ byte ∈ word, separator byte = false := by simpa using joined
    rw [split]
    rcases stops with rfl | ⟨byte, others, rfl, stopped⟩
    · rw [List.append_nil]
      exact .last separates nonempty inside
    · exact .more separates nonempty inside (by simpa using stopped)

end

/-! ## The functions of `<string.h>` -/

/-- The bytes of the string that are in the set, up to the first that is not. -/
def strspn (set : UInt8 → Bool) : Block UInt8 → Except Trap Nat
  | [] => .error .outOfBounds
  | none :: _ => .error .indeterminate
  | some byte :: rest => if byte ≠ 0 ∧ set byte = true then do return (← strspn set rest) + 1 else .ok 0

/-- The bytes of the string that are not in the set, up to the first that is. -/
def strcspn (set : UInt8 → Bool) : Block UInt8 → Except Trap Nat := strspn fun byte => !set byte

/-- One call: the line, the position that is kept for the next call, and that of
the token. -/
def strtok (set : UInt8 → Bool) (line : Block UInt8) (save : Nat) :
    Except Trap (Block UInt8 × Nat × Option Nat) := do
  let start := save + (← strspn set (line.drop save))
  if (← line.load start) = 0 then return (line, start, none)
  let stop := start + (← strcspn set (line.drop start))
  if (← line.load stop) = 0 then return (line, stop, some start)
  return (← line.store stop 0, stop + 1, some start)

section

variable {set : UInt8 → Bool} {front spare : Block UInt8} {gap word rest : List UInt8} {byte : UInt8}

theorem strspn_eq (nulFree : 0 ∉ gap) (inside : ∀ byte ∈ gap, set byte = true) (stops : byte = 0 ∨ set byte = false)
    (spare : Block UInt8) : strspn set (Block.ofList gap ++ some byte :: spare) = .ok gap.length := by
  induction gap with
  | nil =>
      have outside : ¬ (byte ≠ 0 ∧ set byte = true) := by
        rcases stops with nul | other <;> simp [*]
      simp [strspn, Block.ofList, outside]
  | cons first gap ih =>
      simp only [List.mem_cons, not_or] at nulFree
      have later := ih nulFree.2 fun byte member => inside byte (by simp [member])
      have begins : first ≠ 0 ∧ set first = true := ⟨Ne.symm nulFree.1, inside first (by simp)⟩
      simp only [Block.ofList, List.map_cons, List.cons_append, strspn] at later ⊢
      rw [if_pos begins, later]
      rfl

theorem strspn_drop (nulFree : 0 ∉ gap) (inside : ∀ byte ∈ gap, set byte = true)
    (stops : byte = 0 ∨ set byte = false) (front spare : Block UInt8) :
    strspn set ((front ++ (Block.ofList gap ++ some byte :: spare)).drop front.length) = .ok gap.length ∧
      Block.load (front ++ (Block.ofList gap ++ some byte :: spare)) ((front.length + gap.length : Nat) : Int) =
        .ok byte := by
  rw [List.drop_left]
  refine ⟨strspn_eq nulFree inside stops spare, ?_⟩
  have length : front.length + gap.length = (front ++ Block.ofList gap).length := by simp
  rw [length, ← List.append_assoc]
  exact Block.load_append _ byte spare

theorem strtok_gap (nulFree : 0 ∉ gap) (separates : ∀ byte ∈ gap, set byte = true) (front spare : Block UInt8) :
    strtok set (front ++ (Block.ofList gap ++ some 0 :: spare)) front.length =
      .ok (front ++ (Block.ofList gap ++ some 0 :: spare), front.length + gap.length, none) := by
  obtain ⟨found, loaded⟩ := strspn_drop nulFree separates (.inl rfl) front spare
  simp only [strtok, found, ok_bind, loaded, if_true, pure_eq_ok]

theorem strtok_word (nulFree : 0 ∉ gap ++ word) (separates : ∀ byte ∈ gap, set byte = true) (nonempty : word ≠ [])
    (joined : ∀ byte ∈ word, set byte = false) (stops : byte = 0 ∨ set byte = true) (front spare : Block UInt8) :
    strtok set (front ++ (Block.ofList gap ++ (Block.ofList word ++ some byte :: spare))) front.length =
      .ok (front ++ (Block.ofList gap ++ (Block.ofList word ++ some 0 :: spare)),
        front.length + gap.length + word.length + (if byte = 0 then 0 else 1), some (front.length + gap.length)) := by
  obtain ⟨gapFree, wordFree⟩ : 0 ∉ gap ∧ 0 ∉ word := by simpa using nulFree
  have reached : (front ++ Block.ofList gap).length = front.length + gap.length := by simp
  have behind : (front ++ Block.ofList gap ++ Block.ofList word).length =
      front.length + gap.length + word.length := by simp [Block.ofList]; omega
  have stored := Block.store_append (front ++ Block.ofList gap ++ Block.ofList word) (some byte) spare 0
  rw [behind, List.append_assoc, List.append_assoc, List.append_assoc, List.append_assoc] at stored
  obtain ⟨ended, last⟩ := @strspn_drop (fun byte => !set byte) word byte wordFree (by simpa using joined)
    (by simpa using stops) (front ++ Block.ofList gap) spare
  rw [reached, List.append_assoc] at ended last
  obtain ⟨first, tail, rfl⟩ := List.exists_cons_of_ne_nil nonempty
  have begins : first ≠ 0 := by
    rintro rfl
    simp at wordFree
  have opened : strspn set ((front ++ (Block.ofList gap ++ (Block.ofList (first :: tail) ++ some byte :: spare))).drop
        front.length) = .ok gap.length ∧
      Block.load (front ++ (Block.ofList gap ++ (Block.ofList (first :: tail) ++ some byte :: spare)))
        ((front.length + gap.length : Nat) : Int) = .ok first :=
    strspn_drop gapFree separates (.inr (joined first (by simp))) front (Block.ofList tail ++ some byte :: spare)
  simp only [strtok, opened, ok_bind, begins, if_false, strcspn, ended, last]
  split
  · rename_i nul
    rw [nul]
    rfl
  · rw [stored]
    rfl

end

end SysProg
