import SysProg.FileIo.Kmp.Search

namespace SysProg.FileIo.Kmp

/-! ## What `find` evaluates

The pattern has `m + 1` bytes, with its terminator, and the table `m + 1`
elements: an index that is not from `0` to `m` is a trap.
-/

/-- The computation returns without a trap, or a `write_all` in it does not return. -/
def Returns (host : Host) (fuel : Nat) (result : Except Trap Output) : Prop :=
  (∃ after, result = .ok after) ∨
    result = .error .diverged ∧ ∃ out, writeAll host foundMatch 0 fuel 12 out = .error .diverged

variable {host : Host} {A : Block Int} {p seen text : List UInt8} {pattern : Block UInt8} {sb : StringBuffer}
  {fuel m rest i : Nat} {j k : Int}

theorem writeAll_error {buf : List UInt8} {len : Nat} {out : Output} {reason : Trap}
    (failed : writeAll host buf i fuel len out = .error reason) : reason = .diverged := by
  induction fuel generalizing len out with
  | zero =>
      cases failed
      rfl
  | succ fuel ih =>
      rw [writeAll] at failed
      split at failed
      · split at failed
        · exact ih failed
        · contradiction
        · exact ih failed
      · contradiction

/-- An iteration in which the inner loop leaves `j` at `m - 1`. -/
theorem searchFrom_write (fell : fallBack A sb.text pattern i fuel j = .ok ((m : Int) - 1))
    (loaded : A.load m = .ok k)
    (later : ∀ out, Returns host fuel (searchFrom host fuel A pattern m sb rest (i + 1) k out)) (out : Output) :
    Returns host fuel (searchFrom host fuel A pattern m sb (rest + 1) i j out) := by
  simp only [searchFrom, fell, ok_bind, Int.sub_add_cancel, if_true, loaded]
  cases written : writeAll host foundMatch 0 fuel 12 out with
  | error reason =>
      have diverged := writeAll_error written
      rw [diverged] at written ⊢
      exact .inr ⟨rfl, out, written⟩
  | ok result =>
      obtain ⟨code, after⟩ := result
      rw [ok_bind]
      by_cases failed : code = -1
      · simp only [failed, if_true]
        exact .inl ⟨after, rfl⟩
      · simp only [failed, if_false]
        exact later _

theorem searchFrom_skip (fell : fallBack A sb.text pattern i fuel j = .ok k) (other : k + 1 ≠ m) (out : Output) :
    searchFrom host fuel A pattern m sb (rest + 1) i j out =
      searchFrom host fuel A pattern m sb rest (i + 1) (k + 1) out := by
  simp only [searchFrom, fell, ok_bind, other, if_false]

/-! ## Patterns with at least one byte -/

theorem searchFrom_returns {j : Nat} (rest : List UInt8) (out : Output) (source : seen ++ rest = text)
    (textLoad : ∀ i (bound : i < text.length), sb.text.load i = .ok text[i])
    (patternLoad : ∀ q (bound : q < p.length), pattern.load q = .ok p[q])
    (table : TableUpTo A p p.length) (current : IsLongest p p.length seen j) (enough : p.length + 2 ≤ fuel) :
    Returns host fuel (searchFrom host fuel A pattern p.length sb rest.length seen.length j out) := by
  induction rest generalizing seen j out with
  | nil => exact .inl ⟨out, rfl⟩
  | cons c rest ih =>
      have bound : seen.length < text.length := by simp [← source]
      have read : sb.text.load seen.length = .ok c := by
        rw [textLoad _ bound]
        simp [← source]
      have onward : (seen ++ [c]) ++ rest = text := by simpa using source
      have length : (seen ++ [c]).length = seen.length + 1 := by simp
      have positive := Nat.lt_of_le_of_lt (Nat.zero_le j) current.below
      obtain ⟨s, fell, found⟩ := fallBack_advances read patternLoad table current enough
      have limit := found.below
      rw [List.length_cons]
      by_cases full : s = p.length
      · obtain ⟨value, loaded, empty | ⟨k, rfl, border⟩⟩ := table p.length (Nat.le_refl _)
        · omega
        · have ends : p <:+ seen ++ [c] := by simpa [full] using found.ends
          rw [full] at fell
          apply searchFrom_write fell loaded
          intro out
          rw [← length]
          exact ih out onward (restart_longest border ends)
      · have other : (s : Int) - 1 + 1 ≠ p.length := by omega
        rw [searchFrom_skip fell other, Int.sub_add_cancel, ← length]
        exact ih out onward ⟨by omega, found.ends, fun longer below => found.longest longer (by omega)⟩

/-! ## The empty pattern -/

theorem searchFrom_sentinel (loaded : A.load 0 = .ok (-1)) (out : Output) :
    Returns host (fuel + 1) (searchFrom host (fuel + 1) A pattern 0 sb rest i (-1) out) := by
  induction rest generalizing i out with
  | zero => exact .inl ⟨out, rfl⟩
  | succ rest ih =>
      have fell : fallBack A sb.text pattern i (fuel + 1) (-1) = .ok (((0 : Nat) : Int) - 1) :=
        fallBack_sentinel fuel i
      exact searchFrom_write fell loaded (fun out => ih out) out

/-- A first byte that is not a terminator ends all comparisons. -/
theorem searchFrom_other {c : UInt8} (read : sb.text.load 0 = .ok c) (terminator : pattern.load 0 = .ok 0)
    (loaded : A.load 0 = .ok (-1)) (other : c ≠ 0) (out : Output) :
    Returns host (fuel + 2) (searchFrom host (fuel + 2) A pattern 0 sb (rest + 1) 0 0 out) := by
  have fell : fallBack A sb.text pattern (0 : Nat) (fuel + 2) (0 : Nat) = .ok (((0 : Nat) : Int) - 1) := by
    rw [fallBack_compare (i := ((0 : Nat) : Int)) read terminator, if_neg other, Int.natCast_zero, loaded, ok_bind]
    exact fallBack_sentinel fuel 0
  exact searchFrom_write fell loaded (searchFrom_sentinel loaded) out

/-- A first byte that is a terminator is taken for one that matches. -/
theorem searchFrom_terminator (read : sb.text.load 0 = .ok 0) (terminator : pattern.load 0 = .ok 0) (out : Output) :
    searchFrom host (fuel + 1) A pattern 0 sb (rest + 1) 0 0 out =
      searchFrom host (fuel + 1) A pattern 0 sb rest 1 1 out := by
  have fell : fallBack A sb.text pattern (0 : Nat) (fuel + 1) (0 : Nat) = .ok 0 := by
    rw [fallBack_compare (i := ((0 : Nat) : Int)) read terminator, if_pos rfl]
    rfl
  exact searchFrom_skip fell (by decide) out

/-- The comparison that follows is with the byte behind the terminator. -/
theorem searchFrom_beyond {c : UInt8} (read : sb.text.load 1 = .ok c) (beyond : pattern.load 1 = .error .outOfBounds)
    (out : Output) :
    searchFrom host (fuel + 1) A pattern m sb (rest + 1) 1 1 out = .error .outOfBounds := by
  have fell : fallBack A sb.text pattern (1 : Nat) (fuel + 1) 1 = .error .outOfBounds := by
    simp only [fallBack, Nat.cast_one, read, ok_bind, beyond]
    rfl
  rw [searchFrom, fell]
  rfl

/-! ## The whole search -/

/-- The empty pattern is searched for in a text whose first byte is a terminator
and not its last. -/
def Overruns (text : List UInt8) (pattern : CString) : Prop :=
  pattern.bytes = [] ∧ text.head? = some 0 ∧ 1 < text.length

instance (text : List UInt8) (pattern : CString) : Decidable (Overruns text pattern) :=
  inferInstanceAs (Decidable (_ ∧ _ ∧ _))

theorem searchFrom_empty_iff (spare : Block UInt8) (terminator : pattern.load 0 = .ok 0)
    (beyond : pattern.load 1 = .error .outOfBounds) (loaded : A.load 0 = .ok (-1)) (out : Output) :
    Returns host (fuel + 2) (searchFrom host (fuel + 2) A pattern 0 ⟨Block.ofList text ++ spare, text.length⟩
      text.length 0 0 out) ↔ ¬ (text.head? = some 0 ∧ 1 < text.length) := by
  cases text with
  | nil => exact iff_of_true (.inl ⟨out, rfl⟩) (by simp)
  | cons c rest =>
      have read : Block.load (Block.ofList (c :: rest) ++ spare) 0 = .ok c := load_text (c :: rest) spare 0 (by simp)
      by_cases zero : c = 0
      · rw [List.length_cons, searchFrom_terminator (zero ▸ read) terminator]
        cases rest with
        | nil => exact iff_of_true (.inl ⟨out, rfl⟩) (by simp)
        | cons d rest =>
            have second : Block.load (Block.ofList (c :: d :: rest) ++ spare) 1 = .ok d :=
              load_text (c :: d :: rest) spare 1 (by simp)
            rw [List.length_cons, searchFrom_beyond second beyond]
            simp [Returns, zero]
      · refine iff_of_true ?_ (by simp [zero])
        exact searchFrom_other read terminator loaded zero out

/-- `find` stays inside the pattern and the table and every inner loop ends, for
every text, pattern and outcome of the calls, if and only if the search that
overruns the empty pattern is not begun. -/
theorem find_returns_iff (host : Host) (text : List UInt8) (spare : Block UInt8) (pattern : CString)
    (admitted : pattern.strlen ≤ text.length) (out : Output) (fuel : Nat) (enough : pattern.strlen + 2 ≤ fuel) :
    Returns host fuel (find host fuel ⟨Block.ofList text ++ spare, text.length⟩ pattern out) ↔
      ¬ (host.opens = true ∧ Overruns text pattern) := by
  obtain ⟨A, printed, built, table⟩ := buildPrefixTable_completes pattern enough
  have notLonger : ¬ text.length < pattern.strlen := Nat.not_lt.mpr admitted
  simp only [find, gt_iff_lt, notLonger, if_false, built, ok_bind, kmpSearch]
  by_cases opens : host.opens = true
  · simp only [opens, if_true, true_and]
    by_cases empty : pattern.bytes = []
    · have length : pattern.strlen = 0 := by rw [CString.strlen, empty, List.length_nil]
      obtain ⟨fuel, rfl⟩ : ∃ less, fuel = less + 2 := ⟨fuel - 2, by omega⟩
      obtain ⟨value, loaded, ⟨-, rfl⟩ | ⟨k, -, border⟩⟩ := table 0 (Nat.zero_le _)
      · have block : pattern.block = [some 0] := by rw [CString.block, empty]; rfl
        simp only [Overruns, empty, true_and, length, block]
        exact searchFrom_empty_iff spare rfl rfl loaded _
      · exact absurd border.below (Nat.not_lt_zero k)
    · refine iff_of_true ?_ (fun overruns => empty overruns.1)
      exact searchFrom_returns text _ (List.nil_append text) (load_text text spare) pattern.load_block table
        (longest_start empty) enough
  · rw [if_neg opens]
    exact iff_of_true (.inl ⟨out, rfl⟩) (fun overruns => opens overruns.1)

/-- Both with a `write` that never accepts anything, and with one that accepts
everything: the search goes past the first NUL. -/
theorem find_returns_on_nul :
    Returns ⟨true, fun _ _ => .interrupted⟩ 3 (find ⟨true, fun _ _ => .interrupted⟩ 3
      ⟨Block.ofList [0, 97, 0] ++ [some 0], 3⟩ ⟨[97], by decide⟩ (.previous [])) ∧
    ∃ after, find ⟨true, fun _ len => .done len⟩ 3 ⟨Block.ofList [0, 97, 0] ++ [some 0], 3⟩ ⟨[97], by decide⟩
      (.previous []) = .ok after ∧ after.matched = [1] := by
  have returns (host : Host) := find_returns_iff host [0, 97, 0] [some 0] ⟨[97], by decide⟩ (by decide) (.previous [])
    3 (by decide)
  refine ⟨(returns _).mpr (by decide), ?_⟩
  rcases (returns ⟨true, fun _ len => .done len⟩).mpr (by decide) with ⟨after, ran⟩ | ⟨diverged, -⟩
  · refine ⟨after, ran, ?_⟩
    cases ran
    rfl
  · cases diverged

/-- The empty pattern in a text of two terminators: `pattern[1]` is evaluated. -/
theorem empty_pattern_overruns : ¬ ∀ (host : Host) (text : List UInt8) (spare : Block UInt8) (pattern : CString)
    (out : Output) (fuel : Nat), pattern.strlen ≤ text.length → pattern.strlen + 2 ≤ fuel →
      Returns host fuel (find host fuel ⟨Block.ofList text ++ spare, text.length⟩ pattern out) := by
  intro returns
  have within := returns ⟨true, fun _ len => .done len⟩ [0, 0] [some 0] ⟨[], by decide⟩ (.previous []) 2
    (by decide) (by decide)
  have overrun : find ⟨true, fun _ len => .done len⟩ 2 ⟨Block.ofList [0, 0] ++ [some 0], 2⟩ ⟨[], by decide⟩
      (.previous []) = .error .outOfBounds := rfl
  rcases within with ⟨after, ran⟩ | ⟨diverged, -⟩
  · exact absurd (overrun.symm.trans ran) (by simp)
  · exact absurd (overrun.symm.trans diverged) (by simp)

end SysProg.FileIo.Kmp
