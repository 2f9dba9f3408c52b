import SysProg.FileIo.Kmp
import SysProg.Library.Border

namespace SysProg.FileIo.Kmp

/-- The value the prefix table holds for the prefix of length `q`: `-1` for the
empty prefix, and otherwise the length of its longest border. -/
def IsEntry (p : List UInt8) (q : Nat) (value : Int) : Prop :=
  (q = 0 ∧ value = -1) ∨ ∃ k : Nat, value = k ∧ IsLongest p q (p.take q) k

/-- Every entry up to `limit` has been stored and is the right one. -/
def TableUpTo (A : Block Int) (p : List UInt8) (limit : Nat) : Prop :=
  ∀ q ≤ limit, ∃ value, A.load q = .ok value ∧ IsEntry p q value

variable {A : Block Int} {p seen : List UInt8} {text pattern : Block UInt8} {c : UInt8}

theorem fallBack_sentinel (fuel : Nat) (i : Int) :
    fallBack A text pattern i (fuel + 1) (-1) = .ok (-1) := by
  simp [fallBack]

theorem fallBack_compare {i : Int} {fuel j : Nat} {d : UInt8}
    (read : text.load i = .ok c) (compared : pattern.load j = .ok d) :
    fallBack A text pattern i (fuel + 1) j =
      if c = d then .ok (j : Int) else A.load j >>= fallBack A text pattern i fuel := by
  have notSentinel : (j : Int) ≠ -1 := by omega
  simp only [fallBack, notSentinel, if_false, read, compared, ok_bind]
  rfl

/-- The inner loop from a prefix that ends the text seen so far leaves the
longest prefix, among those it can extend, that ends the text with `c` added. -/
theorem fallBack_longest {i : Int} {j : Nat} (fuel : Nat)
    (read : text.load i = .ok c)
    (patternLoad : ∀ q (bound : q < p.length), pattern.load q = .ok p[q])
    (bound : j < p.length) (table : TableUpTo A p j)
    (ends : p.take j <:+ seen) (enough : j + 2 ≤ fuel) :
    ∃ s : Nat, fallBack A text pattern i fuel j = .ok ((s : Int) - 1) ∧
      IsLongest p (j + 2) (seen ++ [c]) s := by
  induction j using Nat.strongRecOn generalizing fuel with
  | ind j ih =>
      obtain ⟨fuel, rfl⟩ : ∃ less, fuel = less + 1 := ⟨fuel - 1, by omega⟩
      rw [fallBack_compare read (patternLoad j bound)]
      by_cases same : c = p[j]
      · refine ⟨j + 1, by simp [same], by omega, ?_, fun other below _ => by omega⟩
        exact (take_succ_suffix_iff bound).mpr ⟨ends, same.symm⟩
      · simp only [same, if_false]
        obtain ⟨value, loaded, entry⟩ := table j (Nat.le_refl j)
        rw [loaded, ok_bind]
        obtain ⟨empty, rfl⟩ | ⟨k, rfl, border⟩ := entry
        · obtain ⟨fuel, rfl⟩ : ∃ less, fuel = less + 1 := ⟨fuel - 1, by omega⟩
          refine ⟨0, by simp [fallBack_sentinel], by omega, by simp, ?_⟩
          intro other below suffix
          rcases Nat.lt_or_ge 0 other with positive | zero
          · have one : other = 0 + 1 := by omega
            subst one empty
            exact absurd ((take_succ_suffix_iff bound).mp suffix).2 (Ne.symm same)
          · exact zero
        · have shorter := border.below
          obtain ⟨s, result, found⟩ := ih k shorter fuel (by omega)
            (fun q le => table q (by omega)) (border.ends.trans ends) (by omega)
          refine ⟨s, result, by have := found.below; omega, found.ends, ?_⟩
          intro other below suffix
          cases other with
          | zero => exact Nat.zero_le s
          | succ o =>
              obtain ⟨endsBefore, continues⟩ := (take_succ_suffix_iff (by omega)).mp suffix
              have notLast : o ≠ j := by
                rintro rfl
                exact same continues.symm
              have fits := border.longest o (by omega) (take_suffix_take (by omega) endsBefore ends)
              exact found.longest (o + 1) (by omega) suffix

theorem IsEntry.next {i : Nat} {value : Int} (entry : IsEntry p i value) (bound : i < p.length) :
    ∀ {s : Nat}, ((value = -1 ∧ s = 0) ∨
      ∃ j : Nat, value = j ∧ IsLongest p (j + 2) (p.take i ++ [p[i]]) s) → IsEntry p (i + 1) s := by
  intro s extended
  refine .inr ⟨s, rfl, ?_⟩
  rw [List.take_succ_eq_append_getElem bound]
  obtain ⟨rfl, rfl⟩ | ⟨j, rfl, border⟩ := entry
  · obtain ⟨-, rfl⟩ | ⟨j, impossible, -⟩ := extended
    · exact ⟨by omega, by simp, fun other below _ => by omega⟩
    · omega
  · obtain ⟨impossible, -⟩ | ⟨k, same, found⟩ := extended
    · omega
    · obtain rfl : j = k := by omega
      have below := found.below
      have shorter := border.below
      refine ⟨by omega, found.ends, ?_⟩
      intro other less suffix
      cases other with
      | zero => exact Nat.zero_le s
      | succ o =>
          have ended := ((take_succ_suffix_iff (by omega)).mp suffix).1
          have fits := border.longest o (by omega) ended
          exact found.longest (o + 1) (by omega) suffix

theorem TableUpTo.store {i : Nat} {value : Int} (table : TableUpTo A p i)
    (room : i + 1 < A.length) (entry : IsEntry p (i + 1) value) :
    TableUpTo (A.set (i + 1) (some value)) p (i + 1) := by
  intro q le
  by_cases last : q = i + 1
  · subst last
    exact ⟨value, by rw [Block.load_eq_ok]; simp [room], entry⟩
  · obtain ⟨old, loaded, correct⟩ := table q (by omega)
    refine ⟨old, ?_, correct⟩
    rw [Block.load_eq_ok] at loaded ⊢
    rw [List.getElem?_set_ne (by omega)]
    exact loaded

theorem fillTable_completes {fuel i : Nat} {j : Int} (rest : Nat)
    (patternLoad : ∀ q (bound : q < p.length), pattern.load q = .ok p[q])
    (counted : i + rest = p.length) (size : p.length < A.length)
    (table : TableUpTo A p i) (current : IsEntry p i j) (enough : p.length + 2 ≤ fuel) :
    ∃ after, fillTable fuel pattern rest i j A = .ok after ∧ TableUpTo after p p.length := by
  induction rest generalizing i j A with
  | zero =>
      obtain rfl : i = p.length := by omega
      exact ⟨A, rfl, table⟩
  | succ rest ih =>
      have bound : i < p.length := by omega
      have advanced : ∃ s : Nat, fallBack A pattern pattern i fuel j = .ok ((s : Int) - 1) ∧
          IsEntry p (i + 1) s := by
        obtain ⟨fuel, rfl⟩ : ∃ less, fuel = less + 1 := ⟨fuel - 1, by omega⟩
        rcases id current with ⟨-, rfl⟩ | ⟨k, rfl, border⟩
        · exact ⟨0, by simp [fallBack_sentinel], current.next bound (.inl ⟨rfl, rfl⟩)⟩
        · have shorter := border.below
          obtain ⟨s, result, found⟩ := fallBack_longest (fuel + 1) (patternLoad i bound) patternLoad
            (by omega) (fun q le => table q (by omega)) border.ends (by omega)
          exact ⟨s, result, current.next bound (.inr ⟨k, rfl, found⟩)⟩
      obtain ⟨s, result, entry⟩ := advanced
      have stored : A.store (i + 1) ((s : Int) - 1 + 1) = .ok (A.set (i + 1) (some (s : Int))) := by
        have room : i + 1 < A.length := by omega
        simpa using A.store_eq_ok (i + 1) (s : Int) room
      obtain ⟨after, completed, afterTable⟩ := ih (i := i + 1) (by omega)
        (by simpa using size) (table.store (by omega) entry) entry
      refine ⟨after, ?_, afterTable⟩
      simp only [fillTable, result, ok_bind, stored]
      simpa using completed

theorem printTable_exists {m : Nat} (table : TableUpTo A p m) :
    ∃ printed, printTable A m = .ok printed := by
  have each : ∀ indices : List Nat, (∀ i ∈ indices, i ≤ m) →
      ∃ printed, indices.mapM (fun i : Nat => A.load i) = .ok printed := by
    intro indices within
    induction indices with
    | nil => exact ⟨[], rfl⟩
    | cons i rest ih =>
        obtain ⟨value, loaded, -⟩ := table i (within i (by simp))
        obtain ⟨printed, mapped⟩ := ih (fun j member => within j (by simp [member]))
        exact ⟨value :: printed, by simp [loaded, mapped]⟩
  exact each (List.range (m + 1)) (fun i member => Nat.le_of_lt_succ (List.mem_range.mp member))

theorem buildPrefixTable_exists {fuel : Nat} (A : Block Int) (room : p.length < A.length)
    (patternLoad : ∀ q (bound : q < p.length), pattern.load q = .ok p[q]) (enough : p.length + 2 ≤ fuel) :
    ∃ after printed, buildPrefixTable fuel A pattern p.length = .ok (after, printed) ∧ TableUpTo after p p.length := by
  have begun : A.store 0 (-1) = .ok (A.set 0 (some (-1))) := A.store_eq_ok 0 (-1) (by omega)
  have first : TableUpTo (A.set 0 (some (-1))) p 0 := by
    intro q le
    obtain rfl : q = 0 := by omega
    exact ⟨-1, by rw [Block.load_eq_ok, List.getElem?_set_self (by omega)], .inl ⟨rfl, rfl⟩⟩
  obtain ⟨after, filled, table⟩ := fillTable_completes p.length patternLoad (Nat.zero_add _) (by simpa using room)
    first (.inl ⟨rfl, rfl⟩) enough
  obtain ⟨printed, shown⟩ := printTable_exists table
  refine ⟨after, printed, ?_, table⟩
  have listed : printTable after p.length = .ok printed := shown
  simp only [buildPrefixTable, begun, ok_bind, filled, listed, pure_eq_ok]

theorem CString.load_block (string : CString) (q : Nat) (bound : q < string.bytes.length) :
    string.block.load q = .ok string.bytes[q] := by
  have inside : q < (string.bytes ++ [0]).length := by simp; omega
  rw [CString.block, Block.load_ofList inside, List.getElem_append_left bound]

theorem buildPrefixTable_completes (string : CString) {fuel : Nat} (enough : string.strlen + 2 ≤ fuel) :
    ∃ A printed, buildPrefixTable fuel (Block.malloc (string.strlen + 1)) string.block string.strlen =
      .ok (A, printed) ∧ TableUpTo A string.bytes string.strlen :=
  buildPrefixTable_exists _ (by simp [CString.strlen]) string.load_block enough

/-! ## The finished table -/

/-- The sentinel, and for every other prefix the length of its longest border. -/
structure HoldsBorders (A : Block Int) (p : List UInt8) : Prop where
  sentinel : A.load 0 = .ok (-1)
  borders : ∀ k : Nat, 1 ≤ k → k ≤ p.length →
    ∃ border : Nat, A.load k = .ok (border : Int) ∧ IsLongest p k (p.take k) border
  bounds : ∀ k : Nat, k ≤ p.length → ∃ value, A.load k = .ok value ∧ -1 ≤ value ∧ value < k

theorem TableUpTo.holdsBorders (table : TableUpTo A p p.length) : HoldsBorders A p where
  sentinel := by
    obtain ⟨value, loaded, ⟨-, rfl⟩ | ⟨k, -, border⟩⟩ := table 0 (Nat.zero_le _)
    · exact loaded
    · exact absurd border.below (Nat.not_lt_zero k)
  borders k positive most := by
    obtain ⟨value, loaded, ⟨empty, -⟩ | ⟨border, rfl, longest⟩⟩ := table k most
    · exact absurd empty (Nat.ne_of_gt positive)
    · exact ⟨border, loaded, longest⟩
  bounds k most := by
    obtain ⟨value, loaded, ⟨rfl, rfl⟩ | ⟨border, rfl, longest⟩⟩ := table k most
    · exact ⟨-1, loaded, by decide, by decide⟩
    · have below := longest.below
      exact ⟨border, loaded, by omega, by omega⟩

/-- `build_prefix_table` ends with the longest borders in the table, whatever is behind the
string and whatever the table contained. -/
theorem prefix_table_holds_borders (p : List UInt8) (spare : Block UInt8) (A : Block Int) (room : p.length < A.length)
    (fuel : Nat) (enough : p.length + 2 ≤ fuel) :
    ∃ after printed, buildPrefixTable fuel A (Block.ofList p ++ spare) p.length = .ok (after, printed) ∧
      HoldsBorders after p := by
  obtain ⟨after, printed, built, table⟩ := buildPrefixTable_exists A room
    (fun q bound => Block.Begins.load (List.prefix_append (Block.ofList p) spare) bound) enough
  exact ⟨after, printed, built, table.holdsBorders⟩

theorem prefix_table_holds_borders_three :
    ∃ after printed, buildPrefixTable 5 (Block.malloc 4) (Block.ofList [97, 98, 97] ++ [some 0]) 3 = .ok (after, printed) ∧
      HoldsBorders after [97, 98, 97] :=
  prefix_table_holds_borders [97, 98, 97] [some 0] (Block.malloc 4) (by decide) 5 (by decide)

end SysProg.FileIo.Kmp
