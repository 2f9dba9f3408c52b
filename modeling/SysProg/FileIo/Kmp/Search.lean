import SysProg.FileIo.Kmp.Table

namespace SysProg.FileIo.Kmp

/-- Naive comparison at position `s` of the text. -/
def OccursAt (text p : List UInt8) (s : Nat) : Prop :=
  (text.drop s).take p.length = p

instance (text p : List UInt8) (s : Nat) : Decidable (OccursAt text p s) :=
  inferInstanceAs (Decidable (_ = _))

/-- `i >= m - 1` and `text[i-m+1..i]` equals the pattern. -/
def EndsAt (text p : List UInt8) (i : Nat) : Prop :=
  p.length ≤ i + 1 ∧ OccursAt text p (i + 1 - p.length)

instance (text p : List UInt8) (i : Nat) : Decidable (EndsAt text p i) :=
  inferInstanceAs (Decidable (_ ∧ _))

/-- `open` succeeds and every `write` accepts all it is given. -/
structure Host.Complete (host : Host) : Prop where
  opens : host.opens = true
  accepts : ∀ call len, host.write call len = .done len

/-- What `find` starts from, `OUT_FILE` holding what an earlier run left. -/
def Output.previous (file : List UInt8) : Output := { file, writes := 0, matched := [] }

variable {p text seen : List UInt8} {A : Block Int} {host : Host}

theorem endsAt_iff_suffix {i : Nat} (bound : i < text.length) :
    EndsAt text p i ↔ p <:+ text.take (i + 1) := by
  constructor
  · rintro ⟨le, occurs⟩
    refine ⟨text.take (i + 1 - p.length), ?_⟩
    have joined := List.take_add (l := text) (i := i + 1 - p.length) (j := p.length)
    rw [Nat.sub_add_cancel le, occurs] at joined
    exact joined.symm
  · rintro ⟨front, joined⟩
    have lengths := congrArg List.length joined
    simp only [List.length_append, List.length_take] at lengths
    refine ⟨by omega, ?_⟩
    have start : i + 1 - p.length = front.length := by omega
    have split : text = front ++ p ++ text.drop (i + 1) := by
      rw [joined, List.take_append_drop]
    rw [OccursAt, start, split, List.append_assoc, List.drop_left, List.take_left]

theorem writeAll_complete (complete : host.Complete) {fuel : Nat} (enough : 2 ≤ fuel) (out : Output) :
    writeAll host foundMatch 0 fuel 12 out =
      .ok (0, { out with file := out.file ++ foundMatch, writes := out.writes + 1 }) := by
  obtain ⟨fuel, rfl⟩ : ∃ less, fuel = less + 2 := ⟨fuel - 2, by omega⟩
  simp [writeAll, complete.accepts, foundMatch]

theorem fallBack_advances {c : UInt8} {textBlock pattern : Block UInt8} {i : Int} {fuel j : Nat}
    (read : textBlock.load i = .ok c)
    (patternLoad : ∀ q (bound : q < p.length), pattern.load q = .ok p[q])
    (table : TableUpTo A p p.length) (current : IsLongest p p.length seen j)
    (enough : p.length + 2 ≤ fuel) :
    ∃ s : Nat, fallBack A textBlock pattern i fuel j = .ok ((s : Int) - 1) ∧
      IsLongest p (p.length + 1) (seen ++ [c]) s := by
  have below := current.below
  obtain ⟨s, result, found⟩ := fallBack_longest fuel read patternLoad below
    (fun q le => table q (by omega)) current.ends (by omega)
  have limit := found.below
  refine ⟨s, result, by omega, found.ends, ?_⟩
  intro other less suffix
  cases other with
  | zero => exact Nat.zero_le s
  | succ o =>
      have ended := ((take_succ_suffix_iff (by omega)).mp suffix).1
      have fits := current.longest o (by omega) ended
      exact found.longest (o + 1) (by omega) suffix

theorem restart_longest {k : Nat} (border : IsLongest p p.length (p.take p.length) k)
    (matched : p <:+ seen) : IsLongest p p.length seen k := by
  rw [List.take_length] at border
  refine ⟨border.below, border.ends.trans matched, ?_⟩
  intro other below suffix
  have whole : p.take p.length <:+ seen := by rwa [List.take_length]
  have inside := take_suffix_take (Nat.le_of_lt below) suffix whole
  rw [List.take_length] at inside
  exact border.longest other below inside

/-- The text loop from any iteration on reports exactly the positions at which
the pattern ends, and writes one line for each. -/
theorem searchFrom_reports (complete : host.Complete) {fuel j : Nat} (sb : StringBuffer)
    {pattern : Block UInt8} (rest : List UInt8) (out : Output)
    (source : seen ++ rest = text)
    (textLoad : ∀ i (bound : i < text.length), sb.text.load i = .ok text[i])
    (patternLoad : ∀ q (bound : q < p.length), pattern.load q = .ok p[q])
    (table : TableUpTo A p p.length) (current : IsLongest p p.length seen j)
    (enough : p.length + 2 ≤ fuel) :
    ∃ after, searchFrom host fuel A pattern p.length sb rest.length seen.length j out = .ok after ∧
      after.matched = out.matched ++ (List.range' seen.length rest.length).filter (EndsAt text p) ∧
      after.file = out.file ++ (List.replicate
        ((List.range' seen.length rest.length).filter (EndsAt text p)).length foundMatch).flatten := by
  induction rest generalizing seen j out with
  | nil => exact ⟨out, rfl, by simp, by simp⟩
  | cons c rest ih =>
      have bound : seen.length < text.length := by simp [← source]
      have read : sb.text.load seen.length = .ok c := by
        rw [textLoad _ bound]
        simp [← source]
      have here : text.take (seen.length + 1) = seen ++ [c] := by simp [← source, List.take_append]
      have nextSource : (seen ++ [c]) ++ rest = text := by simpa using source
      have nextLength : (seen ++ [c]).length = seen.length + 1 := by simp
      have nonempty := Nat.lt_of_le_of_lt (Nat.zero_le j) current.below
      obtain ⟨s, result, found⟩ := fallBack_advances read patternLoad table current enough
      have limit := found.below
      by_cases full : s = p.length
      · have ends : p <:+ seen ++ [c] := by simpa [full] using found.ends
        have reported : EndsAt text p seen.length := by rwa [endsAt_iff_suffix bound, here]
        obtain ⟨value, loaded, entry⟩ := table p.length (Nat.le_refl _)
        obtain ⟨empty, -⟩ | ⟨k, rfl, border⟩ := entry
        · omega
        · obtain ⟨after, ran, marks, file⟩ := ih { out with
              file := out.file ++ foundMatch
              writes := out.writes + 1
              matched := out.matched ++ [seen.length] } nextSource (restart_longest border ends)
          rw [nextLength] at ran marks file
          refine ⟨after, ?_, ?_, ?_⟩
          · have arrived : (s : Int) - 1 + 1 = (p.length : Int) := by omega
            simp only [List.length_cons, searchFrom, result, ok_bind, arrived, if_true,
              writeAll_complete complete (by omega : 2 ≤ fuel)]
            simpa [loaded] using ran
          · simp [marks, List.range'_succ, reported]
          · simp [file, List.range'_succ, reported, List.replicate_succ]
      · have silent : ¬ EndsAt text p seen.length := by
          rw [endsAt_iff_suffix bound, here]
          intro ends
          have whole : p.take p.length <:+ seen ++ [c] := by rwa [List.take_length]
          have := found.longest p.length (by omega) whole
          omega
        obtain ⟨after, ran, marks, file⟩ := ih out nextSource
          ⟨by omega, found.ends, fun other below => found.longest other (by omega)⟩
        rw [nextLength] at ran marks file
        refine ⟨after, ?_, ?_, ?_⟩
        · have onward : (s : Int) - 1 + 1 ≠ (p.length : Int) := by omega
          simp only [List.length_cons, searchFrom, result, ok_bind, onward, if_false]
          simpa using ran
        · simp [marks, List.range'_succ, silent]
        · simp [file, List.range'_succ, silent]

theorem count_endsAt (text : List UInt8) (nonempty : p ≠ []) (fits : p.length ≤ text.length) :
    ((List.range text.length).filter (EndsAt text p)).length =
      ((List.range (text.length + 1 - p.length)).filter (OccursAt text p)).length := by
  have positive := List.length_pos_iff.mpr nonempty
  have split : text.length = (p.length - 1) + (text.length + 1 - p.length) := by omega
  have early : (List.range (p.length - 1)).filter (EndsAt text p) = [] := by
    simp only [List.filter_eq_nil_iff, List.mem_range, decide_eq_true_eq]
    rintro i below ⟨le, -⟩
    omega
  have shifted : ((fun i => decide (EndsAt text p i)) ∘ fun s => p.length - 1 + s) =
      fun s => decide (OccursAt text p s) := by
    funext s
    have start : p.length - 1 + s + 1 - p.length = s := by omega
    have late : p.length ≤ p.length - 1 + s + 1 := by omega
    simp [EndsAt, start, late]
  conv_lhs => rw [split]
  rw [List.range_add, List.filter_append, early, List.nil_append, List.filter_map, List.length_map,
    shifted]

theorem load_text (text : List UInt8) (spare : Block UInt8) (i : Nat) (bound : i < text.length) :
    Block.load (Block.ofList text ++ spare) i = .ok text[i] :=
  Block.Begins.load (List.prefix_append _ _) bound

theorem longest_start (nonempty : p ≠ []) : IsLongest p p.length [] 0 := by
  refine ⟨List.length_pos_iff.mpr nonempty, by simp, ?_⟩
  intro other below suffix
  have := suffix.length_le
  simp only [List.length_take, List.length_nil] at this
  omega

theorem find_runs (complete : host.Complete) (text : List UInt8) (spare : Block UInt8) (pattern : CString)
    (file : List UInt8) (nonempty : pattern.bytes ≠ []) (fits : pattern.strlen ≤ text.length)
    {fuel : Nat} (enough : pattern.strlen + 2 ≤ fuel) :
    ∃ after, find host fuel ⟨Block.ofList text ++ spare, text.length⟩ pattern (.previous file) = .ok after ∧
      after.matched = (List.range text.length).filter (EndsAt text pattern.bytes) ∧
      after.file = (List.replicate after.matched.length foundMatch).flatten := by
  obtain ⟨A, printed, built, table⟩ := buildPrefixTable_completes pattern enough
  obtain ⟨after, ran, marks, lines⟩ := searchFrom_reports complete
    ⟨Block.ofList text ++ spare, text.length⟩ text { Output.previous file with file := [] }
    (List.nil_append text) (load_text text spare) pattern.load_block table (longest_start nonempty) enough
  refine ⟨after, ?_, by simpa [Output.previous, List.range_eq_range'] using marks,
    by simpa [Output.previous, marks] using lines⟩
  have admitted : ¬ text.length < pattern.strlen := by omega
  simp only [find, admitted, if_false, built, ok_bind, kmpSearch, complete.opens, if_true]
  exact ran

/-- `find` writes a match line in exactly the iterations of the text loop at
which an occurrence of the pattern ends, overlapping ones included, and so as
many lines as naive comparison finds positions. -/
theorem find_agrees_with_naive_search (host : Host) (complete : host.Complete)
    (text : List UInt8) (spare : Block UInt8) (pattern : CString) (file : List UInt8)
    (nonempty : pattern.bytes ≠ []) (fits : pattern.strlen ≤ text.length)
    (fuel : Nat) (enough : pattern.strlen + 2 ≤ fuel) :
    ∃ after, find host fuel ⟨Block.ofList text ++ spare, text.length⟩ pattern (.previous file) = .ok after ∧
      (∀ i < text.length, i ∈ after.matched ↔ EndsAt text pattern.bytes i) ∧
      after.matched.Pairwise (· < ·) ∧ (∀ i ∈ after.matched, i < text.length) ∧
      after.file = (List.replicate after.matched.length foundMatch).flatten ∧
      after.matched.length =
        ((List.range (text.length + 1 - pattern.strlen)).filter (OccursAt text pattern.bytes)).length := by
  obtain ⟨after, ran, marks, lines⟩ := find_runs complete text spare pattern file nonempty fits enough
  refine ⟨after, ran, ?_, ?_, ?_, lines, ?_⟩
  · intro i bound
    simp [marks, bound]
  · rw [marks]
    exact List.pairwise_lt_range.filter _
  · intro i member
    rw [marks, List.mem_filter, List.mem_range] at member
    exact member.1
  · rw [marks]
    exact count_endsAt text nonempty fits

theorem find_agrees_on_overlap :
    ∃ after, find ⟨true, fun _ len => .done len⟩ 5 ⟨Block.ofList [97, 98, 97, 98, 97] ++ [some 0], 5⟩
        ⟨[97, 98, 97], by decide⟩ (.previous [1, 2]) = .ok after ∧ after.matched.length = 2 := by
  obtain ⟨after, ran, -, -, -, -, count⟩ := find_agrees_with_naive_search ⟨true, fun _ len => .done len⟩
    ⟨rfl, fun _ _ => rfl⟩ [97, 98, 97, 98, 97] [some 0] ⟨[97, 98, 97], by decide⟩ [1, 2]
    (by decide) (by decide) 5 (by decide)
  exact ⟨after, ran, count.trans (by decide)⟩

end SysProg.FileIo.Kmp
