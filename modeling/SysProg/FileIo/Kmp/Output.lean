import SysProg.FileIo.Kmp.Search
import SysProg.Library.Transfer

namespace SysProg.FileIo.Kmp

/-! ## What `write_all` writes -/

section

variable {host : Host} {buf : List UInt8} {out after : Output} {fuel len : Nat} {code : Int}

/-- Whenever `write_all` returns `0`, exactly these bytes have been accepted. -/
def WritesExactly (host : Host) (buf : List UInt8) (len : Nat) (out : Output) (bytes : List UInt8) : Prop :=
  ∀ fuel after, writeAll host buf 0 fuel len out = .ok (0, after) → after.file = out.file ++ bytes

theorem writeAll_resent (accepts : Schedule.Accepts host.write)
    (ran : writeAll host buf 0 fuel len out = .ok (code, after)) : Resent buf out.file after.file := by
  induction fuel generalizing len out with
  | zero => contradiction
  | succ fuel ih =>
      rw [writeAll] at ran
      split at ran
      · rename_i some
        rcases accepts out.writes len some with interrupted | ⟨n, more, -, accepted⟩
        · simp only [interrupted] at ran
          have rest : Resent buf { out with writes := out.writes + 1 }.file after.file := ih ran
          exact rest
        · simp only [accepted, List.drop_zero] at ran
          exact .piece n more (ih ran)
      · cases ran
        exact .done _

/-- What is left of a call after the first `write` that is not interrupted. -/
theorem writeAll_first (accepts : Schedule.Accepts host.write) (some : 0 < len)
    (ran : writeAll host buf 0 fuel len out = .ok (code, after)) :
    ∃ n fuel later, 0 < n ∧ n ≤ len ∧ Schedule.First host.write len n out.writes ∧
      later.file = out.file ++ buf.take n ∧ writeAll host buf 0 fuel (len - n) later = .ok (code, after) := by
  induction fuel generalizing out with
  | zero => contradiction
  | succ fuel ih =>
      rw [writeAll, if_pos some] at ran
      rcases accepts out.writes len some with interrupted | ⟨n, more, most, accepted⟩
      · simp only [interrupted] at ran
        obtain ⟨n, fuel, later, more, most, first, file, rest⟩ := ih ran
        exact ⟨n, fuel, later, more, most, .interrupted interrupted first, file, rest⟩
      · simp only [accepted, List.drop_zero] at ran
        exact ⟨n, fuel, _, more, most, .accepted accepted, rfl, ran⟩

theorem writeAll_stops (ran : writeAll host buf 0 fuel 0 out = .ok (code, after)) : after = out := by
  cases fuel with
  | zero => contradiction
  | succ fuel =>
      rw [writeAll, if_neg (Nat.lt_irrefl 0)] at ran
      cases ran
      rfl

/-- A call that returns `0` has left nothing. -/
theorem writeAll_left {start call : Nat} (position : out.writes = start + call)
    (ran : writeAll host buf 0 fuel (Schedule.left host.write start len call) out = .ok (0, after)) :
    ∃ calls, Schedule.left host.write start len calls = 0 := by
  induction fuel generalizing call out with
  | zero => contradiction
  | succ fuel ih =>
      rw [writeAll] at ran
      split at ran
      · cases result : host.write out.writes (Schedule.left host.write start len call) with
        | interrupted =>
            simp only [result] at ran
            rw [position] at result
            rw [← Schedule.left_interrupted result] at ran
            exact ih (congrArg (· + 1) position) ran
        | failed =>
            simp [result] at ran
        | done n =>
            simp only [result] at ran
            rw [position] at result
            rw [← Schedule.left_done result] at ran
            exact ih (congrArg (· + 1) position) ran
      · exact ⟨call, by omega⟩

/-- A call of which nothing is left in the end returns `0`. -/
theorem writeAll_ends (accepts : Schedule.Accepts host.write) (buf : List UInt8) {start rest call : Nat}
    (nothing : Schedule.left host.write start len (call + rest) = 0) (out : Output)
    (position : out.writes = start + call) :
    ∃ fuel after, writeAll host buf 0 fuel (Schedule.left host.write start len call) out = .ok (0, after) := by
  induction rest generalizing call out with
  | zero =>
      rw [Nat.add_zero] at nothing
      exact ⟨1, out, by rw [nothing]; rfl⟩
  | succ rest ih =>
      by_cases some : 0 < Schedule.left host.write start len call
      · have later := @ih (call + 1) (by rw [Nat.add_assoc, Nat.add_comm 1]; exact nothing)
        rcases accepts (start + call) _ some with interrupted | ⟨n, -, -, accepted⟩
        · obtain ⟨fuel, after, ran⟩ := later { out with writes := out.writes + 1 } (congrArg (· + 1) position)
          rw [Schedule.left_interrupted interrupted] at ran
          refine ⟨fuel + 1, after, ?_⟩
          rw [writeAll, if_pos some]
          simp only [position, interrupted]
          exact position ▸ ran
        · obtain ⟨fuel, after, ran⟩ := later
            { out with writes := out.writes + 1, file := out.file ++ (buf.drop 0).take n } (congrArg (· + 1) position)
          rw [Schedule.left_done accepted] at ran
          refine ⟨fuel + 1, after, ?_⟩
          rw [writeAll, if_pos some]
          simp only [position, accepted]
          exact position ▸ ran
      · have none : Schedule.left host.write start len call = 0 := by omega
        exact ⟨1, out, by rw [none]; rfl⟩

theorem writeAll_succeeds (buf : List UInt8) (first : Schedule.First host.write len len out.writes) :
    ∃ fuel after, writeAll host buf 0 fuel len out = .ok (0, after) := by
  by_cases some : 0 < len
  · generalize call : out.writes = start at first
    induction first generalizing out with
    | accepted accepted =>
        refine ⟨2, { out with writes := out.writes + 1, file := out.file ++ buf.take len }, ?_⟩
        simp [writeAll, some, call, accepted]
    | interrupted interrupted later ih =>
        obtain ⟨fuel, after, ran⟩ := @ih { out with writes := out.writes + 1 } (by rw [← call])
        refine ⟨fuel + 1, after, ?_⟩
        simp only [writeAll, some, if_true, call, interrupted]
        exact call ▸ ran
  · exact ⟨1, out, by rw [writeAll, if_neg some]⟩

/-- What `write_all` has written when it returns `0` is the buffer if and only if the
first `write` that is not interrupted accepts all of it, or it does not return `0`:
the later calls start over. If that `write` accepts all of it, it does return `0`. -/
theorem writes_exactly_iff (host : Host) (accepts : Schedule.Accepts host.write) (len : Nat) (out : Output) :
    ((∀ buf : List UInt8, len ≤ buf.length → WritesExactly host buf len out (buf.take len)) ↔
      len = 0 ∨ (∀ n, Schedule.First host.write len n out.writes → n = len) ∨
        ∀ calls, 0 < Schedule.left host.write out.writes len calls) ∧
    (Schedule.First host.write len len out.writes → ∀ buf : List UInt8,
      ∃ fuel after, writeAll host buf 0 fuel len out = .ok (0, after)) := by
  refine ⟨⟨?_, ?_⟩, fun first buf => writeAll_succeeds buf first⟩
  · intro exact
    by_contra other
    simp only [not_or, not_forall] at other
    obtain ⟨nonempty, ⟨n, first, partly⟩, calls, reached⟩ := other
    have some : 0 < len := Nat.pos_of_ne_zero nonempty
    have length := Resent.length_marker some
    have nothing : Schedule.left host.write out.writes len (0 + calls) = 0 := by
      rw [Nat.zero_add]
      exact Nat.eq_zero_of_not_pos reached
    obtain ⟨fuel, after, ran⟩ := writeAll_ends accepts (Resent.marker len) nothing out rfl
    have file := exact (Resent.marker len) (Nat.le_of_eq length.symm) fuel after ran
    obtain ⟨m, fuel, later, more, most, again, begun, rest⟩ := writeAll_first accepts some ran
    have resent := writeAll_resent accepts rest
    rw [file, begun, List.take_of_length_le (Nat.le_of_eq length)] at resent
    have short : m < len := Nat.lt_of_le_of_ne most (first.unique again ▸ partly)
    exact Resent.not_marker more short resent.of_append
  · intro meets buf enough fuel after ran
    by_cases none : len = 0
    · rw [none] at ran ⊢
      rw [writeAll_stops ran]
      simp
    · rcases meets.resolve_left none with whole | never
      · obtain ⟨n, fuel, later, -, -, first, file, rest⟩ := writeAll_first accepts (Nat.pos_of_ne_zero none) ran
        rw [whole n first, Nat.sub_self] at rest
        rw [writeAll_stops rest, file, whole n first]
      · obtain ⟨calls, nothing⟩ := writeAll_left (Nat.add_zero _).symm ran
        exact absurd (never calls) (nothing ▸ Nat.lt_irrefl 0)

/-- The first call is interrupted, and the others accept all that they request. -/
def resumed : Host where
  opens := true
  write := fun call len => if call = 0 then .interrupted else .done len

theorem resumed_accepts : Schedule.Accepts resumed.write := by
  intro call len some
  simp only [resumed]
  split
  · exact .inl rfl
  · exact .inr ⟨len, some, Nat.le_refl _, rfl⟩

theorem writes_exactly_two_bytes : ∃ fuel after,
    writeAll resumed [1, 2] 0 fuel 2 (.previous [9]) = .ok (0, after) ∧ after.file = [9, 1, 2] := by
  have first : Schedule.First resumed.write 2 2 0 := .interrupted rfl (.accepted rfl)
  obtain ⟨exact, succeeds⟩ := writes_exactly_iff resumed resumed_accepts 2 (.previous [9])
  obtain ⟨fuel, after, ran⟩ := succeeds first [1, 2]
  have written := exact.mpr (.inr (.inl fun n again => again.unique first)) [1, 2] (by decide)
  exact ⟨fuel, after, ran, written fuel after ran⟩

/-- Every call accepts one byte. -/
def byBytes : Host where
  opens := true
  write := fun _ _ => .done 1

theorem byBytes_accepts : Schedule.Accepts byBytes.write := by
  intro call len some
  exact .inr ⟨1, Nat.one_pos, some, rfl⟩

/-- Of two bytes the first is written twice and the second never. -/
theorem first_byte_written_twice : ¬ ∀ (host : Host) (buf : List UInt8) (len : Nat) (out : Output),
    Schedule.Accepts host.write → len ≤ buf.length →
      ∀ fuel after, writeAll host buf 0 fuel len out = .ok (0, after) → after.file = out.file ++ buf.take len := by
  intro exact
  have file := exact byBytes [1, 2] 2 (.previous []) byBytes_accepts (by decide) 3 ⟨[1, 1], 2, []⟩ rfl
  exact absurd file (by decide)

end

/-! ## What `find` leaves in `OUT_FILE` -/

/-- As many lines as naive comparison finds occurrences. -/
def matchLines (text : List UInt8) (pattern : CString) : List UInt8 :=
  (List.replicate ((List.range (text.length + 1 - pattern.strlen)).filter (OccursAt text pattern.bytes)).length
    foundMatch).flatten

/-- `find` returns and leaves these bytes in the file that held `file`. -/
def Leaves (host : Host) (fuel : Nat) (sb : StringBuffer) (pattern : CString) (file bytes : List UInt8) : Prop :=
  ∃ after, find host fuel sb pattern (.previous file) = .ok after ∧ after.file = bytes

variable {host : Host} {fuel : Nat} {text : List UInt8} {spare : Block UInt8} {pattern : CString}

theorem leaves_matchLines (spare : Block UInt8) (complete : host.Complete) (nonempty : pattern.bytes ≠ [])
    (enough : pattern.strlen + 2 ≤ fuel) (fits : pattern.strlen ≤ text.length) (file : List UInt8) :
    Leaves host fuel ⟨Block.ofList text ++ spare, text.length⟩ pattern file (matchLines text pattern) := by
  obtain ⟨after, ran, marks, lines⟩ := find_runs complete text spare pattern file nonempty fits enough
  refine ⟨after, ran, ?_⟩
  rw [lines, marks, count_endsAt text nonempty fits]
  rfl

theorem leaves_previous (longer : text.length < pattern.strlen) (file bytes : List UInt8) :
    Leaves host fuel ⟨Block.ofList text ++ spare, text.length⟩ pattern file bytes ↔ bytes = file := by
  simp only [Leaves, find, gt_iff_lt, longer, if_true, Except.ok.injEq, exists_eq_left', Output.previous]
  exact eq_comm

theorem matchLines_of_longer (longer : text.length < pattern.strlen) : matchLines text pattern = [] := by
  have none : text.length + 1 - pattern.strlen = 0 := by omega
  simp [matchLines, none]

/-- The file holds the lines of this search if and only if the pattern is no
longer than the text or the file was empty before; two runs end with the same
file whatever was there before if and only if the pattern is no longer. -/
theorem find_leaves_iff (host : Host) (complete : host.Complete) (text : List UInt8) (spare : Block UInt8)
    (pattern : CString) (nonempty : pattern.bytes ≠ []) (fuel : Nat) (enough : pattern.strlen + 2 ≤ fuel) :
    (∀ file, Leaves host fuel ⟨Block.ofList text ++ spare, text.length⟩ pattern file (matchLines text pattern) ↔
      pattern.strlen ≤ text.length ∨ file = []) ∧
    ((∀ first second, ∃ bytes,
      Leaves host fuel ⟨Block.ofList text ++ spare, text.length⟩ pattern first bytes ∧
        Leaves host fuel ⟨Block.ofList text ++ spare, text.length⟩ pattern second bytes) ↔
      pattern.strlen ≤ text.length) := by
  by_cases fits : pattern.strlen ≤ text.length
  · have always := leaves_matchLines spare complete nonempty enough fits
    simp only [fits, true_or, iff_true]
    exact ⟨always, fun first second => ⟨_, always first, always second⟩⟩
  · have longer : text.length < pattern.strlen := Nat.lt_of_not_le fits
    simp only [leaves_previous longer, matchLines_of_longer longer, fits, false_or, iff_false]
    refine ⟨fun file => eq_comm, ?_⟩
    intro same
    obtain ⟨bytes, first, second⟩ := same [] [0]
    rw [first] at second
    contradiction

/-- `open` and every `write` succeed. -/
def allWritten : Host where
  opens := true
  write := fun _ len => .done len

theorem find_leaves_one_line :
    Leaves allWritten 4 ⟨Block.ofList [97, 98] ++ [some 0], 2⟩ ⟨[98], by decide⟩ [1, 2] foundMatch :=
  ((find_leaves_iff allWritten ⟨rfl, fun _ _ => rfl⟩ [97, 98] [some 0] ⟨[98], by decide⟩ (by decide) 4
    (by decide)).1 [1, 2]).mpr (.inl (by decide))

/-- A search for `ab` in the text `a` leaves the line of an earlier search. -/
theorem stale_line_left : ¬ ∀ (host : Host) (text : List UInt8) (spare : Block UInt8) (pattern : CString)
    (file : List UInt8) (fuel : Nat), host.Complete → pattern.bytes ≠ [] → pattern.strlen + 2 ≤ fuel →
      Leaves host fuel ⟨Block.ofList text ++ spare, text.length⟩ pattern file (matchLines text pattern) := by
  intro reflects
  obtain ⟨after, ran, file⟩ := reflects allWritten [97] [some 0] ⟨[97, 98], by decide⟩ foundMatch 4
    ⟨rfl, fun _ _ => rfl⟩ (by decide) (by decide)
  cases ran
  exact absurd file (by decide)

end SysProg.FileIo.Kmp
