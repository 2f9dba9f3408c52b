import SysProg.Threading.RingBuffer.Fifo

namespace SysProg.Threading.RingBuffer

variable {ι : Type} [Fintype ι] [DecidableEq ι] {role : ι → Role} {n : ι → Int} {state : State ι}

/-- The items that the threads of a role are to handle. -/
def totalItems (role : ι → Role) (n : ι → Int) (kind : Role) : Nat :=
  ∑ who, if role who = kind then (n who).toNat else 0

theorem tally_total (reached : (machine role n).Reachable state) (kind : Role) :
    tally (Thread.total kind) state.threads = totalItems role n kind := by
  apply Finset.sum_congr rfl
  intro who _
  obtain ⟨sameRole, sameItems⟩ := constant_of_reachable reached who
  rw [Thread.total, sameRole, sameItems]

/-- Every thread has returned, or waits and has not been signalled. -/
def Stalled (state : State ι) : Prop :=
  ∀ who, (state.threads who).phase ≠ .returned → (state.threads who).phase = .waiting

omit [Fintype ι] [DecidableEq ι] in
theorem Stalled.cases (stalled : Stalled state) (who : ι) :
    (state.threads who).phase = .returned ∨ (state.threads who).phase = .waiting := by
  by_cases returned : (state.threads who).phase = .returned
  · exact .inl returned
  · exact .inr (stalled who returned)

omit [DecidableEq ι] in
theorem Stalled.idle (stalled : Stalled state) (kind : Role) :
    tally (Thread.active kind) state.threads = 0 ∧ tally (Thread.notifies kind) state.threads = 0 ∧
      tally (Thread.uncounted kind) state.threads = 0 := by
  simp only [tally_eq_zero]
  refine ⟨?_, ?_, ?_⟩
  · intro who
    rcases stalled.cases who with phase | phase <;> simp [Thread.active, phase]
  · intro who
    rcases stalled.cases who with phase | phase <;> simp [Thread.notifies, phase]
  · intro who
    rcases stalled.cases who with phase | phase <;> simp [Thread.uncounted, phase]

theorem Stalled.nothing (stalled : Stalled state) (reached : (machine role n).Reachable state) {who : ι}
    (waiting : (state.threads who).phase = .waiting) : slack state.count (state.threads who).role ≤ 0 := by
  have counted := le_tally (Thread.waits (state.threads who).role) state.threads who
  simp only [Thread.waits, waiting, and_self, if_true] at counted
  have awake := awake_of_reachable reached (state.threads who).role counted
  obtain ⟨active, notifies, -⟩ := stalled.idle (state.threads who).role
  omega

theorem short_of_waiting (reached : (machine role n).Reachable state) {who : ι}
    (waiting : (state.threads who).phase = .waiting) :
    tally (Thread.rounds (state.threads who).role) state.threads < totalItems role n (state.threads who).role := by
  have progress := progress_of_reachable reached
  rw [← tally_total reached]
  apply tally_lt (fun other => (progress.inLoop other).rounds_le _) (i := who)
  have inLoop := progress.inLoop who
  simp only [Thread.InLoop, waiting] at inLoop
  simpa [Thread.rounds, Thread.total, waiting, Phase.accessed] using inLoop

theorem all_of_returned (reached : (machine role n).Reachable state) (kind : Role)
    (returned : ∀ who, (state.threads who).role = kind → (state.threads who).phase = .returned) :
    tally (Thread.rounds kind) state.threads = totalItems role n kind := by
  have progress := progress_of_reachable reached
  rw [← tally_total reached]
  apply tally_congr
  intro who
  by_cases mine : (state.threads who).role = kind
  · have inLoop := progress.inLoop who
    simp only [Thread.InLoop, returned who mine] at inLoop
    simpa [Thread.rounds, Thread.total, mine, returned who mine, Phase.accessed] using inLoop
  · simp [Thread.rounds, Thread.total, mine]

theorem Stalled.others_returned (stalled : Stalled state) (reached : (machine role n).Reachable state) {who : ι}
    (waiting : (state.threads who).phase = .waiting) (other : ι)
    (different : (state.threads other).role ≠ (state.threads who).role) :
    (state.threads other).phase = .returned := by
  by_contra running
  have mine := stalled.nothing reached waiting
  have theirs := stalled.nothing reached (stalled other running)
  have room : (0 : Int) < bufferMax := by decide
  cases first : (state.threads who).role <;> cases second : (state.threads other).role <;>
    simp only [first, second, slack, ne_eq, reduceCtorEq, not_true_eq_false] at mine theirs different <;> omega

/-- With as many items to produce as to consume, no state has an unfinished
thread while every unfinished thread waits unsignalled. -/
theorem no_lost_wakeup (role : ι → Role) (n : ι → Int)
    (balanced : totalItems role n .producer = totalItems role n .consumer) (state : State ι)
    (reached : (machine role n).Reachable state) :
    ¬ ((∃ who, (state.threads who).phase ≠ .returned) ∧
      ∀ who, (state.threads who).phase ≠ .returned → (state.threads who).phase = .waiting) := by
  intro lost
  obtain ⟨⟨who, unfinished⟩, stalled⟩ := lost
  have waiting := stalled who unfinished
  have short := short_of_waiting reached waiting
  have nothing := Stalled.nothing stalled reached waiting
  have returned := Stalled.others_returned stalled reached waiting
  have progress := progress_of_reachable reached
  have ring := ring_of_reachable reached
  have count := ring.count
  rw [(Stalled.idle stalled .producer).2.2, (Stalled.idle stalled .consumer).2.2, progress.puts, progress.gets] at count
  have room : (0 : Int) < bufferMax := by decide
  cases kind : (state.threads who).role with
  | producer =>
      have all := all_of_returned reached .consumer fun other consumer => returned other (by simp [consumer, kind])
      simp only [kind, slack] at short nothing
      omega
  | consumer =>
      have all := all_of_returned reached .producer fun other producer => returned other (by simp [producer, kind])
      simp only [kind, slack] at short nothing
      omega

theorem no_lost_wakeup_pair : ∃ state, (machine pair fun _ => 20).Reachable state ∧
    (state.threads false).phase = .waiting ∧
    ¬ ((∃ who, (state.threads who).phase ≠ .returned) ∧
      ∀ who, (state.threads who).phase ≠ .returned → (state.threads who).phase = .waiting) := by
  have reached : (machine pair fun _ => 20).Reachable _ := ⟨List.replicate 3 (.step false), rfl⟩
  exact ⟨_, reached, rfl, no_lost_wakeup pair (fun _ => 20) (by decide) _ reached⟩

end SysProg.Threading.RingBuffer
