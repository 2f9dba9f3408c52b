import SysProg.Library.Block

namespace SysProg

/-! # Transfers in pieces

A loop that passes a buffer to `write` or `send` until all of it is accepted
depends on what each call returns. `Resent` is what becomes of the loop when
every call is given the buffer from its first byte on.
-/

/-- For each call, by its number and the count of bytes it requests, what it returns. -/
abbrev Schedule := Nat → Nat → IoResult

namespace Schedule

/-- A call is interrupted or accepts from one byte to all that it requests. -/
def Accepts (schedule : Schedule) : Prop :=
  ∀ call len, 0 < len → schedule call len = .interrupted ∨ ∃ n, 0 < n ∧ n ≤ len ∧ schedule call len = .done n

/-- A call that does not fail accepts from one byte to all that it requests. -/
def Bounded (schedule : Schedule) : Prop :=
  ∀ call len n, 0 < len → schedule call len = .done n → 0 < n ∧ n ≤ len

/-- The first call from this one on that is not interrupted accepts `n` of `len` bytes. -/
inductive First (schedule : Schedule) (len n : Nat) : Nat → Prop
  | accepted {call : Nat} (accepted : schedule call len = .done n) : First schedule len n call
  | interrupted {call : Nat} (interrupted : schedule call len = .interrupted)
      (later : First schedule len n (call + 1)) : First schedule len n call

/-- What an `int` has counted of the bytes that the first calls accept, each of
them asked for `len`. -/
def counted (schedule : Schedule) (len : Nat) : Nat → Int
  | 0 => 0
  | calls + 1 =>
      match schedule calls len with
      | .done n => wrapInt (schedule.counted len calls + n)
      | .interrupted | .failed => schedule.counted len calls

/-- What is left of `len` bytes after some calls, the first of which has the number
`start`, each of them asked for what is left by then. -/
def left (schedule : Schedule) (start len : Nat) : Nat → Nat
  | 0 => len
  | calls + 1 =>
      match schedule (start + calls) (schedule.left start len calls) with
      | .done n => schedule.left start len calls - n
      | .interrupted | .failed => schedule.left start len calls

section

variable {schedule : Schedule} {start call len n : Nat}

theorem First.unique {m : Nat} (first : schedule.First len n call) (again : schedule.First len m call) : n = m := by
  induction first with
  | accepted accepted =>
      cases again with
      | accepted same => exact IoResult.done.inj (accepted.symm.trans same)
      | interrupted interrupted _ => exact IoResult.noConfusion (accepted.symm.trans interrupted)
  | interrupted interrupted _ ih =>
      cases again with
      | accepted accepted => exact IoResult.noConfusion (accepted.symm.trans interrupted)
      | interrupted _ later => exact ih later

theorem counted_done (accepted : schedule call len = .done n) :
    schedule.counted len (call + 1) = wrapInt (schedule.counted len call + n) := by
  rw [counted, accepted]

theorem counted_interrupted (interrupted : schedule call len = .interrupted) :
    schedule.counted len (call + 1) = schedule.counted len call := by
  rw [counted, interrupted]

theorem left_done (accepted : schedule (start + call) (schedule.left start len call) = .done n) :
    schedule.left start len (call + 1) = schedule.left start len call - n := by
  rw [left, accepted]

theorem left_interrupted (interrupted : schedule (start + call) (schedule.left start len call) = .interrupted) :
    schedule.left start len (call + 1) = schedule.left start len call := by
  rw [left, interrupted]

end

end Schedule

/-- `after` continues `sent` by pieces that each start at the buffer's first element. -/
inductive Resent {α : Type} (buf : List α) : List α → List α → Prop
  | done (sent : List α) : Resent buf sent sent
  | piece {sent after : List α} (n : Nat) (some : 0 < n) (rest : Resent buf (sent ++ buf.take n) after) :
      Resent buf sent after

namespace Resent

variable {α : Type} {buf sent after : List α}

theorem exists_append (resent : Resent buf sent after) : ∃ more, after = sent ++ more := by
  induction resent with
  | done sent => exact ⟨[], by simp⟩
  | piece n some rest ih =>
      obtain ⟨more, rfl⟩ := ih
      exact ⟨buf.take n ++ more, by simp⟩

theorem eq_or_append (resent : Resent buf sent after) :
    after = sent ∨ ∃ n more, 0 < n ∧ after = sent ++ (buf.take n ++ more) := by
  cases resent with
  | done => exact .inl rfl
  | piece n some rest =>
      obtain ⟨more, rfl⟩ := rest.exists_append
      exact .inr ⟨n, more, some, List.append_assoc ..⟩

/-- What was sent before the transfer plays no part in it. -/
theorem of_append {before rest : List α} (resent : Resent buf (before ++ sent) (before ++ rest)) :
    Resent buf sent rest := by
  generalize whole : before ++ sent = start at resent
  generalize ended : before ++ rest = final at resent
  induction resent generalizing sent with
  | done =>
      rw [← ended] at whole
      rw [List.append_cancel_left whole]
      exact .done rest
  | piece n some _ ih =>
      refine .piece n some (ih ?_ ended)
      rw [← whole, List.append_assoc]

/-- A buffer that shows whether a piece was sent after the first one. -/
def marker (len : Nat) : List UInt8 := 1 :: List.replicate (len - 1) 0

theorem length_marker {len : Nat} (some : 0 < len) : (marker len).length = len := by
  rw [marker, List.length_cons, List.length_replicate]
  omega

theorem eq_zero_of_mem_drop {len n : Nat} (some : 0 < n) {byte : UInt8} (member : byte ∈ (marker len).drop n) :
    byte = 0 := by
  obtain ⟨less, rfl⟩ : ∃ less, n = less + 1 := ⟨n - 1, by omega⟩
  rw [marker, List.drop_succ_cons] at member
  exact List.eq_of_mem_replicate (List.mem_of_mem_drop member)

theorem not_marker {len n : Nat} (some : 0 < n) (short : n < len) :
    ¬ Resent (marker len) ((marker len).take n) (marker len) := by
  have length := length_marker (show 0 < len by omega)
  have size : ((marker len).take n).length = n := by
    rw [List.length_take, length]
    omega
  intro resent
  rcases resent.eq_or_append with whole | ⟨count, more, nonempty, whole⟩
  · rw [← whole] at size
    omega
  · have dropped := congrArg (List.drop n) whole
    rw [List.drop_left' size] at dropped
    obtain ⟨less, rfl⟩ : ∃ less, count = less + 1 := ⟨count - 1, by omega⟩
    have first : (1 : UInt8) ∈ (marker len).drop n := by
      rw [dropped, marker, List.take_succ_cons]
      exact List.mem_append_left _ List.mem_cons_self
    exact absurd (eq_zero_of_mem_drop some first) (by decide)

end Resent

end SysProg
