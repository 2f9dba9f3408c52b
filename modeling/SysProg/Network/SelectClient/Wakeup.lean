import SysProg.Network.SelectClient
import Mathlib.Tactic

namespace SysProg.Network.SelectClient

variable {μ : Type} {capacity : ℕ+} {lines : List μ} {before after : State μ}

/-- The loop has looked at the queue and not yet returned from `select`. -/
def LoopPhase.committed : LoopPhase μ → Bool
  | .releasing | .select => true
  | _ => false

/-- The main thread has appended a message and not yet sent its byte. -/
def MainPhase.owes : MainPhase μ → Bool
  | .releasing | .sending => true
  | _ => false

/-- Something will wake the loop out of `select`. -/
def WillWake (state : State μ) : Prop :=
  state.wlist = true ∨ 0 < state.unread ∨ state.main.owes = true

/-- The message that the loop has taken off the queue and not yet passed on. -/
def LoopPhase.inHand : LoopPhase μ → List μ
  | .popped msg => [msg]
  | _ => []

structure Wakeful (state : State μ) : Prop where
  wakes : state.loop.committed = true → state.writeQueue ≠ [] → WillWake state
  inOrder : state.appended = state.sent ++ state.loop.inHand ++ state.writeQueue

theorem wakeful_start (lines : List μ) : Wakeful (start lines) where
  wakes := by simp [start, LoopPhase.committed]
  inOrder := rfl

theorem Wakeful.mainStep (wakeful : Wakeful before) (moved : mainStep capacity before = some after) :
    Wakeful after := by
  obtain ⟨wakes, inOrder⟩ := wakeful
  simp only [SelectClient.mainStep] at moved
  cases phase : before.main with
  | input =>
      simp only [phase] at moved
      split at moved
      all_goals
        cases moved
        refine ⟨?_, inOrder⟩
        intro committed waiting
        simpa [WillWake, phase, MainPhase.owes] using wakes committed waiting
  | acquiring msg =>
      simp only [phase] at moved
      split at moved
      · cases moved
        refine ⟨?_, inOrder⟩
        intro committed waiting
        simpa [WillWake, phase, MainPhase.owes] using wakes committed waiting
      · contradiction
  | appending msg =>
      simp only [phase] at moved
      cases moved
      refine ⟨fun _ _ => .inr (.inr rfl), ?_⟩
      rw [inOrder, List.append_assoc]
  | releasing =>
      simp only [phase] at moved
      cases moved
      exact ⟨fun _ _ => .inr (.inr rfl), inOrder⟩
  | sending =>
      simp only [phase] at moved
      split at moved
      · cases moved
        exact ⟨fun _ _ => .inr (.inl (Nat.succ_pos _)), inOrder⟩
      · rename_i full
        cases moved
        have room := capacity.pos
        exact ⟨fun _ _ => .inr (.inl (by simp only; omega)), inOrder⟩
  | exited => simp [phase] at moved

theorem Wakeful.moveLoop (wakeful : Wakeful before) (loop : LoopPhase μ) (mutex : Option Party) (unread : Nat)
    (wlist : Bool) (elsewhere : loop.committed = false) (inHand : loop.inHand = before.loop.inHand) :
    Wakeful { before with loop, mutex, unread, wlist } where
  wakes := by
    intro committed
    rw [elsewhere] at committed
    contradiction
  inOrder := by
    rw [inHand]
    exact wakeful.inOrder

theorem Wakeful.loopStep (wakeful : Wakeful before) (moved : loopStep before = some after) : Wakeful after := by
  simp only [SelectClient.loopStep] at moved
  cases phase : before.loop with
  | acquiring | locking =>
      simp only [phase] at moved
      split at moved
      · cases moved
        exact wakeful.moveLoop _ _ _ _ rfl (by rw [phase]; rfl)
      · contradiction
  | testing =>
      simp only [phase] at moved
      cases moved
      constructor
      · intro _ waiting
        exact .inl (by simpa [List.length_pos_iff] using waiting)
      · simpa [phase, LoopPhase.inHand] using wakeful.inOrder
  | releasing =>
      simp only [phase] at moved
      cases moved
      refine ⟨fun _ waiting => wakeful.wakes (by rw [phase]; rfl) waiting, ?_⟩
      simpa [phase, LoopPhase.inHand] using wakeful.inOrder
  | indicated indicated writable =>
      simp only [phase] at moved
      split at moved
      · split at moved
        all_goals
          cases moved
          exact wakeful.moveLoop _ _ _ _ rfl (by rw [phase]; rfl)
      · cases moved
        exact wakeful.moveLoop _ _ _ _ rfl (by rw [phase]; rfl)
  | writing writable =>
      simp only [phase] at moved
      cases moved
      cases writable with
      | true => exact wakeful.moveLoop .locking _ _ _ rfl (by rw [phase]; rfl)
      | false => exact wakeful.moveLoop .acquiring _ _ _ rfl (by rw [phase]; rfl)
  | draining =>
      have inOrder := wakeful.inOrder
      simp only [phase] at moved
      split at moved
      · cases moved
        exact wakeful.moveLoop _ _ _ _ rfl (by rw [phase]; rfl)
      · rename_i msg rest found
        cases moved
        refine ⟨by simp [LoopPhase.committed], ?_⟩
        simpa [phase, found, LoopPhase.inHand] using inOrder
  | popped msg =>
      have inOrder := wakeful.inOrder
      simp only [phase] at moved
      cases moved
      refine ⟨by simp [LoopPhase.committed], ?_⟩
      simpa [phase, LoopPhase.inHand] using inOrder
  | unlocking | clearing =>
      simp only [phase] at moved
      cases moved
      exact wakeful.moveLoop _ _ _ _ rfl (by rw [phase]; rfl)
  | select | receiving | sendall | dead => simp [phase] at moved

theorem Wakeful.next (wakeful : Wakeful before) {action : Action} (moved : next capacity before action = some after) :
    Wakeful after := by
  cases action with
  | main => exact wakeful.mainStep moved
  | loop => exact wakeful.loopStep moved
  | interrupt =>
      simp only [SelectClient.next] at moved
      split at moved
      · rename_i phase
        cases moved
        refine ⟨?_, wakeful.inOrder⟩
        intro committed waiting
        simpa [WillWake, phase, MainPhase.owes] using wakeful.wakes committed waiting
      · contradiction
  | select readable indicated writable =>
      simp only [SelectClient.next] at moved
      split at moved
      · rename_i phase
        split at moved
        · cases moved
          cases readable with
          | true => exact wakeful.moveLoop (.receiving indicated writable) _ _ _ rfl (by rw [phase]; rfl)
          | false => exact wakeful.moveLoop (.indicated indicated writable) _ _ _ rfl (by rw [phase]; rfl)
        · contradiction
      · contradiction
  | recv returns =>
      simp only [SelectClient.next] at moved
      split at moved
      · rename_i indicated writable phase
        cases moved
        cases returns with
        | true => exact wakeful.moveLoop (.indicated indicated writable) _ _ _ rfl (by rw [phase]; rfl)
        | false => exact wakeful.moveLoop .dead _ _ _ rfl (by rw [phase]; rfl)
      · contradiction
  | sendall returns =>
      simp only [SelectClient.next] at moved
      split at moved
      · rename_i phase
        split at moved
        all_goals
          cases moved
          exact wakeful.moveLoop _ _ _ _ rfl (by rw [phase]; rfl)
      · contradiction

/-- In every interleaving, a loop blocked in `select` with messages queued is
going to be woken, and every message appended has been passed on, in order and
once, or is in the loop's hands, or is still queued. -/
theorem select_client_wakes (capacity : ℕ+) (lines : List μ) (state : State μ)
    (reached : (machine capacity lines).Reachable state) :
    (state.loop = .select → state.writeQueue ≠ [] →
      state.wlist = true ∨ 0 < state.unread ∨ state.main = .releasing ∨ state.main = .sending) ∧
    state.sent <+: state.appended ∧
    state.appended = state.sent ++ state.loop.inHand ++ state.writeQueue := by
  have wakeful : Wakeful state :=
    reached.invariant Wakeful (wakeful_start lines) fun wakeful moved => wakeful.next moved
  refine ⟨?_, ?_, wakeful.inOrder⟩
  · intro blocked waiting
    rcases wakeful.wakes (by rw [blocked]; rfl) waiting with listed | unread | owes
    · exact .inl listed
    · exact .inr (.inl unread)
    · cases phase : state.main <;> simp [phase, MainPhase.owes] at owes ⊢
  · rw [wakeful.inOrder, List.append_assoc]
    exact List.prefix_append _ _

/-- Two messages are popped and sent, and a third is appended behind the test of the queue. -/
theorem select_client_wakes_after_test : ∃ state, (machine 1 ["a", "b", "c"]).Reachable state ∧ state.loop = .select ∧
    state.sent = ["a", "b"] ∧ state.writeQueue = ["c"] ∧ state.wlist = false ∧ state.unread = 0 ∧
    (state.wlist = true ∨ 0 < state.unread ∨ state.main = .releasing ∨ state.main = .sending) ∧
    state.appended = state.sent ++ state.loop.inHand ++ state.writeQueue := by
  let select : List Action := List.replicate 3 .loop
  let queue : List Action := List.replicate 10 .main
  let pass : List Action := [.loop, .loop, .sendall true]
  let drain : List Action := [.select false true false, .loop, .loop, .loop] ++ pass ++ pass ++ [.loop, .loop, .loop]
  let append : List Action := List.replicate 4 .main
  have reached : (machine 1 ["a", "b", "c"]).Reachable _ := ⟨select ++ queue ++ drain ++ select ++ append, rfl⟩
  obtain ⟨wakes, -, inOrder⟩ := select_client_wakes 1 ["a", "b", "c"] _ reached
  exact ⟨_, reached, rfl, rfl, rfl, rfl, rfl, wakes rfl (by decide), inOrder⟩

end SysProg.Network.SelectClient
