import SysProg.Library.Channel
import SysProg.Library.Fgets
import SysProg.Library.Machine

namespace SysProg.Network.ThreadedClient

/-! # `00-network-programming/examples/select_client.c`

`main`, from the creation of the thread on, and the thread in `loop`. A thread that has
been cancelled ends at the next cancellation point; `recv` and `printf` are such points.
-/

/-- The size of `rbuf`, without its terminator. -/
def rbufSize : Nat := 512

/-- The size of `input`, without its terminator. -/
def inputSize : Nat := 511

inductive Party where
  | main
  | thread
deriving DecidableEq

/-- What is printed. -/
inductive Message where
  | stdin (text : List UInt8)
  | closing
  | received (text : List UInt8)
  | disconnected
  | perror (name : String)
deriving DecidableEq

/-- `cancelling` and `joining` are in `stop_thread`, from which `main` returns the code. -/
inductive MainPhase where
  | reading
  | echoing (text : List UInt8)
  | closing
  | failing
  | cancelling (code : Nat)
  | joining (code : Nat)
  | destroying
  | exited (code : Nat)
deriving DecidableEq

inductive ThreadPhase where
  | receiving
  | printing (text : List UInt8)
  | disconnecting
  | failing
  | ended
  | crashed
deriving DecidableEq

/-- `incoming` is what the server has sent and `recv` has not returned, `log` who has printed what. -/
structure State where
  main : MainPhase
  thread : ThreadPhase
  cancelled : Bool
  isOpen : Bool
  stdin : List UInt8
  incoming : List UInt8
  log : List (Party × Message)

inductive Action where
  | main
  | recv (result : IoResult)
  | thread
  | cancel
deriving DecidableEq

def State.print (state : State) (who : Party) (message : Message) : State :=
  { state with log := state.log ++ [(who, message)] }

/-- `main`. `error` is whether stdin ends with an error. -/
def mainStep (error : Bool) (state : State) : Option State :=
  match state.main with
  | .reading =>
      match fgets error inputSize state.stdin with
      | some (line, rest) => some { state with main := .echoing (lineString line), stdin := rest }
      | none => some { state with main := if error then .failing else .closing }
  | .echoing text => some { state.print .main (.stdin text) with main := .reading }
  | .closing => some { state.print .main .closing with main := .cancelling 0 }
  | .failing => some { state.print .main (.perror "fgets") with main := .cancelling 1 }
  | .cancelling code => some { state with main := .joining code, cancelled := true }
  | .joining code =>
      if state.thread = .ended then some { state with main := if code = 0 then .destroying else .exited code } else none
  | .destroying => some { state with main := .exited 0, isOpen := false }
  | .exited _ => none

/-- The string in `rbuf`, after the bytes have been received. -/
def terminated (bytes : List UInt8) : Except Trap (List UInt8) := do
  let rbuf ← (Block.malloc (rbufSize + 1)).storeFrom 0 bytes
  let rbuf ← rbuf.store bytes.length 0
  rbuf.cString

/-- `recv(conn->fd, rbuf, 512, 0)`, with what `loop` does with its result. -/
def recv (state : State) : IoResult → Option State
  | .interrupted | .failed => some { state with thread := .failing }
  | .done count =>
      if count = 0 then
        if state.incoming = [] then some { state with thread := .disconnecting } else none
      else if count ≤ rbufSize ∧ count ≤ state.incoming.length then
        let incoming := state.incoming.drop count
        match terminated (state.incoming.take count) with
        | .ok text => some { state with thread := .printing text, incoming }
        | .error _ => some { state with thread := .crashed, incoming }
      else none

/-- The other steps of `loop`. -/
def loopStep (state : State) : Option State :=
  match state.thread with
  | .printing text => some { state.print .thread (.received text) with thread := .receiving }
  | .disconnecting => some { state.print .thread .disconnected with thread := .ended }
  | .failing => some { state.print .thread (.perror "recv") with thread := .ended }
  | .receiving | .ended | .crashed => none

def next (error : Bool) (state : State) : Action → Option State
  | .main => mainStep error state
  | .recv result => if state.thread = .receiving ∧ state.isOpen = true then recv state result else none
  | .thread => loopStep state
  | .cancel => if state.cancelled = true ∧ state.thread ≠ .ended then some { state with thread := .ended } else none

/-- The client is connected, and the server will send the stream. -/
def machine (error : Bool) (stdin stream : List UInt8) : Machine State Action where
  init := {
    main := .reading
    thread := .receiving
    cancelled := false
    isOpen := true
    stdin
    incoming := stream
    log := [] }
  next := next error

/-! ## What has been printed -/

def MainPhase.Says (entries : List Message) (lines : List (List UInt8)) (stdin : List UInt8) : MainPhase → Prop
  | .reading | .failing => entries = lines.map fun line => .stdin (lineString line)
  | .echoing text => entries ++ [.stdin text] = lines.map fun line => .stdin (lineString line)
  | .closing => entries = (lines.map fun line => .stdin (lineString line)) ∧ stdin = []
  | .destroying => entries = (lines.map fun line => .stdin (lineString line)) ++ [.closing] ∧ stdin = []
  | .cancelling code | .joining code | .exited code =>
      entries = (lines.map fun line => .stdin (lineString line)) ++ [if code = 0 then .closing else .perror "fgets"] ∧
        (code = 0 → stdin = [])

def ThreadPhase.Says (entries : List Message) (chunks : List (List UInt8)) : ThreadPhase → Prop
  | .receiving | .disconnecting | .failing => entries = chunks.map fun chunk => .received (lineString chunk)
  | .printing text => entries ++ [.received text] = chunks.map fun chunk => .received (lineString chunk)
  | .ended => ∃ last, (last = .disconnected ∨ last = .perror "recv") ∧
      entries <+: (chunks.map fun chunk => .received (lineString chunk)) ++ [last]
  | .crashed => False

structure Sound (stdin stream : List UInt8) (lines chunks : List (List UInt8)) (state : State) : Prop where
  typed : stdin = lines.flatten ++ state.stdin
  each : ∀ line ∈ lines, Line inputSize line
  taken : stream = chunks.flatten ++ state.incoming
  pieces : ∀ chunk ∈ chunks, chunk ≠ [] ∧ chunk.length ≤ rbufSize
  main : state.main.Says (entriesOf .main state.log) lines state.stdin
  thread : state.thread.Says (entriesOf .thread state.log) chunks
  joined : state.main = .destroying ∨ (∃ code, state.main = .exited code) → state.thread = .ended
  closed : state.isOpen = false → state.main = .exited 0

variable {error : Bool} {stdin stream : List UInt8} {lines chunks : List (List UInt8)} {state after : State}

theorem State.main_print (state : State) (message : Message) :
    entriesOf .main (state.print .main message).log = entriesOf .main state.log ++ [message] ∧
      entriesOf .thread (state.print .main message).log = entriesOf .thread state.log :=
  ⟨entriesOf_concat_self, entriesOf_concat_other (by decide)⟩

theorem State.thread_print (state : State) (message : Message) :
    entriesOf .thread (state.print .thread message).log = entriesOf .thread state.log ++ [message] ∧
      entriesOf .main (state.print .thread message).log = entriesOf .main state.log :=
  ⟨entriesOf_concat_self, entriesOf_concat_other (by decide)⟩

theorem terminated_eq {bytes : List UInt8} (fits : bytes.length ≤ rbufSize) : terminated bytes = .ok (lineString bytes) :=
  Block.cString_received fits

theorem MainPhase.Says.printed {phase : MainPhase} {entries : List Message} {stdin : List UInt8}
    (told : phase.Says entries lines stdin) : ∃ last : Message, (last = .closing ∨ last = .perror "fgets") ∧
      entries <+: (lines.map fun line => .stdin (lineString line)) ++ [last] := by
  cases phase with
  | reading | failing =>
      rw [show entries = _ from told]
      exact ⟨.closing, .inl rfl, List.prefix_append _ _⟩
  | echoing text =>
      have printed : entries <+: lines.map fun line => .stdin (lineString line) := ⟨_, told⟩
      exact ⟨.closing, .inl rfl, printed.trans (List.prefix_append _ _)⟩
  | closing =>
      rw [told.1]
      exact ⟨.closing, .inl rfl, List.prefix_append _ _⟩
  | destroying => exact ⟨.closing, .inl rfl, told.1 ▸ List.prefix_refl _⟩
  | cancelling code | joining code | exited code =>
      refine ⟨if code = 0 then .closing else .perror "fgets", ?_, told.1 ▸ List.prefix_refl _⟩
      split
      · exact .inl rfl
      · exact .inr rfl

theorem ThreadPhase.Says.printed {phase : ThreadPhase} {entries : List Message} (told : phase.Says entries chunks) :
    ∃ last : Message, (last = .disconnected ∨ last = .perror "recv") ∧
      entries <+: (chunks.map fun chunk => .received (lineString chunk)) ++ [last] := by
  cases phase with
  | receiving | disconnecting | failing =>
      rw [show entries = _ from told]
      exact ⟨.disconnected, .inl rfl, List.prefix_append _ _⟩
  | printing text =>
      have printed : entries <+: chunks.map fun chunk => .received (lineString chunk) := ⟨_, told⟩
      exact ⟨.disconnected, .inl rfl, printed.trans (List.prefix_append _ _)⟩
  | ended => exact told
  | crashed => exact told.elim

theorem Sound.mainStep (sound : Sound stdin stream lines chunks state) (moved : mainStep error state = some after) :
    ∃ lines, Sound stdin stream lines chunks after := by
  obtain ⟨typed, each, taken, pieces, main, thread, joined, closed⟩ := sound
  have stays : state.main ≠ .exited 0 → ∀ {goal : Prop}, state.isOpen = false → goal :=
    fun running _ shut => absurd (closed shut) running
  simp only [ThreadedClient.mainStep] at moved
  cases phase : state.main with
  | reading =>
      rw [phase] at main
      simp only [phase] at moved
      split at moved
      · rename_i line rest read
        cases moved
        obtain ⟨split, whole⟩ := fgets_eq_some read
        refine ⟨lines ++ [line], ?_, ?_, taken, pieces, ?_, thread, by simp, stays (by simp [phase])⟩
        · rw [typed, ← split]
          simp
        · intro other member
          rcases List.mem_append.mp member with before | now
          · exact each other before
          · rw [List.mem_singleton.mp now]
            exact whole
        · have grown : (lines ++ [line]).map (fun line => Message.stdin (lineString line)) =
              lines.map (fun line => Message.stdin (lineString line)) ++ [.stdin (lineString line)] := List.map_append
          exact (congrArg (· ++ _) main).trans grown.symm
      · rename_i none
        cases moved
        cases error with
        | true =>
            exact ⟨lines, typed, each, taken, pieces, main, thread, by simp, stays (by simp [phase])⟩
        | false =>
            exact ⟨lines, typed, each, taken, pieces, ⟨main, fgets_eq_none none⟩, thread, by simp, stays (by simp [phase])⟩
  | echoing text =>
      rw [phase] at main
      simp only [phase] at moved
      cases moved
      obtain ⟨mine, theirs⟩ := state.main_print (.stdin text)
      exact ⟨lines, typed, each, taken, pieces, mine.trans main, by rw [theirs]; exact thread, by simp, stays (by simp [phase])⟩
  | closing =>
      rw [phase] at main
      simp only [phase] at moved
      cases moved
      obtain ⟨mine, theirs⟩ := state.main_print .closing
      exact ⟨lines, typed, each, taken, pieces, ⟨mine.trans (congrArg (· ++ _) main.1), fun _ => main.2⟩,
        by rw [theirs]; exact thread, by simp, stays (by simp [phase])⟩
  | failing =>
      rw [phase] at main
      simp only [phase] at moved
      cases moved
      obtain ⟨mine, theirs⟩ := state.main_print (.perror "fgets")
      exact ⟨lines, typed, each, taken, pieces, ⟨mine.trans (congrArg (· ++ _) main), nofun⟩,
        by rw [theirs]; exact thread, by simp, stays (by simp [phase])⟩
  | cancelling code =>
      rw [phase] at main
      simp only [phase] at moved
      cases moved
      exact ⟨lines, typed, each, taken, pieces, main, thread, by simp, stays (by simp [phase])⟩
  | joining code =>
      rw [phase] at main
      simp only [phase] at moved
      split at moved <;> cases moved
      rename_i ended
      by_cases zero : code = 0
      · rw [zero] at main ⊢
        exact ⟨lines, typed, each, taken, pieces, ⟨main.1, main.2 rfl⟩, thread, fun _ => ended, stays (by simp [phase])⟩
      · rw [if_neg zero]
        exact ⟨lines, typed, each, taken, pieces, main, thread, fun _ => ended, stays (by simp [phase])⟩
  | destroying =>
      rw [phase] at main joined
      simp only [phase] at moved
      cases moved
      exact ⟨lines, typed, each, taken, pieces, ⟨main.1, fun _ => main.2⟩, thread, fun _ => joined (.inl rfl), fun _ => rfl⟩
  | exited code =>
      simp only [phase] at moved
      cases moved

theorem Sound.recv (sound : Sound stdin stream lines chunks state) (receiving : state.thread = .receiving)
    {result : IoResult} (moved : recv state result = some after) :
    ∃ chunks, Sound stdin stream lines chunks after := by
  obtain ⟨typed, each, taken, pieces, main, thread, joined, closed⟩ := sound
  have early : state.main = .destroying ∨ (∃ code, state.main = .exited code) → ∀ {goal : Prop}, goal := by
    intro late
    have ended := joined late
    rw [receiving] at ended
    cases ended
  rw [receiving] at thread
  cases result with
  | interrupted | failed =>
      cases moved
      exact ⟨chunks, typed, each, taken, pieces, main, thread, fun late => early late, closed⟩
  | done count =>
      simp only [ThreadedClient.recv] at moved
      split at moved
      · split at moved <;> cases moved
        exact ⟨chunks, typed, each, taken, pieces, main, thread, fun late => early late, closed⟩
      · rename_i some
        split at moved
        · rename_i fits
          have size : (state.incoming.take count).length = count := by
            rw [List.length_take]
            omega
          rw [terminated_eq (by omega)] at moved
          cases moved
          refine ⟨chunks ++ [state.incoming.take count], typed, each, ?_, ?_, main, ?_, fun late => early late, closed⟩
          · rw [taken, List.flatten_append, List.append_assoc, List.flatten_singleton, List.take_append_drop]
          · intro other member
            rcases List.mem_append.mp member with before | now
            · exact pieces other before
            · rw [List.mem_singleton.mp now]
              refine ⟨fun empty => ?_, by rw [size]; exact fits.1⟩
              rw [empty] at size
              exact some size.symm
          · have grown : (chunks ++ [state.incoming.take count]).map (fun chunk => Message.received (lineString chunk)) =
                chunks.map (fun chunk => Message.received (lineString chunk)) ++
                  [.received (lineString (state.incoming.take count))] :=
              List.map_append
            exact (congrArg (· ++ _) thread).trans grown.symm
        · cases moved

theorem Sound.loopStep (sound : Sound stdin stream lines chunks state) (moved : loopStep state = some after) :
    Sound stdin stream lines chunks after := by
  obtain ⟨typed, each, taken, pieces, main, thread, joined, closed⟩ := sound
  have early : state.thread ≠ .ended → state.main = .destroying ∨ (∃ code, state.main = .exited code) →
      ∀ {goal : Prop}, goal := fun running late => absurd (joined late) running
  simp only [ThreadedClient.loopStep] at moved
  cases phase : state.thread with
  | printing text =>
      rw [phase] at thread
      simp only [phase] at moved
      cases moved
      obtain ⟨mine, theirs⟩ := state.thread_print (.received text)
      exact ⟨typed, each, taken, pieces, by rw [theirs]; exact main, mine.trans thread,
        fun late => early (by simp [phase]) late, closed⟩
  | disconnecting =>
      rw [phase] at thread
      simp only [phase] at moved
      cases moved
      obtain ⟨mine, theirs⟩ := state.thread_print .disconnected
      refine ⟨typed, each, taken, pieces, by rw [theirs]; exact main, ⟨.disconnected, .inl rfl, ?_⟩, fun _ => rfl, closed⟩
      exact mine.trans (congrArg (· ++ _) thread) ▸ List.prefix_refl _
  | failing =>
      rw [phase] at thread
      simp only [phase] at moved
      cases moved
      obtain ⟨mine, theirs⟩ := state.thread_print (.perror "recv")
      refine ⟨typed, each, taken, pieces, by rw [theirs]; exact main, ⟨.perror "recv", .inr rfl, ?_⟩, fun _ => rfl, closed⟩
      exact mine.trans (congrArg (· ++ _) thread) ▸ List.prefix_refl _
  | receiving | ended | crashed =>
      simp only [phase] at moved
      cases moved

theorem Sound.cancel (sound : Sound stdin stream lines chunks state) :
    Sound stdin stream lines chunks { state with thread := .ended } := by
  obtain ⟨typed, each, taken, pieces, main, thread, joined, closed⟩ := sound
  exact ⟨typed, each, taken, pieces, main, thread.printed, fun _ => rfl, closed⟩

theorem Sound.next (sound : Sound stdin stream lines chunks state) {action : Action}
    (moved : next error state action = some after) : ∃ lines chunks, Sound stdin stream lines chunks after := by
  cases action with
  | main =>
      obtain ⟨_, sound⟩ := sound.mainStep moved
      exact ⟨_, _, sound⟩
  | recv result =>
      simp only [ThreadedClient.next] at moved
      split at moved
      · rename_i ready
        obtain ⟨_, sound⟩ := sound.recv ready.1 moved
        exact ⟨_, _, sound⟩
      · cases moved
  | thread => exact ⟨_, _, sound.loopStep moved⟩
  | cancel =>
      simp only [ThreadedClient.next] at moved
      split at moved <;> cases moved
      exact ⟨_, _, sound.cancel⟩

end SysProg.Network.ThreadedClient
