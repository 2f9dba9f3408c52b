import SysProg.Library.Transfer

namespace SysProg.Process.UnixDaemon

/-! # `04-process-management/unix_daemon.c`

The program with any text in place of its literal.
-/

/-- A string literal. No object has `2 ^ 63` bytes or more. -/
structure Text where
  bytes : List UInt8
  free : 0 ∉ bytes
  size : bytes.length + 1 < 2 ^ 63

/-- The object that `buf` points to. -/
def Text.buf (text : Text) : Block UInt8 := Block.ofList (text.bytes ++ [0])

/-- `"this is some daemon output"` -/
def literal : Text where
  bytes := [116, 104, 105, 115, 32, 105, 115, 32, 115, 111, 109, 101, 32, 100, 97, 101, 109, 111, 110, 32,
    111, 117, 116, 112, 117, 116]
  free := by decide
  size := by decide

def strlen (buf : Block UInt8) : Except Trap Nat := do return (← buf.cString).length

/-- The value that a `ssize_t` holds after an addition that leaves its range. -/
def wrapSsize (value : Int) : Int := (value + 2 ^ 63) % 2 ^ 64 - 2 ^ 63

/-- `crashed` is after an access that C leaves undefined. -/
inductive Phase where
  | running
  | ended
  | failed
  | crashed
deriving DecidableEq

/-- The loop before its call with the number `call`. `requests` has where each call was
to start and how many bytes it was to write. -/
structure Loop where
  phase : Phase
  call : Nat
  n : Int
  requests : List (Int × Nat)
  accepted : List UInt8

def start : Loop where
  phase := .running
  call := 0
  n := 0
  requests := []
  accepted := []

/-- `write(fd, buf + n, len)` -/
def Loop.request (loop : Loop) (len : Nat) : Loop :=
  { loop with call := loop.call + 1, requests := loop.requests ++ [(loop.n, len)] }

/-- What follows a call of `write`, whose result is given. -/
def Loop.resume (buf : Block UInt8) (loop : Loop) : IoResult → Loop
  | .interrupted => loop
  | .failed => { loop with phase := .failed }
  | .done m =>
      match buf.loadFrom loop.n m with
      | .error _ => { loop with phase := .crashed }
      | .ok bytes => { loop with n := wrapSsize (loop.n + m), accepted := loop.accepted ++ bytes }

/-- An iteration of the loop. The `ssize_t` is compared as a `size_t`. -/
def writeStep (write : Schedule) (buf : Block UInt8) (loop : Loop) : Loop :=
  match loop.phase with
  | .running =>
      match strlen buf with
      | .error _ => { loop with phase := .crashed }
      | .ok len =>
          if loop.n % 2 ^ 64 < len then (loop.request len).resume buf (write loop.call len)
          else { loop with phase := .ended }
  | _ => loop

/-- The loop after this many iterations. -/
def writeLoop (write : Schedule) (buf : Block UInt8) : Nat → Loop
  | 0 => start
  | count + 1 => writeStep write buf (writeLoop write buf count)

/-- The outcomes of the other calls of `main`. -/
structure Host where
  daemon : Bool
  opens : Bool
  write : Schedule
  closes : Bool

inductive Message where
  | printf (text : String)
  | perror (name : String)
deriving DecidableEq

/-- `main`, where it returns after at most this many iterations. -/
def main (host : Host) (text : Text) (iterations : Nat) : Option (Int × List Message) :=
  if host.daemon then
    if host.opens then
      match (writeLoop host.write text.buf iterations).phase with
      | .running | .crashed => none
      | .failed => some (1, [.perror "write"])
      | .ended => if host.closes then some (0, []) else some (1, [.perror "close"])
    else some (1, [.perror "open"])
  else some (1, [.printf "error"])

/-! ## The requests and the accepted bytes -/

/-- No call has been asked to read beyond the text's end, and a loop that has ended without
an error has written the text. -/
structure Writes (text : Text) (loop : Loop) : Prop where
  within : ∀ request, request ∈ loop.requests → 0 ≤ request.1 ∧ request.1 + request.2 ≤ text.bytes.length
  exact : loop.phase = .ended → loop.accepted = text.bytes
  defined : loop.phase ≠ .crashed

/-- The first call that is not interrupted accepts all that it requests, or fails. -/
def Whole (write : Schedule) (text : Text) (call : Nat) : Prop :=
  ∀ n, write.First text.bytes.length n call → n = text.bytes.length

variable {write : Schedule} {text : Text} {loop : Loop}

theorem strlen_buf (text : Text) : strlen text.buf = .ok text.bytes.length := by
  have begins : text.buf.Begins (text.bytes ++ [0]) := List.prefix_refl _
  rw [strlen, begins.cString_free text.free]
  rfl

theorem Text.loadFrom_buf (text : Text) {n : Nat} (most : n ≤ text.bytes.length) :
    text.buf.loadFrom 0 n = .ok (text.bytes.take n) := by
  have begins : text.buf.Begins (text.bytes ++ [0]) := List.prefix_refl _
  have loaded : text.buf.loadFrom (0 : Nat) n = .ok ((text.bytes.drop 0).take n) := begins.left.loadFrom (by omega)
  exact loaded

theorem writeStep_call (running : loop.phase = .running) (unsent : loop.n % 2 ^ 64 < text.bytes.length) :
    writeStep write text.buf loop =
      (loop.request text.bytes.length).resume text.buf (write loop.call text.bytes.length) := by
  simp only [writeStep, running, strlen_buf, unsent, if_true]

theorem writeStep_ended (running : loop.phase = .running) (all : loop.n = text.bytes.length) :
    writeStep write text.buf loop = { loop with phase := .ended } := by
  have size := text.size
  have finished : ¬ loop.n % 2 ^ 64 < text.bytes.length := by omega
  simp only [writeStep, running, strlen_buf, finished, if_false]

theorem resume_requests (buf : Block UInt8) (loop : Loop) (result : IoResult) :
    (loop.resume buf result).requests = loop.requests := by
  unfold Loop.resume
  repeat' split
  all_goals rfl

theorem resume_done (loop : Loop) {n : Nat} (fresh : loop.n = 0) (most : n ≤ text.bytes.length) :
    loop.resume text.buf (.done n) = { loop with n := n, accepted := loop.accepted ++ text.bytes.take n } := by
  have size := text.size
  have counted : wrapSsize (0 + (n : Int)) = n := by
    unfold wrapSsize
    omega
  simp only [Loop.resume, fresh, text.loadFrom_buf most, counted]

/-! ## A first call that accepts all, or fails -/

/-- Every call so far has requested the text, and `n` has counted none of it or all. -/
structure Stage (write : Schedule) (text : Text) (loop : Loop) : Prop where
  requests : ∀ request, request ∈ loop.requests → request = (0, text.bytes.length)
  running : loop.phase = .running →
    loop.n = 0 ∧ loop.accepted = [] ∧ Whole write text loop.call ∨
      loop.n = text.bytes.length ∧ loop.accepted = text.bytes
  ended : loop.phase = .ended → loop.accepted = text.bytes
  defined : loop.phase ≠ .crashed

theorem Stage.writes (stage : Stage write text loop) : Writes text loop where
  within := by
    intro request member
    rw [stage.requests request member]
    simp
  exact := stage.ended
  defined := stage.defined

theorem Stage.request (stage : Stage write text loop) (fresh : loop.n = 0) {request : Int × Nat}
    (member : request ∈ (loop.request text.bytes.length).requests) : request = (0, text.bytes.length) := by
  rw [Loop.request, List.mem_append, List.mem_singleton, fresh] at member
  exact member.elim (stage.requests request) id

theorem Stage.call (stage : Stage write text loop) (running : loop.phase = .running)
    (fresh : loop.n = 0) (unsent : loop.accepted = []) (whole : Whole write text loop.call)
    (some : 0 < text.bytes.length) : Stage write text (writeStep write text.buf loop) := by
  rw [writeStep_call running (by rw [fresh]; omega)]
  cases result : write loop.call text.bytes.length with
  | interrupted =>
      exact {
        requests := fun request member => stage.request fresh member
        running := fun _ => .inl ⟨fresh, unsent, fun n first => whole n (.interrupted result first)⟩
        ended := fun ended => absurd (running.symm.trans ended) (by decide)
        defined := stage.defined }
  | failed =>
      exact {
        requests := fun request member => stage.request fresh member
        running := fun running => Phase.noConfusion running
        ended := fun ended => Phase.noConfusion ended
        defined := fun crashed => Phase.noConfusion crashed }
  | done n =>
      have all := whole n (.accepted result)
      rw [resume_done (loop.request _) fresh (Nat.le_of_eq all)]
      exact {
        requests := fun request member => stage.request fresh member
        running := fun _ => .inr ⟨congrArg Int.ofNat all, by rw [all, List.take_length]; exact congrArg (· ++ text.bytes) unsent⟩
        ended := fun ended => absurd (running.symm.trans ended) (by decide)
        defined := stage.defined }

theorem Stage.step (stage : Stage write text loop) :
    Stage write text (writeStep write text.buf loop) := by
  cases phase : loop.phase with
  | running =>
      have finish (all : loop.n = text.bytes.length) (accepted : loop.accepted = text.bytes) :
          Stage write text (writeStep write text.buf loop) := by
        rw [writeStep_ended phase all]
        exact {
          requests := stage.requests
          running := fun running => Phase.noConfusion running
          ended := fun _ => accepted
          defined := fun crashed => Phase.noConfusion crashed }
      rcases stage.running phase with ⟨fresh, unsent, whole⟩ | ⟨all, accepted⟩
      · by_cases some : 0 < text.bytes.length
        · exact stage.call phase fresh unsent whole some
        · have empty : text.bytes = [] := List.length_eq_zero_iff.mp (by omega)
          exact finish (by rw [fresh, empty]; rfl) (by rw [unsent, empty])
      · exact finish all accepted
  | ended =>
      have same : writeStep write text.buf loop = loop := by rw [writeStep, phase]
      rwa [same]
  | failed =>
      have same : writeStep write text.buf loop = loop := by rw [writeStep, phase]
      rwa [same]
  | crashed => exact absurd phase stage.defined

theorem stage_writeLoop (whole : text.bytes = [] ∨ Whole write text 0) (count : Nat) :
    Stage write text (writeLoop write text.buf count) := by
  induction count with
  | zero =>
      exact {
        requests := fun request member => absurd member List.not_mem_nil
        running := fun _ => by
          rcases whole with empty | whole
          · exact .inr ⟨by rw [empty]; rfl, empty.symm⟩
          · exact .inl ⟨rfl, rfl, whole⟩
        ended := fun ended => Phase.noConfusion ended
        defined := fun crashed => Phase.noConfusion crashed }
  | succ count ih => exact ih.step

/-! ## A first call that accepts a part -/

theorem writeLoop_partial {call n : Nat} (first : write.First text.bytes.length n call) (most : n < text.bytes.length)
    (count : Nat) (running : (writeLoop write text.buf count).phase = .running)
    (fresh : (writeLoop write text.buf count).n = 0) (next : (writeLoop write text.buf count).call = call) :
    ∃ count, (writeLoop write text.buf count).phase = .running ∧ (writeLoop write text.buf count).n = n := by
  induction first generalizing count with
  | accepted accepted =>
      refine ⟨count + 1, ?_⟩
      rw [writeLoop, writeStep_call running (by rw [fresh]; omega), next, accepted,
        resume_done ((writeLoop write text.buf count).request _) fresh (Nat.le_of_lt most)]
      exact ⟨running, rfl⟩
  | interrupted interrupted later ih =>
      have step : writeLoop write text.buf (count + 1) = (writeLoop write text.buf count).request text.bytes.length := by
        rw [writeLoop, writeStep_call running (by rw [fresh]; omega), next, interrupted]
        rfl
      refine ih (count + 1) ?_ ?_ ?_
      · rw [step]
        exact running
      · rw [step]
        exact fresh
      · rw [step]
        exact congrArg (· + 1) next

/-- The call after a part of the text has been accepted. -/
theorem exists_request {n : Nat} (first : write.First text.bytes.length n 0) (most : n < text.bytes.length) :
    ∃ count, ((n : Int), text.bytes.length) ∈ (writeLoop write text.buf count).requests := by
  obtain ⟨count, running, counted⟩ := writeLoop_partial first most 0 rfl rfl rfl
  have size := text.size
  refine ⟨count + 1, ?_⟩
  rw [writeLoop, writeStep_call running (by rw [counted]; omega), resume_requests, Loop.request, counted]
  exact List.mem_concat_self

theorem first_bounded (bounded : write.Bounded) {len n call : Nat} (some : 0 < len) (first : write.First len n call) :
    0 < n ∧ n ≤ len := by
  induction first with
  | accepted accepted => exact bounded _ _ _ some accepted
  | interrupted _ _ ih => exact ih

/-- The loop writes exactly the text if and only if the first call that is not
interrupted, if there is one, does not accept a part of the text. -/
theorem text_written_iff (write : Schedule) (bounded : write.Bounded) (text : Text) :
    (∀ count, Writes text (writeLoop write text.buf count)) ↔ text.bytes = [] ∨ Whole write text 0 := by
  constructor
  · intro writes
    refine or_iff_not_imp_left.mpr fun nonempty n first => ?_
    obtain ⟨more, most⟩ := first_bounded bounded (List.length_pos_iff.mpr nonempty) first
    by_contra partly
    obtain ⟨count, member⟩ := exists_request first (Nat.lt_of_le_of_ne most partly)
    have inside := ((writes count).within _ member).2
    simp only at inside
    omega
  · intro whole count
    exact (stage_writeLoop whole count).writes

/-- The first call is interrupted, and the others accept all that they request. -/
def interruptedOnce : Schedule := fun call len => if call = 0 then .interrupted else .done len

theorem text_written_interruptedOnce : Writes literal (writeLoop interruptedOnce literal.buf 3) := by
  refine (text_written_iff interruptedOnce ?_ literal).mpr (.inr fun n first => ?_) 3
  · intro call len n some result
    rw [interruptedOnce] at result
    split at result
    · contradiction
    · cases result
      exact ⟨some, Nat.le_refl _⟩
  · cases first with
    | accepted accepted => contradiction
    | interrupted _ later =>
        cases later with
        | accepted accepted => exact (IoResult.done.inj accepted).symm
        | interrupted interrupted _ => contradiction

/-- After a first call that accepts one byte the second is asked for the byte behind the text. -/
theorem one_byte_reads_beyond : ¬ ∀ (write : Schedule) (text : Text), write.Accepts →
    ∀ count, Writes text (writeLoop write text.buf count) := by
  intro writes
  let oneByte : Schedule := fun _ _ => .done 1
  have inside := (writes oneByte literal (fun _ _ some => .inr ⟨1, Nat.one_pos, some, rfl⟩) 2).within
    (1, literal.bytes.length) (by decide)
  exact absurd inside.2 (by decide)

end SysProg.Process.UnixDaemon
