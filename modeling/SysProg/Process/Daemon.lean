import SysProg.Library.Descriptors
import Mathlib.Tactic.IntervalCases

namespace SysProg.Process.Daemon

/-! # `04-process-management/daemon.c`

`dup` fails where its descriptor is not open; the outcomes of the other calls are given.
What `printf` is given is written at once where stdout is a terminal, else when the
process ends, to what descriptor 1 refers to then.
-/

/-- What a descriptor refers to: `/dev/null`, or a file that the process was started with. -/
inductive File where
  | devNull
  | inherited (id : Nat)
deriving DecidableEq

inductive Message where
  | exiting
  | started
  | helloWorld
  | perror (name : String)
deriving DecidableEq

/-- `written` has where each message has gone. -/
structure State where
  table : Descriptors File
  buffered : List Message
  written : List (Option File × Message)

def State.put (state : State) (fd : Nat) (messages : List Message) : State :=
  { state with written := state.written ++ messages.map fun message => (state.table.get fd, message) }

def State.printf (terminal : Bool) (state : State) (message : Message) : State :=
  if terminal then state.put 1 [message] else { state with buffered := state.buffered ++ [message] }

def State.perror (state : State) (name : String) : State := state.put 2 [.perror name]

/-- The end of the process. -/
def State.exit (state : State) : State := { state.put 1 state.buffered with buffered := [] }

inductive Fork where
  | failed
  | child
  | parent
deriving DecidableEq

structure Host where
  terminal : Bool
  fork : Fork
  setsid : Bool
  chdir : Bool
  opens : Bool

/-- The loop that closes, from `i` on. -/
def closeLoop : Nat → Nat → Descriptors File → Descriptors File
  | 0, _, table => table
  | count + 1, i, table => closeLoop count (i + 1) ((table.close i).getD table)

def dup (table : Descriptors File) : Descriptors File := ((table.dup 0).map Prod.snd).getD table

/-- What the child does to its descriptors. -/
def redirect (opens : Bool) (table : Descriptors File) : Descriptors File :=
  let table := closeLoop 3 0 table
  let table := if opens then (table.openFile .devNull).2 else table
  dup (dup table)

def daemonWork (terminal : Bool) (state : State) : State := state.printf terminal .helloWorld

def main (host : Host) (table : Descriptors File) : Int × State :=
  let state : State := { table, buffered := [], written := [] }
  match host.fork with
  | .failed => (-1, (state.perror "fork").exit)
  | .parent => (0, (state.printf host.terminal .exiting).exit)
  | .child =>
      let state := state.printf host.terminal .started
      if host.setsid then
        if host.chdir then
          (0, (daemonWork host.terminal { state with table := redirect host.opens state.table }).exit)
        else (1, (state.perror "chdir").exit)
      else (1, (state.perror "setsid").exit)

/-! ## The redirected descriptors -/

variable {table : Descriptors File}

theorem get_closeLoop (count i : Nat) (table : Descriptors File) (fd : Nat) :
    (closeLoop count i table).get fd = if i ≤ fd ∧ fd < i + count then none else table.get fd := by
  induction count generalizing i table with
  | zero =>
      rw [closeLoop, if_neg]
      omega
  | succ count ih =>
      rw [closeLoop, ih, Descriptors.get_close_getD]
      by_cases mine : fd = i
      · rw [if_pos mine, ite_self, if_pos]
        omega
      · rw [if_neg mine]
        congr 1
        apply propext
        omega

/-- The next duplicate goes to the lowest descriptor that is still free. -/
theorem get_dup (table : Descriptors File) (bound : Nat) {file : File} (least : 0 < bound) (taken : ∀ fd, fd < bound → table.get fd = some file)
    (free : table.get bound = none) (fd : Nat) :
    (dup table).get fd = if fd = bound then some file else table.get fd := by
  have lowest : table.lowestFree = bound :=
    Descriptors.lowestFree_eq free fun other below => by rw [taken other below]; exact Option.some_ne_none _
  rw [dup, Descriptors.dup, taken 0 least, Option.map_some, Option.map_some, Option.getD_some, Descriptors.openFile, lowest]
  exact Descriptors.get_put _ _ _ _

theorem dup_closed (free : table.get 0 = none) : dup table = table := by
  rw [dup, Descriptors.dup, free]
  rfl

/-- Whichever descriptors are open at the start, the three standard ones refer to `/dev/null` in the end, or
to nothing where it cannot be opened, and no other one is changed. -/
theorem get_redirect (opens : Bool) (table : Descriptors File) (fd : Nat) :
    (redirect opens table).get fd = if fd < 3 then (if opens then some .devNull else none) else table.get fd := by
  have closed : ∀ fd, (closeLoop 3 0 table).get fd = if fd < 3 then none else table.get fd := by
    intro fd
    rw [get_closeLoop]
    congr 1
    apply propext
    omega
  cases opens with
  | false =>
      have free : (closeLoop 3 0 table).get 0 = none := by rw [closed, if_pos (by decide)]
      simp only [redirect, Bool.false_eq_true, if_false, dup_closed free]
      exact closed fd
  | true =>
      have lowest : (closeLoop 3 0 table).lowestFree = 0 :=
        Descriptors.lowestFree_eq (by rw [closed, if_pos (by decide)]) fun other below => absurd below (Nat.not_lt_zero other)
      have opened : ∀ fd, ((closeLoop 3 0 table).openFile .devNull).2.get fd =
          if fd = 0 then some .devNull else if fd < 3 then none else table.get fd := by
        intro fd
        rw [Descriptors.openFile, lowest, Descriptors.get_put, closed]
      have first := get_dup ((closeLoop 3 0 table).openFile .devNull).2 1 Nat.one_pos
        (fun fd below => by rw [opened, if_pos (by omega)]) (by rw [opened]; rfl)
      have second := get_dup (dup ((closeLoop 3 0 table).openFile .devNull).2) 2 Nat.two_pos
        (fun fd below => by
          rw [first, opened]
          interval_cases fd <;> rfl) (by rw [first, opened]; rfl)
      simp only [redirect, if_true, second, first, opened]
      by_cases standard : fd < 3
      · rw [if_pos standard]
        interval_cases fd <;> rfl
      · rw [if_neg standard, if_neg (by omega), if_neg (by omega), if_neg (by omega), if_neg standard]

/-- The daemon's own output goes nowhere, whichever descriptors it was started with; and so does
the child's first message, unless stdout is a terminal. -/
theorem daemon_detaches (host : Host) (table : Descriptors File) (child : host.fork = .child) (setsid : host.setsid = true)
    (chdir : host.chdir = true) :
    let nowhere : Option File := if host.opens then some .devNull else none
    (main host table).1 = 0 ∧
      (∀ fd, (main host table).2.table.get fd = if fd < 3 then nowhere else table.get fd) ∧
      (main host table).2.written =
        [(if host.terminal then table.get 1 else nowhere, .started), (nowhere, .helloWorld)] := by
  intro nowhere
  have out : (redirect host.opens table).get 1 = nowhere := get_redirect host.opens table 1
  simp only [main, child, setsid, chdir, if_true]
  cases terminal : host.terminal with
  | true =>
      refine ⟨trivial, get_redirect host.opens table, ?_⟩
      simp [daemonWork, State.printf, State.put, State.exit, out]
  | false =>
      refine ⟨trivial, get_redirect host.opens table, ?_⟩
      simp [daemonWork, State.printf, State.put, State.exit, out]

/-- Without stdin, and with stdout in a file. -/
theorem daemon_detaches_no_stdin :
    let host : Host := { terminal := false, fork := .child, setsid := true, chdir := true, opens := true }
    (main host ⟨[none, some (.inherited 1), some (.inherited 2), some (.inherited 3)]⟩).2.written =
      [(some .devNull, .started), (some .devNull, .helloWorld)] := by
  intro host
  exact (daemon_detaches host ⟨[none, some (.inherited 1), some (.inherited 2), some (.inherited 3)]⟩ rfl rfl rfl).2.2

end SysProg.Process.Daemon
