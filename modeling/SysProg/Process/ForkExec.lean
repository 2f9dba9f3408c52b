import SysProg.Library.Descriptors

namespace SysProg.Process.ForkExec

/-! # `04-process-management/fork_exec.c`

`dup` fails where its descriptor is not open; the outcomes of the other calls are given. A
message goes to what its stream's descriptor refers to when it is printed.
-/

/-- What a descriptor refers to: `out.txt`, or a file that the process was started with. -/
inductive File where
  | outTxt
  | inherited (id : Nat)
deriving DecidableEq

/-- `redirect_outerr`, where `opens` is whether `open` succeeds. -/
def redirectOuterr (opens : Bool) (table : Descriptors File) : Int × Descriptors File :=
  let table := (table.close 1).getD table
  let table := (table.close 2).getD table
  if opens then
    let (_, table) := table.openFile .outTxt
    match table.dup 1 with
    | some (_, table) => (0, table)
    | none => (0, table)
  else (-1, table)

/-- What `perror` is given, or what `printf` prints of a status. -/
inductive Message where
  | perror (name : String)
  | finished (status : Nat)
  | killed (signal : Nat)
  | stopped (signal : Nat)
  | continued
deriving DecidableEq

inductive WaitStatus where
  | exited (status : Nat)
  | signaled (signal : Nat)
  | stopped (signal : Nat)
  | continued
deriving DecidableEq

structure State where
  table : Descriptors File
  written : List (Option File × Message)

def State.printf (state : State) (message : Message) : State :=
  { state with written := state.written ++ [(state.table.get 1, message)] }

def State.perror (state : State) (name : String) : State :=
  { state with written := state.written ++ [(state.table.get 2, .perror name)] }

/-- `wait_print`, where `waitpid` has a status or fails. -/
def waitPrint (waitpid : Option WaitStatus) (state : State) : State :=
  match waitpid with
  | none => state.perror "waitpid"
  | some (.exited status) => state.printf (.finished status)
  | some (.signaled signal) => state.printf (.killed signal)
  | some (.stopped signal) => state.printf (.stopped signal)
  | some .continued => state.printf .continued

/-- Where `fork` returns: nowhere else, in the child, or in the parent. -/
inductive Fork where
  | failed
  | child
  | parent
deriving DecidableEq

structure Host where
  opens : Bool
  fork : Fork
  execs : Bool
  waitpid : Option WaitStatus

/-- How `main` ends: with an exit status, or in another program. -/
inductive Ending where
  | exited (status : Nat)
  | execv (path : String) (args : List String)
deriving DecidableEq

def main (host : Host) (table : Descriptors File) : Ending × State :=
  let (code, table) := redirectOuterr host.opens table
  let state : State := { table, written := [] }
  if code = -1 then (.exited 1, state.perror "redirect_outerr")
  else
    match host.fork with
    | .failed => (.exited 0, waitPrint host.waitpid (state.perror "fork"))
    | .child =>
        if host.execs then (.execv "/bin/ls" ["ls"], state) else (.exited 1, state.perror "execv")
    | .parent => (.exited 0, waitPrint host.waitpid state)

/-! ## The redirected descriptors -/

/-- Both descriptors refer to `out.txt`, and all others to what they did. -/
structure Redirected (table after : Descriptors File) : Prop where
  out : after.get 1 = some .outTxt
  err : after.get 2 = some .outTxt
  others : ∀ fd, fd ≠ 1 → fd ≠ 2 → after.get fd = table.get fd

variable {table : Descriptors File}

/-- The table in which `open` looks for a free descriptor. -/
def closeOuterr (table : Descriptors File) : Descriptors File :=
  (((table.close 1).getD table).close 2).getD ((table.close 1).getD table)

theorem get_closeOuterr (table : Descriptors File) (fd : Nat) :
    (closeOuterr table).get fd = if fd = 1 ∨ fd = 2 then none else table.get fd := by
  rw [closeOuterr, Descriptors.get_close_getD, Descriptors.get_close_getD]
  by_cases err : fd = 2
  · rw [if_pos err, if_pos (.inr err)]
  · rw [if_neg err]
    simp only [err, or_false]

theorem redirectOuterr_failed (table : Descriptors File) : redirectOuterr false table = (-1, closeOuterr table) := rfl

/-- With descriptor 0 open, the lowest free ones are those that have been closed. -/
theorem redirectOuterr_open (input : table.get 0 ≠ none) :
    redirectOuterr true table =
      (0, ((closeOuterr table).put 1 (some .outTxt)).put 2 (some .outTxt)) := by
  have first : (closeOuterr table).lowestFree = 1 := by
    apply Descriptors.lowestFree_eq (get_closeOuterr table 1)
    intro other below
    obtain rfl : other = 0 := Nat.lt_one_iff.mp below
    rwa [get_closeOuterr]
  have second : ((closeOuterr table).put 1 (some .outTxt)).lowestFree = 2 := by
    apply Descriptors.lowestFree_eq
    · rw [Descriptors.get_put, if_neg (by decide), get_closeOuterr, if_pos (.inr rfl)]
    · intro other below
      rw [Descriptors.get_put]
      split
      · exact Option.some_ne_none _
      · obtain rfl : other = 0 := by omega
        rwa [get_closeOuterr]
  have duplicated : ((closeOuterr table).put 1 (some File.outTxt)).dup 1 =
      some (2, ((closeOuterr table).put 1 (some .outTxt)).put 2 (some .outTxt)) := by
    rw [Descriptors.dup, Descriptors.get_put_same, Option.map_some, Descriptors.openFile, second]
  unfold closeOuterr at *
  simp only [redirectOuterr, if_true, Descriptors.openFile, first, duplicated]

/-- Without descriptor 0, `out.txt` gets that one, and there is nothing to duplicate. -/
theorem redirectOuterr_closed (input : table.get 0 = none) :
    redirectOuterr true table = (0, (closeOuterr table).put 0 (some .outTxt)) := by
  have first : (closeOuterr table).lowestFree = 0 := by
    apply Descriptors.lowestFree_eq
    · rwa [get_closeOuterr]
    · exact fun other below => absurd below (Nat.not_lt_zero other)
  have free : ((closeOuterr table).put 0 (some File.outTxt)).dup 1 = none := by
    rw [Descriptors.dup, Descriptors.get_put, if_neg (by decide), get_closeOuterr, if_pos (.inl rfl)]
    rfl
  unfold closeOuterr at *
  simp only [redirectOuterr, if_true, Descriptors.openFile, first, free]

theorem redirected_of_open (input : table.get 0 ≠ none) : Redirected table (redirectOuterr true table).2 := by
  rw [redirectOuterr_open input]
  refine ⟨?_, Descriptors.get_put_same _ _ _, fun fd out err => ?_⟩
  · rw [Descriptors.get_put_other _ _ (by decide), Descriptors.get_put_same]
  · rw [Descriptors.get_put_other _ _ err, Descriptors.get_put_other _ _ out, get_closeOuterr,
      if_neg (not_or.mpr ⟨out, err⟩)]

/-- `redirect_outerr` returns `0` with the two descriptors redirected, and no other one
changed, if and only if it fails to open the file or is called with descriptor 0 open. -/
theorem redirect_outerr_redirects_iff (opens : Bool) (table : Descriptors File) :
    ((redirectOuterr opens table).1 = 0 → Redirected table (redirectOuterr opens table).2) ↔
      opens = false ∨ table.get 0 ≠ none := by
  cases opens with
  | false =>
      rw [redirectOuterr_failed]
      exact iff_of_true (fun zero => absurd (show (-1 : Int) = 0 from zero) (by decide)) (.inl rfl)
  | true =>
      constructor
      · intro redirects
        refine .inr fun input => ?_
        have redirected := redirects (by rw [redirectOuterr_closed input])
        have out := redirected.out
        rw [redirectOuterr_closed input, Descriptors.get_put_other _ _ (by decide), get_closeOuterr,
          if_pos (.inl rfl)] at out
        contradiction
      · rintro (failed | input) _
        · contradiction
        · exact redirected_of_open input

/-- With standard input closed, descriptors 1 and 2 are closed and `out.txt` is descriptor 0. -/
theorem closed_input_unredirected : ¬ ∀ table : Descriptors File,
    (redirectOuterr true table).1 = 0 → Redirected table (redirectOuterr true table).2 := by
  intro redirects
  have out := (redirects ⟨[none, some (.inherited 1), some (.inherited 2)]⟩ rfl).out
  contradiction

/-! ## The messages of `main` -/

/-- Both streams go to the file, and so has everything that was written. -/
structure State.Writes (file : Option File) (state : State) : Prop where
  out : state.table.get 1 = file
  err : state.table.get 2 = file
  written : ∀ entry, entry ∈ state.written → entry.1 = file

variable {file : Option File} {state : State}

theorem State.Writes.append (writes : state.Writes file) (message : Message) :
    ∀ entry, entry ∈ state.written ++ [(file, message)] → entry.1 = file := by
  intro entry member
  rcases List.mem_append.mp member with earlier | last
  · exact writes.written entry earlier
  · rw [List.mem_singleton.mp last]

theorem State.Writes.printf (writes : state.Writes file) (message : Message) : (state.printf message).Writes file where
  out := writes.out
  err := writes.err
  written := by
    rw [State.printf, writes.out]
    exact writes.append message

theorem State.Writes.perror (writes : state.Writes file) (name : String) : (state.perror name).Writes file where
  out := writes.out
  err := writes.err
  written := by
    rw [State.perror, writes.err]
    exact writes.append (.perror name)

theorem State.Writes.waitPrint (writes : state.Writes file) (waitpid : Option WaitStatus) :
    (waitPrint waitpid state).Writes file := by
  unfold ForkExec.waitPrint
  split
  · exact writes.perror _
  all_goals exact writes.printf _

/-- With descriptor 0 open, all that the process and its child write, also after `execv`,
goes to `out.txt`; where that cannot be opened, the message about it goes nowhere. -/
theorem main_writes (host : Host) (table : Descriptors File) (input : table.get 0 ≠ none) :
    (main host table).2.Writes (if host.opens then some .outTxt else none) := by
  cases opened : host.opens with
  | false =>
      have begun : State.Writes none { table := closeOuterr table, written := [] } :=
        ⟨get_closeOuterr table 1, get_closeOuterr table 2, fun _ member => absurd member List.not_mem_nil⟩
      simp only [main, opened, redirectOuterr_failed, if_true]
      exact begun.perror _
  | true =>
      have redirected := redirected_of_open input
      rw [redirectOuterr_open input] at redirected
      have begun : State.Writes (some .outTxt)
          { table := ((closeOuterr table).put 1 (some .outTxt)).put 2 (some .outTxt), written := [] } :=
        ⟨redirected.out, redirected.err, fun _ member => absurd member List.not_mem_nil⟩
      have proceeds : ¬ (0 : Int) = -1 := by decide
      simp only [main, opened, redirectOuterr_open input, proceeds, if_false, if_true]
      cases host.fork with
      | failed => exact (begun.perror _).waitPrint _
      | child =>
          cases host.execs with
          | false => exact begun.perror _
          | true => exact begun
      | parent => exact begun.waitPrint _

end SysProg.Process.ForkExec
