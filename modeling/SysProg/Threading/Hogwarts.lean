import SysProg.Library.Machine
import Mathlib.Data.Fintype.Basic

namespace SysProg.Threading.Hogwarts

/-! # `05-threading/class/hogwarts/hogwarts.c`

Every read or write of `list_head` and `active_tasks` is a step of its own, and
so is every call on a semaphore or the mutex. `total_tasks` and
`task_id_counter` belong to Dobby alone. The threads are created without failure.

The source does not compile as it stands. Here the line `b = 1;` of
`run_house_elf` is left out, the `todo - > id` of `do_work` is `todo->id`, and
`todo` is declared in front of `pthread_cleanup_push`: the block that this opens
ends at `pthread_cleanup_pop`, before `do_work(todo)`.
-/

open Function

/-- One of the `NUM_ELVES` workers. -/
abbrev Elf := Fin 5

inductive DobbyPhase where
  | creating (i : Nat)
  | waiting
  | checking
  | posting (n : Int) (i : Nat)
  | linking (n : Int) (i : Nat) (next : List Nat)
  | activating (n : Int)
  | signalling (n : Int) (i : Nat)
  | cancelling (i : Nat)
  | joining (i : Elf)
  | finished
deriving DecidableEq

/-- A task is its id. An elf from `working` on is in `do_work`; `cleaning` is
in `house_elf_cleanup`, and `failing` before the `exit(-1)` of `take_task`. -/
inductive ElfPhase where
  | unborn
  | waiting
  | locking
  | taking
  | failing
  | reading
  | following (todo : Nat)
  | advancing (todo : Nat) (next : List Nat)
  | loading (todo : Nat)
  | storing (todo : Nat) (value : Int)
  | testing (todo : Nat)
  | announcing (todo : Nat)
  | waking (todo : Nat)
  | unlocking (todo : Nat)
  | working (todo : Nat)
  | reporting (todo : Nat)
  | freeing (todo : Nat)
  | cleaning
  | dead
deriving DecidableEq

inductive Process where
  | running
  | exited
  | crashed
deriving DecidableEq

/-- `taken` and `completed` list the tasks that `take_task` has returned and
that `do_work` has run to its end. -/
structure State where
  process : Process
  dobby : DobbyPhase
  elves : Elf → ElfPhase
  cancelled : Elf → Bool
  listHead : List Nat
  taskIdCounter : Nat
  totalTasks : Int
  activeTasks : Int
  mutex : Option Elf
  emptyList : Nat
  fullList : Nat
  taken : List Nat
  completed : List Nat

inductive Action where
  | dobby
  | elf (i : Elf)
  | cancel (i : Elf)
deriving DecidableEq

/-- `run_dobby` -/
def dobbyStep (state : State) : Option State :=
  match state.dobby with
  | .creating i =>
      if bound : i < 5 then
        some { state with dobby := .creating (i + 1), elves := update state.elves ⟨i, bound⟩ .waiting }
      else some { state with dobby := .waiting }
  | .waiting =>
      if 0 < state.emptyList then
        some { state with dobby := .checking, emptyList := state.emptyList - 1 }
      else none
  | .checking =>
      if state.totalTasks = 0 then some { state with dobby := .cancelling 0 }
      else
        let n := if state.totalTasks ≥ 10 then 10 else state.totalTasks
        some { state with dobby := .posting n 0, totalTasks := state.totalTasks - n }
  | .posting n i =>
      if i < n then some { state with dobby := .linking n i state.listHead }
      else some { state with dobby := .activating n }
  | .linking n i next =>
      some { state with
        dobby := .posting n (i + 1)
        taskIdCounter := state.taskIdCounter + 1
        listHead := (state.taskIdCounter + 1) :: next }
  | .activating n => some { state with dobby := .signalling n 0, activeTasks := n }
  | .signalling n i =>
      if i < n then some { state with dobby := .signalling n (i + 1), fullList := state.fullList + 1 }
      else some { state with dobby := .waiting }
  | .cancelling i =>
      if bound : i < 5 then
        some { state with dobby := .joining ⟨i, bound⟩, cancelled := update state.cancelled ⟨i, bound⟩ true }
      else some { state with dobby := .finished }
  | .joining i => if state.elves i = .dead then some { state with dobby := .cancelling (i + 1) } else none
  | .finished => none

/-- `run_house_elf`, with `take_task` and `do_work` -/
def elfStep (state : State) (i : Elf) : Option State :=
  match state.elves i with
  | .unborn => none
  | .waiting =>
      if 0 < state.fullList then
        some { state with elves := update state.elves i .locking, fullList := state.fullList - 1 }
      else none
  | .locking =>
      if state.mutex = none then
        some { state with elves := update state.elves i .taking, mutex := some i }
      else none
  | .taking =>
      if state.listHead = [] then some { state with elves := update state.elves i .failing }
      else some { state with elves := update state.elves i .reading }
  | .failing => some { state with process := .exited }
  | .reading =>
      match state.listHead with
      | [] => some { state with process := .crashed }
      | todo :: _ => some { state with elves := update state.elves i (.following todo) }
  | .following todo =>
      match state.listHead with
      | [] => some { state with process := .crashed }
      | _ :: next => some { state with elves := update state.elves i (.advancing todo next) }
  | .advancing todo next =>
      some { state with
        elves := update state.elves i (.loading todo)
        listHead := next
        taken := state.taken ++ [todo] }
  | .loading todo => some { state with elves := update state.elves i (.storing todo state.activeTasks) }
  | .storing todo value =>
      some { state with elves := update state.elves i (.testing todo), activeTasks := value - 1 }
  | .testing todo =>
      if state.activeTasks = 0 then some { state with elves := update state.elves i (.announcing todo) }
      else some { state with elves := update state.elves i (.unlocking todo) }
  | .announcing todo => some { state with elves := update state.elves i (.waking todo) }
  | .waking todo =>
      some { state with elves := update state.elves i (.unlocking todo), emptyList := state.emptyList + 1 }
  | .unlocking todo => some { state with elves := update state.elves i (.working todo), mutex := none }
  | .working todo => some { state with elves := update state.elves i (.reporting todo) }
  | .reporting todo => some { state with elves := update state.elves i (.freeing todo) }
  | .freeing todo =>
      some { state with elves := update state.elves i .waiting, completed := state.completed ++ [todo] }
  | .cleaning => some { state with elves := update state.elves i .dead, mutex := none }
  | .dead => none

/-- Where an elf goes that is cancelled at a call, if the call is a
cancellation point: `sem_wait` is one, and `printf` may be one. -/
def ElfPhase.cancelled (printfCancels : Bool) : ElfPhase → Option ElfPhase
  | .waiting => some .dead
  | .reporting _ => if printfCancels then some .dead else none
  | .failing | .announcing _ => if printfCancels then some .cleaning else none
  | _ => none

def cancelStep (printfCancels : Bool) (state : State) (i : Elf) : Option State :=
  if state.cancelled i = true then
    match (state.elves i).cancelled printfCancels with
    | some phase => some { state with elves := update state.elves i phase }
    | none => none
  else none

def next (printfCancels : Bool) (state : State) (action : Action) : Option State :=
  match state.process with
  | .running =>
      match action with
      | .dobby => dobbyStep state
      | .elf i => elfStep state i
      | .cancel i => cancelStep printfCancels state i
  | _ => none

/-- What `main` starts Dobby with. -/
def start (totalTasks : Int) : State where
  process := .running
  dobby := .creating 0
  elves := fun _ => .unborn
  cancelled := fun _ => false
  listHead := []
  taskIdCounter := 0
  totalTasks := totalTasks
  activeTasks := 0
  mutex := none
  emptyList := 1
  fullList := 0
  taken := []
  completed := []

def machine (printfCancels : Bool) (totalTasks : Int) : Machine State Action where
  init := start totalTasks
  next := next printfCancels

end SysProg.Threading.Hogwarts
