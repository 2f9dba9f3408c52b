import SysProg.Network.ForkServer.Greeting

namespace SysProg.Network.ForkServer

/-! ## The descriptors of the processes -/

/-- What the descriptors of a process refer to while it has its connection: those of the table
that `main` was started with, and the lowest that was free. -/
def Process.expected (base : Descriptors File) (process : Process) (fd : Nat) : Option File :=
  match process.number with
  | some number => if fd = base.lowestFree then some (.connection number) else base.get fd
  | none => base.get fd

def Process.Fits (sd : Nat) (base : Descriptors File) (process : Process) : ChildPhase → Prop
  | .closingServer => ∀ fd, process.table.get fd = process.expected base fd
  | .sending | .closingClient => ∀ fd, process.table.get fd = if fd = sd then none else process.expected base fd
  | .returning => ∀ fd, process.table.get fd = if fd = sd then none else base.get fd
  | .zombie | .reaped => ∀ fd, process.table.get fd = none

/-- The child has not come back from `send`. -/
def ChildPhase.unsent : ChildPhase → Bool
  | .closingServer | .sending => true
  | .closingClient | .returning | .zombie | .reaped => false

def Served.Unsent (served : Served) (number : Nat) : Prop :=
  ∀ connection, served.connections[number]? = some connection → connection.sent = []

/-- The numbers of the children's connections. -/
def Served.numbers (served : Served) : List (Option Nat) := served.children.map Process.number

def Served.MainFits (base : Descriptors File) (served : Served) : MainPhase → Prop
  | .accepting => ∀ fd, served.main.table.get fd = base.get fd
  | .printing | .forking => (∀ fd, served.main.table.get fd = served.main.expected base fd) ∧
      ∀ number, served.main.number = some number →
        number < served.connections.length ∧ some number ∉ served.numbers ∧ served.Unsent number
  | .closing => ∀ fd, served.main.table.get fd = served.main.expected base fd

/-- What a client prints has been sent to it, and it is disconnected only where nothing is or will be. -/
def Connection.Fits (held : Bool) (connection : Connection) : Prop :=
  match connection.client with
  | .receiving | .failed => True
  | .printed text => text ≠ [] ∧ text <+: connection.sent
  | .disconnected => connection.sent = [] ∧ held = false
  | .crashed => False

structure Greeted (sd : Nat) (base : Descriptors File) (served : Served) : Prop where
  count : served.children.length = served.control.children.length
  main : served.MainFits base served.control.main
  cd : served.main.cd = served.main.number.map fun _ => base.lowestFree
  child : ∀ (i : Nat) (phase : ChildPhase) (process : Process), served.control.children[i]? = some phase → served.children[i]? = some process →
    process.Fits sd base phase ∧ (process.cd = process.number.map fun _ => base.lowestFree) ∧
      (phase.unsent = true → ∀ number, process.number = some number → served.Unsent number)
  known : ∀ number : Nat, some number ∈ served.numbers → number < served.connections.length
  apart : ∀ i j number : Nat, served.numbers[i]? = some (some number) → served.numbers[j]? = some (some number) → i = j
  sent : ∀ connection ∈ served.connections, connection.sent <+: greeting
  client : ∀ (number : Nat) (connection : Connection), served.connections[number]? = some connection → connection.Fits (served.held number)

variable {sd : Nat} {base : Descriptors File} {served after : Served} {process : Process} {number i : Nat}

theorem greeted_start (sd : Nat) (base : Descriptors File) (errno : Int) : Greeted sd base (greeter sd base errno).init where
  count := rfl
  main _ := rfl
  cd := rfl
  child _ _ _ found := nomatch found
  known _ member := nomatch member
  apart _ _ _ found := nomatch found
  sent _ member := nomatch member
  client _ _ found := nomatch found

/-! ## Which processes hold a connection -/

theorem Process.holds_iff : process.holds number = true ↔ ∃ fd, process.table.get fd = some (.connection number) := by
  rw [Process.holds, decide_eq_true_iff, Descriptors.holds_iff]

theorem Served.held_iff : served.held number = true ↔
    served.main.holds number = true ∨ ∃ child ∈ served.children, child.holds number = true := by
  simp [Served.held]

theorem Connection.Fits.mono {connection : Connection} {held still : Bool} (fits : connection.Fits held)
    (fewer : still = true → held = true) : connection.Fits still := by
  cases client : connection.client with
  | disconnected =>
      rw [Connection.Fits, client] at fits ⊢
      refine ⟨fits.1, Bool.eq_false_iff.mpr fun holds => ?_⟩
      rw [fits.2] at fewer
      exact absurd (fewer holds) (by decide)
  | receiving | failed | printed text | crashed =>
      rw [Connection.Fits, client] at fits ⊢
      exact fits

theorem Process.get_tryClose (process : Process) (fd other : Nat) :
    (process.tryClose (some fd)).1.table.get other = if other = fd then none else process.table.get other := by
  have closed := process.table.get_close_getD fd other
  rw [← closed, Process.tryClose, Option.bind_some]
  cases process.table.close fd with
  | none => rfl
  | some table => rfl

theorem Process.tryClose_keeps (process : Process) (fd : Option Nat) :
    (process.tryClose fd).1.cd = process.cd ∧ (process.tryClose fd).1.number = process.number := by
  rw [Process.tryClose]
  split
  · exact ⟨rfl, rfl⟩
  · exact ⟨rfl, rfl⟩

theorem Process.expected_tryClose (process : Process) (fd : Option Nat) :
    (process.tryClose fd).1.expected base = process.expected base := by
  funext other
  rw [Process.expected, Process.expected, (process.tryClose_keeps fd).2]

/-- After `try_close(cd)` the descriptors are those of the start. -/
theorem Process.get_tryClose_cd (process : Process) (cd : process.cd = process.number.map fun _ => base.lowestFree)
    (others : Nat → Option File) (free : others base.lowestFree = none)
    (has : ∀ fd, process.table.get fd = match process.number with
      | some number => if fd = base.lowestFree then some (.connection number) else others fd
      | none => others fd) (fd : Nat) :
    (process.tryClose process.cd).1.table.get fd = others fd := by
  cases number : process.number with
  | none =>
      rw [number] at cd has
      rw [cd]
      exact has fd
  | some number =>
      rw [number] at cd has
      rw [cd, Option.map_some, Process.get_tryClose]
      split
      · rename_i same
        rw [same, free]
      · rename_i different
        rw [has]
        exact if_neg different

theorem Process.holds_tryClose (process : Process) (fd : Option Nat) (holds : (process.tryClose fd).1.holds number = true) :
    process.holds number = true := by
  cases fd with
  | none => exact holds
  | some fd =>
      obtain ⟨other, found⟩ := Process.holds_iff.mp holds
      rw [Process.get_tryClose] at found
      split at found
      · cases found
      · exact Process.holds_iff.mpr ⟨other, found⟩

/-! ## The calls of `main` -/

/-- The connections, each as it was, but with fewer processes that hold it. -/
theorem Greeted.clients (greeted : Greeted sd base served) (connections : after.connections = served.connections)
    (fewer : ∀ number, after.held number = true → served.held number = true) (number : Nat) (connection : Connection)
    (found : after.connections[number]? = some connection) : connection.Fits (after.held number) := by
  rw [connections] at found
  exact (greeted.client number connection found).mono (fewer number)

theorem Greeted.accept (greeted : Greeted sd base served) (accepting : served.control.main = .accepting)
    {control : State} (children : control.children = served.control.children) (printing : control.main = .printing) :
    Greeted sd base { served with
      control
      main := {
        table := (served.main.table.openFile (.connection served.connections.length)).2
        cd := some (served.main.table.openFile (.connection served.connections.length)).1
        number := some served.connections.length }
      connections := served.connections ++ [{ sent := [], client := .receiving }] } := by
  obtain ⟨count, main, cd, child, known, apart, sent, client⟩ := greeted
  rw [accepting] at main
  have lowest : served.main.table.lowestFree = base.lowestFree := Descriptors.lowestFree_congr main
  have before : ∀ number, some number ∈ served.numbers → ∀ connection,
      (served.connections ++ [{ sent := [], client := .receiving }])[number]? = some connection →
      served.connections[number]? = some connection := by
    intro number member connection found
    rwa [List.getElem?_append_left (known number member)] at found
  refine ⟨by rw [children]; exact count, ?_, by rw [Descriptors.openFile, lowest]; rfl, ?_, ?_, apart, ?_, ?_⟩
  · rw [printing]
    refine ⟨fun fd => ?_, fun number same => ?_⟩
    · rw [Process.expected, Descriptors.openFile, Descriptors.get_put, lowest]
      split
      · rfl
      · exact main fd
    · cases same
      refine ⟨by simp, fun member => absurd (known _ member) (Nat.lt_irrefl _), fun connection found => ?_⟩
      rw [List.getElem?_concat_length] at found
      cases found
      rfl
  · intro i phase process has found
    rw [children] at has
    obtain ⟨fits, same, unsent⟩ := child i phase process has found
    refine ⟨fits, same, fun yet number mine connection gotten => ?_⟩
    have member : some number ∈ served.numbers := List.mem_map.mpr ⟨process, List.mem_of_getElem? found, mine⟩
    exact unsent yet number mine connection (before number member connection gotten)
  · intro number member
    exact Nat.lt_of_lt_of_le (known number member) (by simp)
  · intro connection member
    rcases List.mem_append.mp member with old | new
    · exact sent connection old
    · cases List.mem_singleton.mp new
      exact List.nil_prefix
  · intro number connection found
    rcases Nat.lt_trichotomy number served.connections.length with old | same | beyond
    · rw [List.getElem?_append_left old] at found
      refine (client number connection found).mono fun holds => ?_
      rcases Served.held_iff.mp holds with mine | theirs
      · obtain ⟨fd, refers⟩ := Process.holds_iff.mp mine
        simp only [Descriptors.openFile, Descriptors.get_put] at refers
        split at refers
        · cases refers
          exact absurd old (Nat.lt_irrefl _)
        · exact Served.held_iff.mpr (.inl (Process.holds_iff.mpr ⟨fd, refers⟩))
      · exact Served.held_iff.mpr (.inr theirs)
    · rw [same, List.getElem?_concat_length] at found
      cases found
      trivial
    · rw [List.getElem?_eq_none (by simp; omega)] at found
      cases found

theorem Greeted.fork (greeted : Greeted sd base served) (forking : served.control.main = .forking)
    {control : State} (children : control.children = served.control.children ++ [.closingServer])
    (closing : control.main = .closing) :
    Greeted sd base { served with control, children := served.children ++ [served.main] } := by
  have whole := greeted
  obtain ⟨count, main, cd, child, known, apart, sent, client⟩ := greeted
  rw [forking] at main
  obtain ⟨table, number⟩ := main
  have numbers : Served.numbers { served with control, children := served.children ++ [served.main] } =
      served.numbers ++ [served.main.number] := List.map_append
  refine ⟨by simp [children, count], by rw [closing]; exact table, cd, ?_, ?_, ?_, sent, whole.clients rfl ?_⟩
  · intro i phase process has found
    rw [children] at has
    rcases Nat.lt_or_ge i served.children.length with old | new
    · rw [List.getElem?_append_left (count ▸ old)] at has
      rw [List.getElem?_append_left old] at found
      exact child i phase process has found
    · have last : i = served.children.length := by
        have bound := (List.getElem?_eq_some_iff.mp found).1
        simp only [List.length_append, List.length_singleton] at bound
        omega
      rw [last, List.getElem?_concat_length] at found
      rw [last, count, List.getElem?_concat_length] at has
      cases found
      cases has
      exact ⟨table, cd, fun _ number' same => (number number' same).2.2⟩
  · intro number' member
    rw [numbers] at member
    rcases List.mem_append.mp member with old | new
    · exact known number' old
    · exact (number number' (List.mem_singleton.mp new).symm).1
  · intro i j number' one other
    rw [numbers] at one other
    rcases Nat.lt_or_ge i served.numbers.length with oldOne | newOne <;>
      rcases Nat.lt_or_ge j served.numbers.length with oldOther | newOther
    · rw [List.getElem?_append_left oldOne] at one
      rw [List.getElem?_append_left oldOther] at other
      exact apart i j number' one other
    · rw [List.getElem?_append_left oldOne] at one
      rw [List.getElem?_append_right newOther] at other
      have mine := List.mem_singleton.mp (List.mem_of_getElem? other)
      exact absurd (List.mem_of_getElem? one) (number number' mine.symm).2.1
    · rw [List.getElem?_append_right newOne] at one
      rw [List.getElem?_append_left oldOther] at other
      have mine := List.mem_singleton.mp (List.mem_of_getElem? one)
      exact absurd (List.mem_of_getElem? other) (number number' mine.symm).2.1
    · have first := (List.getElem?_eq_some_iff.mp one).1
      have second := (List.getElem?_eq_some_iff.mp other).1
      simp only [List.length_append, List.length_singleton] at first second
      omega
  · intro number' holds
    rcases Served.held_iff.mp holds with mine | ⟨process, member, theirs⟩
    · exact Served.held_iff.mpr (.inl mine)
    · rcases List.mem_append.mp member with old | new
      · exact Served.held_iff.mpr (.inr ⟨process, old, theirs⟩)
      · rw [List.mem_singleton.mp new] at theirs
        exact Served.held_iff.mpr (.inl theirs)

/-- A step of `main` that leaves the children as they are. -/
theorem Greeted.setMain (greeted : Greeted sd base served) {control : State} {main : Process} {reported : List String}
    (children : control.children = served.control.children)
    (fits : Served.MainFits base { served with main } control.main)
    (cd : main.cd = main.number.map fun _ => base.lowestFree)
    (fewer : ∀ number, main.holds number = true → served.main.holds number = true) :
    Greeted sd base { served with control, main, reported } := by
  have whole := greeted
  obtain ⟨count, -, -, child, known, apart, sent, client⟩ := greeted
  refine ⟨by rw [children]; exact count, fits, cd, ?_, known, apart, sent, whole.clients rfl fun number holds => ?_⟩
  · intro i phase process has found
    rw [children] at has
    exact child i phase process has found
  · rcases Served.held_iff.mp holds with mine | theirs
    · exact Served.held_iff.mpr (.inl (fewer number mine))
    · exact Served.held_iff.mpr (.inr theirs)

theorem Greeted.mainCall (greeted : Greeted sd base served) {failure : Option Int} {control : State}
    (moved : mainStep served.control failure = some control) (called : served.mainCall failure = some after) :
    Greeted sd base { after with control } := by
  have main := greeted.main
  simp only [mainStep] at moved
  split at moved <;> try contradiction
  cases phase : served.control.main with
  | accepting =>
      rw [phase] at main
      simp only [phase] at moved
      simp only [Served.mainCall, phase] at called
      cases failure with
      | none =>
          cases moved
          cases called
          exact greeted.accept phase rfl rfl
      | some number =>
          cases moved
          cases called
          exact greeted.setMain rfl ⟨main, nofun⟩ rfl fun number holds => holds
  | printing =>
      rw [phase] at main
      simp only [phase] at moved
      simp only [Served.mainCall, phase] at called
      cases moved
      cases called
      exact greeted.setMain rfl main greeted.cd fun number holds => holds
  | forking =>
      rw [phase] at main
      simp only [phase] at moved
      simp only [Served.mainCall, phase] at called
      cases failure with
      | none =>
          cases moved
          cases called
          exact greeted.fork phase rfl rfl
      | some number =>
          cases moved
          cases called
          exact greeted.setMain rfl main.1 greeted.cd fun number holds => holds
  | closing =>
      rw [phase] at main
      simp only [phase] at moved
      simp only [Served.mainCall, phase] at called
      split at called <;> cases called
      cases moved
      obtain ⟨cd, number⟩ := served.main.tryClose_keeps served.main.cd
      refine greeted.setMain rfl ?_ (by rw [cd, number]; exact greeted.cd) fun number => Process.holds_tryClose _ _
      exact served.main.get_tryClose_cd greeted.cd base.get base.get_lowestFree main

/-! ## The calls of a child -/

theorem Served.numbers_setChild (found : served.children[i]? = some process) {next : Process}
    (number : next.number = process.number) : (served.setChild i next).numbers = served.numbers := by
  obtain ⟨bound, same⟩ := List.getElem?_eq_some_iff.mp found
  rw [Served.numbers, Served.setChild, List.map_set, number, ← same, ← List.getElem_map Process.number]
  · exact List.set_getElem_self _
  · rwa [List.length_map]

theorem Served.setChild_self (served : Served) (found : served.children[i]? = some process) :
    served.setChild i process = served := by
  obtain ⟨bound, rfl⟩ := List.getElem?_eq_some_iff.mp found
  rw [Served.setChild, List.set_getElem_self]

/-- A step of a child, with what it does to its own descriptors. -/
theorem Greeted.setChild (greeted : Greeted sd base served) {phase nextPhase : ChildPhase} {next : Process} {control : State}
    {reported : List String} (has : served.control.children[i]? = some phase) (found : served.children[i]? = some process)
    (main : control.main = served.control.main) (children : control.children = served.control.children.set i nextPhase)
    (same : next.cd = process.cd ∧ next.number = process.number) (fits : next.Fits sd base nextPhase)
    (later : nextPhase.unsent = true → phase.unsent = true)
    (fewer : ∀ number, next.holds number = true → process.holds number = true) :
    Greeted sd base { served.setChild i next with control, reported } := by
  have whole := greeted
  have numbers := Served.numbers_setChild found same.2
  obtain ⟨count, mainFits, cd, child, known, apart, sent, client⟩ := greeted
  refine ⟨?_, ?_, cd, ?_, ?_, ?_, sent, whole.clients rfl fun number holds => ?_⟩
  · rw [children]
    simp [Served.setChild, count]
  · rw [main]
    cases current : served.control.main with
    | accepting | closing =>
        rw [current] at mainFits
        exact mainFits
    | printing | forking =>
        rw [current] at mainFits
        refine ⟨mainFits.1, fun number mine => ?_⟩
        obtain ⟨less, other, unsent⟩ := mainFits.2 number mine
        exact ⟨less, fun member => other (numbers ▸ member), unsent⟩
  · intro j phase' process' hasOther foundOther
    rw [children] at hasOther
    by_cases mine : i = j
    · subst mine
      have bound := (List.getElem?_eq_some_iff.mp found).1
      simp only [Served.setChild, List.getElem?_set_self bound] at foundOther
      rw [List.getElem?_set_self (count ▸ bound)] at hasOther
      cases foundOther
      cases hasOther
      obtain ⟨-, ownCd, unsent⟩ := child i phase process has found
      refine ⟨fits, by rw [same.1, same.2]; exact ownCd, fun yet number own => ?_⟩
      exact unsent (later yet) number (same.2 ▸ own)
    · simp only [Served.setChild, List.getElem?_set_ne mine] at foundOther
      rw [List.getElem?_set_ne mine] at hasOther
      exact child j phase' process' hasOther foundOther
  · exact fun number member => known number (numbers ▸ member)
  · exact fun j k number one other => apart j k number (numbers ▸ one) (numbers ▸ other)
  · rcases Served.held_iff.mp holds with mine | ⟨other, member, theirs⟩
    · exact Served.held_iff.mpr (.inl mine)
    · rcases List.mem_or_eq_of_mem_set member with before | now
      · exact Served.held_iff.mpr (.inr ⟨other, before, theirs⟩)
      · rw [now] at theirs
        exact Served.held_iff.mpr (.inr ⟨process, List.mem_of_getElem? found, fewer number theirs⟩)

/-- A step of the signal handler, at most with a zombie that is reaped. -/
theorem Greeted.recontrol (greeted : Greeted sd base served) {control : State} (main : control.main = served.control.main)
    (length : control.children.length = served.control.children.length)
    (phases : ∀ (i : Nat) (phase : ChildPhase), control.children[i]? = some phase →
      served.control.children[i]? = some phase ∨ phase = .reaped ∧ served.control.children[i]? = some .zombie) :
    Greeted sd base { served with control } := by
  obtain ⟨count, mainFits, cd, child, known, apart, sent, client⟩ := greeted
  refine ⟨count.trans length.symm, by rw [main]; exact mainFits, cd, ?_, known, apart, sent, client⟩
  intro i phase process has found
  rcases phases i phase has with same | ⟨reaped, zombie⟩
  · exact child i phase process same found
  · obtain ⟨fits, own, -⟩ := child i .zombie process zombie found
    rw [reaped]
    exact ⟨fits, own, nofun⟩

theorem Process.get_empty (fd : Nat) : Descriptors.get (⟨[]⟩ : Descriptors File) fd = none := rfl

theorem Process.holds_empty (process : Process) (number : Nat) :
    Process.holds { process with table := ⟨[]⟩ } number = true → process.holds number = true := by
  intro holds
  obtain ⟨fd, found⟩ := Process.holds_iff.mp holds
  rw [Process.get_empty] at found
  cases found

/-- A child that is about to send has the connection it was forked for. -/
theorem Process.Fits.number_eq (fits : process.Fits sd base .sending)
    (cd : process.cd = process.number.map fun _ => base.lowestFree)
    (refers : process.cd.bind process.table.get = some (.connection number)) : process.number = some number := by
  cases own : process.number with
  | none =>
      rw [cd, own] at refers
      cases refers
  | some other =>
      rw [cd, own, Option.map_some, Option.bind_some, fits] at refers
      split at refers
      · cases refers
      · rw [Process.expected, own] at refers
        simp only [if_true] at refers
        cases refers
        rfl

/-- Sending more on a connection that is held keeps what its client has printed. -/
theorem Connection.Fits.send {connection : Connection} (fits : connection.Fits true) (more : List UInt8) :
    Connection.Fits true { connection with sent := connection.sent ++ more } := by
  cases client : connection.client with
  | receiving | failed => trivial
  | printed text =>
      rw [Connection.Fits, client] at fits
      exact ⟨fits.1, fits.2.trans (List.prefix_append _ _)⟩
  | disconnected =>
      rw [Connection.Fits, client] at fits
      cases fits.2
  | crashed =>
      rw [Connection.Fits, client] at fits
      exact fits.elim

/-- The only message to the client of a child. -/
theorem Greeted.sends (greeted : Greeted sd base served) {count : Nat} {control : State} (has : served.control.children[i]? = some .sending)
    (found : served.children[i]? = some process) (refers : process.cd.bind process.table.get = some (.connection number))
    (main : control.main = served.control.main)
    (children : control.children = served.control.children.set i .closingClient) :
    Greeted sd base { served with
      control
      connections := served.connections.modify number fun connection =>
        { connection with sent := connection.sent ++ greeting.take count } } := by
  obtain ⟨counted, mainFits, cd, child, known, apart, sent, client⟩ := greeted
  obtain ⟨fits, ownCd, unsent⟩ := child i .sending process has found
  have mine := fits.number_eq ownCd refers
  have place : served.numbers[i]? = some (some number) := by
    rw [Served.numbers, List.getElem?_map, found, Option.map_some, mine]
  have empty := unsent rfl number mine
  have other : ∀ {number' connection}, number ≠ number' →
      (served.connections.modify number fun connection =>
        { connection with sent := connection.sent ++ greeting.take count })[number']? = some connection →
      served.connections[number']? = some connection := by
    intro number' connection different gotten
    rwa [List.getElem?_modify_ne _ _ different] at gotten
  refine ⟨by rw [children, List.length_set]; exact counted, ?_, cd, ?_, ?_, apart, ?_, ?_⟩
  · rw [main]
    cases current : served.control.main with
    | accepting | closing =>
        rw [current] at mainFits
        exact mainFits
    | printing | forking =>
        rw [current] at mainFits
        refine ⟨mainFits.1, fun number' own => ?_⟩
        obtain ⟨less, absent, fresh⟩ := mainFits.2 number' own
        have different : number ≠ number' := by
          rintro rfl
          exact absent (List.mem_of_getElem? place)
        exact ⟨by simpa using less, absent, fun connection gotten => fresh connection (other different gotten)⟩
  · intro j phase' process' hasOther foundOther
    rw [children] at hasOther
    by_cases same : i = j
    · subst same
      have bound := (List.getElem?_eq_some_iff.mp has).1
      rw [List.getElem?_set_self bound] at hasOther
      cases hasOther
      rw [found] at foundOther
      cases foundOther
      exact ⟨fits, ownCd, nofun⟩
    · rw [List.getElem?_set_ne same] at hasOther
      obtain ⟨fitsOther, cdOther, unsentOther⟩ := child j phase' process' hasOther foundOther
      refine ⟨fitsOther, cdOther, fun yet number' own connection gotten => ?_⟩
      have different : number ≠ number' := by
        rintro rfl
        apply same
        apply apart i j number place
        rw [Served.numbers, List.getElem?_map, foundOther, Option.map_some, own]
      exact unsentOther yet number' own connection (other different gotten)
  · exact fun number' member => by simpa using known number' member
  · intro connection member
    obtain ⟨number', gotten⟩ := List.mem_iff_getElem?.mp member
    by_cases same : number = number'
    · subst same
      rw [List.getElem?_modify_eq] at gotten
      obtain ⟨before, at_, rfl⟩ := Option.map_eq_some_iff.mp gotten
      rw [empty before at_, List.nil_append]
      exact List.take_prefix _ _
    · exact sent connection (List.mem_of_getElem? (other same gotten))
  · intro number' connection gotten
    by_cases same : number = number'
    · subst same
      rw [List.getElem?_modify_eq] at gotten
      obtain ⟨before, at_, rfl⟩ := Option.map_eq_some_iff.mp gotten
      have holds : served.held number = true := by
        refine Served.held_iff.mpr (.inr ⟨process, List.mem_of_getElem? found, ?_⟩)
        obtain ⟨fd, -, refersTo⟩ := Option.bind_eq_some_iff.mp refers
        exact Process.holds_iff.mpr ⟨fd, refersTo⟩
      have fitted := client number before at_
      rw [holds] at fitted
      show Connection.Fits (served.held number) _
      rw [holds]
      exact fitted.send _
    · exact client number' connection (other same gotten)

theorem Greeted.childCall (greeted : Greeted sd base served) (serves : base.get sd = some .listening) {sent : Option Nat}
    {control : State} (moved : childStep served.control i = some control)
    (called : served.childCall sd i sent = some after) : Greeted sd base { after with control } := by
  have apart : sd ≠ base.lowestFree := Descriptors.ne_lowestFree serves
  simp only [Served.childCall] at called
  split at called
  · rename_i child has found
    simp only [childStep, has] at moved
    cases moved
    cases called
    obtain ⟨fits, -, -⟩ := greeted.child i _ child has found
    refine greeted.setChild has found rfl rfl (child.tryClose_keeps _) (fun fd => ?_) (fun _ => rfl)
      fun number => Process.holds_tryClose _ _
    rw [Process.get_tryClose, Process.expected_tryClose]
    split
    · rfl
    · exact fits fd
  · rename_i child has found
    simp only [childStep, has] at moved
    cases moved
    obtain ⟨fits, -, -⟩ := greeted.child i _ child has found
    cases sent with
    | none =>
        cases called
        have stays : Greeted sd base { served.setChild i child with
            control := { served.control with children := served.control.children.set i .closingClient }
            reported := served.reported ++ ["send"] } :=
          greeted.setChild has found rfl rfl ⟨rfl, rfl⟩ fits (fun _ => rfl) fun number holds => holds
        rwa [served.setChild_self found] at stays
    | some count =>
        simp only [Served.send] at called
        split at called
        · rename_i number refers
          split at called <;> cases called
          exact greeted.sends has found refers rfl rfl
        · contradiction
  · rename_i child has found
    simp only [childStep, has] at moved
    cases moved
    cases called
    obtain ⟨fits, cd, -⟩ := greeted.child i _ child has found
    refine greeted.setChild has found rfl rfl (child.tryClose_keeps _) ?_ nofun fun number => Process.holds_tryClose _ _
    refine child.get_tryClose_cd cd (fun fd => if fd = sd then none else base.get fd) ?_ fun fd => ?_
    · simp only [if_neg apart.symm, base.get_lowestFree]
    · rw [fits, Process.expected]
      cases child.number with
      | none => rfl
      | some number =>
          by_cases lowest : fd = base.lowestFree
          · simp only [lowest, if_neg apart.symm, if_true]
          · simp only [lowest, if_false]
  · rename_i child has found
    simp only [childStep, has] at moved
    cases moved
    cases called
    exact greeted.setChild has found rfl rfl ⟨rfl, rfl⟩ (fun fd => rfl) nofun child.holds_empty
  · contradiction

theorem Greeted.handle (greeted : Greeted sd base served) {found : Option Nat} {control : State}
    (moved : handlerStep served.control found = some control) : Greeted sd base { served with control } := by
  simp only [handlerStep] at moved
  split at moved
  · contradiction
  · cases moved
    exact greeted.recontrol rfl rfl fun i phase has => .inl has
  · split at moved
    · rename_i j
      split at moved <;> cases moved
      rename_i zombie
      refine greeted.recontrol rfl (List.length_set ..) fun i phase has => ?_
      by_cases same : j = i
      · subst same
        rw [List.getElem?_set_self (List.getElem?_eq_some_iff.mp zombie).1] at has
        cases has
        exact .inr ⟨rfl, zombie⟩
      · rw [List.getElem?_set_ne same] at has
        exact .inl has
    · split at moved <;> cases moved
      exact greeted.recontrol rfl rfl fun i phase has => .inl has
  · cases moved
    exact greeted.recontrol rfl rfl fun i phase has => .inl has

/-! ## The clients -/

theorem greeting_free : (0 : UInt8) ∉ greeting := by decide

/-- A client prints all that it receives. -/
theorem recv_fits {connection : Connection} {held : Bool} {count : Option Nat} {client : Client}
    (sent : connection.sent <+: greeting) (received : connection.recv held count = some client) :
    Connection.Fits held { connection with client } := by
  cases count with
  | none =>
      cases received
      trivial
  | some count =>
      simp only [Connection.recv] at received
      split at received
      · rename_i some
        have text := (List.take_prefix Client1.recvSize (connection.sent.take count)).trans (List.take_prefix count _)
        have terminated : Client1.terminated ((connection.sent.take count).take Client1.recvSize) =
            .ok (((connection.sent.take count).take Client1.recvSize).takeWhile (· ≠ 0)) :=
          Block.cString_received (List.length_take_le ..)
        rw [Block.takeWhile_free fun nul => greeting_free ((text.trans sent).subset nul)] at terminated
        rw [terminated] at received
        cases received
        refine ⟨fun empty => ?_, text⟩
        have length := congrArg List.length empty
        rw [List.length_take, List.length_take, List.length_nil, Client1.recvSize] at length
        omega
      · split at received <;> cases received
        rename_i none
        exact none.2

theorem Greeted.recv (greeted : Greeted sd base served) {count : Option Nat} (called : served.recv number count = some after) :
    Greeted sd base after := by
  simp only [Served.recv] at called
  split at called
  · rename_i connection found
    split at called
    · obtain ⟨client, received, rfl⟩ := Option.map_eq_some_iff.mp called
      obtain ⟨counted, main, cd, child, known, apart, sent, clients⟩ := greeted
      obtain ⟨bound, rfl⟩ := List.getElem?_eq_some_iff.mp found
      have still : ∀ number', Served.Unsent served number' → Served.Unsent
          { served with connections := served.connections.set number { served.connections[number] with client } } number' := by
        intro number' unsent other gotten
        by_cases same : number = number'
        · subst same
          rw [List.getElem?_set_self bound] at gotten
          cases gotten
          exact unsent served.connections[number] found
        · rw [List.getElem?_set_ne same] at gotten
          exact unsent other gotten
      refine ⟨counted, ?_, cd, ?_, ?_, apart, ?_, ?_⟩
      · cases current : served.control.main with
        | accepting | closing =>
            rw [current] at main
            exact main
        | printing | forking =>
            rw [current] at main
            refine ⟨main.1, fun number' own => ?_⟩
            obtain ⟨less, absent, fresh⟩ := main.2 number' own
            exact ⟨by simpa using less, absent, still number' fresh⟩
      · intro i phase process has gotten
        obtain ⟨fits, own, unsent⟩ := child i phase process has gotten
        exact ⟨fits, own, fun yet number' mine => still number' (unsent yet number' mine)⟩
      · exact fun number' member => by simpa using known number' member
      · intro other member
        rcases List.mem_or_eq_of_mem_set member with before | now
        · exact sent other before
        · rw [now]
          exact sent served.connections[number] (List.getElem_mem bound)
      · intro number' other gotten
        by_cases same : number = number'
        · subst same
          rw [List.getElem?_set_self bound] at gotten
          cases gotten
          exact recv_fits (sent _ (List.getElem_mem bound)) received
        · rw [List.getElem?_set_ne same] at gotten
          exact clients number' other gotten
    · contradiction
  · contradiction

/-! ## Every run -/

theorem Greeted.greet (greeted : Greeted sd base served) (serves : base.get sd = some .listening) {call : Call}
    (moved : greet sd served call = some after) : Greeted sd base after := by
  cases call with
  | recv number count => exact greeted.recv moved
  | server action sent =>
      simp only [ForkServer.greet] at moved
      split at moved <;> cases moved
      rename_i control called stepped result
      cases action with
      | main failure => exact greeted.mainCall stepped result
      | child i => exact greeted.childCall serves stepped result
      | kill i =>
          simp only [next] at stepped
          split at stepped <;> cases stepped
          rename_i running
          obtain ⟨phase, has, -⟩ := Option.map_eq_some_iff.mp running
          obtain ⟨child, found, rfl⟩ := Option.map_eq_some_iff.mp result
          exact greeted.setChild has found rfl rfl ⟨rfl, rfl⟩ (fun fd => rfl) nofun child.holds_empty
      | handler found =>
          cases result
          exact greeted.handle stepped
      | deliver =>
          cases result
          simp only [next, deliver] at stepped
          split at stepped <;> cases stepped
          exact greeted.recontrol rfl rfl fun i phase has => .inl has
      | stop i =>
          cases result
          simp only [next] at stepped
          split at stepped <;> cases stepped
          exact greeted.recontrol rfl rfl fun i phase has => .inl has

theorem Process.expected_connection (clean : ∀ fd number, base.get fd ≠ some (.connection number)) {fd : Nat}
    (found : process.expected base fd = some (.connection number)) : process.number = some number := by
  rw [Process.expected] at found
  split at found
  · rename_i own same
    split at found
    · cases found
      exact same
    · exact absurd found (clean fd number)
  · exact absurd found (clean fd number)

/-- A child has no connection but its own, and none after it has ended. -/
theorem Process.Fits.holds {phase : ChildPhase} (fits : process.Fits sd base phase)
    (clean : ∀ fd number, base.get fd ≠ some (.connection number)) (holds : process.holds number = true) :
    phase.exited = false ∧ process.number = some number := by
  obtain ⟨fd, found⟩ := Process.holds_iff.mp holds
  cases phase with
  | closingServer => exact ⟨rfl, Process.expected_connection clean (fits fd ▸ found)⟩
  | sending | closingClient =>
      rw [fits fd] at found
      split at found
      · cases found
      · exact ⟨rfl, Process.expected_connection clean found⟩
  | returning =>
      rw [fits fd] at found
      split at found
      · cases found
      · exact absurd found (clean fd number)
  | zombie | reaped =>
      rw [fits fd] at found
      cases found

theorem Greeted.child_of_holds (greeted : Greeted sd base served) (clean : ∀ fd number, base.get fd ≠ some (.connection number))
    (found : served.children[i]? = some process) (holds : process.holds number = true) :
    ∃ phase, served.control.children[i]? = some phase ∧ phase.exited = false ∧ process.number = some number := by
  have bound : i < served.control.children.length := greeted.count ▸ (List.getElem?_eq_some_iff.mp found).1
  have has := List.getElem?_eq_getElem bound
  obtain ⟨fits, -, -⟩ := greeted.child i _ process has found
  exact ⟨_, has, fits.holds clean holds⟩

/-- In every run of the server, from any table with the listening socket and no connection, whatever
calls fail and whichever children are killed: whenever `main` waits in `accept`, it has the
descriptors that it was started with; no two children have the same connection; every
client whose `recv` has returned without error prints some of the greeting, or finds the connection closed
with nothing sent to it; and when `main` waits and the children have ended, every connection is closed. -/
theorem clients_greeted (sd : Nat) (base : Descriptors File) (errno : Int) (serves : base.get sd = some .listening)
    (clean : ∀ fd number, base.get fd ≠ some (.connection number)) (served : Served)
    (reached : (greeter sd base errno).Reachable served) :
    (served.control.main = .accepting → ∀ fd, served.main.table.get fd = base.get fd) ∧
      (∀ (i j number : Nat) (one other : Process), served.children[i]? = some one → served.children[j]? = some other →
        one.holds number = true → other.holds number = true → i = j) ∧
      (∀ (number : Nat) (connection : Connection), served.connections[number]? = some connection →
        connection.sent <+: greeting ∧ match connection.client with
          | .receiving | .failed => True
          | .printed text => text ≠ [] ∧ text <+: connection.sent
          | .disconnected => connection.sent = [] ∧ served.held number = false
          | .crashed => False) ∧
      (served.control.main = .accepting → (∀ child ∈ served.control.children, child.exited = true) →
        ∀ number, served.held number = false) := by
  have greeted : Greeted sd base served := reached.invariant (Greeted sd base) (greeted_start sd base errno)
    fun greeted moved => greeted.greet serves moved
  have main := greeted.main
  refine ⟨fun accepting => ?_, fun i j number one other foundOne foundOther holdsOne holdsOther => ?_,
    fun number connection found => ?_, fun accepting ended number => ?_⟩
  · rw [accepting] at main
    exact main
  · obtain ⟨-, -, -, ownOne⟩ := greeted.child_of_holds clean foundOne holdsOne
    obtain ⟨-, -, -, ownOther⟩ := greeted.child_of_holds clean foundOther holdsOther
    apply greeted.apart i j number
    · rw [Served.numbers, List.getElem?_map, foundOne, Option.map_some, ownOne]
    · rw [Served.numbers, List.getElem?_map, foundOther, Option.map_some, ownOther]
  · exact ⟨greeted.sent connection (List.mem_of_getElem? found), greeted.client number connection found⟩
  · rw [Bool.eq_false_iff]
    intro holds
    rcases Served.held_iff.mp holds with mine | ⟨child, member, theirs⟩
    · obtain ⟨fd, refers⟩ := Process.holds_iff.mp mine
      rw [accepting] at main
      rw [main fd] at refers
      exact clean fd number refers
    · obtain ⟨i, found⟩ := List.mem_iff_getElem?.mp member
      obtain ⟨phase, has, running, -⟩ := greeted.child_of_holds clean found theirs
      rw [ended phase (List.mem_of_getElem? has)] at running
      cases running

/-- The first child's `send` accepts five bytes, and the second one is killed before its own. -/
def oneKilled : List Call :=
  let main : List Call := List.replicate 4 (.server (.main none) none)
  let child (sent : Option Nat) : Call := .server (.child 0) sent
  main ++ main ++ [child none, child (some 5), child none, .recv 0 (some 5), child none, .server (.kill 1) none, .recv 1 (some 0)]

theorem clients_greeted_one_killed : ∃ served : Served, (served.connections.map Connection.client) =
      [.printed [104, 101, 108, 108, 111], .disconnected] ∧
    (∀ fd, served.main.table.get fd = Descriptors.get ⟨[some (.other 0), none, none, some .listening]⟩ fd) ∧
    served.held 0 = false := by
  let base : Descriptors File := ⟨[some (.other 0), none, none, some .listening]⟩
  have clean : ∀ fd number, base.get fd ≠ some (.connection number) := by
    intro fd number found
    have member := Descriptors.holds_iff.mpr ⟨fd, found⟩
    simp [base, Descriptors.Holds] at member
  obtain ⟨served, reached, observed⟩ := (greeter 3 base 0).exists_reachable
    (fun served => (served.connections.map Connection.client, served.control.main, served.control.children))
    ([.printed [104, 101, 108, 108, 111], .disconnected], .accepting, [.zombie, .zombie]) oneKilled (by decide +kernel)
  obtain ⟨clients, rest⟩ := Prod.mk.inj observed
  obtain ⟨accepting, children⟩ := Prod.mk.inj rest
  obtain ⟨restored, -, -, closed⟩ := clients_greeted 3 base 0 rfl clean served reached
  refine ⟨served, clients, restored accepting, closed accepting ?_ 0⟩
  rw [children]
  decide

end SysProg.Network.ForkServer
