import SysProg.Library.Block
import Mathlib.Logic.Relation

namespace SysProg

/-! # Threads over a shared array

A program reads and writes single elements of one array and may fork a second
thread and join it. `Step` interleaves the accesses of all threads; `exec` runs
them one after the other. Where no two threads touch a common element the two
agree, whatever the interleaving.
-/

inductive Prog (α : Type) where
  | done
  | trap (reason : Trap)
  | read (index : Nat) (next : α → Prog α)
  | write (index : Nat) (value : α) (next : Prog α)
  | fork (left right next : Prog α)

namespace Prog

variable {α : Type}

/-- One access, or the join of two threads that have ended. -/
inductive Step : Prog α → List α → Prog α → List α → Prop where
  | read {index : Nat} {next : α → Prog α} {memory : List α} {value : α}
      (found : memory[index]? = some value) : Step (.read index next) memory (next value) memory
  | write {index : Nat} {value : α} {next : Prog α} {memory : List α}
      (bound : index < memory.length) : Step (.write index value next) memory next (memory.set index value)
  | left {left right next moved : Prog α} {before after : List α} (step : Step left before moved after) :
      Step (.fork left right next) before (.fork moved right next) after
  | right {left right next moved : Prog α} {before after : List α} (step : Step right before moved after) :
      Step (.fork left right next) before (.fork left moved next) after
  | join {next : Prog α} {memory : List α} : Step (.fork .done .done next) memory next memory

/-- The sequential run: the left thread, the right thread, what follows. -/
def exec : Prog α → List α → Except Trap (List α)
  | .done, memory => .ok memory
  | .trap reason, _ => .error reason
  | .read index next, memory =>
      match memory[index]? with
      | some value => exec (next value) memory
      | none => .error .outOfBounds
  | .write index value next, memory =>
      if index < memory.length then exec next (memory.set index value) else .error .outOfBounds
  | .fork left right next, memory => exec left memory >>= fun middle => exec right middle >>= exec next

/-- Accesses that a thread makes one after the other, with the elements that it writes. -/
inductive Performs : Prog α → List α → List Nat → Prog α → List α → Prop where
  | refl {prog : Prog α} {memory : List α} : Performs prog memory [] prog memory
  | read {index : Nat} {next : α → Prog α} {final : Prog α} {value : α} {memory after : List α} {written : List Nat}
      (found : memory[index]? = some value) (rest : Performs (next value) memory written final after) :
      Performs (.read index next) memory written final after
  | write {index : Nat} {value : α} {next final : Prog α} {memory after : List α} {written : List Nat}
      (bound : index < memory.length) (rest : Performs next (memory.set index value) written final after) :
      Performs (.write index value next) memory (index :: written) final after

/-- Every element that is written lies in the region, whatever values are read. -/
def Writes (region : Nat → Prop) : Prog α → Prop
  | .done | .trap _ => True
  | .read _ next => ∀ value, Writes region (next value)
  | .write index _ next => region index ∧ Writes region next
  | .fork left right next => Writes region left ∧ Writes region right ∧ Writes region next

/-- Every access lies in the region, whatever values are read. -/
def Within (region : Nat → Prop) : Prog α → Prop
  | .done | .trap _ => True
  | .read index next => region index ∧ ∀ value, Within region (next value)
  | .write index _ next => region index ∧ Within region next
  | .fork left right next => Within region left ∧ Within region right ∧ Within region next

/-- Threads that run at the same time have disjoint regions. -/
def RaceFree : Prog α → Prop
  | .done | .trap _ => True
  | .read _ next => ∀ value, RaceFree (next value)
  | .write _ _ next => RaceFree next
  | .fork left right next =>
      (∃ first second : Nat → Prop, (∀ index, first index → ¬ second index) ∧
        left.Within first ∧ right.Within second) ∧
      RaceFree left ∧ RaceFree right ∧ RaceFree next

/-- Two memories of one size that agree on a region. -/
structure Agree (region : Nat → Prop) (first second : List α) : Prop where
  length : first.length = second.length
  values : ∀ index, region index → first[index]? = second[index]?

variable {region : Nat → Prop} {memory other : List α}

theorem Performs.trans {prog middle final : Prog α} {before between after : List α} {written more : List Nat}
    (first : Performs prog before written middle between) (second : Performs middle between more final after) :
    Performs prog before (written ++ more) final after := by
  induction first with
  | refl => exact second
  | read found _ ih => exact .read found (ih second)
  | write bound _ ih => exact .write bound (ih second)

theorem Performs.exec_eq {prog final : Prog α} {before after : List α} {written : List Nat}
    (performs : Performs prog before written final after) : prog.exec before = final.exec after := by
  induction performs with
  | refl => rfl
  | read found _ ih => simpa only [exec, found] using ih
  | write bound _ ih => simpa only [exec, bound, if_true] using ih

theorem Performs.written_inside {prog final : Prog α} {before after : List α} {written : List Nat}
    (performs : Performs prog before written final after) (writes : prog.Writes region) {index : Nat}
    (member : index ∈ written) : region index := by
  induction performs with
  | refl => contradiction
  | read _ _ ih => exact ih (writes _) member
  | write _ _ ih =>
      rcases List.mem_cons.mp member with rfl | later
      · exact writes.1
      · exact ih writes.2 later

theorem Agree.set (agree : Agree region memory other) (index : Nat) (value : α) :
    Agree region (memory.set index value) (other.set index value) where
  length := by simpa using agree.length
  values := by
    intro position inside
    simp only [List.getElem?_set, agree.length]
    split
    · rfl
    · exact agree.values position inside

theorem Within.mono {larger : Nat → Prop} {prog : Prog α} (within : prog.Within region)
    (subset : ∀ index, region index → larger index) : prog.Within larger := by
  induction prog with
  | done | trap => trivial
  | read index next ih => exact ⟨subset index within.1, fun value => ih value (within.2 value)⟩
  | write index value next ih => exact ⟨subset index within.1, ih within.2⟩
  | fork left right next leftIH rightIH nextIH =>
      exact ⟨leftIH within.1, rightIH within.2.1, nextIH within.2.2⟩

/-- A program that keeps to its region and whose threads do not race. -/
structure Confined (region : Nat → Prop) (prog : Prog α) : Prop where
  within : prog.Within region
  raceFree : prog.RaceFree

theorem confined_done : Confined region (.done : Prog α) := ⟨trivial, trivial⟩

theorem confined_trap (reason : Trap) : Confined region (.trap reason : Prog α) := ⟨trivial, trivial⟩

theorem Confined.read {index : Nat} {next : α → Prog α} (inside : region index)
    (rest : ∀ value, Confined region (next value)) : Confined region (.read index next) :=
  ⟨⟨inside, fun value => (rest value).within⟩, fun value => (rest value).raceFree⟩

theorem Confined.write {index : Nat} {value : α} {next : Prog α} (inside : region index)
    (rest : Confined region next) : Confined region (.write index value next) :=
  ⟨⟨inside, rest.within⟩, rest.raceFree⟩

theorem Confined.fork {first second : Nat → Prop} {left right next : Prog α}
    (leftConfined : Confined first left) (rightConfined : Confined second right) (rest : Confined region next)
    (disjoint : ∀ index, first index → ¬ second index)
    (firstInside : ∀ index, first index → region index)
    (secondInside : ∀ index, second index → region index) : Confined region (.fork left right next) :=
  ⟨⟨leftConfined.within.mono firstInside, rightConfined.within.mono secondInside, rest.within⟩,
    ⟨first, second, disjoint, leftConfined.within, rightConfined.within⟩,
    leftConfined.raceFree, rightConfined.raceFree, rest.raceFree⟩

/-- A run leaves everything outside its region alone. -/
theorem exec_frame {prog : Prog α} {after : List α} (within : prog.Within region)
    (ran : prog.exec memory = .ok after) : Agree (fun index => ¬ region index) after memory := by
  induction prog generalizing memory after with
  | done => cases ran; exact ⟨rfl, fun _ _ => rfl⟩
  | trap reason => cases ran
  | read index next ih =>
      simp only [exec] at ran
      split at ran
      · exact ih _ (within.2 _) ran
      · cases ran
  | write index value next ih =>
      simp only [exec] at ran
      split at ran
      · have rest := ih within.2 ran
        refine ⟨by simpa using rest.length, ?_⟩
        intro position outside
        have different : index ≠ position := fun same => outside (same ▸ within.1)
        rw [rest.values position outside, List.getElem?_set_ne different]
      · cases ran
  | fork left right next leftIH rightIH nextIH =>
      simp only [exec, bind_eq_ok] at ran
      obtain ⟨first, ranLeft, second, ranRight, ranNext⟩ := ran
      have one := leftIH within.1 ranLeft
      have two := rightIH within.2.1 ranRight
      have three := nextIH within.2.2 ranNext
      exact ⟨three.length.trans (two.length.trans one.length), fun position outside =>
        (three.values position outside).trans ((two.values position outside).trans (one.values position outside))⟩

/-- A run only depends on its region. -/
theorem exec_agree {prog : Prog α} {after : List α} (within : prog.Within region)
    (agree : Agree region memory other) (ran : prog.exec memory = .ok after) :
    ∃ otherAfter, prog.exec other = .ok otherAfter ∧ Agree region after otherAfter := by
  induction prog generalizing memory other after with
  | done => cases ran; exact ⟨other, rfl, agree⟩
  | trap reason => cases ran
  | read index next ih =>
      simp only [exec] at ran ⊢
      rw [← agree.values index within.1]
      split at ran
      · rename_i value found
        exact ih value (within.2 value) agree ran
      · cases ran
  | write index value next ih =>
      simp only [exec] at ran ⊢
      rw [← agree.length]
      split at ran
      · rename_i bound
        rw [if_pos bound]
        exact ih within.2 (agree.set index value) ran
      · cases ran
  | fork left right next leftIH rightIH nextIH =>
      simp only [exec, bind_eq_ok] at ran ⊢
      obtain ⟨first, ranLeft, second, ranRight, ranNext⟩ := ran
      obtain ⟨firstOther, otherLeft, agreeLeft⟩ := leftIH within.1 agree ranLeft
      obtain ⟨secondOther, otherRight, agreeRight⟩ := rightIH within.2.1 agreeLeft ranRight
      obtain ⟨afterOther, otherNext, agreeNext⟩ := nextIH within.2.2 agreeRight ranNext
      exact ⟨afterOther, ⟨firstOther, otherLeft, secondOther, otherRight, otherNext⟩, agreeNext⟩

theorem Agree.eq {first second : List α} (inside : Agree region first second)
    (outside : Agree (fun index => ¬ region index) first second) : first = second := by
  classical
  apply List.ext_getElem?
  intro index
  by_cases within : region index
  · exact inside.values index within
  · exact outside.values index within

theorem Step.transport {prog moved : Prog α} {before after : List α} (step : Step prog before moved after)
    (within : prog.Within region) (agree : Agree region before other) :
    moved.Within region ∧ Agree (fun index => ¬ region index) after before ∧
      ∃ otherAfter, Step prog other moved otherAfter ∧ Agree region after otherAfter ∧
        Agree (fun index => ¬ region index) otherAfter other := by
  induction step generalizing other with
  | read found =>
      refine ⟨within.2 _, ⟨rfl, fun _ _ => rfl⟩, other, .read ?_, agree, ⟨rfl, fun _ _ => rfl⟩⟩
      rw [← agree.values _ within.1]
      exact found
  | @write index value next memory bound =>
      have untouched : ∀ memory : List α,
          Agree (fun index => ¬ region index) (memory.set index value) memory := by
        intro memory
        refine ⟨by simp, ?_⟩
        intro position outside
        have different : index ≠ position := fun same => outside (same ▸ within.1)
        exact List.getElem?_set_ne different
      exact ⟨within.2, untouched memory, _, .write (agree.length ▸ bound), agree.set _ _, untouched other⟩
  | left step ih =>
      obtain ⟨stays, frame, otherAfter, moved, same, kept⟩ := ih within.1 agree
      exact ⟨⟨stays, within.2⟩, frame, otherAfter, .left moved, same, kept⟩
  | right step ih =>
      obtain ⟨stays, frame, otherAfter, moved, same, kept⟩ := ih within.2.1 agree
      exact ⟨⟨within.1, stays, within.2.2⟩, frame, otherAfter, .right moved, same, kept⟩
  | join => exact ⟨within.2.2, ⟨rfl, fun _ _ => rfl⟩, other, .join, agree, ⟨rfl, fun _ _ => rfl⟩⟩

theorem Step.raceFree {prog moved : Prog α} {before after : List α} (step : Step prog before moved after)
    (safe : prog.RaceFree) : moved.RaceFree := by
  induction step with
  | read found => exact safe _
  | write bound => exact safe
  | left step ih =>
      obtain ⟨⟨first, second, disjoint, within, rest⟩, left, right, next⟩ := safe
      exact ⟨⟨first, second, disjoint, (step.transport within ⟨rfl, fun _ _ => rfl⟩).1, rest⟩, ih left, right, next⟩
  | right step ih =>
      obtain ⟨⟨first, second, disjoint, rest, within⟩, left, right, next⟩ := safe
      exact ⟨⟨first, second, disjoint, rest, (step.transport within ⟨rfl, fun _ _ => rfl⟩).1⟩, left, ih right, next⟩
  | join => exact safe.2.2.2

/-- A step of the right thread commutes with a run of the left one. -/
theorem Step.commute {left right moved : Prog α} {before after middle : List α} {first second : Nat → Prop}
    (step : Step right before moved after) (disjoint : ∀ index, first index → ¬ second index)
    (leftWithin : left.Within first) (rightWithin : right.Within second) (ran : left.exec before = .ok middle) :
    ∃ middleAfter, left.exec after = .ok middleAfter ∧ Step right middle moved middleAfter := by
  have leftFrame := exec_frame leftWithin ran
  have agreeRight : Agree second before middle :=
    ⟨leftFrame.length.symm, fun index inside =>
      (leftFrame.values index fun both => disjoint index both inside).symm⟩
  obtain ⟨-, rightFrame, result, transported, sameRight, keptRight⟩ := step.transport rightWithin agreeRight
  have agreeLeft : Agree first before after :=
    ⟨rightFrame.length.symm, fun index inside => (rightFrame.values index (disjoint index inside)).symm⟩
  obtain ⟨middleAfter, ranAfter, sameLeft⟩ := exec_agree leftWithin agreeLeft ran
  have leftFrameAfter := exec_frame leftWithin ranAfter
  refine ⟨middleAfter, ranAfter, ?_⟩
  have size : middleAfter.length = result.length := leftFrameAfter.length.trans sameRight.length
  suffices same : middleAfter = result by rwa [same]
  have onRight : Agree second middleAfter result := by
    refine ⟨size, ?_⟩
    intro index inside
    rw [leftFrameAfter.values index fun both => disjoint index both inside]
    exact sameRight.values index inside
  refine onRight.eq ⟨size, ?_⟩
  · intro index outside
    rw [keptRight.values index outside]
    by_cases inLeft : first index
    · exact (sameLeft.values index inLeft).symm
    · rw [leftFrameAfter.values index inLeft, rightFrame.values index outside,
        leftFrame.values index inLeft]

/-- No interleaving changes what the sequential run arrives at. -/
theorem Step.exec_eq {prog moved : Prog α} {before after result : List α} (step : Step prog before moved after)
    (safe : prog.RaceFree) (ran : prog.exec before = .ok result) : moved.exec after = .ok result := by
  induction prog generalizing moved before after result with
  | done | trap => cases step
  | read index next ih =>
      cases step with
      | read found => simpa only [exec, found] using ran
  | write index value next ih =>
      cases step with
      | write bound => simpa only [exec, bound, if_true] using ran
  | fork left right next leftIH rightIH nextIH =>
      simp only [exec, bind_eq_ok] at ran
      obtain ⟨middle, ranLeft, final, ranRight, rest⟩ := ran
      obtain ⟨⟨first, second, disjoint, leftWithin, rightWithin⟩, leftSafe, rightSafe, -⟩ := safe
      cases step with
      | left step =>
          simp only [exec, bind_eq_ok]
          exact ⟨middle, leftIH step leftSafe ranLeft, final, ranRight, rest⟩
      | right step =>
          obtain ⟨middleAfter, ranAfter, transported⟩ := step.commute disjoint leftWithin rightWithin ranLeft
          simp only [exec, bind_eq_ok]
          exact ⟨middleAfter, ranAfter, final, rightIH transported rightSafe ranRight, rest⟩
      | join =>
          cases ranLeft
          cases ranRight
          exact rest

theorem progress {prog : Prog α} {result : List α} (ran : prog.exec memory = .ok result) :
    prog = .done ∨ ∃ moved after, Step prog memory moved after := by
  induction prog generalizing memory result with
  | done => exact .inl rfl
  | trap reason => cases ran
  | read index next ih =>
      simp only [exec] at ran
      split at ran
      · exact .inr ⟨_, _, .read ‹_›⟩
      · cases ran
  | write index value next ih =>
      simp only [exec] at ran
      split at ran
      · exact .inr ⟨_, _, .write ‹_›⟩
      · cases ran
  | fork left right next leftIH rightIH nextIH =>
      simp only [exec, bind_eq_ok] at ran
      obtain ⟨middle, ranLeft, final, ranRight, -⟩ := ran
      rcases leftIH ranLeft with rfl | ⟨moved, after, step⟩
      · cases ranLeft
        rcases rightIH ranRight with rfl | ⟨moved, after, step⟩
        · exact .inr ⟨_, _, .join⟩
        · exact .inr ⟨_, _, .right step⟩
      · exact .inr ⟨_, _, .left step⟩

/-- What a program can become in one step, from any memory. -/
def Becomes (moved prog : Prog α) : Prop := ∃ before after, Step prog before moved after

theorem acc_fork {left right next : Prog α} (leftEnds : Acc Becomes left) (rightEnds : Acc Becomes right)
    (nextEnds : Acc Becomes next) : Acc Becomes (fork left right next) := by
  induction leftEnds generalizing right with
  | intro left _ leftIH =>
      induction rightEnds with
      | intro right rightEnds rightIH =>
          constructor
          intro moved became
          obtain ⟨before, after, step⟩ := became
          cases step with
          | left step => exact leftIH _ ⟨before, after, step⟩ (.intro right rightEnds)
          | right step => exact rightIH _ ⟨before, after, step⟩
          | join => exact nextEnds

/-- Every interleaving of every program is finite. -/
theorem becomes_wellFounded : WellFounded (Becomes : Prog α → Prog α → Prop) := by
  constructor
  intro prog
  induction prog with
  | done | trap =>
      constructor
      intro moved became
      obtain ⟨before, after, step⟩ := became
      cases step
  | read index next ih =>
      constructor
      intro moved became
      obtain ⟨before, after, step⟩ := became
      cases step with
      | read found => exact ih _
  | write index value next ih =>
      constructor
      intro moved became
      obtain ⟨before, after, step⟩ := became
      cases step with
      | write bound => exact ih
  | fork left right next leftIH rightIH nextIH => exact acc_fork leftIH rightIH nextIH

/-- Some interleaving leads from one program and memory to another. -/
inductive Reaches : Prog α → List α → Prog α → List α → Prop where
  | refl {prog : Prog α} {memory : List α} : Reaches prog memory prog memory
  | step {prog middle final : Prog α} {before between after : List α}
      (first : Step prog before middle between) (rest : Reaches middle between final after) :
      Reaches prog before final after

/-- Every interleaving of threads that do not race can be continued until all
have ended, and then leaves the memory of the sequential run. -/
theorem Reaches.outcome {prog final : Prog α} {before after result : List α}
    (reaches : Reaches prog before final after) (safe : prog.RaceFree) (ran : prog.exec before = .ok result) :
    (final = .done ∧ after = result) ∨ ∃ moved later, Step final after moved later := by
  induction reaches with
  | refl =>
      rcases progress ran with rfl | canStep
      · cases ran
        exact .inl ⟨rfl, rfl⟩
      · exact .inr canStep
  | step first rest ih => exact ih (first.raceFree safe) (first.exec_eq safe ran)

/-- Some interleaving amid other threads, which change elements outside the region. -/
inductive Amid (region : Nat → Prop) : Prog α → List α → Prog α → List α → Prop where
  | refl {prog : Prog α} {memory : List α} : Amid region prog memory prog memory
  | step {prog middle final : Prog α} {before between after : List α}
      (first : Step prog before middle between) (rest : Amid region middle between final after) :
      Amid region prog before final after
  | others {prog final : Prog α} {before between after : List α} (agree : Agree region before between)
      (rest : Amid region prog between final after) : Amid region prog before final after

/-- What other threads do outside the region makes no difference inside. -/
theorem Amid.reaches {prog final : Prog α} {before after : List α} (amid : Amid region prog before final after)
    (within : prog.Within region) (agree : Agree region before other) :
    ∃ otherAfter, Reaches prog other final otherAfter ∧ Agree region after otherAfter := by
  induction amid generalizing other with
  | refl => exact ⟨other, .refl, agree⟩
  | step first rest ih =>
      obtain ⟨stays, -, next, moved, same, -⟩ := first.transport within agree
      obtain ⟨otherAfter, reaches, result⟩ := ih stays same
      exact ⟨otherAfter, .step moved reaches, result⟩
  | others changed rest ih =>
      refine ih within ⟨changed.length.symm.trans agree.length, ?_⟩
      intro index inside
      exact (changed.values index inside).symm.trans (agree.values index inside)

end Prog

end SysProg
