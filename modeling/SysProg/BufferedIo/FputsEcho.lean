import SysProg.Library.Block
import SysProg.Library.Fgets

namespace SysProg.BufferedIo.FputsEcho

/-! # `03-buffered-io/fputs_echo.c`

`accepts` is the number of calls that stdout still accepts; after them `fputs` returns `EOF`.
-/

/-- The size of `buf`, which is `LINE_MAX`, without the terminator. -/
def lineRoom : Nat := 2047

/-- `"q\n"` -/
def quitLine : List UInt8 := [113, 10]

inductive Message where
  | enterLines
  | echoed (text : List UInt8)
  | receivedEof
  | perror (name : String)
deriving DecidableEq

/-- What follows the loop. The result of this `printf` is not looked at. -/
def atEnd (error : Bool) (accepts : Nat) : Int × List Message :=
  if error then (1, [.perror "fgets"]) else (0, if accepts = 0 then [] else [.receivedEof])

def echoLoop (error : Bool) (accepts : Nat) (stdin : List UInt8) : Int × List Message :=
  match fgets error lineRoom stdin with
  | none => atEnd error accepts
  | some (buf, rest) =>
      if lineString buf = quitLine then (0, [])
      else
        match accepts with
        | 0 => (1, [.perror "fputs"])
        | accepts + 1 =>
            let (code, messages) := echoLoop error accepts rest
            (code, .echoed (lineString buf) :: messages)

def main (error : Bool) (accepts : Nat) (stdin : List UInt8) : Int × List Message :=
  match accepts with
  | 0 => (1, [.perror "fputs"])
  | accepts + 1 =>
      let (code, messages) := echoLoop error accepts stdin
      (code, .enterLines :: messages)

/-! ## What is echoed -/

/-- The texts before the one that quits. -/
def echoes (lines : List (List UInt8)) : List (List UInt8) :=
  (lines.map lineString).takeWhile (· ≠ quitLine)

/-- How it ends, when stdout accepts `spare` calls after the last echo. -/
def ending (error : Bool) (spare : Nat) (lines : List (List UInt8)) : Int × List Message :=
  if quitLine ∈ lines.map lineString then (0, []) else atEnd error spare

variable {error : Bool} {accepts : Nat} {stdin : List UInt8} {line : List UInt8} {lines : List (List UInt8)}

theorem echoes_quit (quits : lineString line = quitLine) : echoes (line :: lines) = [] := by
  rw [echoes, List.map_cons, List.takeWhile_cons_of_neg (by simp [quits])]

theorem echoes_cons (stays : lineString line ≠ quitLine) : echoes (line :: lines) = lineString line :: echoes lines := by
  rw [echoes, List.map_cons, List.takeWhile_cons_of_pos (by simp [stays])]
  rfl

theorem ending_cons (stays : lineString line ≠ quitLine) (error : Bool) (spare : Nat) :
    ending error spare (line :: lines) = ending error spare lines := by
  simp only [ending, List.map_cons, List.mem_cons, Ne.symm stays, false_or]

theorem echoLoop_eq (error : Bool) (accepts : Nat) (stdin : List UInt8) :
    let lines := fgetsAll error lineRoom stdin
    let texts := (echoes lines).map Message.echoed
    echoLoop error accepts stdin =
      if texts.length ≤ accepts then
        ((ending error (accepts - texts.length) lines).1, texts ++ (ending error (accepts - texts.length) lines).2)
      else (1, texts.take accepts ++ [.perror "fputs"]) := by
  intro lines texts
  induction accepts generalizing stdin with
  | zero =>
      rw [echoLoop]
      cases read : fgets error lineRoom stdin with
      | none =>
          have none : lines = [] := fgetsAll_none read
          simp [texts, none, echoes, ending]
      | some found =>
          obtain ⟨line, rest⟩ := found
          have first : lines = line :: fgetsAll error lineRoom rest := fgetsAll_some read
          by_cases quits : lineString line = quitLine
          · simp [texts, first, echoes_quit quits, ending, quits]
          · simp [texts, first, echoes_cons quits, quits]
  | succ accepts ih =>
      rw [echoLoop]
      cases read : fgets error lineRoom stdin with
      | none =>
          have none : lines = [] := fgetsAll_none read
          simp [texts, none, echoes, ending]
      | some found =>
          obtain ⟨line, rest⟩ := found
          have first : lines = line :: fgetsAll error lineRoom rest := fgetsAll_some read
          by_cases quits : lineString line = quitLine
          · simp [texts, first, echoes_quit quits, ending, quits]
          · simp only [quits, if_false, ih rest, texts, first, echoes_cons quits, ending_cons quits, List.map_cons,
              List.length_cons, Nat.add_le_add_iff_right, Nat.add_sub_add_right, List.take_succ_cons]
            split
            · rfl
            · rfl

/-- For every input, by the lines that `fgets` returns. -/
theorem main_eq (error : Bool) (accepts : Nat) (stdin : List UInt8) :
    let lines := fgetsAll error lineRoom stdin
    let texts := Message.enterLines :: (echoes lines).map Message.echoed
    main error accepts stdin =
      if texts.length ≤ accepts then
        ((ending error (accepts - texts.length) lines).1, texts ++ (ending error (accepts - texts.length) lines).2)
      else (1, texts.take accepts ++ [.perror "fputs"]) := by
  intro lines texts
  cases accepts with
  | zero => rfl
  | succ accepts =>
      simp only [main, echoLoop_eq, texts, List.length_cons, Nat.add_le_add_iff_right, Nat.add_sub_add_right, List.take_succ_cons]
      split
      · rfl
      · rfl

/-! ## Lines that fit -/

theorem lineString_unended {text : List UInt8} (free : 10 ∉ text) : lineString text ≠ quitLine := by
  intro quits
  have newline : (10 : UInt8) ∈ lineString text := by
    rw [quits]
    decide
  exact free ((List.takeWhile_prefix _).subset newline)

/-- The test is met by the line that is a single `q`, and by no other. -/
theorem lineString_quit {line : List UInt8} (free : 10 ∉ line) : lineString (line ++ [10]) = quitLine ↔ line = [113] := by
  constructor
  · intro quits
    by_cases zero : 0 ∈ line
    · have short : lineString (line ++ [10]) = lineString line := by
        rw [lineString, List.takeWhile_append, if_neg]
        · rfl
        · intro whole
          have all := List.takeWhile_eq_self_iff.mp ((List.takeWhile_prefix _).eq_of_length whole) 0 zero
          cases all
      exact absurd (short.symm.trans quits) (lineString_unended free)
    · have whole : lineString (line ++ [10]) = line ++ [10] := Block.takeWhile_free (by simp [zero])
      exact List.append_cancel_right (whole.symm.trans quits)
  · rintro rfl
    rfl

/-- The strings that are echoed, of lines that fit and of what is left after the last newline. -/
def echoed (error : Bool) (lines : List (List UInt8)) (last : List UInt8) : List (List UInt8) :=
  (lines.takeWhile (· ≠ [113])).map (fun line => lineString (line ++ [10])) ++
    if [113] ∈ lines ∨ last = [] ∨ error = true then [] else [lineString last]

variable {last : List UInt8}

theorem echoes_lines (each : ∀ line ∈ lines, 10 ∉ line) (free : 10 ∉ last) (error : Bool) :
    echoes (lines.map (· ++ [10]) ++ if last = [] ∨ error = true then [] else [last]) = echoed error lines last := by
  induction lines with
  | nil =>
      by_cases nothing : last = [] ∨ error = true
      · simp [echoed, echoes, nothing]
      · simp [echoed, echoes, nothing, lineString_unended free]
  | cons line lines ih =>
      obtain ⟨first, later⟩ := List.forall_mem_cons.mp each
      rw [List.map_cons, List.cons_append]
      by_cases quits : line = [113]
      · rw [echoes_quit ((lineString_quit first).mpr quits)]
        simp [echoed, quits]
      · rw [echoes_cons (fun same => quits ((lineString_quit first).mp same)), ih later]
        simp [echoed, quits, Ne.symm quits]

theorem quits_lines (each : ∀ line ∈ lines, 10 ∉ line) (free : 10 ∉ last) (error : Bool) :
    quitLine ∈ (lines.map (· ++ [10]) ++ if last = [] ∨ error = true then [] else [last]).map lineString ↔
      [113] ∈ lines := by
  rw [List.map_append, List.mem_append, List.map_map, List.mem_map]
  constructor
  · rintro (⟨line, member, quits⟩ | rest)
    · rwa [(lineString_quit (each line member)).mp quits] at member
    · split at rest
      · cases rest
      · exact absurd (List.mem_singleton.mp rest).symm (lineString_unended free)
  · exact fun member => .inl ⟨[113], member, rfl⟩

/-- Lines shorter than `LINE_MAX` are echoed once each and in order, up to the first that is a single `q`, and
so is what is left after the last newline. The program returns 1 just where `fputs` fails, or where stdin
ends with an error before a `q`. -/
theorem main_echoes_lines (error : Bool) (accepts : Nat) (lines : List (List UInt8)) (last : List UInt8)
    (each : ∀ line ∈ lines, 10 ∉ line ∧ line.length < lineRoom) (free : 10 ∉ last) (fits : last.length < lineRoom) :
    let texts := Message.enterLines :: (echoed error lines last).map Message.echoed
    main error accepts (lines.flatMap (· ++ [10]) ++ last) =
      if texts.length ≤ accepts then
        if [113] ∈ lines then (0, texts)
        else if error then (1, texts ++ [.perror "fgets"])
        else (0, texts ++ if accepts = texts.length then [] else [.receivedEof])
      else (1, texts.take accepts ++ [.perror "fputs"]) := by
  intro texts
  have newlines : ∀ line ∈ lines, 10 ∉ line := fun line member => (each line member).1
  have quitting := quits_lines newlines free error
  rw [main_eq, fgetsAll_lines each free fits error, echoes_lines newlines free, ending, if_congr quitting rfl rfl]
  by_cases enough : texts.length ≤ accepts
  · have spent : accepts - texts.length = 0 ↔ accepts = texts.length := by omega
    rw [if_pos enough, if_pos enough]
    by_cases quits : [113] ∈ lines
    · rw [if_pos quits, if_pos quits, List.append_nil]
    · rw [if_neg quits, if_neg quits]
      cases error with
      | true => rfl
      | false =>
          simp only [atEnd, Bool.false_eq_true, if_false]
          rw [if_congr spent rfl rfl]
  · rw [if_neg enough, if_neg enough]

/-- `a`, `q` and `b`: what follows the `q` is not read. -/
theorem main_echoes_lines_quit : main false 9 [97, 10, 113, 10, 98] = (0, [.enterLines, .echoed [97, 10]]) :=
  main_echoes_lines false 9 [[97], [113]] [98] (by decide) (by decide) (by decide)

end SysProg.BufferedIo.FputsEcho
