import SysProg.Library.Block

namespace SysProg.Block

/-! # `strcat`

The string in a block is what precedes the first NUL; what follows the NUL is
`spare` room.
-/

/-- `strcat(dest + start, src)` -/
def strcat (dest : Block UInt8) (start : Nat) (src : List UInt8) : Except Trap (Block UInt8) := do
  let text ← cString (dest.drop start)
  dest.storeFrom (start + text.length : Nat) (src ++ [0])

variable {text src : List UInt8} {spare : Block UInt8}

theorem cString_unterminated (free : 0 ∉ text) : cString (ofList text) = .error .outOfBounds := by
  induction text with
  | nil => rfl
  | cons byte text ih =>
      have other : byte ≠ 0 := fun nul => free (nul ▸ List.mem_cons_self)
      have later := ih fun member => free (List.mem_cons_of_mem _ member)
      rw [ofList, List.map_cons, cString, if_neg other]
      rw [ofList] at later
      rw [later]
      rfl

/-- The string is found from any place inside it, and its terminator is stored over. -/
theorem strcat_terminated (free : 0 ∉ text) {start : Nat} (inside : start ≤ text.length) (src : List UInt8) :
    strcat (ofList text ++ some 0 :: spare) start src =
      storeFrom (ofList text ++ some 0 :: spare) (ofList text).length (src ++ [0]) := by
  have rest : (ofList text ++ some 0 :: spare).drop start = ofList (text.drop start) ++ some 0 :: spare := by
    rw [List.drop_append_of_le_length (by simpa using inside), ofList, ofList, List.map_drop]
  have tail : 0 ∉ text.drop start := fun member => free (List.mem_of_mem_drop member)
  have ending : start + (text.drop start).length = (ofList text).length := by
    rw [List.length_drop, length_ofList]
    omega
  rw [strcat, rest, cString_terminated tail, ok_bind, ending]

theorem strcat_fits (free : 0 ∉ text) {start : Nat} (inside : start ≤ text.length) (fits : src.length ≤ spare.length) :
    strcat (ofList text ++ some 0 :: spare) start src =
      .ok (ofList (text ++ src) ++ some 0 :: spare.drop src.length) := by
  rw [strcat_terminated free inside, storeFrom_append _ _ _ (by simpa using fits)]
  simp [ofList]

theorem strcat_overruns (free : 0 ∉ text) {start : Nat} (inside : start ≤ text.length)
    (beyond : spare.length < src.length) :
    strcat (ofList text ++ some 0 :: spare) start src = .error .outOfBounds := by
  rw [strcat_terminated free inside]
  exact storeFrom_beyond _ _ _ (by simpa using beyond)

end SysProg.Block
