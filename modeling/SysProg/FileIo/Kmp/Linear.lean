import SysProg.FileIo.Kmp.Search

namespace SysProg.FileIo.Kmp

/-! # The comparisons of the two passes

Each loop once more, with a count of the byte comparisons `text[i] !=
pattern[j]` that it has made. Without the count they are the loops of the
program.
-/

def fallBackCounted (A : Block Int) (text pattern : Block UInt8) (i : Int) : Nat → Int → Nat → Except Trap (Int × Nat)
  | 0, _, _ => .error .diverged
  | fuel + 1, j, compared =>
      if j = -1 then .ok (j, compared)
      else do
        let c ← text.load i
        let d ← pattern.load j
        if c = d then return (j, compared + 1)
        fallBackCounted A text pattern i fuel (← A.load j) (compared + 1)

def fillTableCounted (fuel : Nat) (p : Block UInt8) : Nat → Nat → Int → Block Int → Nat → Except Trap (Block Int × Nat)
  | 0, _, _, A, compared => .ok (A, compared)
  | rest + 1, i, j, A, compared => do
      let (j, compared) ← fallBackCounted A p p i fuel j compared
      fillTableCounted fuel p rest (i + 1) (j + 1) (← A.store (i + 1) (j + 1)) compared

def searchFromCounted (host : Host) (fuel : Nat) (A : Block Int) (pattern : Block UInt8) (m : Nat) (sb : StringBuffer) :
    Nat → Nat → Int → Output → Nat → Except Trap (Output × Nat)
  | 0, _, _, out, compared => .ok (out, compared)
  | rest + 1, i, j, out, compared => do
      let (j, compared) ← fallBackCounted A sb.text pattern i fuel j compared
      if j + 1 = m then
        let (code, out) ← writeAll host foundMatch 0 fuel 12 out
        if code = -1 then return (out, compared)
        searchFromCounted host fuel A pattern m sb rest (i + 1) (← A.load m) { out with matched := out.matched ++ [i] } compared
      else searchFromCounted host fuel A pattern m sb rest (i + 1) (j + 1) out compared

def findCounted (host : Host) (fuel : Nat) (sb : StringBuffer) (pattern : CString) (out : Output) :
    Except Trap (Output × Nat) :=
  let m := pattern.strlen
  if m > sb.length then .ok (out, 0)
  else do
    let A ← (Block.malloc (m + 1)).store 0 (-1)
    let (A, compared) ← fillTableCounted fuel pattern.block m 0 (-1) A 0
    let _ ← printTable A m
    if host.opens then searchFromCounted host fuel A pattern.block m sb sb.length 0 0 { out with file := [] } compared
    else .ok (out, compared)

/-! ## Without the count -/

section

variable {A : Block Int} {text pattern : Block UInt8} {host : Host} {sb : StringBuffer} {fuel m : Nat}

theorem erase_bind {α β : Type} {counted : Except Trap (α × Nat)} {plain : Except Trap α}
    {next : α × Nat → Except Trap (β × Nat)} {after : α → Except Trap β}
    (first : counted.map Prod.fst = plain)
    (later : ∀ value count, (next (value, count)).map Prod.fst = after value) :
    (counted >>= next).map Prod.fst = plain >>= after := by
  subst first
  cases counted with
  | error reason => rfl
  | ok result => exact later result.1 result.2

theorem erase_under {α β : Type} (plain : Except Trap α) {next : α → Except Trap (β × Nat)} {after : α → Except Trap β}
    (later : ∀ value, (next value).map Prod.fst = after value) :
    (plain >>= next).map Prod.fst = plain >>= after := by
  cases plain with
  | error reason => rfl
  | ok value => exact later value

theorem fallBackCounted_erase (i : Int) (fuel : Nat) (j : Int) (compared : Nat) :
    (fallBackCounted A text pattern i fuel j compared).map Prod.fst = fallBack A text pattern i fuel j := by
  induction fuel generalizing j compared with
  | zero => rfl
  | succ fuel ih =>
      rw [fallBackCounted, fallBack]
      split
      · rfl
      · refine erase_under _ fun c => erase_under _ fun d => ?_
        by_cases same : c = d
        · simp only [same, if_true]
          rfl
        · simp only [same, if_false]
          exact erase_under _ fun value => ih value _

theorem fillTableCounted_erase (rest i : Nat) (j : Int) (A : Block Int) (compared : Nat) :
    (fillTableCounted fuel pattern rest i j A compared).map Prod.fst = fillTable fuel pattern rest i j A := by
  induction rest generalizing i j A compared with
  | zero => rfl
  | succ rest ih =>
      rw [fillTableCounted, fillTable]
      exact erase_bind (fallBackCounted_erase _ _ _ _) fun k count => erase_under _ fun next => ih _ _ next count

theorem searchFromCounted_erase (rest i : Nat) (j : Int) (out : Output) (compared : Nat) :
    (searchFromCounted host fuel A pattern m sb rest i j out compared).map Prod.fst =
      searchFrom host fuel A pattern m sb rest i j out := by
  induction rest generalizing i j out compared with
  | zero => rfl
  | succ rest ih =>
      rw [searchFromCounted, searchFrom]
      refine erase_bind (fallBackCounted_erase _ _ _ _) fun k count => ?_
      by_cases whole : k + 1 = m
      · simp only [whole, if_true]
        refine erase_under _ fun written => ?_
        by_cases failed : written.1 = -1
        · simp only [failed, if_true]
          rfl
        · simp only [failed, if_false]
          exact erase_under _ fun value => ih _ value _ count
      · simp only [whole, if_false]
        exact ih _ _ out count

theorem findCounted_erase (string : CString) (out : Output) :
    (findCounted host fuel sb string out).map Prod.fst = find host fuel sb string out := by
  rw [findCounted, find, buildPrefixTable]
  by_cases longer : string.strlen > sb.length
  · simp only [longer, if_true]
    rfl
  · simp only [longer, if_false, bind_assoc, pure_bind]
    refine erase_under _ fun begun => erase_bind (fillTableCounted_erase _ _ _ _ _) fun A count =>
      erase_under _ fun printed => ?_
    rw [kmpSearch]
    by_cases opened : host.opens = true
    · simp only [opened, if_true]
      exact searchFromCounted_erase _ _ _ _ count
    · simp only [opened]
      rfl

end

/-! ## The bound -/

/-- An entry that has been stored is smaller than its index. -/
def Descends (A : Block Int) : Prop :=
  ∀ (q : Nat) value, A.load q = .ok value → -1 ≤ value ∧ value < q

section

variable {A : Block Int} {text pattern : Block UInt8} {host : Host} {sb : StringBuffer} {fuel m : Nat}

theorem descends_malloc (size : Nat) : Descends (Block.malloc size) := by
  intro q value loaded
  rw [Block.load_eq_ok, Block.malloc, List.getElem?_replicate] at loaded
  split at loaded
  · cases Option.some.inj loaded
  · contradiction

theorem Descends.store (descends : Descends A) {q : Nat} {value : Int} {after : Block Int}
    (stored : A.store q value = .ok after) (lower : -1 ≤ value) (upper : value < q) : Descends after := by
  rcases Nat.lt_or_ge q A.length with room | beyond
  · obtain rfl := Except.ok.inj ((A.store_eq_ok q value room).symm.trans stored)
    intro other found loaded
    rw [Block.load_eq_ok] at loaded
    by_cases same : q = other
    · subst same
      rw [List.getElem?_set_self room] at loaded
      obtain rfl : value = found := Option.some.inj (Option.some.inj loaded)
      exact ⟨lower, upper⟩
    · rw [List.getElem?_set_ne same] at loaded
      exact descends other found (Block.load_eq_ok.mpr loaded)
  · rw [Block.store_beyond _ _ _ beyond] at stored
    contradiction

/-- Every comparison after the first has been paid for by a shorter prefix. -/
theorem fallBackCounted_pays (descends : Descends A) {i : Int} {j k : Int} {compared total : Nat} (lower : -1 ≤ j)
    (ran : fallBackCounted A text pattern i fuel j compared = .ok (k, total)) :
    -1 ≤ k ∧ k ≤ j ∧ total + k ≤ compared + j + 1 := by
  induction fuel generalizing j compared with
  | zero => contradiction
  | succ fuel ih =>
      rw [fallBackCounted] at ran
      split at ran
      · cases ran
        exact ⟨lower, Int.le_refl _, by omega⟩
      · obtain ⟨q, rfl⟩ : ∃ q : Nat, j = q := ⟨j.toNat, by omega⟩
        obtain ⟨c, -, ran⟩ := bind_eq_ok.mp ran
        obtain ⟨d, -, ran⟩ := bind_eq_ok.mp ran
        split at ran
        · cases ran
          exact ⟨lower, Int.le_refl _, by omega⟩
        · obtain ⟨value, loaded, ran⟩ := bind_eq_ok.mp ran
          have entry := descends q value loaded
          obtain ⟨least, most, paid⟩ := ih entry.1 ran
          exact ⟨least, by omega, by omega⟩

theorem fillTableCounted_pays {rest i : Nat} {j : Int} {after : Block Int} {compared total : Nat}
    (descends : Descends A) (lower : -1 ≤ j) (behind : j < i)
    (ran : fillTableCounted fuel pattern rest i j A compared = .ok (after, total)) :
    Descends after ∧ (total : Int) ≤ compared + j + 1 + 2 * rest := by
  induction rest generalizing i j A compared with
  | zero =>
      cases ran
      exact ⟨descends, by omega⟩
  | succ rest ih =>
      obtain ⟨⟨k, count⟩, fell, ran⟩ := bind_eq_ok.mp ran
      obtain ⟨next, stored, ran⟩ := bind_eq_ok.mp ran
      obtain ⟨least, most, paid⟩ := fallBackCounted_pays descends lower fell
      have entered : Descends next := @Descends.store A descends (i + 1) (k + 1) next stored (by omega) (by omega)
      obtain ⟨kept, bound⟩ := ih entered (by omega) (by omega) ran
      exact ⟨kept, by omega⟩

theorem searchFromCounted_pays {rest i : Nat} {j : Int} {out after : Output} {compared total : Nat}
    (descends : Descends A) (lower : -1 ≤ j)
    (ran : searchFromCounted host fuel A pattern m sb rest i j out compared = .ok (after, total)) :
    total ≤ compared + j.toNat + 2 * rest := by
  induction rest generalizing i j out compared with
  | zero =>
      cases ran
      omega
  | succ rest ih =>
      obtain ⟨⟨k, count⟩, fell, ran⟩ := bind_eq_ok.mp ran
      obtain ⟨least, most, paid⟩ := fallBackCounted_pays descends lower fell
      simp only at ran
      split at ran
      · obtain ⟨⟨code, written⟩, -, ran⟩ := bind_eq_ok.mp ran
        simp only at ran
        split at ran
        · cases ran
          omega
        · obtain ⟨value, loaded, ran⟩ := bind_eq_ok.mp ran
          have entry := descends m value loaded
          have bound := ih entry.1 ran
          omega
      · have bound := ih (by omega) ran
        omega

/-- A `find` that returns has compared at most twice for each byte of the pattern and
of the text, whatever its writes have returned. -/
theorem find_compares_linearly (host : Host) (fuel : Nat) (sb : StringBuffer) (string : CString) (out : Output) :
    (findCounted host fuel sb string out).map Prod.fst = find host fuel sb string out ∧
      ∀ after compared, findCounted host fuel sb string out = .ok (after, compared) →
        compared ≤ 2 * (string.strlen + sb.length) := by
  refine ⟨findCounted_erase string out, ?_⟩
  intro after compared ran
  rw [findCounted] at ran
  split at ran
  · cases ran
    omega
  · obtain ⟨begun, stored, ran⟩ := bind_eq_ok.mp ran
    obtain ⟨⟨A, count⟩, filled, ran⟩ := bind_eq_ok.mp ran
    obtain ⟨printed, -, ran⟩ := bind_eq_ok.mp ran
    have first : Descends begun := (descends_malloc _).store stored (by omega) (by decide)
    obtain ⟨descends, table⟩ := fillTableCounted_pays first (by omega) (by decide) filled
    split at ran
    · have search := searchFromCounted_pays descends (by omega) ran
      omega
    · cases ran
      omega

theorem find_compares_linearly_six : ∃ after compared,
    findCounted ⟨true, fun _ len => .done len⟩ 5 ⟨Block.ofList [97, 97, 98, 97, 97, 97] ++ [some 0], 6⟩
      ⟨[97, 97, 97], by decide⟩ (.previous []) = .ok (after, compared) ∧ compared ≤ 18 :=
  ⟨⟨foundMatch, 1, [5]⟩, 10, rfl, (find_compares_linearly ⟨true, fun _ len => .done len⟩ 5
    ⟨Block.ofList [97, 97, 98, 97, 97, 97] ++ [some 0], 6⟩ ⟨[97, 97, 97], by decide⟩ (.previous [])).2 _ _ rfl⟩

end

end SysProg.FileIo.Kmp
