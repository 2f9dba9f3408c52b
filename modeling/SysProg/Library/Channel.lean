import SysProg.Library.Block

namespace SysProg

/-! # Bounded channels

A queue between processes that holds at most `capacity` items, taken out in the
order in which they were put in, and the bytes of an `int` as they are passed
through it.
-/

structure Channel (α : Type) (capacity : Nat) where
  waiting : List α
  fits : waiting.length ≤ capacity
deriving DecidableEq

namespace Channel

variable {α : Type} {capacity : Nat}

def empty : Channel α capacity where
  waiting := []
  fits := Nat.zero_le _

/-- A sender waits while there is no room for all the items. -/
def send (channel : Channel α capacity) (items : List α) : Option (Channel α capacity) :=
  if fits : (channel.waiting ++ items).length ≤ capacity then some ⟨channel.waiting ++ items, fits⟩ else none

def receive (channel : Channel α capacity) (count : Nat) : List α × Channel α capacity :=
  (channel.waiting.take count, ⟨channel.waiting.drop count, by
    rw [List.length_drop]
    exact Nat.le_trans (Nat.sub_le _ _) channel.fits⟩)

/-- Everything sent has been received or is waiting, in the order in which it was sent. -/
def Carries (channel : Channel α capacity) (sent received : List α) : Prop :=
  sent = received ++ channel.waiting

variable {channel after : Channel α capacity} {sent received items : List α}

theorem carries_empty : (empty : Channel α capacity).Carries [] [] := rfl

theorem send_eq_some (went : channel.send items = some after) : after.waiting = channel.waiting ++ items := by
  unfold send at went
  split at went
  · cases went
    rfl
  · contradiction

theorem exists_send (room : channel.waiting.length + items.length ≤ capacity) :
    ∃ after, channel.send items = some after ∧ after.waiting = channel.waiting ++ items := by
  rw [← List.length_append] at room
  exact ⟨_, by rw [send, dif_pos room], rfl⟩

theorem Carries.send (carries : channel.Carries sent received) (went : channel.send items = some after) :
    after.Carries (sent ++ items) received := by
  rw [Carries, send_eq_some went, carries, List.append_assoc]

theorem Carries.receive (carries : channel.Carries sent received) (count : Nat) :
    (channel.receive count).2.Carries sent (received ++ (channel.receive count).1) := by
  rw [Carries, Channel.receive, List.append_assoc, List.take_append_drop]
  exact carries

theorem Carries.received_begins (carries : channel.Carries sent received) : received <+: sent :=
  ⟨channel.waiting, carries.symm⟩

end Channel

/-! ## Logs of several parties -/

section

variable {κ β : Type} [DecidableEq κ] {log : List (κ × β)} {who other : κ} {entry : β}

/-- The entries that one party made. -/
def entriesOf (who : κ) (log : List (κ × β)) : List β := (log.filter (·.1 = who)).map Prod.snd

theorem entriesOf_concat_self : entriesOf who (log ++ [(who, entry)]) = entriesOf who log ++ [entry] := by
  simp [entriesOf]

theorem entriesOf_concat_other (different : other ≠ who) :
    entriesOf who (log ++ [(other, entry)]) = entriesOf who log := by
  simp [entriesOf, different]

end

/-! ## The bytes of an `int`

Four of them, the least significant first.
-/

def intBytes (value : Int) : List UInt8 :=
  let bits := (value % 2 ^ 32).toNat
  [.ofNat bits, .ofNat (bits / 256), .ofNat (bits / 65536), .ofNat (bits / 16777216)]

def intOfBytes (bytes : List UInt8) : Int :=
  wrapInt (bytes.foldr (fun byte rest => byte.toNat + 256 * rest) 0 : Nat)

@[simp] theorem length_intBytes (value : Int) : (intBytes value).length = 4 := rfl

theorem intOfBytes_intBytes {value : Int} (range : InInt value) : intOfBytes (intBytes value) = value := by
  obtain ⟨lower, upper⟩ := range
  obtain ⟨bits, same⟩ : ∃ bits, bits = (value % 2 ^ 32).toNat := ⟨_, rfl⟩
  have bound : bits < 2 ^ 32 := by omega
  have digits : bits % 256 + 256 * (bits / 256 % 256 + 256 * (bits / 65536 % 256 + 256 * (bits / 16777216 % 256))) =
      bits := by omega
  simp only [intOfBytes, intBytes, ← same, List.foldr_cons, List.foldr_nil, UInt8.toNat_ofNat', Nat.mul_zero,
    Nat.add_zero, show 2 ^ 8 = 256 from rfl, digits]
  unfold wrapInt
  omega

end SysProg
