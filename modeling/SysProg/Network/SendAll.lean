import SysProg.Library.Transfer

namespace SysProg.Network.SendAll

/-! # Sending a whole buffer

`sendall` is the same function in `00-network-programming/examples/chat/client.c`
and `00-network-programming/examples/select_client.c`; `client_sendall` is that
of `00-network-programming/examples/client2.c`. The bytes that `send` accepts are
collected in `sent`. A loop that runs out of fuel is `Trap.diverged`.
-/

/-- `sendall`. Every `send` is given `buf` and `len`, as in the source. -/
def sendall (send : Schedule) (buf : List UInt8) (len : Int) :
    Nat → Nat → Int → List UInt8 → Except Trap (Int × List UInt8)
  | 0, _, _, _ => .error .diverged
  | fuel + 1, call, i, sent =>
      if i < len then
        match send call len.toNat with
        | .interrupted => sendall send buf len fuel (call + 1) i sent
        | .failed => .ok (-1, sent)
        | .done n => sendall send buf len fuel (call + 1) (wrapInt (i + n)) (sent ++ buf.take n)
      else .ok (0, sent)

/-- `client_sendall`. The `int` `n` is compared as a `size_t`, and what `send`
returns is narrowed to an `int`. -/
def clientSendall (send : Schedule) (buf : List UInt8) (len : Nat) :
    Nat → Nat → Int → List UInt8 → Except Trap (Int × List UInt8)
  | 0, _, _, _ => .error .diverged
  | fuel + 1, call, n, sent =>
      if n % 2 ^ 64 < len then
        match send call len with
        | .interrupted | .failed => .ok (-1, sent)
        | .done count =>
            if wrapInt count = -1 then .ok (-1, sent ++ buf.take count)
            else clientSendall send buf len fuel (call + 1) (wrapInt (n + wrapInt count)) (sent ++ buf.take count)
      else .ok (n, sent)

/-- Whenever the call returns, and not `-1`, `send` has accepted exactly these bytes. -/
def SendsExactly (called : Nat → Except Trap (Int × List UInt8)) (bytes : List UInt8) : Prop :=
  ∀ fuel code sent, called fuel = .ok (code, sent) → code ≠ -1 → sent = bytes

/-- `client_sendall` has not counted `len` before this `send`, and goes on after it: an
`int` does not take the count for `-1`. -/
def GoesOn (send : Schedule) (len call : Nat) : Prop :=
  send.counted len call % 2 ^ 64 < len ∧ ∃ n, send call len = .done n ∧ wrapInt n ≠ -1

/-- So many sends count up to `len`, and their sum is not taken for `-1` either. -/
def CountsUp (send : Schedule) (len calls : Nat) : Prop :=
  (∀ call < calls, GoesOn send len call) ∧ len ≤ send.counted len calls % 2 ^ 64 ∧ send.counted len calls ≠ -1

variable {send : Schedule} {buf sent after : List UInt8}

/-! ## `sendall` -/

section

variable {len i code : Int}

theorem sendall_resent (accepts : send.Accepts) (some : 0 < len) {fuel call : Nat}
    (ran : sendall send buf len fuel call i sent = .ok (code, after)) : Resent buf sent after := by
  induction fuel generalizing call i sent with
  | zero => contradiction
  | succ fuel ih =>
      rw [sendall] at ran
      split at ran
      · rcases accepts call len.toNat (by omega) with interrupted | ⟨n, more, -, accepted⟩
        · rw [interrupted] at ran
          exact ih ran
        · rw [accepted] at ran
          exact .piece n more (ih ran)
      · cases ran
        exact .done _

/-- What is left of a call after the first `send` that is not interrupted. -/
theorem sendall_first (accepts : send.Accepts) (unsent : i < len) (some : 0 < len) {fuel call : Nat}
    (ran : sendall send buf len fuel call i sent = .ok (code, after)) :
    ∃ n fuel later, 0 < n ∧ n ≤ len.toNat ∧ send.First len.toNat n call ∧
      sendall send buf len fuel later (wrapInt (i + n)) (sent ++ buf.take n) = .ok (code, after) := by
  induction fuel generalizing call with
  | zero => contradiction
  | succ fuel ih =>
      rw [sendall, if_pos unsent] at ran
      rcases accepts call len.toNat (by omega) with interrupted | ⟨n, more, most, accepted⟩
      · rw [interrupted] at ran
        obtain ⟨n, fuel, later, more, most, first, rest⟩ := ih ran
        exact ⟨n, fuel, later, more, most, .interrupted interrupted first, rest⟩
      · rw [accepted] at ran
        exact ⟨n, fuel, call + 1, more, most, .accepted accepted, ran⟩

theorem sendall_returns (buf sent : List UInt8) (unsent : i < len) {call n : Nat} (first : send.First len.toNat n call)
    (finished : len ≤ wrapInt (i + n)) :
    ∃ fuel, sendall send buf len fuel call i sent = .ok (0, sent ++ buf.take n) := by
  induction first with
  | accepted accepted =>
      refine ⟨2, ?_⟩
      rw [sendall, if_pos unsent, accepted]
      simp only [sendall, if_neg (Int.not_lt.mpr finished)]
  | interrupted interrupted later ih =>
      obtain ⟨fuel, ran⟩ := ih
      refine ⟨fuel + 1, ?_⟩
      rw [sendall, if_pos unsent, interrupted]
      exact ran

theorem sendall_stops (finished : ¬ i < len) {fuel call : Nat}
    (ran : sendall send buf len fuel call i sent = .ok (code, after)) : sent = after := by
  cases fuel with
  | zero => contradiction
  | succ fuel =>
      rw [sendall, if_neg finished] at ran
      cases ran
      rfl

/-- A call that succeeds has counted up to `len`. -/
theorem sendall_counted {fuel call : Nat} (success : code ≠ -1)
    (ran : sendall send buf len fuel call (send.counted len.toNat call) sent = .ok (code, after)) :
    ∃ calls, len ≤ send.counted len.toNat calls := by
  induction fuel generalizing call sent with
  | zero => contradiction
  | succ fuel ih =>
      rw [sendall] at ran
      split at ran
      · cases result : send call len.toNat with
        | interrupted =>
            rw [result, ← Schedule.counted_interrupted result] at ran
            exact ih ran
        | failed =>
            rw [result] at ran
            cases ran
            exact absurd rfl success
        | done n =>
            rw [result] at ran
            simp only [← Schedule.counted_done result] at ran
            exact ih ran
      · exact ⟨call, by omega⟩

/-- A call whose sends count up to `len` succeeds. -/
theorem sendall_ends (accepts : send.Accepts) (some : 0 < len) (buf : List UInt8) {rest call : Nat}
    (reached : len ≤ send.counted len.toNat (call + rest)) (sent : List UInt8) :
    ∃ fuel after, sendall send buf len fuel call (send.counted len.toNat call) sent = .ok (0, after) := by
  induction rest generalizing call sent with
  | zero =>
      rw [Nat.add_zero] at reached
      exact ⟨1, sent, by rw [sendall, if_neg (Int.not_lt.mpr reached)]⟩
  | succ rest ih =>
      by_cases unsent : send.counted len.toNat call < len
      · have later := @ih (call + 1) (by rw [Nat.add_assoc, Nat.add_comm 1]; exact reached)
        rcases accepts call len.toNat (by omega) with interrupted | ⟨n, -, -, accepted⟩
        · obtain ⟨fuel, after, ran⟩ := later sent
          rw [Schedule.counted_interrupted interrupted] at ran
          exact ⟨fuel + 1, after, by rw [sendall, if_pos unsent, interrupted]; exact ran⟩
        · obtain ⟨fuel, after, ran⟩ := later (sent ++ buf.take n)
          rw [Schedule.counted_done accepted] at ran
          exact ⟨fuel + 1, after, by rw [sendall, if_pos unsent, accepted]; exact ran⟩
      · exact ⟨1, sent, by rw [sendall, if_neg unsent]⟩

theorem sendall_whole (some : 0 < len) (range : len < 2 ^ 31) : wrapInt (0 + (len.toNat : Int)) = len := by
  rw [wrapInt_of_range (by omega) (by omega)]
  omega

theorem sendall_succeeds (range : len < 2 ^ 31) (first : send.First len.toNat len.toNat 0) (buf : List UInt8) :
    ∃ fuel, sendall send buf len fuel 0 0 [] = .ok (0, buf.take len.toNat) := by
  by_cases some : 0 < len
  · exact sendall_returns buf [] some first (Int.le_of_eq (sendall_whole some range).symm)
  · have nothing : len.toNat = 0 := by omega
    exact ⟨1, by rw [sendall, if_neg some, nothing, List.take_zero]⟩

theorem sendsExactly_sendall_iff (accepts : send.Accepts) (range : len < 2 ^ 31) :
    (∀ buf : List UInt8, len ≤ buf.length →
      SendsExactly (fun fuel => sendall send buf len fuel 0 0 []) (buf.take len.toNat)) ↔
      len ≤ 0 ∨ (∀ n, send.First len.toNat n 0 → n = len.toNat) ∨ ∀ calls, send.counted len.toNat calls < len := by
  constructor
  · intro exact
    by_contra other
    simp only [not_or, not_forall] at other
    obtain ⟨positive, ⟨n, first, partly⟩, calls, reached⟩ := other
    have some : 0 < len := Int.not_le.mp positive
    have length := Resent.length_marker (show 0 < len.toNat by omega)
    have within : len ≤ send.counted len.toNat (0 + calls) := by
      rw [Nat.zero_add]
      exact Int.not_lt.mp reached
    obtain ⟨fuel, after, ran⟩ := sendall_ends accepts some (Resent.marker len.toNat) within []
    have sent := exact (Resent.marker len.toNat) (by omega) fuel 0 after ran (by decide)
    rw [List.take_of_length_le (Nat.le_of_eq length)] at sent
    rw [sent] at ran
    obtain ⟨m, fuel, later, more, most, again, rest⟩ := sendall_first accepts some some ran
    have short : m < len.toNat := Nat.lt_of_le_of_ne most (first.unique again ▸ partly)
    rw [List.nil_append] at rest
    exact Resent.not_marker more short (sendall_resent accepts some rest)
  · intro meets buf enough fuel code sent ran success
    by_cases some : 0 < len
    · rcases meets.resolve_left (Int.not_le.mpr some) with whole | never
      · obtain ⟨n, fuel, later, -, -, first, rest⟩ := sendall_first accepts some some ran
        rw [whole n first, sendall_whole some range, List.nil_append] at rest
        exact (sendall_stops (Int.lt_irrefl _) rest).symm
      · obtain ⟨calls, reached⟩ := sendall_counted success ran
        exact absurd (never calls) (Int.not_lt.mpr reached)
    · have nothing : len.toNat = 0 := by omega
      rw [nothing, List.take_zero]
      exact (sendall_stops some ran).symm

end

/-! ## `client_sendall` -/

section

variable {len : Nat} {n code : Int}

theorem clientSendall_resent (accepts : send.Accepts) (some : 0 < len) {fuel call : Nat}
    (ran : clientSendall send buf len fuel call n sent = .ok (code, after)) : Resent buf sent after := by
  induction fuel generalizing call n sent with
  | zero => contradiction
  | succ fuel ih =>
      rw [clientSendall] at ran
      split at ran
      · rcases accepts call len some with interrupted | ⟨count, more, -, accepted⟩
        · rw [interrupted] at ran
          cases ran
          exact .done _
        · simp only [accepted] at ran
          split at ran
          · cases ran
            exact .piece count more (.done _)
          · exact .piece count more (ih ran)
      · cases ran
        exact .done _

theorem clientSendall_stops (finished : ¬ n % 2 ^ 64 < len) {fuel call : Nat}
    (ran : clientSendall send buf len fuel call n sent = .ok (code, after)) : sent = after := by
  cases fuel with
  | zero => contradiction
  | succ fuel =>
      rw [clientSendall, if_neg finished] at ran
      cases ran
      rfl

/-- What is left of a call that does not fail, after the first `send`. -/
theorem clientSendall_first (accepts : send.Accepts) (some : 0 < len) {fuel call : Nat}
    (unsent : n % 2 ^ 64 < len) (success : code ≠ -1)
    (ran : clientSendall send buf len fuel call n sent = .ok (code, after)) :
    ∃ count left, 0 < count ∧ count ≤ len ∧ send call len = .done count ∧ wrapInt count ≠ -1 ∧ fuel = left + 1 ∧
      clientSendall send buf len left (call + 1) (wrapInt (n + wrapInt count)) (sent ++ buf.take count) =
        .ok (code, after) := by
  cases fuel with
  | zero => contradiction
  | succ fuel =>
      rw [clientSendall, if_pos unsent] at ran
      rcases accepts call len some with interrupted | ⟨count, more, most, accepted⟩
      · rw [interrupted] at ran
        cases ran
        exact absurd rfl success
      · simp only [accepted] at ran
        split at ran
        · cases ran
          exact absurd rfl success
        · rename_i counted
          exact ⟨count, fuel, more, most, accepted, counted, rfl, ran⟩

/-- The `int` that counts up to this length is not taken for a failure or for less. -/
def Counts (len : Nat) : Prop := len < 2 ^ 31 ∨ 2 ^ 31 ≤ len % 2 ^ 32 ∧ len % 2 ^ 32 ≠ 2 ^ 32 - 1

theorem counts_iff (range : len < 2 ^ 64) :
    Counts len ↔ wrapInt len ≠ -1 ∧ (len : Int) ≤ wrapInt len % 2 ^ 64 := by
  unfold Counts wrapInt
  constructor
  · rintro (small | ⟨negative, other⟩) <;> constructor <;> omega
  · rintro ⟨other, most⟩
    by_cases small : len < 2 ^ 31
    · exact .inl small
    · right
      omega

theorem wrapInt_add_wrapInt (total count : Int) : wrapInt (total + wrapInt count) = wrapInt (total + count) := by
  unfold wrapInt
  omega

theorem wrapInt_zero_add (value : Int) : wrapInt (0 + wrapInt value) = wrapInt value := by
  rw [wrapInt_add_wrapInt, Int.zero_add]

/-- A call that has sent the buffer and does not fail has counted all of it. -/
theorem clientSendall_counted (accepts : send.Accepts) (some : 0 < len) {fuel call : Nat} (full : buf.length = len)
    (success : code ≠ -1) (ran : clientSendall send buf len fuel call n buf = .ok (code, buf)) :
    (len : Int) ≤ n % 2 ^ 64 := by
  by_contra less
  obtain ⟨count, left, more, most, -, -, -, rest⟩ :=
    clientSendall_first accepts some (Int.not_le.mp less) success ran
  obtain ⟨extra, longer⟩ := (clientSendall_resent accepts some rest).exists_append
  have length := congrArg List.length longer
  simp only [List.length_append, List.length_take] at length
  omega

theorem clientSendall_counted_succ {count call : Nat} (accepted : send call len = .done count) :
    wrapInt (send.counted len call + wrapInt count) = send.counted len (call + 1) := by
  rw [wrapInt_add_wrapInt, Schedule.counted_done accepted]

/-- A call that does not fail counts up to `len`. -/
theorem clientSendall_countsUp (accepts : send.Accepts) (some : 0 < len) {fuel call : Nat} (success : code ≠ -1)
    (earlier : ∀ before < call, GoesOn send len before)
    (ran : clientSendall send buf len fuel call (send.counted len call) sent = .ok (code, after)) :
    ∃ calls, CountsUp send len calls := by
  induction fuel generalizing call sent with
  | zero => contradiction
  | succ fuel ih =>
      by_cases unsent : send.counted len call % 2 ^ 64 < len
      · obtain ⟨count, left, -, -, accepted, counted, same, rest⟩ :=
          clientSendall_first accepts some unsent success ran
        cases same
        rw [clientSendall_counted_succ accepted] at rest
        refine ih (fun before less => ?_) rest
        rcases Nat.lt_or_eq_of_le (Nat.le_of_lt_succ less) with old | rfl
        · exact earlier before old
        · exact ⟨unsent, count, accepted, counted⟩
      · rw [clientSendall, if_neg unsent] at ran
        cases ran
        exact ⟨call, earlier, Int.not_lt.mp unsent, success⟩

/-- A call whose sends count up to `len` does not fail. -/
theorem clientSendall_ends (buf : List UInt8) {calls : Nat} (counts : CountsUp send len calls) {rest call : Nat}
    (position : call + rest = calls) (sent : List UInt8) :
    ∃ fuel after, clientSendall send buf len fuel call (send.counted len call) sent =
      .ok (send.counted len calls, after) := by
  induction rest generalizing call sent with
  | zero =>
      rw [← position, Nat.add_zero] at counts ⊢
      exact ⟨1, sent, by rw [clientSendall, if_neg (Int.not_lt.mpr counts.2.1)]⟩
  | succ rest ih =>
      obtain ⟨unsent, count, accepted, counted⟩ := counts.1 call (by omega)
      obtain ⟨fuel, after, ran⟩ := ih (show call + 1 + rest = calls by omega) (sent ++ buf.take count)
      rw [← clientSendall_counted_succ accepted] at ran
      refine ⟨fuel + 1, after, ?_⟩
      rw [clientSendall, if_pos unsent]
      simp only [accepted, if_neg counted]
      exact ran

theorem clientSendall_succeeds (range : len < 2 ^ 64) (whole : send 0 len = .done len ∧ Counts len)
    (buf : List UInt8) : ∃ fuel, clientSendall send buf len fuel 0 0 [] = .ok (wrapInt len, buf.take len) := by
  obtain ⟨first, counts⟩ := whole
  obtain ⟨counted, reached⟩ := (counts_iff range).mp counts
  by_cases none : len = 0
  · rw [none]
    exact ⟨1, rfl⟩
  · have unsent : (0 : Int) % 2 ^ 64 < len := by omega
    refine ⟨2, ?_⟩
    rw [clientSendall, if_pos unsent, first]
    simp only [if_neg counted, wrapInt_zero_add, clientSendall, if_neg (Int.not_lt.mpr reached), List.nil_append]

theorem sendsExactly_clientSendall_iff (accepts : send.Accepts) (range : len < 2 ^ 64) :
    (∀ buf : List UInt8, len ≤ buf.length →
      SendsExactly (fun fuel => clientSendall send buf len fuel 0 0 []) (buf.take len)) ↔
      len = 0 ∨ (send 0 len = .done len ∧ Counts len) ∨ ∀ calls, ¬ CountsUp send len calls := by
  constructor
  · intro exact
    by_contra other
    simp only [not_or, not_forall, not_not] at other
    obtain ⟨nonempty, refused, calls, counts⟩ := other
    have some : 0 < len := Nat.pos_of_ne_zero nonempty
    have length := Resent.length_marker some
    obtain ⟨fuel, after, ran⟩ := clientSendall_ends (Resent.marker len) counts (Nat.zero_add calls) []
    rw [Schedule.counted] at ran
    have sent := exact (Resent.marker len) (Nat.le_of_eq length.symm) fuel _ after ran counts.2.2
    rw [List.take_of_length_le (Nat.le_of_eq length)] at sent
    rw [sent] at ran
    obtain ⟨count, left, more, most, first, counted, -, rest⟩ :=
      clientSendall_first accepts some (by simpa using some) counts.2.2 ran
    rw [List.nil_append] at rest
    rcases Nat.lt_or_eq_of_le most with short | rfl
    · exact Resent.not_marker more short (clientSendall_resent accepts some rest)
    · rw [List.take_of_length_le (Nat.le_of_eq length), wrapInt_zero_add] at rest
      have reached := clientSendall_counted accepts some length counts.2.2 rest
      exact refused ⟨first, (counts_iff range).mpr ⟨counted, reached⟩⟩
  · intro meets buf enough fuel code sent ran success
    by_cases none : len = 0
    · rw [none] at ran ⊢
      exact (clientSendall_stops (by decide) ran).symm
    · have some : 0 < len := Nat.pos_of_ne_zero none
      rcases meets.resolve_left none with ⟨whole, counts⟩ | never
      · obtain ⟨count, left, -, -, first, -, -, rest⟩ :=
          clientSendall_first accepts some (by simpa using some) success ran
        rw [whole] at first
        cases first
        rw [wrapInt_zero_add, List.nil_append] at rest
        exact (clientSendall_stops (Int.not_lt.mpr ((counts_iff range).mp counts).2) rest).symm
      · obtain ⟨calls, counts⟩ := clientSendall_countsUp accepts some success (by simp) ran
        exact absurd counts (never calls)

end

/-- What the functions send when they succeed is the buffer if and only if the first
`send` that is not interrupted accepts all of it, or they do not succeed. -/
theorem sends_exactly_iff (send : Schedule) (accepts : send.Accepts) :
    (∀ len : Int, len < 2 ^ 31 →
      ((∀ buf : List UInt8, len ≤ buf.length →
        SendsExactly (fun fuel => sendall send buf len fuel 0 0 []) (buf.take len.toNat)) ↔
        len ≤ 0 ∨ (∀ n, send.First len.toNat n 0 → n = len.toNat) ∨
          ∀ calls, send.counted len.toNat calls < len) ∧
      (send.First len.toNat len.toNat 0 → ∀ buf : List UInt8,
        ∃ fuel, sendall send buf len fuel 0 0 [] = .ok (0, buf.take len.toNat))) ∧
    (∀ len : Nat, len < 2 ^ 64 →
      ((∀ buf : List UInt8, len ≤ buf.length →
        SendsExactly (fun fuel => clientSendall send buf len fuel 0 0 []) (buf.take len)) ↔
        len = 0 ∨ (send 0 len = .done len ∧ Counts len) ∨ ∀ calls, ¬ CountsUp send len calls) ∧
      (send 0 len = .done len ∧ Counts len → ∀ buf : List UInt8,
        ∃ fuel, clientSendall send buf len fuel 0 0 [] = .ok (wrapInt len, buf.take len))) :=
  ⟨fun _ range => ⟨sendsExactly_sendall_iff accepts range, sendall_succeeds range⟩,
    fun _ range => ⟨sendsExactly_clientSendall_iff accepts range, clientSendall_succeeds range⟩⟩

/-- The first call is interrupted, and the others accept all that they request. -/
def interruptedOnce : Schedule := fun call len => if call = 0 then .interrupted else .done len

theorem interruptedOnce_accepts : interruptedOnce.Accepts := by
  intro call len some
  rw [interruptedOnce]
  split
  · exact .inl rfl
  · exact .inr ⟨len, some, Nat.le_refl _, rfl⟩

/-- Every call accepts all that it requests. -/
def atOnce : Schedule := fun _ len => .done len

theorem atOnce_accepts : atOnce.Accepts := by
  intro call len some
  exact .inr ⟨len, some, Nat.le_refl _, rfl⟩

theorem sends_exactly_two_bytes :
    (SendsExactly (fun fuel => sendall interruptedOnce [1, 2] 2 fuel 0 0 []) [1, 2] ∧
      ∃ fuel, sendall interruptedOnce [1, 2] 2 fuel 0 0 [] = .ok (0, [1, 2])) ∧
    (SendsExactly (fun fuel => clientSendall atOnce [1, 2] 2 fuel 0 0 []) [1, 2] ∧
      ∃ fuel, clientSendall atOnce [1, 2] 2 fuel 0 0 [] = .ok (2, [1, 2])) := by
  have first : interruptedOnce.First 2 2 0 := .interrupted rfl (.accepted rfl)
  obtain ⟨exact, succeeds⟩ := (sends_exactly_iff interruptedOnce interruptedOnce_accepts).1 2 (by decide)
  obtain ⟨client, clientSucceeds⟩ := (sends_exactly_iff atOnce atOnce_accepts).2 2 (by decide)
  have counts : atOnce 0 2 = .done 2 ∧ Counts 2 := ⟨rfl, .inl (by decide)⟩
  exact ⟨⟨exact.mpr (.inr (.inl fun n again => again.unique first)) [1, 2] (by decide), succeeds first [1, 2]⟩,
    client.mpr (.inr (.inl counts)) [1, 2] (by decide), clientSucceeds counts [1, 2]⟩

/-- Every call accepts one byte. -/
def oneByte : Schedule := fun _ _ => .done 1

theorem oneByte_accepts : oneByte.Accepts := by
  intro call len some
  exact .inr ⟨1, Nat.one_pos, some, rfl⟩

/-- Of two bytes the first is sent twice and the second never. -/
theorem first_byte_sent_twice :
    ¬ (∀ (send : Schedule) (buf : List UInt8) (len : Int), send.Accepts → len < 2 ^ 31 → len ≤ buf.length →
      ∀ fuel code sent, sendall send buf len fuel 0 0 [] = .ok (code, sent) → code ≠ -1 →
        sent = buf.take len.toNat) ∧
    ¬ (∀ (send : Schedule) (buf : List UInt8) (len : Nat), send.Accepts → len < 2 ^ 64 → len ≤ buf.length →
      ∀ fuel code sent, clientSendall send buf len fuel 0 0 [] = .ok (code, sent) → code ≠ -1 →
        sent = buf.take len) := by
  constructor
  · intro exact
    have sent := exact oneByte [1, 2] 2 oneByte_accepts (by decide) (by decide) 3 0 [1, 1] rfl (by decide)
    exact absurd sent (by decide)
  · intro exact
    have sent := exact oneByte [1, 2] 2 oneByte_accepts (by decide) (by decide) 3 2 [1, 1] rfl (by decide)
    exact absurd sent (by decide)

end SysProg.Network.SendAll
