import SysProg.Network.Listener.Reply
import SysProg.Network.Listener.Serving

namespace SysProg.Network.Listener

/-! ## A line that `input_reply` has returned -/

variable {received rest : List UInt8} {n cap : Int} {buf final : Block UInt8} {c : UInt8} {error : Bool}

/-- The buffer does not grow beyond the range of `int`. -/
theorem Held.grow_fails (held : Held received n cap buf) (long : 2 ^ 30 ≤ received.length) :
    growBuffer n cap buf = .error .outOfBounds := by
  obtain ⟨count, -, exponent, limit, capacity, -, fits, -⟩ := held
  have most : 2 ^ exponent ≤ 2 ^ 30 := Nat.pow_le_pow_right (by decide) limit
  have exact : cap = ((2 ^ 30 : Nat) : Int) := by omega
  have full : n = cap := by omega
  have overflow : wrapInt (((2 ^ 30 : Nat) : Int) * 2) = -2 ^ 31 := by decide
  rw [growBuffer, if_pos full, exact, overflow, Block.realloc, if_neg (by decide)]

theorem Held.terminates {whole : List UInt8} {length : Int} (held : Held whole length cap buf)
    (stored : buf.store whole.length 0 = .ok final) : final.cString = .ok (whole.takeWhile (· ≠ 0)) := by
  have room : whole.length < buf.length := by
    by_contra full
    rw [Block.store_beyond _ _ _ (Nat.not_lt.mp full)] at stored
    contradiction
  obtain ⟨after, same, -, string⟩ := held.begins.store room 0
  obtain rfl := Except.ok.inj (stored.symm.trans same)
  exact string.cString

/-- The buffer holds the bytes up to the first newline, and the rest has not been read. -/
theorem Held.returned {stdin : List UInt8} (held : Held received n cap buf)
    (ran : replyLoop error stdin n cap buf = .ok (.returned final rest)) :
    ∃ line, 10 ∉ line ∧ stdin = line ++ 10 :: rest ∧
      final.cString = .ok ((received ++ line ++ [10]).takeWhile (· ≠ 0)) := by
  induction stdin generalizing received n cap buf with
  | nil => cases error <;> cases ran
  | cons c stdin ih =>
      rcases Nat.lt_or_ge received.length (2 ^ 30) with short | long
      · obtain ⟨nextCap, grown, nextBuf, grew, stored, more⟩ := held.grow c short
        rw [replyLoop, grew, ok_bind] at ran
        simp only [stored, ok_bind] at ran
        by_cases newline : c = 10
        · simp only [newline, if_true] at ran
          obtain ⟨last, ended, whole⟩ := bind_eq_ok.mp ran
          cases whole
          rw [newline] at more
          have string := more.terminates (more.count ▸ ended)
          exact ⟨[], List.not_mem_nil, by rw [newline]; rfl, by simpa using string⟩
        · simp only [newline, if_false] at ran
          obtain ⟨line, free, split, string⟩ := ih more ran
          refine ⟨c :: line, ?_, by rw [split]; rfl, by simpa using string⟩
          rw [List.mem_cons, not_or]
          exact ⟨Ne.symm newline, free⟩
      · rw [replyLoop, held.grow_fails long] at ran
        cases ran

/-! ## One line for each datagram -/

/-- The sender of a datagram, and the line that has been typed for it. -/
structure Turn where
  peer : Peer
  line : List UInt8

/-- The line ends with its only newline. -/
def Turn.Typed (turn : Turn) : Prop := ∃ front, 10 ∉ front ∧ turn.line = front ++ [10]

/-- What `sendto` is given. -/
def Turn.reply (turn : Turn) : List UInt8 × Peer × Nat :=
  (turn.line.takeWhile (· ≠ 0), turn.peer, sockaddrSize turn.peer)

/-- The replies that `sendto` has passed on, given the outcomes of its calls. -/
def answered (turns : List Turn) (outcomes : List Bool) : List (List UInt8 × Peer × Nat) :=
  ((turns.zip outcomes).filter Prod.snd).map fun call => call.1.reply

def Serving.Stage (senders : List Peer) (turns : List Turn) (outcomes : List Bool) : Serving → Prop
  | .receiving => senders = turns.map Turn.peer ∧ turns.length = outcomes.length
  | .replying peer => senders = turns.map Turn.peer ++ [peer] ∧ turns.length = outcomes.length
  | .sending peer buf => senders = turns.map Turn.peer ∧ ∃ earlier line, turns = earlier ++ [⟨peer, line⟩] ∧
      buf.cString = .ok (line.takeWhile (· ≠ 0)) ∧ earlier.length = outcomes.length
  | .exited _ | .crashed => turns.map Turn.peer <+: senders ∧ turns.length = outcomes.length

/-- The senders of the datagrams that have been received are answered in turn, each with the
next line on stdin. -/
structure Answers (stdin : List UInt8) (senders : List Peer) (outcomes : List Bool) (turns : List Turn)
    (server : Server) : Prop where
  consumed : stdin = (turns.map Turn.line).flatten ++ server.stdin
  typed : ∀ turn ∈ turns, turn.Typed
  sent : server.sent = answered turns outcomes
  stage : server.phase.Stage senders turns outcomes

/-- The sender of the datagram that the step receives. -/
def ServerAction.sender : ServerAction → Option Peer
  | .recvfrom (some datagram) => some datagram.peer
  | .recvfrom none | .reply | .sendto _ => none

/-- Whether the step's call of `sendto` succeeds. -/
def ServerAction.outcome : ServerAction → Option Bool
  | .sendto succeeds => some succeeds
  | .recvfrom _ | .reply => none

variable {stdin : List UInt8} {senders : List Peer} {outcomes : List Bool} {turns earlier : List Turn} {server after : Server}
  {peer : Peer}

/-- A turn that has not come to its `sendto`. -/
theorem answered_append (same : earlier.length = outcomes.length) (turn : Turn) :
    answered (earlier ++ [turn]) outcomes = answered earlier outcomes := by
  have zipped : (earlier ++ [turn]).zip (outcomes ++ []) = earlier.zip outcomes ++ [turn].zip [] := List.zip_append same
  rw [List.append_nil, List.zip_nil_right, List.append_nil] at zipped
  rw [answered, zipped]
  rfl

theorem answered_concat (same : earlier.length = outcomes.length) (turn : Turn) (succeeds : Bool) :
    answered (earlier ++ [turn]) (outcomes ++ [succeeds]) =
      answered earlier outcomes ++ if succeeds then [turn.reply] else [] := by
  rw [answered, List.zip_append same, List.filter_append, List.map_append]
  cases succeeds <;> rfl

theorem answers_start (error : Bool) (stdin : List UInt8) : Answers stdin [] [] [] (serveForever error stdin).init where
  consumed := rfl
  typed _ member := absurd member List.not_mem_nil
  sent := rfl
  stage := ⟨rfl, rfl⟩

/-- The senders have their turns in the order in which the datagrams have been received. -/
theorem Answers.begins (answers : Answers stdin senders outcomes turns server) : turns.map Turn.peer <+: senders := by
  have stage := answers.stage
  cases phase : server.phase with
  | receiving | sending =>
      rw [phase] at stage
      exact stage.1 ▸ List.prefix_refl _
  | replying peer =>
      rw [phase] at stage
      rw [stage.1]
      exact List.prefix_append _ _
  | exited code | crashed =>
      rw [phase] at stage
      exact stage.1

theorem Answers.receive (answers : Answers stdin senders outcomes turns server) (receiving : server.phase = .receiving)
    (datagram : Datagram) : Answers stdin (senders ++ [datagram.peer]) outcomes turns (receiveMessage server datagram) := by
  obtain ⟨consumed, typed, sent, stage⟩ := answers
  rw [receiving] at stage
  obtain ⟨rfl, same⟩ := stage
  simp only [receiveMessage]
  split
  · exact ⟨consumed, typed, sent, List.prefix_append _ _, same⟩
  · exact ⟨consumed, typed, sent, rfl, same⟩

theorem Answers.reply (answers : Answers stdin senders outcomes turns server) (replying : server.phase = .replying peer) :
    ∃ more, Answers stdin senders outcomes (turns ++ more) (replyMessage error peer server) := by
  obtain ⟨consumed, typed, sent, stage⟩ := answers
  rw [replying] at stage
  obtain ⟨rfl, same⟩ := stage
  simp only [replyMessage]
  split
  · refine ⟨[], ?_⟩
    rw [List.append_nil]
    exact ⟨consumed, typed, sent, List.prefix_append _ _, same⟩
  · refine ⟨[], ?_⟩
    rw [List.append_nil]
    exact ⟨consumed, typed, sent, List.prefix_append _ _, same⟩
  · rename_i final rest ran
    obtain ⟨line, free, split, string⟩ := held_start.returned ran
    refine ⟨[⟨peer, line ++ [10]⟩], ?_, ?_, ?_, ?_⟩
    · rw [consumed, split]
      simp
    · intro turn member
      rcases List.mem_append.mp member with before | now
      · exact typed turn before
      · rw [List.mem_singleton.mp now]
        exact ⟨line, free, rfl⟩
    · exact sent.trans (answered_append same _).symm
    · exact ⟨by simp, turns, line ++ [10], rfl, by simpa using string, same⟩

theorem Answers.sendto (answers : Answers stdin senders outcomes turns server) (sending : server.phase = .sending peer buf)
    (succeeds : Bool) : Answers stdin senders (outcomes ++ [succeeds]) turns (sendReply succeeds peer buf server) := by
  obtain ⟨consumed, typed, sent, stage⟩ := answers
  rw [sending] at stage
  obtain ⟨senders, earlier, line, rfl, string, same⟩ := stage
  have length : (earlier ++ [(⟨peer, line⟩ : Turn)]).length = (outcomes ++ [succeeds]).length := by simp [same]
  rw [answered_append same] at sent
  have added := answered_concat same ⟨peer, line⟩ succeeds
  simp only [sendReply, string]
  cases succeeds with
  | true => exact ⟨consumed, typed, by rw [added, ← sent]; rfl, senders, length⟩
  | false => exact ⟨consumed, typed, by rw [added, ← sent]; exact (List.append_nil _).symm, senders, length⟩

theorem Answers.next (answers : Answers stdin senders outcomes turns server) {action : ServerAction}
    (moved : serverNext error server action = some after) :
    ∃ more, Answers stdin (senders ++ action.sender.toList) (outcomes ++ action.outcome.toList) (turns ++ more) after := by
  unfold serverNext at moved
  split at moved <;> cases moved
  · obtain ⟨consumed, typed, sent, stage⟩ := answers
    refine ⟨[], ?_⟩
    simp only [ServerAction.sender, ServerAction.outcome, Option.toList_none, List.append_nil]
    exact ⟨consumed, typed, sent, stage⟩
  · rename_i receiving
    exact ⟨[], by simpa [ServerAction.sender, ServerAction.outcome] using answers.receive receiving _⟩
  · rename_i replying
    obtain ⟨more, replied⟩ := answers.reply replying
    exact ⟨more, by simpa [ServerAction.sender, ServerAction.outcome] using replied⟩
  · rename_i sending
    exact ⟨[], by simpa [ServerAction.sender, ServerAction.outcome] using answers.sendto sending _⟩

theorem filterMap_cons_toList {α β : Type} (f : α → Option β) (first : α) (rest : List α) :
    (first :: rest).filterMap f = (f first).toList ++ rest.filterMap f := by
  cases found : f first with
  | none => rw [List.filterMap_cons_none found]; rfl
  | some value => rw [List.filterMap_cons_some found]; rfl

theorem Answers.run {actions : List ServerAction} (answers : Answers stdin senders outcomes turns server)
    (ran : (serveForever error stdin).run server actions = some after) :
    ∃ more, Answers stdin (senders ++ actions.filterMap ServerAction.sender)
      (outcomes ++ actions.filterMap ServerAction.outcome) (turns ++ more) after := by
  induction actions generalizing senders outcomes turns server with
  | nil =>
      cases ran
      exact ⟨[], by simpa using answers⟩
  | cons action rest ih =>
      obtain ⟨next, moved, continued⟩ := Machine.run_cons.mp ran
      obtain ⟨first, stepped⟩ := answers.next moved
      obtain ⟨later, whole⟩ := ih stepped continued
      refine ⟨first ++ later, ?_⟩
      simpa only [filterMap_cons_toList, List.append_assoc] using whole

/-- In every run of `serve_forever` the senders of the datagrams are answered one after the other,
each with one line of stdin up to its first NUL, in the order in which the lines were typed: what has been sent is the reply
of each turn whose `sendto` has succeeded, and when the next datagram is awaited every sender has had
its turn. -/
theorem serve_forever_in_turn (error : Bool) (stdin : List UInt8) (actions : List ServerAction) (server : Server)
    (ran : (serveForever error stdin).run (serveForever error stdin).init actions = some server) :
    ∃ turns, stdin = (turns.map Turn.line).flatten ++ server.stdin ∧
      (∀ turn ∈ turns, ∃ front, 10 ∉ front ∧ turn.line = front ++ [10]) ∧
      server.sent = answered turns (actions.filterMap ServerAction.outcome) ∧
      turns.map Turn.peer <+: actions.filterMap ServerAction.sender ∧
      (server.phase = .receiving → turns.map Turn.peer = actions.filterMap ServerAction.sender ∧
        turns.length = (actions.filterMap ServerAction.outcome).length) := by
  obtain ⟨turns, answers⟩ := (answers_start error stdin).run ran
  simp only [List.nil_append] at answers
  have begins := answers.begins
  obtain ⟨consumed, typed, sent, stage⟩ := answers
  refine ⟨turns, consumed, typed, sent, begins, ?_⟩
  intro receiving
  rw [receiving] at stage
  exact ⟨stage.1.symm, stage.2⟩

/-- Two datagrams, and a reply that cannot be sent. -/
def twoDatagrams : List ServerAction :=
  let from4 : Peer := { family := afInet, addr := [1] }
  let from6 : Peer := { family := afInet6, addr := [2] }
  [.recvfrom (some ⟨[104], from4⟩), .reply, .sendto false, .recvfrom none, .recvfrom (some ⟨[105], from6⟩), .reply, .sendto true]

theorem serve_forever_in_turn_two : ∃ server turns,
    (serveForever false [97, 10, 98, 10]).run (serveForever false [97, 10, 98, 10]).init twoDatagrams = some server ∧
      server.sent = answered turns [false, true] ∧ turns.length = 2 := by
  obtain ⟨server, ran, receiving⟩ := Option.map_eq_some_iff.mp
    (show ((serveForever false [97, 10, 98, 10]).run (serveForever false [97, 10, 98, 10]).init twoDatagrams).map
        (fun server => server.phase) = some .receiving by decide +kernel)
  obtain ⟨turns, -, -, sent, -, idle⟩ := serve_forever_in_turn false [97, 10, 98, 10] twoDatagrams server ran
  exact ⟨server, turns, ran, sent, (idle receiving).2⟩

end SysProg.Network.Listener
