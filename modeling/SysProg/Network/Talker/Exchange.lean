import Mathlib.Data.List.Perm.Basic
import SysProg.Network.Talker

namespace SysProg.Network.Talker

open Function Listener

/-! ## What a talker prints -/

/-- The terminator is always inside the buffer. -/
theorem received_eq (bytes : List UInt8) : received bytes = .ok ((bytes.take recvSize).takeWhile (· ≠ 0)) :=
  Block.cString_received (List.length_take_le ..)

theorem takeWhile_take {α : Type} (p : α → Bool) (values : List α) (count : Nat) (all : ∀ value ∈ values, p value = true) :
    (values.take count).takeWhile p = values.take count :=
  List.takeWhile_eq_self_iff.mpr fun value member => all value (List.mem_of_mem_take member)

/-- The text that a turn's sender prints. -/
def shown (turn : Turn) : List UInt8 := (turn.line.takeWhile (· ≠ 0)).take recvSize

theorem received_reply (turn : Turn) : received (turn.line.takeWhile (· ≠ 0)) = .ok (shown turn) := by
  rw [received_eq, shown, takeWhile_take]
  intro byte member
  exact List.mem_takeWhile_imp (p := fun x => decide (x ≠ 0)) member

/-! ## Requests and replies -/

variable {ι : Type} {address : ι → Peer} {setup : ι → Setup} {error : Bool} {stdin : List UInt8} {senders : List Peer} {outcomes : List Bool}
  {turns : List Turn} {exchange after : Exchange ι} {who : ι}

/-- What a talker has printed, by its phase. -/
def Client.Fits (turns : List Turn) (peer : Peer) (client : Client) : Prop :=
  match client.phase with
  | .starting | .waiting => client.printed = []
  | .exited code => code = 1 ∧ client.printed = [] ∨
      code = 0 ∧ ∃ turn ∈ turns, turn.peer = peer ∧ client.printed = [shown turn]
  | .crashed => False

structure Sound (address : ι → Peer) (stdin : List UInt8) (senders : List Peer) (outcomes : List Bool) (turns : List Turn)
    (exchange : Exchange ι) : Prop where
  answers : Answers stdin senders outcomes turns exchange.server
  once : (exchange.requests.map Datagram.peer ++ senders).Nodup
  asked : ∀ peer ∈ exchange.requests.map Datagram.peer ++ senders,
    ∃ who, peer = address who ∧ (exchange.talkers who).phase ≠ .starting
  greets : ∀ datagram ∈ exchange.requests, datagram.bytes = sendtoBuf
  inside : ∀ index ∈ exchange.server.terminators, index ≤ Listener.recvSize
  replies : ∀ reply ∈ exchange.replies, ∃ turn ∈ turns, turn.peer = reply.2 ∧ reply.1 = turn.line.takeWhile (· ≠ 0)
  talkers : ∀ who, (exchange.talkers who).Fits turns (address who)

theorem Client.Fits.more {client : Client} {peer : Peer} (fits : client.Fits turns peer) (more : List Turn) :
    client.Fits (turns ++ more) peer := by
  cases phase : client.phase with
  | starting | waiting =>
      rw [Client.Fits, phase] at fits ⊢
      exact fits
  | exited code =>
      rw [Client.Fits, phase] at fits ⊢
      exact fits.imp_right fun ⟨zero, turn, member, same⟩ => ⟨zero, turn, List.mem_append_left _ member, same⟩
  | crashed =>
      rw [Client.Fits, phase] at fits
      exact fits.elim

/-- A step of the listener, other than receiving a datagram or sending one. -/
theorem Sound.serves (sound : Sound address stdin senders outcomes turns exchange) {server : Server} {action : ServerAction}
    (moved : serverNext error exchange.server action = some server) (none : action.sender = none)
    (same : server.terminators = exchange.server.terminators) {replies : List (List UInt8 × Peer)}
    (added : ∀ more, Answers stdin senders (outcomes ++ action.outcome.toList) (turns ++ more) server →
      ∀ reply ∈ replies, ∃ turn ∈ turns ++ more, turn.peer = reply.2 ∧ reply.1 = turn.line.takeWhile (· ≠ 0)) :
    ∃ outcomes turns, Sound address stdin senders outcomes turns { exchange with server, replies } := by
  obtain ⟨more, answers⟩ := sound.answers.next moved
  rw [none, Option.toList_none, List.append_nil] at answers
  exact ⟨_, _, answers, sound.once, sound.asked, sound.greets, fun index member => sound.inside index (same ▸ member),
    added more answers, fun who => (sound.talkers who).more more⟩

theorem Sound.answered (sound : Sound address stdin senders outcomes turns exchange) :
    ∀ more : List Turn, ∀ reply ∈ exchange.replies, ∃ turn ∈ turns ++ more,
      turn.peer = reply.2 ∧ reply.1 = turn.line.takeWhile (· ≠ 0) := by
  intro more reply member
  obtain ⟨turn, before, same⟩ := sound.replies reply member
  exact ⟨turn, List.mem_append_left _ before, same⟩

/-! ## The network's steps -/

theorem Sound.loseRequest (sound : Sound address stdin senders outcomes turns exchange) (index : Nat) :
    Sound address stdin senders outcomes turns { exchange with requests := exchange.requests.eraseIdx index } := by
  obtain ⟨answers, once, asked, greets, inside, replies, talkers⟩ := sound
  have fewer : ((exchange.requests.eraseIdx index).map Datagram.peer ++ senders).Sublist
      (exchange.requests.map Datagram.peer ++ senders) :=
    ((List.eraseIdx_sublist _ _).map _).append_right _
  exact ⟨answers, once.sublist fewer, fun peer member => asked peer (fewer.subset member),
    fun datagram member => greets datagram (List.mem_of_mem_eraseIdx member), inside, replies, talkers⟩

theorem Sound.loseReply (sound : Sound address stdin senders outcomes turns exchange) (index : Nat) :
    Sound address stdin senders outcomes turns { exchange with replies := exchange.replies.eraseIdx index } := by
  obtain ⟨answers, once, asked, greets, inside, replies, talkers⟩ := sound
  exact ⟨answers, once, asked, greets, inside, fun reply member => replies reply (List.mem_of_mem_eraseIdx member), talkers⟩

theorem Sound.printed (sound : Sound address stdin senders outcomes turns exchange) {phase : Phase}
    (current : (exchange.talkers who).phase = phase) (early : phase = .starting ∨ phase = .waiting) :
    (exchange.talkers who).printed = [] := by
  have fits := sound.talkers who
  rw [Client.Fits, current] at fits
  rcases early with rfl | rfl
  · exact fits
  · exact fits

variable [DecidableEq ι]

theorem setTalker_same (exchange : Exchange ι) (who : ι) (talker : Client) :
    (exchange.setTalker who talker).talkers who = talker := update_self ..

theorem setTalker_other (exchange : Exchange ι) (talker : Client) {other : ι} (different : other ≠ who) :
    (exchange.setTalker who talker).talkers other = exchange.talkers other := update_of_ne different ..

/-- A talker that has begun stays so. -/
theorem Sound.setTalker (sound : Sound address stdin senders outcomes turns exchange) (who : ι) (talker : Client)
    (begun : talker.phase ≠ .starting) (fits : talker.Fits turns (address who)) :
    Sound address stdin senders outcomes turns (exchange.setTalker who talker) := by
  obtain ⟨answers, once, asked, greets, inside, replies, talkers⟩ := sound
  refine ⟨answers, once, ?_, greets, inside, replies, ?_⟩
  · intro peer member
    obtain ⟨other, same, started⟩ := asked peer member
    refine ⟨other, same, ?_⟩
    by_cases this : other = who
    · rw [this, setTalker_same]
      exact begun
    · rw [setTalker_other exchange talker this]
      exact started
  · intro other
    by_cases this : other = who
    · rw [this, setTalker_same]
      exact fits
    · rw [setTalker_other exchange talker this]
      exact talkers other

theorem Sound.exits (sound : Sound address stdin senders outcomes turns exchange) {phase : Phase}
    (current : (exchange.talkers who).phase = phase) (early : phase = .starting ∨ phase = .waiting) :
    Sound address stdin senders outcomes turns
      (exchange.setTalker who { exchange.talkers who with phase := .exited 1 }) :=
  sound.setTalker _ _ nofun (Or.inl ⟨rfl, sound.printed current early⟩)

theorem Sound.send (sound : Sound address stdin senders outcomes turns exchange) (different : Injective address)
    (starting : (exchange.talkers who).phase = .starting) :
    Sound address stdin senders outcomes turns
      { exchange.setTalker who { exchange.talkers who with phase := .waiting } with
        requests := exchange.requests ++ [⟨sendtoBuf, address who⟩] } := by
  have unasked : address who ∉ exchange.requests.map Datagram.peer ++ senders := by
    intro member
    obtain ⟨other, same, started⟩ := sound.asked _ member
    rw [different same] at starting
    exact started starting
  have sent := sound.setTalker who { exchange.talkers who with phase := .waiting } nofun (sound.printed starting (.inl rfl))
  obtain ⟨answers, once, asked, greets, inside, replies, talkers⟩ := sent
  have moved : ((exchange.requests ++ [(⟨sendtoBuf, address who⟩ : Datagram)]).map Datagram.peer ++ senders).Perm
      (address who :: (exchange.requests.map Datagram.peer ++ senders)) := by
    rw [List.map_append, List.append_assoc]
    exact List.perm_middle
  refine ⟨answers, moved.nodup_iff.mpr (List.nodup_cons.mpr ⟨unasked, once⟩), ?_, ?_, inside, replies, talkers⟩
  · intro peer member
    rcases List.mem_cons.mp (moved.subset member) with rfl | before
    · refine ⟨who, rfl, ?_⟩
      rw [setTalker_same]
      nofun
    · exact asked peer before
  · intro datagram member
    rcases List.mem_append.mp member with before | now
    · exact greets datagram before
    · rw [List.mem_singleton.mp now]

theorem Sound.receive (sound : Sound address stdin senders outcomes turns exchange)
    (waiting : (exchange.talkers who).phase = .waiting) {index : Nat} {bytes : List UInt8}
    (found : exchange.replies[index]? = some (bytes, address who)) :
    Sound address stdin senders outcomes turns
      { exchange.setTalker who ((exchange.talkers who).receive bytes) with
        replies := exchange.replies.eraseIdx index } := by
  obtain ⟨turn, member, peer, same⟩ := sound.replies _ (List.mem_of_getElem? found)
  have ends : (exchange.talkers who).receive bytes =
      { phase := .exited 0, printed := (exchange.talkers who).printed ++ [shown turn] } := by
    rw [Client.receive, show bytes = _ from same, received_reply]
  rw [ends, sound.printed waiting (.inr rfl)]
  have printed := sound.setTalker who { phase := .exited 0, printed := [shown turn] } nofun (.inr ⟨rfl, turn, member, peer, rfl⟩)
  exact printed.loseReply index

omit [DecidableEq ι] in
theorem Sound.arrive (sound : Sound address stdin senders outcomes turns exchange)
    (receiving : exchange.server.phase = .receiving) {index : Nat} {datagram : Datagram}
    (found : exchange.requests[index]? = some datagram) :
    Sound address stdin (senders ++ [datagram.peer]) outcomes turns
      { exchange with
        server := receiveMessage exchange.server datagram
        requests := exchange.requests.eraseIdx index } := by
  obtain ⟨answers, once, asked, greets, inside, replies, talkers⟩ := sound
  obtain ⟨bound, rfl⟩ := List.getElem?_eq_some_iff.mp found
  have moved : ((exchange.requests.eraseIdx index).map Datagram.peer ++ (senders ++ [exchange.requests[index].peer])).Perm
      (exchange.requests.map Datagram.peer ++ senders) := by
    have whole := (List.getElem_cons_eraseIdx_perm bound).map Datagram.peer
    rw [List.map_cons] at whole
    rw [← List.append_assoc]
    exact List.perm_append_comm.trans (whole.append_right senders)
  refine ⟨answers.receive receiving _, moved.nodup_iff.mpr once, ?_, ?_, ?_, replies, talkers⟩
  · exact fun peer member => asked peer (moved.subset member)
  · exact fun other member => greets other (List.mem_of_mem_eraseIdx member)
  · intro place member
    rw [receiveMessage_terminators] at member
    rcases List.mem_append.mp member with before | now
    · exact inside place before
    · rw [List.mem_singleton.mp now, greets _ (List.getElem_mem bound)]
      decide

omit [DecidableEq ι] in
theorem mem_answered {call : List UInt8 × Peer × Nat} (member : call ∈ Listener.answered turns outcomes) :
    ∃ turn ∈ turns, call = turn.reply := by
  obtain ⟨pair, kept, rfl⟩ := List.mem_map.mp member
  exact ⟨pair.1, (List.of_mem_zip (List.mem_of_mem_filter kept)).1, rfl⟩

omit [DecidableEq ι] in
theorem Sound.answer (sound : Sound address stdin senders outcomes turns exchange) {succeeds : Bool} {server : Server}
    (moved : serverNext error exchange.server (.sendto succeeds) = some server) :
    ∃ outcomes turns, Sound address stdin senders outcomes turns
      { exchange with
        server
        replies := exchange.replies ++
          (server.sent.drop exchange.server.sent.length).map fun call => (call.1, call.2.1) } := by
  have same := serverNext_terminators moved
  refine sound.serves moved rfl (same.trans (List.append_nil _)) ?_
  intro more answers reply member
  rcases List.mem_append.mp member with before | now
  · exact sound.answered more reply before
  · obtain ⟨call, passed, rfl⟩ := List.mem_map.mp now
    have sent := List.mem_of_mem_drop passed
    rw [answers.sent] at sent
    obtain ⟨turn, inside, rfl⟩ := mem_answered sent
    exact ⟨turn, inside, rfl, rfl⟩

theorem Sound.next (different : Injective address) (sound : Sound address stdin senders outcomes turns exchange)
    {action : Action ι} (moved : next address error exchange action = some after) :
    ∃ senders outcomes turns, Sound address stdin senders outcomes turns after := by
  cases action with
  | send who succeeds =>
      simp only [Talker.next] at moved
      split at moved
      · rename_i starting
        split at moved <;> cases moved
        · exact ⟨_, _, _, sound.send different starting⟩
        · exact ⟨_, _, _, sound.exits starting (.inl rfl)⟩
      · cases moved
  | receive who index =>
      cases index with
      | none =>
          simp only [Talker.next] at moved
          split at moved <;> cases moved
          rename_i waiting
          exact ⟨_, _, _, sound.exits waiting (.inr rfl)⟩
      | some index =>
          simp only [Talker.next] at moved
          split at moved
          · rename_i waiting found
            split at moved <;> cases moved
            rename_i own
            rw [own] at found
            exact ⟨_, _, _, sound.receive waiting found⟩
          · cases moved
  | arrive index =>
      cases index with
      | none =>
          obtain ⟨server, served, rfl⟩ := Option.map_eq_some_iff.mp moved
          have same := serverNext_terminators served
          exact ⟨_, sound.serves served rfl (same.trans (List.append_nil _)) fun more _ => sound.answered more⟩
      | some index =>
          simp only [Talker.next] at moved
          split at moved
          · rename_i datagram found
            obtain ⟨server, served, rfl⟩ := Option.map_eq_some_iff.mp moved
            cases phase : exchange.server.phase with
            | receiving =>
                simp only [serverNext, phase] at served
                cases served
                exact ⟨_, _, _, sound.arrive phase found⟩
            | replying _ | sending _ _ | exited _ | crashed => simp [serverNext, phase] at served
          · cases moved
  | reply =>
      obtain ⟨server, served, rfl⟩ := Option.map_eq_some_iff.mp moved
      have same := serverNext_terminators served
      exact ⟨_, sound.serves served rfl (same.trans (List.append_nil _)) fun more _ => sound.answered more⟩
  | answer succeeds =>
      obtain ⟨server, served, rfl⟩ := Option.map_eq_some_iff.mp moved
      exact ⟨_, sound.answer served⟩
  | loseRequest index =>
      cases moved
      exact ⟨_, _, _, sound.loseRequest index⟩
  | loseReply index =>
      cases moved
      exact ⟨_, _, _, sound.loseReply index⟩

end SysProg.Network.Talker
