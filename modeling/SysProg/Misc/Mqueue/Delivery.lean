import SysProg.Misc.Mqueue

namespace SysProg.Misc.Mqueue

open Function

/-- Within the 80 columns and 24 rows that the sender draws from. -/
def Point.OnScreen (point : Point) : Prop :=
  0 ≤ point.x ∧ point.x < 80 ∧ 0 ≤ point.y ∧ point.y < 24

theorem Point.OnScreen.ofBytes_bytes {point : Point} (onScreen : point.OnScreen) :
    Point.ofBytes point.bytes = point := by
  obtain ⟨left, right, top, bottom⟩ := onScreen
  have first : (intBytes point.x ++ intBytes point.y).take 4 = intBytes point.x :=
    List.take_left' (length_intBytes _)
  have second : (intBytes point.x ++ intBytes point.y).drop 4 = intBytes point.y :=
    List.drop_left' (length_intBytes _)
  rw [Point.ofBytes, Point.bytes, first, second, intOfBytes_intBytes ⟨by omega, by omega⟩,
    intOfBytes_intBytes ⟨by omega, by omega⟩]

theorem onScreen_setPosition (first second : Nat) :
    (setPosition (first % 80 : Nat) (second % 24 : Nat)).OnScreen := by
  simp only [Point.OnScreen, setPosition]
  omega

/-- What is printed for a message. -/
def shown (message : List UInt8) : Int × Int :=
  (getXCoord (Point.ofBytes message), getYCoord (Point.ofBytes message))

/-- What a sender has typed and printed, given the messages that the queue has
taken from it. -/
structure Sender.Sound (sender : Sender) (sent : List (List UInt8)) : Prop where
  announced : (sent.map shown).Sublist sender.printed
  typed : match sender.phase with
    | .prompting => quitChar ∉ sender.typed ∧ sender.printed.length = sender.typed.length
    | .sending pt => pt.OnScreen ∧ ∃ earlier, sender.typed = earlier ++ [sender.quit] ∧ quitChar ∉ earlier ∧
        sender.printed.length = earlier.length
    | .closing | .exited _ => ∃ earlier, sender.typed = earlier ++ [quitChar] ∧ quitChar ∉ earlier ∧
        sender.printed.length = sender.typed.length

variable {sender : Sender} {messages : List (List UInt8)} {pt : Point}

theorem Sender.Sound.type (sound : sender.Sound messages) (prompting : sender.phase = .prompting)
    (char : Option UInt8) (first second : Nat) : (sender.type char first second).Sound messages where
  announced := sound.announced
  typed := by
    obtain ⟨announced, typed⟩ := sound
    rw [prompting] at typed
    exact ⟨onScreen_setPosition first second, sender.typed, rfl, typed.1, typed.2⟩

theorem Sender.Sound.pending (sound : sender.Sound messages) (sending : sender.phase = .sending pt) :
    pt.OnScreen ∧ ∃ earlier, sender.typed = earlier ++ [sender.quit] ∧ quitChar ∉ earlier ∧
      sender.printed.length = earlier.length := by
  have typed := sound.typed
  rw [sending] at typed
  exact typed

/-- The point has been printed, whether or not the queue has taken it. -/
theorem Sender.Sound.announce (sound : sender.Sound messages) (sending : sender.phase = .sending pt)
    {now : List (List UInt8)} (announced : (now.map shown).Sublist (sender.printed ++ [(getXCoord pt, getYCoord pt)])) :
    (sender.announce pt).Sound now where
  announced := announced
  typed := by
    obtain ⟨onScreen, earlier, typed, early, count⟩ := sound.pending sending
    by_cases quit : sender.quit = quitChar
    · simp only [Sender.announce, quit, ne_eq, not_true_eq_false, if_false]
      exact ⟨earlier, by rw [typed, quit], early, by simp [typed, count]⟩
    · simp only [Sender.announce, ne_eq, quit, not_false_eq_true, if_true]
      refine ⟨?_, by simp [typed, count]⟩
      rw [typed, List.mem_append, List.mem_singleton]
      rintro (before | last)
      · exact early before
      · exact quit last.symm

theorem Sender.Sound.send (sound : sender.Sound messages) (sending : sender.phase = .sending pt) :
    (sender.announce pt).Sound (messages ++ [pt.bytes]) := by
  have shows : shown pt.bytes = (getXCoord pt, getYCoord pt) := by
    rw [shown, (sound.pending sending).1.ofBytes_bytes]
  refine sound.announce sending ?_
  rw [List.map_append, List.map_singleton, shows]
  exact sound.announced.append (List.Sublist.refl _)

theorem Sender.Sound.interrupt (sound : sender.Sound messages) (sending : sender.phase = .sending pt) :
    (sender.announce pt).Sound messages :=
  sound.announce sending (sound.announced.trans (List.sublist_append_left _ _))

theorem announce_stays (sender : Sender) (pt : Point) : (sender.announce pt).phase ≠ .exited 0 := by
  simp only [Sender.announce]
  split <;> nofun

theorem Sender.Sound.close (sound : sender.Sound messages) (closing : sender.phase = .closing) (code : Nat) :
    { sender with phase := .exited code : Sender }.Sound messages where
  announced := sound.announced
  typed := by
    have typed := sound.typed
    rw [closing] at typed
    exact typed

/-! ## All processes -/

variable {κ ι : Type} [DecidableEq κ] [DecidableEq ι] {state after : State κ ι} {action : Action κ ι}

structure State.Sound (state : State κ ι) : Prop where
  carries : state.queue.Carries (state.sent.map Prod.snd) (state.received.map Prod.snd)
  onScreen : ∀ entry ∈ state.sent, ∃ pt : Point, pt.OnScreen ∧ entry.2 = pt.bytes
  senders : ∀ who, (state.senders who).Sound (entriesOf who state.sent)
  receivers : ∀ who, (state.receivers who).printed = (entriesOf who state.received).map shown
  linked : state.linked = true → ∀ who, (state.senders who).phase ≠ .exited 0
  unlinkedOnce : ∀ one other, (state.senders one).phase = .exited 0 → (state.senders other).phase = .exited 0 → one = other

theorem start_sound : (start : State κ ι).Sound where
  carries := Channel.carries_empty
  onScreen _ member := absurd member List.not_mem_nil
  senders _ := ⟨List.Sublist.refl _, List.not_mem_nil, rfl⟩
  receivers _ := rfl
  linked _ _ := nofun
  unlinkedOnce _ _ := nofun

/-- A sender that goes on without leaving, and without a message for the queue. -/
theorem State.Sound.setSender (sound : state.Sound) {who : κ} {sender : Sender}
    (kept : sender.Sound (entriesOf who state.sent)) (stays : sender.phase ≠ .exited 0) :
    (state.setSender who sender).Sound where
  carries := sound.carries
  onScreen := sound.onScreen
  senders other := by
    by_cases same : other = who
    · subst same
      simpa only [State.setSender, update_self] using kept
    · simpa only [State.setSender, update_of_ne same] using sound.senders other
  receivers := sound.receivers
  linked still other := by
    by_cases same : other = who
    · subst same
      simpa only [State.setSender, update_self] using stays
    · simpa only [State.setSender, update_of_ne same] using sound.linked still other
  unlinkedOnce one other first second := by
    have exited : ∀ someone, ((state.setSender who sender).senders someone).phase = .exited 0 →
        (state.senders someone).phase = .exited 0 := by
      intro someone left
      by_cases same : someone = who
      · subst same
        simp only [State.setSender, update_self] at left
        exact absurd left stays
      · simpa only [State.setSender, update_of_ne same] using left
    exact sound.unlinkedOnce one other (exited one first) (exited other second)

theorem State.Sound.send (sound : state.Sound) {who : κ} {queue : Channel (List UInt8) queueSize}
    (sending : (state.senders who).phase = .sending pt) (went : state.queue.send [pt.bytes] = some queue) :
    { state.setSender who ((state.senders who).announce pt) with
      queue
      sent := state.sent ++ [(who, pt.bytes)] }.Sound where
  carries := by
    simpa [State.setSender] using sound.carries.send went
  onScreen entry member := by
    rcases List.mem_append.mp member with before | now
    · exact sound.onScreen entry before
    · rw [List.mem_singleton.mp now]
      exact ⟨pt, ((sound.senders who).pending sending).1, rfl⟩
  senders other := by
    by_cases same : other = who
    · subst same
      simp only [State.setSender, update_self, entriesOf_concat_self]
      exact (sound.senders other).send sending
    · simpa only [State.setSender, update_of_ne same, entriesOf_concat_other (Ne.symm same)] using sound.senders other
  receivers := sound.receivers
  linked := (sound.setSender ((sound.senders who).interrupt sending) (announce_stays _ _)).linked
  unlinkedOnce := (sound.setSender ((sound.senders who).interrupt sending) (announce_stays _ _)).unlinkedOnce

/-- The first sender to leave removes the name, and the others find it removed. -/
theorem State.Sound.close (sound : state.Sound) {who : κ} (closing : (state.senders who).phase = .closing) :
    { state.setSender who { state.senders who with phase := .exited (if state.linked then 0 else 3) } with
      linked := false }.Sound where
  carries := sound.carries
  onScreen := sound.onScreen
  senders other := by
    by_cases same : other = who
    · subst same
      simpa only [State.setSender, update_self] using (sound.senders other).close closing _
    · simpa only [State.setSender, update_of_ne same] using sound.senders other
  receivers := sound.receivers
  linked still := absurd still Bool.false_ne_true
  unlinkedOnce one other first second := by
    simp only [State.setSender] at first second
    by_cases linked : state.linked = true
    · have only : ∀ someone, (update state.senders who { state.senders who with
          phase := .exited (if state.linked then 0 else 3) } someone).phase = .exited 0 → someone = who := by
        intro someone left
        by_contra different
        rw [update_of_ne different] at left
        exact sound.linked linked someone left
      rw [only one first, only other second]
    · have earlier : ∀ someone, (update state.senders who { state.senders who with
          phase := .exited (if state.linked then 0 else 3) } someone).phase = .exited 0 →
          (state.senders someone).phase = .exited 0 := by
        intro someone left
        by_cases same : someone = who
        · subst same
          simp [linked] at left
        · rwa [update_of_ne same] at left
      exact sound.unlinkedOnce one other (earlier one first) (earlier other second)

theorem State.Sound.setReceiver (sound : state.Sound) {who : ι} {receiver : Receiver}
    (kept : receiver.printed = (state.receivers who).printed) : (state.setReceiver who receiver).Sound where
  carries := sound.carries
  onScreen := sound.onScreen
  senders := sound.senders
  receivers other := by
    by_cases same : other = who
    · subst same
      simpa only [State.setReceiver, update_self, kept] using sound.receivers other
    · simpa only [State.setReceiver, update_of_ne same] using sound.receivers other
  linked := sound.linked
  unlinkedOnce := sound.unlinkedOnce

theorem State.Sound.receive (sound : state.Sound) {who : ι} {message : List UInt8}
    {queue : Channel (List UInt8) queueSize} (came : state.queue.receive 1 = ([message], queue)) :
    { state.setReceiver who ((state.receivers who).show message) with
      queue
      received := state.received ++ [(who, message)] }.Sound where
  carries := by
    have carried := sound.carries.receive 1
    rw [came] at carried
    simpa [State.setReceiver] using carried
  onScreen := sound.onScreen
  senders := sound.senders
  receivers other := by
    by_cases same : other = who
    · subst same
      simp only [State.setReceiver, update_self, entriesOf_concat_self, Receiver.show, sound.receivers other,
        List.map_append, List.map_singleton, shown]
    · simpa only [State.setReceiver, update_of_ne same, entriesOf_concat_other (Ne.symm same)] using
        sound.receivers other
  linked := sound.linked
  unlinkedOnce := sound.unlinkedOnce

theorem next_sound (sound : state.Sound) (moved : next state action = some after) : after.Sound := by
  cases action with
  | type who char first second =>
      simp only [next] at moved
      split at moved
      · rename_i prompting
        cases moved
        exact sound.setSender ((sound.senders who).type prompting char first second) nofun
      · contradiction
  | send who =>
      simp only [next] at moved
      split at moved
      · rename_i pt sending
        obtain ⟨queue, went, rfl⟩ := Option.map_eq_some_iff.mp moved
        exact sound.send sending went
      · contradiction
  | interruptSend who =>
      simp only [next] at moved
      split at moved
      · rename_i pt sending
        split at moved
        · cases moved
          exact sound.setSender ((sound.senders who).interrupt sending) (announce_stays _ _)
        · contradiction
      · contradiction
  | close who =>
      simp only [next] at moved
      split at moved
      · rename_i closing
        cases moved
        exact sound.close closing
      · contradiction
  | check who =>
      simp only [next] at moved
      split at moved
      · cases moved
        exact sound.setReceiver rfl
      · contradiction
  | receive who =>
      simp only [next] at moved
      split at moved
      · rename_i message queue receiving came
        cases moved
        exact sound.receive came
      · contradiction
  | timeout who =>
      simp only [next] at moved
      split at moved
      · split at moved
        · cases moved
          exact sound.setReceiver rfl
        · contradiction
      · contradiction
  | sigint who =>
      simp only [next] at moved
      split at moved
      · contradiction
      · cases moved
        exact sound.setReceiver rfl

theorem Reachable.sound (reached : (machine κ ι).Reachable state) : state.Sound :=
  reached.invariant State.Sound start_sound next_sound

/-- In every interleaving of senders and receivers that have one queue open it holds at most six
messages, and those received are the first of those sent, in the order in which they
were sent; each receiver prints just the points of its own messages, all of them on the
screen. A sender that has left has typed one `q`, as the last character, and has printed a
point for each character; at most one sender finds the name to remove. -/
theorem mqueue_delivers (reached : (machine κ ι).Reachable state) :
    state.queue.waiting.length ≤ 6 ∧
    state.sent.map Prod.snd = state.received.map Prod.snd ++ state.queue.waiting ∧
    (∀ who, (state.receivers who).printed = (entriesOf who state.received).map shown) ∧
    (∀ who, ∀ point ∈ (state.receivers who).printed, 0 ≤ point.1 ∧ point.1 < 80 ∧ 0 ≤ point.2 ∧ point.2 < 24) ∧
    (∀ who code, (state.senders who).phase = .exited code →
      ((entriesOf who state.sent).map shown).Sublist (state.senders who).printed ∧
      (state.senders who).printed.length = (state.senders who).typed.length ∧
      ∃ earlier, (state.senders who).typed = earlier ++ [quitChar] ∧ quitChar ∉ earlier) ∧
    ∀ one other, (state.senders one).phase = .exited 0 → (state.senders other).phase = .exited 0 → one = other := by
  have sound := Reachable.sound reached
  refine ⟨state.queue.fits, sound.carries, sound.receivers, ?_, ?_, sound.unlinkedOnce⟩
  · intro who point member
    rw [sound.receivers who] at member
    obtain ⟨message, received, rfl⟩ := List.mem_map.mp member
    have taken : message ∈ state.received.map Prod.snd :=
      ((List.filter_sublist).map Prod.snd).subset received
    obtain ⟨entry, sent, rfl⟩ := List.mem_map.mp (sound.carries.received_begins.subset taken)
    obtain ⟨pt, onScreen, same⟩ := sound.onScreen entry sent
    rw [same, shown, onScreen.ofBytes_bytes]
    exact onScreen
  · intro who code left
    have typed := (sound.senders who).typed
    rw [left] at typed
    obtain ⟨earlier, last, early, count⟩ := typed
    exact ⟨(sound.senders who).announced, count, earlier, last, early⟩

/-- Two senders, the second of which ends first, and one receiver. -/
def twoSenders : List (Action Bool Unit) :=
  [.type false (some 10) 81 25, .send false, .type true (some 113) 2 3, .check (), .send true, .receive (), .close true]

theorem mqueue_delivers_first : ∃ state : State Bool Unit, (state.receivers ()).printed = [(1, 1)] ∧
    state.queue.waiting = [intBytes 2 ++ intBytes 3] ∧
    state.sent.map Prod.snd = state.received.map Prod.snd ++ state.queue.waiting := by
  obtain ⟨state, reached, observed⟩ := Machine.exists_reachable (machine Bool Unit)
    (fun state => ((state.receivers ()).printed, state.queue.waiting)) ([(1, 1)], [intBytes 2 ++ intBytes 3]) twoSenders
    (by decide)
  obtain ⟨-, carried, -⟩ := mqueue_delivers reached
  exact ⟨state, congrArg Prod.fst observed, congrArg Prod.snd observed, carried⟩

end SysProg.Misc.Mqueue
