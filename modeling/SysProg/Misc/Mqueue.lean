import Mathlib.Logic.Function.Basic
import SysProg.Library.Channel
import SysProg.Library.Machine

namespace SysProg.Misc.Mqueue

/-! # `misc/mqueue`

Any number of senders and receivers on one message queue, which a sender has
created with `QUEUE_SIZE` and the size of a `struct point`. All of them have
opened it before the first one leaves. A process that starts after that is left
out: the `mq_open` of a receiver fails once the name is gone, and that of a sender
makes another queue under the same name, which that sender can remove in turn.
What `getchar` and `rand` return is part of the action, and so
is whether a call that waits is interrupted or runs into its time limit.
-/

open Function

/-- `QUEUE_SIZE` -/
def queueSize : Nat := 6

/-- `struct point` -/
structure Point where
  x : Int
  y : Int
deriving DecidableEq, Repr

/-- `set_position` -/
def setPosition (x y : Int) : Point where
  x := x
  y := y

def getXCoord (buf : Point) : Int := buf.x

def getYCoord (buf : Point) : Int := buf.y

/-- The bytes of the object, as `mq_send` copies them. -/
def Point.bytes (point : Point) : List UInt8 := intBytes point.x ++ intBytes point.y

/-- The object after `mq_timedreceive` has copied a message into it. -/
def Point.ofBytes (message : List UInt8) : Point where
  x := intOfBytes (message.take 4)
  y := intOfBytes (message.drop 4)

inductive SenderPhase where
  | prompting
  | sending (pt : Point)
  | closing
  | exited (code : Nat)
deriving DecidableEq, Repr

/-- `main` of `sender.c`, with the characters typed and the points printed so far. -/
structure Sender where
  phase : SenderPhase
  quit : UInt8
  typed : List UInt8
  printed : List (Int × Int)
deriving DecidableEq, Repr

inductive ReceiverPhase where
  | checking
  | receiving
  | exited
deriving DecidableEq, Repr

/-- `main` of `receiver.c`. `sigHandler` clears `gContinue`. -/
structure Receiver where
  phase : ReceiverPhase
  gContinue : Bool
  printed : List (Int × Int)
deriving DecidableEq, Repr

variable {κ ι : Type}

/-- `sent` and `received` are the messages with the process that sent or received
them. `linked` tells whether the queue still has its name. -/
structure State (κ ι : Type) where
  senders : κ → Sender
  receivers : ι → Receiver
  queue : Channel (List UInt8) queueSize
  linked : Bool
  sent : List (κ × List UInt8)
  received : List (ι × List UInt8)

inductive Action (κ ι : Type) where
  | type (who : κ) (char : Option UInt8) (first second : Nat)
  | send (who : κ)
  | interruptSend (who : κ)
  | close (who : κ)
  | check (who : ι)
  | receive (who : ι)
  | timeout (who : ι)
  | sigint (who : ι)

/-- `'q'` -/
def quitChar : UInt8 := 113

/-- `getchar`, whose `EOF` becomes a `char`, and `set_position` -/
def Sender.type (sender : Sender) (char : Option UInt8) (first second : Nat) : Sender :=
  let quit := char.getD 255
  { sender with
    phase := .sending (setPosition (first % 80 : Nat) (second % 24 : Nat))
    quit
    typed := sender.typed ++ [quit] }

/-- `printf`, and the test of the loop -/
def Sender.announce (sender : Sender) (pt : Point) : Sender :=
  { sender with
    phase := if sender.quit ≠ quitChar then .prompting else .closing
    printed := sender.printed ++ [(getXCoord pt, getYCoord pt)] }

/-- A message has been copied into `pt` -/
def Receiver.show (receiver : Receiver) (message : List UInt8) : Receiver :=
  let pt := Point.ofBytes message
  { receiver with
    phase := .checking
    printed := receiver.printed ++ [(getXCoord pt, getYCoord pt)] }

variable [DecidableEq κ] [DecidableEq ι]

def State.setSender (state : State κ ι) (who : κ) (sender : Sender) : State κ ι :=
  { state with senders := update state.senders who sender }

def State.setReceiver (state : State κ ι) (who : ι) (receiver : Receiver) : State κ ι :=
  { state with receivers := update state.receivers who receiver }

/-- A step of a sender. A call that waits for room can be interrupted; the point
is printed all the same. -/
def next (state : State κ ι) : Action κ ι → Option (State κ ι)
  | .type who char first second =>
      match (state.senders who).phase with
      | .prompting => some (state.setSender who ((state.senders who).type char first second))
      | _ => none
  | .send who =>
      match (state.senders who).phase with
      | .sending pt =>
          (state.queue.send [pt.bytes]).map fun queue =>
            { state.setSender who ((state.senders who).announce pt) with
              queue
              sent := state.sent ++ [(who, pt.bytes)] }
      | _ => none
  | .interruptSend who =>
      match (state.senders who).phase with
      | .sending pt =>
          if (state.queue.send [pt.bytes]).isNone then
            some (state.setSender who ((state.senders who).announce pt))
          else none
      | _ => none
  | .close who =>
      match (state.senders who).phase with
      | .closing =>
          some { state.setSender who { state.senders who with phase := .exited (if state.linked then 0 else 3) } with
            linked := false }
      | _ => none
  | .check who =>
      match (state.receivers who).phase with
      | .checking =>
          some (state.setReceiver who
            { state.receivers who with phase := if (state.receivers who).gContinue then .receiving else .exited })
      | _ => none
  | .receive who =>
      match (state.receivers who).phase, state.queue.receive 1 with
      | .receiving, ([message], queue) =>
          some { state.setReceiver who ((state.receivers who).show message) with
            queue
            received := state.received ++ [(who, message)] }
      | _, _ => none
  | .timeout who =>
      match (state.receivers who).phase with
      | .receiving =>
          if state.queue.waiting = [] then
            some (state.setReceiver who { state.receivers who with phase := .checking })
          else none
      | _ => none
  | .sigint who =>
      match (state.receivers who).phase with
      | .exited => none
      | _ => some (state.setReceiver who { state.receivers who with gContinue := false })

/-- Every process that ever uses the queue has it open. -/
def start : State κ ι where
  senders := fun _ => { phase := .prompting, quit := 0, typed := [], printed := [] }
  receivers := fun _ => { phase := .checking, gContinue := true, printed := [] }
  queue := .empty
  linked := true
  sent := []
  received := []

def machine (κ ι : Type) [DecidableEq κ] [DecidableEq ι] : Machine (State κ ι) (Action κ ι) where
  init := start
  next := next

end SysProg.Misc.Mqueue
