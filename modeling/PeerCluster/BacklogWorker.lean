import PeerCluster.Backlog
import PeerCluster.Mailing

/-!
# The backlog worker

Those who send leave their messages in a backlog and go on. One worker takes everything that waits
and sends it, one message after the other, whatever becomes of each. Shutting down disables the
backlog: nothing more is accepted, what waits is dropped, and the worker ends when the message it is
sending is done.
-/

namespace PeerCluster

/-- A message that waits to be sent. -/
structure PendingMessage where
  destinations : List Member
  payload : ByteArray
  /-- Whether the destinations are asked for an answer. -/
  wait : Bool

/-- What the worker is doing. -/
inductive BacklogWorker.Phase where
  /-- It is about to see whether the backlog is enabled. -/
  | checking
  /-- It waits for messages. -/
  | waiting
  /-- It has taken messages that it has not begun to send. -/
  | holding (batch : List PendingMessage)
  /-- It has seen that the backlog is enabled and will send the first of its messages. -/
  | cleared (message : PendingMessage) (rest : List PendingMessage)
  /-- It is sending a message. -/
  | sending (rest : List PendingMessage)
  | ended

/-- A backlog of messages and its worker. -/
structure BacklogWorker where
  backlog : Backlog PendingMessage
  phase : BacklogWorker.Phase := .checking

namespace BacklogWorker

/-- Leaves a message in the backlog, and says whether it was accepted. -/
def enqueue (w : BacklogWorker) (m : PendingMessage) : Bool × BacklogWorker :=
  let (accepted, backlog) := w.backlog.add m
  (accepted, { w with backlog })

/-- How many messages wait. -/
def pending (w : BacklogWorker) : Nat :=
  w.backlog.size

/-- Drops what waits and lets the worker end. -/
def shutdown (w : BacklogWorker) : BacklogWorker :=
  { w with backlog := w.backlog.setEnabled false }

/-- What the worker does next. -/
inductive Move where
  /-- It takes a step of its own. -/
  | steps (worker : BacklogWorker)
  /-- It begins to send a message. -/
  | sends (message : PendingMessage) (worker : BacklogWorker)
  /-- It waits for messages, for its time to wait to run out, or for a message to be sent. -/
  | waits
  | ended

/-- What the worker does next. -/
def move (w : BacklogWorker) : Move :=
  match w.phase with
  | .checking => .steps { w with phase := if w.backlog.enabled then .waiting else .ended }
  | .waiting =>
    if !w.backlog.enabled then .steps { w with phase := .checking }
    else if w.backlog.isEmpty then .waits
    else
      let (batch, backlog) := w.backlog.takeAll
      .steps ⟨backlog, .holding batch⟩
  | .holding [] => .steps { w with phase := .checking }
  | .holding (m :: rest) =>
    .steps { w with phase := if w.backlog.enabled then .cleared m rest else .checking }
  | .cleared m rest => .sends m { w with phase := .sending rest }
  | .sending _ => .waits
  | .ended => .ended

/-- The time to wait for messages has run out. -/
def timeOut (w : BacklogWorker) : BacklogWorker :=
  match w.phase with
  | .waiting => { w with phase := .checking }
  | _ => w

/-- The message that was being sent is done, however it went. -/
def sent (w : BacklogWorker) : BacklogWorker :=
  match w.phase with
  | .sending rest => { w with phase := .holding rest }
  | _ => w

/-- Whether no message waits, in the backlog or with the worker. -/
def isIdle (w : BacklogWorker) : Bool :=
  w.backlog.isEmpty &&
    match w.phase with
    | .checking | .waiting | .ended | .holding [] => true
    | _ => false

/-- Whether the worker has ended. -/
def hasEnded (w : BacklogWorker) : Bool :=
  match w.phase with
  | .ended => true
  | _ => false

end BacklogWorker

end PeerCluster
