import PeerCluster.Backlog.Calls
import PeerCluster.BacklogWorker

/-!
# Calls around the backlog worker that overlap

Whoever leaves a message or shuts the backlog down may come between any two steps of the worker, and
between any two pieces of its wait for messages. A scene is the backlog with the calls in flight,
where nobody waits but the worker, and what the worker is doing meanwhile.
-/

namespace PeerCluster.BacklogWorker

/-- A backlog with the calls in flight, and its worker. -/
structure Scene where
  /-- The backlog and the calls in flight. Only the worker waits. -/
  desk : Backlog.Scene Unit PendingMessage
  phase : Phase := .checking
  /-- For how many milliseconds the worker waits at a time. -/
  patience : Nat

namespace Scene

/-- What can happen next. -/
inductive Move where
  /-- Somebody leaves a message. -/
  | enqueues (m : PendingMessage)
  | shutsDown
  /-- Somebody who has changed the backlog wakes the worker, if it listens. -/
  | wakes
  /-- The worker goes on. -/
  | goesOn
  /-- The worker's time to wait runs out. -/
  | givesUp
  /-- The message that is being sent is done, with this report. -/
  | finishes (report : Except DeliveryError Unit)
  /-- So many milliseconds pass, if the worker has nothing to do until then. -/
  | passes (ms : Nat)

/-- Whether this is the next piece of a call in flight or of the worker. -/
def Move.isWork : Move → Bool
  | .wakes | .goesOn | .givesUp => true
  | .enqueues _ | .shutsDown | .finishes _ | .passes _ => false

/-- A worker that begins with an empty backlog. -/
def fresh (maxLength patience : Nat) : Scene :=
  { desk := .fresh maxLength, patience }

/-- The worker, between two pieces. -/
def worker (s : Scene) : BacklogWorker :=
  ⟨s.desk.backlog, s.phase⟩

/-- What the worker does about its wait: it goes on with the messages it is answered with, if it has
been answered. -/
def heed (s : Scene) (desk : Backlog.Scene Unit PendingMessage) : Scene :=
  match desk.waiters, desk.answers with
  | [], answer :: _ =>
    { s with desk, phase := if answer.items.isEmpty then .checking else .holding answer.items }
  | _, _ => { s with desk }

/-- The worker enters a phase. -/
def enter (s : Scene) : Phase → Scene
  | .waiting => { s with desk := s.desk.begin () s.patience, phase := .waiting }
  | phase => { s with phase }

/-- The worker goes on. -/
def goOn (s : Scene) : Scene :=
  match s.phase with
  | .waiting => s.heed (s.desk.goOn 0)
  | _ =>
    match s.worker.move with
    | .steps w | .sends _ w => s.enter w.phase
    | .waits | .ended => s

/-- The worker's time to wait runs out. -/
def giveUp (s : Scene) : Scene :=
  match s.phase with
  | .waiting => s.heed (s.desk.giveUp 0)
  | _ => s

/-- So many milliseconds pass, if the worker has nothing to do until then. -/
def pass (s : Scene) (ms : Nat) : Scene :=
  match s.phase with
  | .waiting | .sending _ | .ended => { s with desk := s.desk.pass ms }
  | _ => s

/-- The scene after a move. -/
def next (s : Scene) : Move → Scene
  | .enqueues m => { s with desk := (s.desk.add m).2 }
  | .shutsDown => { s with desk := s.desk.setEnabled false }
  | .wakes => { s with desk := s.desk.wake }
  | .goesOn => s.goOn
  | .givesUp => s.giveUp
  | .finishes _ => { s with phase := s.worker.sent.phase }
  | .passes ms => s.pass ms

/-- The scene after a list of moves. -/
def run (s : Scene) (moves : List Move) : Scene :=
  moves.foldl next s

/-- The message that is accepted. -/
def accepted (s : Scene) : Move → List PendingMessage
  | .enqueues m => if (s.worker.enqueue m).1 then [m] else []
  | _ => []

/-- The message that the worker begins to send. -/
def begun (s : Scene) : Move → List PendingMessage
  | .goesOn =>
    match s.worker.move with
    | .sends m _ => [m]
    | _ => []
  | _ => []

end Scene

end PeerCluster.BacklogWorker
