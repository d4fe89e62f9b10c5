import PeerCluster.BacklogWorker
import PeerCluster.Beacon
import PeerCluster.Notice

/-!
# Nodes

A node puts the beacon, the pool of couriers and, if it is to have one, the backlog together. It
takes note of the peers that join and leave, one change after the other, and broadcasts lines to the
peers that live.

Without a backlog a line is delivered before anything else is taken up: no change is taken note of
and no other line is taken meanwhile, although the beacon goes on changing the roster. With a backlog
the line is left there, for the peers that live at that moment, and the worker delivers it at its own
pace.
-/

namespace PeerCluster

/-- Where a mailing of a node comes from. -/
inductive Node.Origin where
  /-- A line that is delivered directly. -/
  | line
  | backlog
  deriving DecidableEq, Repr

/-- A member of the cluster at work. -/
structure Node where
  beacon : Beacon
  pool : CourierPool
  /-- The backlog and its worker, if there is one. -/
  worker : Option BacklogWorker := none
  /-- Whether peers are asked for an answer to a line. -/
  wait : Bool := true
  /-- The changes of the roster that have not been taken note of, in order. -/
  changes : List MemberEvent := []
  /-- The mailing of a line. -/
  direct : Option Mailing := none
  /-- The mailing of a message from the backlog. -/
  queued : Option Mailing := none
  /-- How many mailings have begun. -/
  begun : Nat := 0

namespace Node

/-! ## Changes of the roster -/

/-- The node after something that the beacon heard, or did not hear for too long. -/
def withChanges (n : Node) (events : List MemberEvent) (beacon : Beacon) : Node :=
  { n with beacon, changes := n.changes ++ events }

/-- How many peers live. -/
def live (n : Node) : Nat :=
  n.beacon.roster.size

/-- Whether the node can take something up. -/
def isFree (n : Node) : Bool :=
  n.direct.isNone

/-- Forgets a peer: its courier and its health. -/
def forget (n : Node) (id : MemberId) : Node :=
  let (_, pool) := n.pool.remove id
  let (_, board) := pool.board.take id
  { n with pool := { pool with board } }

/-- Takes note of the oldest change. -/
def takeNote (n : Node) : Option Notice × Node :=
  match n.changes with
  | [] => (none, n)
  | ⟨.joined, m⟩ :: rest => (some (.joined m n.live), { n with changes := rest, pool := n.pool.add m })
  | ⟨.left, m⟩ :: rest => (some (.left m n.live), { n with changes := rest }.forget m.id)

/-! ## Mailings -/

/-- The mailing that is under way. -/
def mailing? (n : Node) : Origin → Option Mailing
  | .line => n.direct
  | .backlog => n.queued

/-- The node with another mailing under way. -/
def withMailing (n : Node) (origin : Origin) (g : Option Mailing) : Node :=
  match origin with
  | .line => { n with direct := g }
  | .backlog => { n with queued := g }

/-- Begins to send a message. -/
def begin (n : Node) (origin : Origin) (m : PendingMessage) : Node :=
  let (g, pool) := Mailing.begin n.pool n.begun m.destinations m.payload m.wait
  { n with pool, begun := n.begun + 1 }.withMailing origin (some g)

/-- Broadcasts a line to the peers that live. -/
def broadcast (n : Node) (line : ByteArray) : Option Notice × Node :=
  let members := n.beacon.roster.members
  let message : PendingMessage := ⟨members, line, n.wait⟩
  if members.isEmpty then (some .noPeers, n)
  else match n.worker with
    | none => (none, n.begin .line message)
    | some w =>
      let (accepted, w) := w.enqueue message
      (if accepted then none else some .backlogFull, { n with worker := some w })

/-- What the delivery at a place of a mailing can do next. -/
def moveOf (n : Node) (origin : Origin) (place : Nat) : Mailing.Move :=
  match n.mailing? origin with
  | some g => g.moveAt n.pool place
  | none => .isOver

/-- The node after a delivery of a mailing has come to another phase. -/
def withPhase (n : Node) (origin : Origin) (place : Nat) (phase : Mailing.Phase) : Node :=
  n.withMailing origin ((n.mailing? origin).map fun g => g.withPhase place phase)

/-- Ends a mailing all of whose deliveries are over. -/
def report (n : Node) (origin : Origin) : Option Notice × Node :=
  match n.mailing? origin with
  | none => (none, n)
  | some g =>
    if g.isOver then
      let (result, pool) := g.report n.pool
      let n := { n with pool }.withMailing origin none
      match origin, result with
      | .line, .ok () => (some (.delivered g.deliveries.length), n)
      | .line, .error e => (some (.undelivered e), n)
      | .backlog, .ok () => (none, { n with worker := n.worker.map BacklogWorker.sent })
      | .backlog, .error e =>
        (some (.backlogUndelivered e), { n with worker := n.worker.map BacklogWorker.sent })
    else (none, n)

/-- Lets the backlog worker take a step, if it can. -/
def work (n : Node) : Option Node :=
  match n.worker.map BacklogWorker.move with
  | some (.steps w) => some { n with worker := some w }
  | some (.sends m w) => some ({ n with worker := some w }.begin .backlog m)
  | _ => none

/-! ## Runs -/

/-- What can happen next. -/
inductive Move where
  /-- A round of the receive loop. -/
  | hears (r : Beacon.Received) (heardAt sweptAt : Nat)
  /-- The oldest change is taken note of. -/
  | takesNote
  | broadcasts (line : ByteArray)
  /-- A delivery goes on. If it has to ask the world, this is the answer. -/
  | delivers (origin : Origin) (place : Nat) (answer : (q : Ask) → q.Answer)
  /-- A mailing ends. -/
  | reports (origin : Origin)
  /-- The backlog worker goes on. -/
  | works
  /-- The time for which the backlog worker waits for messages has run out. -/
  | timesOut
  /-- Connections that have reached a limit are given up. -/
  | sweeps (now : Nat)

/-- The node after a move. A change is taken note of, and a line is taken, only by a node that is
free. -/
def next (n : Node) : Move → Node
  | .hears r heardAt sweptAt =>
    let (events, _, beacon) := n.beacon.receiveRound r heardAt sweptAt
    n.withChanges events beacon
  | .takesNote => if n.isFree then n.takeNote.2 else n
  | .broadcasts line => if n.isFree then (n.broadcast line).2 else n
  | .delivers origin place answer =>
    match n.moveOf origin place with
    | .steps phase pool => { n with pool }.withPhase origin place phase
    | .asks q next => n.withPhase origin place (next (answer q))
    | .waits | .isOver => n
  | .reports origin => (n.report origin).2
  | .works => n.work.getD n
  | .timesOut => { n with worker := n.worker.map BacklogWorker.timeOut }
  | .sweeps now => { n with pool := (n.pool.sweep now).2 }

/-- The node after a list of moves. -/
def run (n : Node) (moves : List Move) : Node :=
  moves.foldl next n

/-- Whether no change waits, no message waits and no mailing is under way. -/
def isSettled (n : Node) : Bool :=
  n.changes.isEmpty && n.direct.isNone && n.queued.isNone &&
    (n.worker.map BacklogWorker.isIdle).getD true

end Node

end PeerCluster
