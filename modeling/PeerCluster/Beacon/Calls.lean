import PeerCluster.Beacon

/-!
# Calls of the beacon that overlap

A start that waits for its first heartbeat to be sent, a stop that waits for its last one, and a
recovery that waits for its next attempt are calls in flight. A scene is a beacon with the calls
that are in flight. Every move begins a call, lets one go on, or is a round of one of the loops.
-/

namespace PeerCluster.Beacon

/-- A call that waits. -/
inductive Call where
  /-- A start whose first heartbeat is being sent. -/
  | starting (newly : Channels) (socket : SocketId)
  /-- A stop whose last heartbeat is being sent. -/
  | stopping (socket : SocketId)
  /-- A recovery before its next attempt. -/
  | recovering
  deriving DecidableEq, Repr

/-- A beacon and the calls in flight. -/
structure Scene where
  beacon : Beacon
  calls : List Call := []

/-- What can happen next. -/
inductive Move where
  /-- A start begins; if it has to open a socket, this comes of it. -/
  | start (channels : Channels) (opening : Except IoFault Unit) (age : UInt64)
  | stop (channels : Channels) (age : UInt64)
  /-- A recovery is called for. -/
  | trigger
  /-- The call at a place goes on; if it has to open a socket, this comes of it. -/
  | goOn (place : Nat) (opening : Except IoFault Unit)
  /-- The receive loop makes a round, if there is one. -/
  | receive (r : Received) (heardAt sweptAt : Nat)
  /-- The transmit loop sends a heartbeat, if there is one and it is not too large. -/
  | beat (age : UInt64) (isSent : Bool)
  /-- The local member has another payload. -/
  | payload (payload : List UInt8)

namespace Scene

/-- A recovery begins with its first attempt still to come. -/
def awaiting (triggered : Bool) (s : Scene) : Scene :=
  if triggered then { s with calls := s.calls ++ [.recovering] } else s

/-- A start begins. -/
def start (s : Scene) (channels : Channels) (opening : Except IoFault Unit) (age : UInt64) :
    Started × Scene :=
  let (started, beacon) := s.beacon.start channels opening age
  match started with
  | .announcing newly socket _ => (started, ⟨beacon, s.calls ++ [.starting newly socket]⟩)
  | _ => (started, { s with beacon })

/-- A stop begins. -/
def stop (s : Scene) (channels : Channels) (age : UInt64) : Stopped × Scene :=
  let (stopped, beacon) := s.beacon.stop channels age
  match stopped with
  | .announcing socket _ => (stopped, ⟨beacon, s.calls ++ [.stopping socket]⟩)
  | _ => (stopped, { s with beacon })

/-- A call goes on. -/
def goOn (s : Scene) (place : Nat) (opening : Except IoFault Unit) : Scene :=
  match s.calls[place]? with
  | none => s
  | some (.starting newly socket) =>
    ⟨s.beacon.finishStart newly socket, s.calls.eraseIdx place⟩
  | some (.stopping _) => { s with calls := s.calls.eraseIdx place }
  | some .recovering =>
    match s.beacon.attemptRecovery opening with
    | (.failed _, beacon) => { s with beacon }
    | (_, beacon) => ⟨beacon, s.calls.eraseIdx place⟩

/-- The receive loop makes a round, if there is one. -/
def receive (s : Scene) (r : Received) (heardAt sweptAt : Nat) : List MemberEvent × Scene :=
  if s.beacon.hearing.isNone then ([], s)
  else
    let (events, triggered, beacon) := s.beacon.receiveRound r heardAt sweptAt
    (events, awaiting triggered { s with beacon })

/-- The transmit loop sends a heartbeat, if there is one and it is not too large. -/
def beat (s : Scene) (age : UInt64) (isSent : Bool) : Option (List UInt8) × Scene :=
  if s.beacon.sending.isNone then (none, s)
  else match s.beacon.compose .alive age with
    | (.error _, beacon) =>
      let (triggered, beacon) := beacon.noteSent .refused
      (none, awaiting triggered { s with beacon })
    | (.ok datagram, beacon) =>
      let (triggered, beacon) := beacon.noteSent (if isSent then .sent else .failed)
      (some datagram, awaiting triggered { s with beacon })

/-- The scene after a move. -/
def next (s : Scene) : Move → Scene
  | .start channels opening age => (s.start channels opening age).2
  | .stop channels age => (s.stop channels age).2
  | .trigger =>
    let (triggered, beacon) := s.beacon.triggerRecovery
    awaiting triggered { s with beacon }
  | .goOn place opening => s.goOn place opening
  | .receive r heardAt sweptAt => (s.receive r heardAt sweptAt).2
  | .beat age isSent => (s.beat age isSent).2
  | .payload payload => { s with beacon := s.beacon.withPayload payload }

/-- The scene after a list of moves. -/
def run (s : Scene) (moves : List Move) : Scene :=
  moves.foldl next s

end Scene

end PeerCluster.Beacon
