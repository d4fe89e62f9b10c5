import PeerCluster.Beacon.Buffer
import PeerCluster.Feed
import PeerCluster.Simulation.Network

/-!
# A beacon in memory

A station is a beacon on a simulated host, in virtual time. Its heartbeats go to a group that may
record them, and its socket can only be opened where the group and the host allow it. What the
beacon does on its own, such as sending heartbeats and recovering, happens while the caller waits.
-/

namespace PeerCluster.Simulation

/-- Where heartbeats go. -/
inductive Group where
  /-- A group in which nobody listens. -/
  | empty
  /-- A single address that records what it receives. -/
  | recorder
  /-- An address that is no group. -/
  | unjoinable
  deriving DecidableEq, Repr

/-- A beacon on a simulated host. -/
structure Station where
  host : Host
  group : Group
  scene : Beacon.Scene
  /-- The changes that have not been passed on, in order. -/
  queue : List MemberEvent := []
  feed : Feed String := {}
  /-- The time in milliseconds since the station began. -/
  now : Nat := 0
  /-- When the transmit loop sends its next heartbeat. -/
  nextBeat : Option Nat := none
  /-- When the receive loop looks at the clock next. -/
  nextRound : Option Nat := none
  /-- When a recovery makes its next attempt. -/
  nextAttempt : Option Nat := none
  /-- The datagrams that the group has recorded and nobody has looked at, in order. -/
  recorded : List (List UInt8) := []
  /-- Whether there has ever been a receive loop. -/
  everHeard : Bool := false

namespace Station

/-- The beacon. -/
def beacon (s : Station) : Beacon :=
  s.scene.beacon

/-- The wall clock, which began long before the station. -/
def wallClock (s : Station) : Nat :=
  1700000000000 + s.now

/-- What comes of opening a socket and joining the group. -/
def opening (s : Station) : Except IoFault Unit :=
  match s.group, s.host with
  | .empty, .loopback => .ok ()
  | .empty, .isolated => .error (.os .noSuchDevice)
  | .recorder, _ | .unjoinable, _ => .error (.os .invalidArgument)

/-- How old the local member is. -/
def age (s : Station) : UInt64 :=
  s.now.toUInt64

/-- When a wait of so many milliseconds ends. No wait is shorter than a millisecond. -/
def after (s : Station) (ms : UInt64) : Nat :=
  s.now + max 1 ms.toNat

/-- Sets the clocks of loops that have begun or ended between two beacons. A receive loop without its
buffer has none. -/
def withScene (s : Station) (scene : Beacon.Scene) : Station :=
  let old := s.beacon
  let new := scene.beacon
  let beat := s.after new.settings.heartbeatIntervalMs
  let round := if new.settings.hasBuffer then some (s.after new.settings.readTimeout) else none
  { s with
    scene
    nextBeat := if new.sending = old.sending then s.nextBeat else new.sending.map fun _ => beat
    nextRound := if new.hearing = old.hearing then s.nextRound else new.hearing.bind fun _ => round
    nextAttempt := if scene.calls.contains .recovering then some (s.nextAttempt.getD s.now) else none
    everHeard := s.everHeard || new.hearing.isSome }

/-- The station with another beacon. -/
def withBeacon (s : Station) (beacon : Beacon) : Station :=
  s.withScene { s.scene with beacon }

/-- Whether a datagram can be sent. -/
def canSend (s : Station) : Bool :=
  s.host == .loopback

/-- Sends a datagram to the group, if it can be sent. -/
def transmit (s : Station) (datagram : List UInt8) : Station :=
  if s.canSend && s.group == .recorder then { s with recorded := s.recorded ++ [datagram] } else s

/-- Takes note of the outcome of something that may have begun a recovery. -/
def noting (s : Station) (outcome : Bool × Beacon) : Station :=
  s.withScene (.awaiting outcome.1 { s.scene with beacon := outcome.2 })

/-! ## What the beacon does on its own -/

/-- The transmit loop sends a heartbeat. -/
def beat (s : Station) : Station :=
  let (datagram, scene) := s.scene.beat s.age s.canSend
  let s := { s.withScene scene with
    nextBeat := some (s.after scene.beacon.settings.heartbeatIntervalMs) }
  datagram.elim s s.transmit

/-- The receive loop looks at the clock. -/
def round (s : Station) : Station :=
  let now := s.wallClock
  let (events, scene) := s.scene.receive .timedOut now now
  { s.withScene scene with
    nextRound := some (s.after scene.beacon.settings.readTimeout)
    queue := s.queue ++ events }

/-- The recovery makes its next attempt. -/
def attempt (s : Station) : Station :=
  match s.scene.calls.findIdx? (· == .recovering) with
  | none => { s with nextAttempt := none }
  | some place =>
    let later := s.after s.beacon.settings.recoverySleepMs
    { s with nextAttempt := some later }.withScene (s.scene.goOn place s.opening)

/-- The recovery makes its attempt if it is time to. -/
def settle (s : Station) : Station :=
  match s.nextAttempt with
  | some time => if time ≤ s.now then s.attempt else s
  | none => s

/-- Lets time pass to the given moment, but not beyond a goal, with what the beacon does before that
moment. The first argument bounds how often it does something. -/
def passUntil (goal : Station → Bool) (moment : Nat) : (bound : Nat) → Station → Station
  | 0, s => s
  | bound + 1, s =>
    if goal s then s
    else
      let due := [s.nextAttempt, s.nextBeat, s.nextRound].filterMap fun time => time
      let time := due.foldl min moment
      if moment ≤ time then { s with now := max s.now moment }
      else
        let s := { s with now := max s.now time }
        let s := if s.nextAttempt.any (· ≤ s.now) then s.attempt
          else if s.nextBeat.any (· ≤ s.now) then s.beat
          else s.round
        passUntil goal moment bound s

/-- Lets so many milliseconds pass. -/
def pass (s : Station) (ms : Nat) : Station :=
  passUntil (fun _ => false) (s.now + ms) horizon s

/-- How long a script waits for something that may never happen. -/
def scriptPatience : Nat := 5000

/-- Waits for a goal, and says whether it was reached. -/
def waitFor (s : Station) (goal : Station → Bool) : Bool × Station :=
  let s := passUntil goal (s.now + scriptPatience) horizon s.settle
  (goal s, s)

/-! ## What a script does -/

/-- The last call in flight goes on. -/
def finishLast (s : Station) : Station :=
  let scene := s.scene
  s.withScene (scene.goOn (scene.calls.length - 1) s.opening)

/-- Starts loops, and then waits for two heartbeat intervals if any has begun. -/
def start (s : Station) (channels : Channels) : Except IoFault Unit × Station :=
  let (started, scene) := s.scene.start channels s.opening s.age
  let s := s.withScene scene
  let settling := 2 * s.beacon.settings.heartbeatIntervalMs.toNat
  match started with
  | .already => (.ok (), s)
  | .failed fault => (.error fault, s)
  | .announcing _ _ datagram => (.ok (), ((s.transmit datagram).finishLast.settle).pass settling)
  | .begun _ => (.ok (), s.settle.pass settling)

/-- Stops loops. -/
def stop (s : Station) (channels : Channels) : Station :=
  let (stopped, scene) := s.scene.stop channels s.age
  let s := s.withScene scene
  match stopped with
  | .announcing _ datagram => (s.transmit datagram).finishLast.settle
  | _ => s

/-- Gives the beacon a socket. -/
def attach (s : Station) : Station :=
  s.withBeacon (s.beacon.ensureSocket (.ok ())).2

/-- Begins loops on the socket that the beacon holds; `none` when it holds none. -/
def spawnLoops (s : Station) (channels : Channels) : Option Station :=
  s.beacon.socket.map fun socket => s.withBeacon (s.beacon.spawnLoops channels socket)

/-- Begins the loops that are asked for on the socket that the beacon holds; `none` when it holds none. -/
def resume (s : Station) : Option (Bool × Station) :=
  s.beacon.socket.map fun socket =>
    let (loops, beacon) := s.beacon.resume socket
    (loops, s.withBeacon beacon)

/-- Takes a datagram in. -/
def hear (s : Station) (datagram : List UInt8) (now : Nat) : Station :=
  let (event, beacon) := s.beacon.hear datagram now
  { s.withBeacon beacon with queue := s.queue ++ event.toList }

/-- Drops the peers that have been silent for too long. -/
def expire (s : Station) (now : Nat) : Station :=
  let (events, beacon) := s.beacon.expire now
  { s.withBeacon beacon with queue := s.queue ++ events }

/-- Counts an error of a loop. -/
def recordError (s : Station) (side : Beacon.Side) : Station :=
  s.noting (s.beacon.recordError side)

/-- Calls for a recovery. -/
def triggerRecovery (s : Station) : Station :=
  s.noting s.beacon.triggerRecovery

/-- Sends datagrams to the receive loop; `none` when they cannot be sent. -/
def inject (s : Station) (datagrams : List (List UInt8)) : Option Station :=
  if s.canSend then
    some (datagrams.foldl
      (fun s bs =>
        let now := s.wallClock
        let (events, scene) := s.scene.arrive bs now now
        { s.withScene scene with queue := s.queue ++ events })
      s)
  else none

/-- Takes the next datagrams that the group records; `none` for each that never comes. -/
def takeRecorded (s : Station) : (count : Nat) → List (Option (List UInt8)) × Station
  | 0 => ([], s)
  | count + 1 =>
    let (_, s) := s.waitFor fun s => !s.recorded.isEmpty
    let (rest, after) := takeRecorded { s with recorded := s.recorded.tail } count
    (s.recorded.head? :: rest, after)

/-- What a group records of a member that shuts down. -/
structure Farewell where
  /-- Whether the numbers of the heartbeats before the last one go up by one. -/
  isContiguous : Bool
  /-- Whether the last one repeats the number before it. -/
  repeatsLast : Bool

/-- Takes recorded datagrams up to the heartbeat of a shutdown, behind the heartbeat of the given
number. The first argument bounds how many are taken. -/
def takeToShutdownFrom (isContiguous : Bool) :
    (bound : Nat) → (last : UInt64) → Station → Option Farewell × Station
  | 0, _, s => (none, s)
  | bound + 1, last, s =>
    match s.takeRecorded 1 with
    | ([some bs], s) =>
      match Heartbeat.Packet.decode bs s.beacon.settings.maxPacketSize.toNat with
      | .error _ => takeToShutdownFrom isContiguous bound last s
      | .ok p =>
        let n := p.member.sequence
        if p.isShutdown then (some ⟨isContiguous, n == last⟩, s)
        else takeToShutdownFrom (isContiguous && n == last + 1) bound n s
    | (_, s) => (none, s)

/-- Takes recorded datagrams up to the heartbeat of a shutdown, behind the heartbeat of the given
number. -/
def takeToShutdown (s : Station) (last : UInt64) : Option Farewell × Station :=
  takeToShutdownFrom true horizon last s

/-- Passes the queued changes on to the subscribers, and gives the calls in order. -/
def dispatch (s : Station) : List (String × MemberEvent) × Station :=
  (s.queue.flatMap fun e => s.feed.calls.map fun name => (name, e), { s with queue := [] })

/-- Takes the queued changes. -/
def takeQueue (s : Station) : List MemberEvent × Station :=
  (s.queue, { s with queue := [] })

end Station

end PeerCluster.Simulation
