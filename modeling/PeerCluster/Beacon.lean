import PeerCluster.Channels
import PeerCluster.Heartbeat.Packet
import PeerCluster.IoFault
import PeerCluster.MemberEvent
import PeerCluster.Roster
import PeerCluster.Settings.Basic

/-!
# The beacon

The beacon announces the local member and listens for its peers. Two loops share one socket in the
multicast group: one hears heartbeats, keeps the roster and reports who joins and who leaves, the
other sends a heartbeat at every interval.

Starting and stopping a loop, and rebuilding the socket after too many errors in a row, may overlap.
Each of them is cut here into the pieces between two waits, and each piece is one function:

* `start`, which may have to wait for its first heartbeat to be sent, and `finishStart`;
* `stop`, which may have to wait for its last heartbeat to be sent;
* `attemptRecovery`, which may have to wait before it is tried again.

What the world decides is passed in: the outcome of opening a socket, the time, and the age of the
local member.
-/

namespace PeerCluster

/-- Names a socket of the beacon. -/
structure SocketId where
  number : Nat
  deriving DecidableEq, Repr

/-- The heartbeats of one member. -/
structure Beacon where
  settings : Settings.Membership
  /-- The local member as its next heartbeat describes it. -/
  self : Member
  roster : Roster
  /-- The loops that have been asked for. -/
  running : Channels := .none
  /-- The socket that is held. -/
  socket : Option SocketId := none
  /-- The socket on which the receive loop works, while there is such a loop. -/
  hearing : Option SocketId := none
  /-- The socket on which the transmit loop works, while there is such a loop. -/
  sending : Option SocketId := none
  /-- Whether a recovery is in progress. -/
  recovering : Bool := false
  /-- How many recoveries have begun. -/
  recoveries : UInt32 := 0
  /-- How many heartbeats in a row could not be sent. -/
  sendErrors : UInt32 := 0
  /-- How many times in a row the socket could not be read. -/
  receiveErrors : UInt32 := 0
  /-- How many sockets have been opened. -/
  opened : Nat := 0

namespace Beacon

/-! ## Hearing -/

/-- Takes a datagram in, and gives the change that it makes. One that is no heartbeat, is the local
member's own or comes from another domain changes nothing. -/
def hear (b : Beacon) (datagram : List UInt8) (now : Nat) : Option MemberEvent × Beacon :=
  match Heartbeat.Packet.decode datagram b.settings.maxPacketSize.toNat with
  | .error _ => (none, b)
  | .ok packet =>
    let m := packet.member
    if m.id = b.self.id ∨ m.domain ≠ b.self.domain then (none, b)
    else if packet.isShutdown then
      let (known, roster) := b.roster.remove m.id
      (known.map .left, { b with roster })
    else
      let (arrival, roster) := b.roster.hear m now
      (if arrival = .added then some (.joined m) else none, { b with roster })

/-- Drops the peers that have been silent for too long. -/
def expire (b : Beacon) (now : Nat) : List MemberEvent × Beacon :=
  let (silent, roster) := b.roster.expire b.settings.expirationMs.toNat now
  (silent.map .left, { b with roster })

/-! ## Errors and recovery -/

/-- Begins a recovery, unless recoveries are disabled or one is in progress. -/
def triggerRecovery (b : Beacon) : Bool × Beacon :=
  if b.settings.recoveryEnabled && !b.recovering then
    (true, { b with recovering := true, recoveries := b.recoveries + 1 })
  else (false, b)

/-- A loop of the beacon, as the one whose errors are counted. -/
inductive Side where
  | send
  | receive
  deriving DecidableEq, Repr

/-- How many errors in a row a loop has had. -/
def errors (b : Beacon) : Side → UInt32
  | .send => b.sendErrors
  | .receive => b.receiveErrors

/-- Sets how many errors in a row a loop has had. -/
def withErrors (b : Beacon) (side : Side) (n : UInt32) : Beacon :=
  match side with
  | .send => { b with sendErrors := n }
  | .receive => { b with receiveErrors := n }

/-- Counts an error of a loop. At the threshold the count begins anew and a recovery is called for;
the answer says whether one begins. -/
def recordError (b : Beacon) (side : Side) : Bool × Beacon :=
  let n := b.errors side + 1
  if b.settings.recoveryThreshold ≤ n then (b.withErrors side 0).triggerRecovery
  else (false, b.withErrors side n)

/-! ## The receive loop -/

/-- How one wait for a datagram ends. -/
inductive Received where
  | datagram (bs : List UInt8)
  | timedOut
  | failed

/-- One round of the receive loop: the changes it makes, and whether a recovery begins. The clock is
read when a datagram has been received, and again before silent peers are dropped. -/
def receiveRound (b : Beacon) (r : Received) (heardAt sweptAt : Nat) :
    List MemberEvent × Bool × Beacon :=
  let (events, triggered, b) := match r with
    | .datagram bs =>
      let b := b.withErrors .receive 0
      if b.settings.maxPacketSize.toNat < bs.length then ([], false, b)
      else
        let (event, b) := b.hear bs heardAt
        (event.toList, false, b)
    | .timedOut => ([], false, b)
    | .failed =>
      let (triggered, b) := b.recordError .receive
      ([], triggered, b)
  let (expired, b) := b.expire sweptAt
  (events ++ expired, triggered, b)

/-! ## The transmit loop -/

/-- The beacon with another payload for its next heartbeats. -/
def withPayload (b : Beacon) (payload : List UInt8) : Beacon :=
  { b with self := { b.self with payload } }

/-- The next heartbeat of the local member, who is so many milliseconds old. Every heartbeat of a
living member has the next number. -/
def compose (b : Beacon) (command : Heartbeat.Command) (age : UInt64) :
    Except WireError (List UInt8) × Beacon :=
  let sequence := if command = .alive then b.self.sequence + 1 else b.self.sequence
  let self := { b.self with aliveMs := age, sequence }
  let packet : Heartbeat.Packet := ⟨command, self⟩
  (packet.encode b.settings.maxPacketSize.toNat, { b with self })

/-- What became of a heartbeat of the transmit loop. -/
inductive Sent where
  | sent
  /-- It would have been too large. -/
  | refused
  | failed
  deriving DecidableEq, Repr

/-- Takes note of what became of a heartbeat, and says whether a recovery begins. -/
def noteSent (b : Beacon) : Sent → Bool × Beacon
  | .sent => (false, b.withErrors .send 0)
  | .refused => (false, b)
  | .failed => b.recordError .send

/-! ## The socket and the loops -/

/-- The socket that is held, opened now if there is none. -/
def ensureSocket (b : Beacon) (opening : Except IoFault Unit) : Except IoFault SocketId × Beacon :=
  match b.socket, opening with
  | some s, _ => (.ok s, b)
  | none, .ok () =>
    (.ok ⟨b.opened⟩, { b with socket := some ⟨b.opened⟩, opened := b.opened + 1 })
  | none, .error fault => (.error fault, b)

/-- Begins those of the given loops on a socket that are asked for and not there yet. -/
def spawnLoops (b : Beacon) (channels : Channels) (s : SocketId) : Beacon :=
  let b := if channels.receive && b.running.receive && b.hearing.isNone then
      { b with hearing := some s, receiveErrors := 0 }
    else b
  if channels.transmit && b.running.transmit && b.sending.isNone then
    { b with sending := some s, sendErrors := 0 }
  else b

/-- Ends the given loops. -/
def endLoops (b : Beacon) (channels : Channels) : Beacon :=
  { b with
    hearing := if channels.receive then none else b.hearing
    sending := if channels.transmit then none else b.sending }

/-! ## Starting -/

/-- How the first piece of a start ends. -/
inductive Started where
  /-- All the loops were already running. -/
  | already
  /-- No socket could be opened. -/
  | failed (fault : IoFault)
  /-- A first heartbeat is to be sent on the socket before these loops begin. -/
  | announcing (newly : Channels) (socket : SocketId) (datagram : List UInt8)
  /-- These loops have begun. -/
  | begun (newly : Channels)
  deriving DecidableEq, Repr

/-- Asks for loops. A first heartbeat that would be too large is left out. -/
def start (b : Beacon) (channels : Channels) (opening : Except IoFault Unit) (age : UInt64) :
    Started × Beacon :=
  let newly := channels.without b.running
  if newly.isEmpty then (.already, b)
  else
    let b := { b with running := b.running.union channels }
    match b.ensureSocket opening with
    | (.error fault, b) => (.failed fault, { b with running := b.running.without newly })
    | (.ok s, b) =>
      if newly.transmit then
        match b.compose .alive age with
        | (.ok datagram, b) => (.announcing newly s datagram, b)
        | (.error _, b) => (.begun newly, b.spawnLoops newly s)
      else (.begun newly, b.spawnLoops newly s)

/-- The rest of a start whose first heartbeat has been sent, or could not be. -/
def finishStart (b : Beacon) (newly : Channels) (s : SocketId) : Beacon :=
  b.spawnLoops newly s

/-! ## Stopping -/

/-- How the first piece of a stop ends. -/
inductive Stopped where
  /-- Other loops are still running. -/
  | partly
  /-- Nothing was held. -/
  | idle
  /-- A last heartbeat is to be sent on the socket before it leaves the group. -/
  | announcing (socket : SocketId) (datagram : List UInt8)
  /-- A last heartbeat should be sent, but it is too large; the socket leaves the group at once. -/
  | unannounced (socket : SocketId) (error : WireError)
  /-- The socket leaves the group at once, and nobody is told. -/
  | leaving (socket : SocketId)

/-- Ends loops. When no loop is asked for any more the socket is given up, and the peers are told if
a loop was running. -/
def stop (b : Beacon) (channels : Channels) (age : UInt64) : Stopped × Beacon :=
  let before := b.running
  let b := { b.endLoops channels with running := before.without channels }
  if !b.running.isEmpty then (.partly, b)
  else match b.socket with
    | none => (.idle, b)
    | some s =>
      let b := { b with socket := none }
      if before.isEmpty then (.leaving s, b)
      else match b.compose .shutdown age with
        | (.ok datagram, b) => (.announcing s datagram, b)
        | (.error e, b) => (.unannounced s e, b)

/-! ## Recovering -/

/-- Begins the loops that are asked for on a rebuilt socket. When none is, the socket is given up
instead; the answer says whether loops run. -/
def resume (b : Beacon) (s : SocketId) : Bool × Beacon :=
  if b.running.isEmpty then (false, { b with socket := none })
  else (true, b.spawnLoops b.running s)

/-- How one attempt to recover ends. -/
inductive Recovery where
  | recovered
  /-- Nothing is asked for any more. -/
  | abandoned
  /-- No socket could be opened; the attempt is repeated later. -/
  | failed (fault : IoFault)

/-- One attempt to rebuild the socket. The peers are not told, so that they keep the member
meanwhile. -/
def attemptRecovery (b : Beacon) (opening : Except IoFault Unit) : Recovery × Beacon :=
  if b.running.isEmpty then (.abandoned, { b with recovering := false })
  else
    let b := { b.endLoops .all with socket := none }
    match b.ensureSocket opening with
    | (.error fault, b) => (.failed fault, b)
    | (.ok s, b) =>
      let (loops, b) := b.resume s
      (if loops then .recovered else .abandoned, { b with recovering := false })

end Beacon

end PeerCluster
