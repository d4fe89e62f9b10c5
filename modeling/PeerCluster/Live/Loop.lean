import PeerCluster.Beacon.Buffer
import PeerCluster.Inbound
import PeerCluster.Live.Sockets
import PeerCluster.Node
import Std.Sync.Channel

/-!
# A node on a real machine

The loop that keeps a node going. Whatever happens to the node is put into a mailbox and taken out
one after the other; what the node asks of the world is done meanwhile, and the answer is put into
the mailbox.
-/

namespace PeerCluster.Live

open Std.Async (Async)

/-- How far a node on a machine is. -/
inductive Stage where
  /-- It waits for the first heartbeats of its peers. -/
  | settling
  | working
  /-- It finishes what it is sending. -/
  | ending
  deriving BEq

/-- A question that a delivery waits to be answered. -/
structure Pending where
  serial : Nat
  origin : Node.Origin
  place : Nat

/-- A node on a machine. -/
structure State where
  node : Node
  settings : Settings
  verbose : Bool
  /-- When the node was started. -/
  startedAt : Nat
  stage : Stage := .settling
  /-- The lines that have been read and not been taken up, in order. -/
  lines : Array ByteArray := #[]
  interrupted : Bool := false
  links : List (Link × Connection) := []
  nextLink : Nat := 0
  sockets : List (SocketId × Std.Async.UDP.Socket) := []
  pending : List Pending := []
  nextSerial : Nat := 0

/-- What happens to a node. -/
inductive Occurrence where
  | heard (socket : SocketId) (r : Beacon.Received)
  | beatDue (socket : SocketId)
  | beatSent (socket : SocketId) (outcome : Beacon.Sent)
  | recoveryDue
  /-- An answer, as what it makes of the state and of the delivery that waits for it. -/
  | answered (serial : Nat) (answer : State → State × Mailing.Phase)
  | settled
  | line (bytes : ByteArray)
  | sweepDue
  | interrupted
  deriving Inhabited

/-- Where occurrences are put. -/
abbrev Mailbox := Std.Channel Occurrence

/-- Puts an occurrence into the mailbox. -/
def Mailbox.put (box : Mailbox) (o : Occurrence) : Async Unit := do
  discard (box.send o)

/-- Puts an occurrence into the mailbox later. -/
def Mailbox.putAfter (box : Mailbox) (ms : Nat) (o : Occurrence) : IO Unit :=
  begin do
    pause ms
    box.put o

/-- Tells the log. -/
def tell (verbose : Bool) (n : Notice) : IO Unit := do
  if verbose || n.level != .debug then
    let out ← IO.getStdout
    out.putStrLn n.line
    out.flush

/-- The time of day in milliseconds. -/
def wallClock : IO Nat := do
  return (← Std.Time.Timestamp.now).toMillisecondsSinceUnixEpoch.toInt.toNat

/-! ## Inbound connections -/

/-- How long a caller may take for anything but to say who it is. -/
def callerPatience : Nat := 1000000000000

/-- Serves a caller to the end. -/
partial def serve (verbose : Bool) (c : Connection) (s : Inbound) : Async Unit := do
  let patience := match s.phase with
    | .fresh => Inbound.handshakePatience
    | _ => callerPatience
  match ← c.hear patience with
  | .frame f =>
    let s := s.take (fun _ _ => true) f
    for r in s.receipts do tell verbose (.received r.source r.payload)
    for reply in s.replies do discard (c.say reply)
    if s.isOver then c.close else serve verbose c ⟨s.phase, [], []⟩
  | _ => c.close

/-- Serves callers for ever. -/
partial def serveAll (verbose : Bool) (server : Std.Async.TCP.Socket.Server) : Async Unit := do
  match ← trying server.accept with
  | .error _ => pause 100
  | .ok client => begin (serve verbose (← Connection.of client) {})
  serveAll verbose server

/-! ## The beacon -/

/-- How old the local member is. -/
def State.age (s : State) : IO UInt64 := do
  return ((← IO.monoMsNow) - s.startedAt).toUInt64

/-- Waits for a datagram, once, unless there is no buffer for it. -/
def listenOnce (box : Mailbox) (m : Settings.Membership) (id : SocketId)
    (socket : Std.Async.UDP.Socket) : IO Unit :=
  if !m.hasBuffer then pure ()
  else begin do
    let arrival : Std.Async.Selectable Beacon.Received :=
      .case (socket.recvSelector m.bufferSize) fun found =>
        return .datagram found.1.data.toList
    let timer : Std.Async.Selectable Beacon.Received :=
      .case (← Std.Async.Selector.sleep (.ofNat (max 1 m.readTimeout.toNat))) fun _ =>
        return .timedOut
    match ← trying (Std.Async.Selectable.one #[arrival, timer]) with
    | .ok r => box.put (.heard id r)
    | .error _ =>
      pause 1
      box.put (.heard id .failed)

/-- Lets the loops of the beacon go on that are not on the same socket as before. -/
def State.arm (s : State) (box : Mailbox) (before : Beacon) : IO Unit := do
  let b := s.node.beacon
  if b.hearing != before.hearing then
    if let some id := b.hearing then
      if let some socket := s.sockets.lookup id then listenOnce box s.settings.membership id socket
  if b.sending != before.sending then
    if let some id := b.sending then
      box.putAfter s.settings.membership.heartbeatIntervalMs.toNat (.beatDue id)

/-- The state with another beacon, whose loops go on. -/
def State.withBeacon (s : State) (box : Mailbox) (b : Beacon) : IO State := do
  let before := s.node.beacon
  let s := { s with node := { s.node with beacon := b } }
  s.arm box before
  return s

/-- A round of the receive loop. -/
def State.hear (s : State) (box : Mailbox) (id : SocketId) (r : Beacon.Received) : IO State := do
  if s.node.beacon.hearing != some id then return s
  let (events, recover, b) := s.node.beacon.receiveRound r (← wallClock) (← wallClock)
  if recover then begin (box.put .recoveryDue)
  if let some socket := s.sockets.lookup id then listenOnce box s.settings.membership id socket
  return { s with node := s.node.withChanges events b }

/-- Sends the next heartbeat. -/
def State.beat (s : State) (box : Mailbox) (id : SocketId) : IO State := do
  if s.node.beacon.sending != some id then return s
  box.putAfter s.settings.membership.heartbeatIntervalMs.toNat (.beatDue id)
  let (datagram, b) := s.node.beacon.compose .alive (← s.age)
  match datagram, s.sockets.lookup id with
  | .ok bs, some socket =>
    begin do
      match ← transmit s.settings.membership socket bs with
      | .ok () => box.put (.beatSent id .sent)
      | .error _ => box.put (.beatSent id .failed)
  | _, _ => begin (box.put (.beatSent id .refused))
  s.withBeacon box b

/-- Takes note of what became of a heartbeat. -/
def State.noteSent (s : State) (box : Mailbox) (id : SocketId) (outcome : Beacon.Sent) :
    IO State := do
  if s.node.beacon.sending != some id then return s
  let (recover, b) := s.node.beacon.noteSent outcome
  if recover then begin (box.put .recoveryDue)
  s.withBeacon box b

/-- The state with the socket that the beacon has been given. -/
def State.withSocket (s : State) (b : Beacon) (socket : Option Std.Async.UDP.Socket) : State :=
  match b.socket, socket with
  | some id, some socket => { s with sockets := [(id, socket)] }
  | _, _ => s

/-- Attempts to rebuild the socket. -/
def State.recover (s : State) (box : Mailbox) : IO State := do
  let opened ← if s.node.beacon.running.isEmpty then pure (.error .brokenPipe)
    else join s.settings.membership
  let (outcome, b) := s.node.beacon.attemptRecovery (opened.map fun _ => ())
  let s := s.withSocket b opened.toOption
  if let .failed _ := outcome then
    box.putAfter s.settings.membership.recoverySleepMs.toNat .recoveryDue
  s.withBeacon box b

/-! ## Deliveries -/

/-- Answers a question of a delivery: at once, with the phase that the delivery comes to, or later
through the mailbox. -/
def State.answer (s : State) (box : Mailbox) (serial : Nat) :
    (q : Ask) → (q.Answer → Mailing.Phase) → IO (State × Option Mailing.Phase)
  | .dial address settings, next => do
    box.putAfter settings.connectTimeoutMs.toNat (.answered serial fun s => (s, next .timedOut))
    begin do
      match ← dial address settings with
      | .error fault => box.put (.answered serial fun s => (s, next (.failed fault)))
      | .ok c => box.put (.answered serial fun s =>
          let link : Link := ⟨s.nextLink⟩
          ({ s with links := (link, c) :: s.links, nextLink := s.nextLink + 1 },
            next (.connected link)))
    return (s, none)
  | .write link f ms, next => do
    match s.links.lookup link with
    | none => return (s, some (next (.error .brokenPipe)))
    | some c =>
      box.putAfter ms (.answered serial fun s => (s, next (.error .writeTimedOut)))
      begin do
        let result ← c.say f
        box.put (.answered serial fun s => (s, next result))
      return (s, none)
  | .read link ms, next => do
    match s.links.lookup link with
    | none => return (s, some (next .ended))
    | some c =>
      begin do
        let heard ← c.hear ms
        box.put (.answered serial fun s => (s, next heard))
      return (s, none)
  | .close link, next => do
    if let some c := s.links.lookup link then begin c.close
    return ({ s with links := s.links.filter fun l => l.1 != link }, some (next ()))
  | .mark _, next => return (s, some (next ()))
  | .clock, next => return (s, some (next (← IO.monoMsNow)))

/-- One step of the delivery at a place of a mailing, if it can take one now. -/
def State.deliver? (s : State) (box : Mailbox) (origin : Node.Origin) (place : Nat) :
    IO (Option State) := do
  if s.pending.any fun p => p.origin = origin && p.place = place then return none
  match s.node.moveOf origin place with
  | .waits | .isOver => return none
  | .steps phase pool =>
    return some { s with node := { s.node with pool }.withPhase origin place phase }
  | .asks q next =>
    let serial := s.nextSerial
    let (s, phase) ← { s with nextSerial := serial + 1 }.answer box serial q next
    match phase with
    | some phase => return some { s with node := s.node.withPhase origin place phase }
    | none => return some { s with pending := ⟨serial, origin, place⟩ :: s.pending }

/-- Takes an answer, unless another one came first. -/
def State.takeAnswer (s : State) (serial : Nat) (answer : State → State × Mailing.Phase) : State :=
  match s.pending.find? fun p => p.serial = serial with
  | none => s
  | some p =>
    let (s, phase) := answer s
    { s with
      node := s.node.withPhase p.origin p.place phase
      pending := s.pending.filter fun p => p.serial ≠ serial }

/-- Closes the connections that couriers have let go of. -/
def State.closeReleased (s : State) : IO State := do
  let released := s.node.pool.released
  for link in released do
    if let some c := s.links.lookup link then begin c.close
  return { s with
    links := s.links.filter fun l => !released.contains l.1
    node := { s.node with pool := { s.node.pool with released := [] } } }

/-! ## The loop -/

/-- The state after a step of the node that may have told something. -/
def State.telling (s : State) (outcome : Option Notice × Node) : IO State := do
  if let some notice := outcome.1 then tell s.verbose notice
  return { s with node := outcome.2 }

/-- One step of a mailing, if it can take one now. -/
def State.mail? (s : State) (box : Mailbox) (origin : Node.Origin) : IO (Option State) := do
  match s.node.mailing? origin with
  | none => return none
  | some g =>
    if g.isOver then return some (← s.telling (s.node.report origin))
    for place in List.range g.deliveries.length do
      if let some s ← s.deliver? box origin place then return some s
    return none

/-- Gives everything up but what is being sent. -/
def State.shutDown (s : State) : IO State := do
  tell s.verbose .interrupted
  tell s.verbose .stopping
  let socket := s.node.beacon.socket.bind fun id => s.sockets.lookup id
  let (stopped, b) := s.node.beacon.stop .all (← s.age)
  if let some socket := socket then
    if let .announcing _ datagram := stopped then
      discard (transmit s.settings.membership socket datagram).block
    leave s.settings.membership socket
  return { s with
    stage := .ending
    node := { s.node with beacon := b, worker := s.node.worker.map BacklogWorker.shutdown } }

/-- One step of the node that needs nothing to happen first, if there is one. -/
def State.step? (s : State) (box : Mailbox) : IO (Option State) := do
  if let some s ← s.mail? box .line then return some s
  if let some s ← s.mail? box .backlog then return some s
  if let some node := s.node.work then return some { s with node }
  if s.stage != .working || !s.node.isFree then return none
  if !s.node.changes.isEmpty then return some (← s.telling s.node.takeNote)
  if s.interrupted then return some (← s.shutDown)
  match s.lines[0]? with
  | some line =>
    return some (← { s with lines := s.lines.extract 1 s.lines.size }.telling
      (s.node.broadcast line))
  | none => return none

/-- Takes an occurrence. -/
def State.take (s : State) (box : Mailbox) : Occurrence → IO State
  | .heard id r => s.hear box id r
  | .beatDue id => s.beat box id
  | .beatSent id outcome => s.noteSent box id outcome
  | .recoveryDue => s.recover box
  | .answered serial answer => return s.takeAnswer serial answer
  | .settled => do
    tell s.verbose (.running s.node.live)
    return { s with stage := .working }
  | .line bytes => return { s with lines := s.lines.push bytes }
  | .sweepDue => do
    box.putAfter s.settings.transmission.keepaliveIntervalMs.toNat .sweepDue
    return { s with node := { s.node with pool := (s.node.pool.sweep (← IO.monoMsNow)).2 } }
  | .interrupted => return { s with interrupted := true }

/-- Whether everything has been done. -/
def State.isOver (s : State) : Bool :=
  s.stage == .ending && (s.node.worker.map BacklogWorker.hasEnded).getD true

/-- Keeps a node going to the end. -/
partial def State.run (s : State) (box : Mailbox) : IO Unit := do
  match ← s.step? box with
  | some s => run (← s.closeReleased) box
  | none =>
    if s.isOver then return
    let o ← IO.wait (← box.recv)
    run (← s.take box o) box

/-! ## Beginning -/

/-- A line without its end. -/
def withoutEnd (line : String) : String :=
  let line := (line.dropSuffix "\n").toString
  (line.dropSuffix "\r").toString

/-- Puts the lines of the standard input into the mailbox. -/
partial def readLines (box : Mailbox) (input : IO.FS.Stream) : IO Unit := do
  let line ← input.getLine
  if line.isEmpty then return
  discard (box.put (.line (withoutEnd line).toUTF8)).toIO
  readLines box input

/-- The local member. -/
def localMember (s : Settings) (server : Std.Async.TCP.Socket.Server) : IO Member := do
  let bytes ← IO.getRandomBytes 16
  let port := s.membership.localPort.getD (portOf (← server.getSockName))
  return {
    id := .ofBytes bytes.data.toList
    host := s.membership.localHost
    port
    domain := s.membership.domainBytes }

/-- Keeps a node with the given settings going, on the data channel and the socket that have been
opened for it. -/
def work (verbose : Bool) (s : Settings) (server : Std.Async.TCP.Socket.Server)
    (socket : Std.Async.UDP.Socket) : IO Unit := do
  let box : Mailbox ← Std.Channel.new
  let self ← localMember s server
  tell verbose (.identity self)
  begin (serveAll verbose server)
  let pool : CourierPool := {
    settings := s.delivery
    fanOut := s.transmission.fanOut
    self := .ofMember self }
  let beacon : Beacon := { settings := s.membership, self, roster := ⟨self.id, {}⟩ }
  let (started, b) := beacon.start .all (.ok ()) 0
  let b ← match started with
    | .announcing newly id datagram => do
      discard (transmit s.membership socket datagram).block
      pure (b.finishStart newly id)
    | _ => pure b
  let state : State := {
    node := {
      beacon
      pool
      worker := if s.queue.enabled then some { backlog := .empty s.queue.maxLength.toNat } else none
      wait := s.delivery.waitForAck }
    settings := s
    verbose
    startedAt := ← IO.monoMsNow }
  let state ← (state.withSocket b (some socket)).withBeacon box b
  box.putAfter (2 * s.membership.heartbeatIntervalMs.toNat) .settled
  box.putAfter s.transmission.keepaliveIntervalMs.toNat .sweepDue
  discard (IO.asTask (readLines box (← IO.getStdin)) .dedicated)
  let signal ← Std.Async.Signal.Waiter.mk .sigint false
  begin do
    discard (Std.Async.await (← signal.wait))
    box.put .interrupted
  state.run box

end PeerCluster.Live
