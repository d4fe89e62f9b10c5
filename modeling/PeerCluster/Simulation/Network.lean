import PeerCluster.Exchange
import PeerCluster.FrameStream
import PeerCluster.Simulation.Peer

/-!
# A network in memory

The network connects the local node with scripted peers, in virtual time. On an isolated host no
network interface is up, so nothing can be reached. On a host with a loopback interface every peer
can be reached that accepts connections.

A question of a courier is answered at once if it can be. One that cannot is answered later, or when
the courier's patience runs out.
-/

namespace PeerCluster.Simulation

/-- What the local host can reach. -/
inductive Host where
  /-- No network interface is up. -/
  | isolated
  /-- The loopback interface is up. -/
  | loopback
  deriving DecidableEq, Repr

/-- More than any script waits, in milliseconds, and more steps than any script takes. -/
def horizon : Nat := 1000000000000000000

/-- A connection to a scripted peer, as the peer sees it. -/
structure Connection where
  /-- The place of the peer. -/
  peer : Nat
  /-- How many connections the peer had before. -/
  index : Nat
  /-- The frames that the peer has not read, in order. -/
  unread : List Frame := []
  /-- The frames that the peer has read, last first. -/
  received : List Frame := []
  /-- How many messages the peer has read. -/
  messages : Nat := 0
  /-- What the peer has sent and nobody has read. -/
  replies : ByteArray := .empty
  /-- Whether the peer has ended its side. -/
  ended : Bool := false
  /-- The message that the peer holds. -/
  held : Option Frame := none

/-- Peers, connections to them, and the time. -/
structure Network where
  host : Host
  peers : List Peer
  connections : Array Connection := #[]
  /-- The time in milliseconds. -/
  now : Nat := 0
  /-- How often each peer may still let go of a message that it holds. -/
  releases : List (Nat × Nat) := []

namespace Connection

/-- The peer sends bytes, unless it has ended its side. -/
def say (c : Connection) (bs : ByteArray) : Connection :=
  if c.ended then c else { c with replies := c.replies ++ bs }

/-- The peer answers a message. -/
def answer (c : Connection) (accepted : Bool) (message : Frame) : Connection :=
  c.say (Frame.reply accepted message.id).encode

/-- The peer answers a message if it was asked to. -/
def answerIfAsked (c : Connection) (accepted : Bool) (message : Frame) : Connection :=
  if message.asksForAck then c.answer accepted message else c

/-- The peer reacts to a message. -/
def react (c : Connection) (message : Frame) : Reaction → Connection
  | .answer accepted => c.answerIfAsked accepted message
  | .insist accepted => c.answer accepted message
  | .silent => c
  | .hangUp => { c with ended := true }
  | .hold => { c with held := some message }
  | .send frames raw hangsUp =>
    let c := frames.foldl (fun c s => c.say (s.toFrame message.id).encode) c
    let c := c.say raw
    if hangsUp then { c with ended := true } else c

/-- The peer reads a frame. -/
def read (p : Peer) (c : Connection) (f : Frame) : Connection :=
  let c := { c with received := f :: c.received }
  if f.kind = .message then
    let reaction := p.reaction c.index c.messages
    { c with messages := c.messages + 1 }.react f reaction
  else c

/-- The peer reads frames until it holds a message. -/
def readAll (p : Peer) (c : Connection) : List Frame → Connection
  | [] => { c with unread := [] }
  | f :: rest => if c.held.isSome then { c with unread := f :: rest } else readAll p (c.read p f) rest

/-- The peer lets go of the message that it holds and reads on. -/
def release (p : Peer) (c : Connection) : Connection :=
  match c.held with
  | some message => readAll p ({ c with held := none }.answerIfAsked true message) c.unread
  | none => c

end Connection

namespace Network

/-- The place of the peer with the given address. -/
def placeOf? (n : Network) (address : String) : Option Nat :=
  n.peers.findIdx? fun p => p.member.address == address

/-- The place of the peer with the given name. -/
def placeNamed? (n : Network) (name : String) : Option Nat :=
  n.peers.findIdx? fun p => p.name == name

/-- Opens a connection to the peer at a place. -/
def connect (n : Network) (peer : Nat) : Link × Network :=
  let index := (n.connections.filter fun c => c.peer == peer).size
  (⟨n.connections.size⟩, { n with connections := n.connections.push { peer, index } })

/-- How often a peer may still let go of a message. -/
def releasesFor (n : Network) (peer : Nat) : Nat :=
  (n.releases.lookup peer).getD 0

/-- Changes how often a peer may still let go of a message. -/
def withReleases (n : Network) (peer count : Nat) : Network :=
  { n with releases := (peer, count) :: n.releases.filter fun r => r.1 != peer }

/-- The peer of a connection lets go of the message that it holds there, if it may. -/
def releaseAt (n : Network) (i : Nat) : Network :=
  match n.connections[i]? with
  | none => n
  | some c =>
    match n.peers[c.peer]? with
    | none => n
    | some p =>
      let count := n.releasesFor c.peer
      if c.held.isSome && 0 < count then
        { n.withReleases c.peer (count - 1) with
          connections := n.connections.modify i fun c => c.release p }
      else n

/-- How many frames peers hold or have not read. -/
def stalled (n : Network) : Nat :=
  n.connections.foldl (fun count c => count + c.unread.length + if c.held.isSome then 1 else 0) 0

/-- Peers let go of what they may. Each time over all connections at least one frame gets further,
or nothing does. -/
def releaseHeld (n : Network) : Network :=
  (List.range n.stalled).foldl
    (fun n _ => (List.range n.connections.size).foldl releaseAt n) n

/-- One more release for a peer. -/
def release (n : Network) (peer : Nat) : Network :=
  (n.withReleases peer (n.releasesFor peer + 1)).releaseHeld

/-- From now on no peer holds a message. -/
def releaseAll (n : Network) : Network :=
  { n with releases := (List.range n.peers.length).map fun peer => (peer, horizon) }.releaseHeld

/-- A frame reaches a peer. -/
def deliver (n : Network) (link : Link) (f : Frame) : Network :=
  match n.connections[link.number]? with
  | none => n
  | some c =>
    match n.peers[c.peer]? with
    | none => n
    | some p =>
      { n with
        connections := n.connections.modify link.number fun c =>
          c.readAll p (c.unread ++ [f]) }.releaseHeld

/-- What can be heard on a connection now. -/
def hear? (n : Network) (link : Link) : Option (Heard × Network) :=
  match n.connections[link.number]? with
  | none => some (.ended, n)
  | some c =>
    match FrameStream.arrived? c.replies c.ended with
    | none => none
    | some (.frame f rest) =>
      some (.frame f, { n with
        connections := n.connections.modify link.number fun c => { c with replies := rest.bytes } })
    | some .ended => some (.ended, n)
    | some (.failed e) => some (.failed e, n)

/-- The answer to a question, if there is one now. -/
def answer? (n : Network) : (q : Ask) → Option (q.Answer × Network)
  | .dial address _ =>
    match n.host with
    | .isolated => some (.failed (.os .networkUnreachable), n)
    | .loopback =>
      match n.placeOf? address with
      | none => some (.failed (.os .connectionRefused), n)
      | some place =>
        match n.peers[place]?.map Peer.reach with
        | some .accepts =>
          let (link, n) := n.connect place
          some (.connected link, n)
        | some .swallows => none
        | _ => some (.failed (.os .connectionRefused), n)
  | .write link f _ => some (.ok (), n.deliver link f)
  | .read link _ => n.hear? link
  | .close _ => some ((), n)
  | .mark _ => some ((), n)
  | .clock => some (n.now, n)

/-- For how many milliseconds a courier waits for an answer, and what it makes of none. -/
def patience : (q : Ask) → Nat × q.Answer
  | .dial _ settings => (settings.connectTimeoutMs.toNat, .timedOut)
  | .write _ _ ms => (ms, .error .writeTimedOut)
  | .read _ ms => (ms, .timedOut)
  | .close _ => (0, ())
  | .mark _ => (0, ())
  | .clock => (0, Nat.zero)

/-- The answer to a question, for which time passes if it has to. -/
def await (n : Network) (q : Ask) : q.Answer × Network :=
  match n.answer? q with
  | some found => found
  | none =>
    let (ms, nothing) := patience q
    (nothing, { n with now := n.now + ms })

/-- A network, and the health of the one peer that a courier goes to. -/
structure Errand where
  network : Network
  health : Health := .ready

/-- Carries a courier's plan out. -/
def Errand.carryOut {α : Type} (e : Errand) (plan : Exchange α) : α × Errand :=
  plan.run
    (fun q e =>
      let health := match q with
        | .mark next => e.health.mark next
        | _ => e.health
      let (a, network) := e.network.await q
      (a, ⟨network, health⟩))
    e

/-- The connections of the peer at a place, in order, each with the frames that the peer has
read. -/
def recorded (n : Network) (peer : Nat) : List (List Frame) :=
  (n.connections.toList.filter fun c => c.peer == peer).map fun c => c.received.reverse

/-- How many messages the peer at a place has read. -/
def messagesRead (n : Network) (peer : Nat) : Nat :=
  (n.connections.toList.filter fun c => c.peer == peer).foldl
    (fun count c => count + c.messages) 0

end Network

end PeerCluster.Simulation
