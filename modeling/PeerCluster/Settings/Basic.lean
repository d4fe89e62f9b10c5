import PeerCluster.Net.Address

/-!
# Settings

What a node can be told, in five sections, each with a default for every setting. Times are in
milliseconds.
-/

namespace PeerCluster

namespace Settings

/-! ## Defaults with a name -/

def defaultAddress : IPAddress := .v4 (.ofOctets 228 0 0 4)

def defaultPort : UInt16 := 45564

def defaultHeartbeatIntervalMs : UInt64 := 500

def defaultExpirationMs : UInt64 := 3000

def defaultRecoveryThreshold : UInt32 := 10

def defaultRecoverySleepMs : UInt64 := 5000

def defaultMaxPacketSize : UInt64 := 8192

def defaultLocalHost : String := "127.0.0.1"

def defaultMaxRetryAttempts : UInt32 := 1

/-- For connecting, and for a write or an answer. -/
def defaultTimeoutMs : UInt64 := 3000

def defaultKeepaliveIntervalMs : UInt64 := 5000

def defaultRemoveTimeoutMs : UInt64 := 250

def defaultListen : SocketAddress := .v4 .unspecified 4000

/-! ## Sections -/

/-- How live peers are found. -/
structure Membership where
  /-- The multicast group of the heartbeats. -/
  address : IPAddress := defaultAddress
  /-- The port of the heartbeats. -/
  port : UInt16 := defaultPort
  /-- The interface on which heartbeats are sent and received. -/
  bind : Option IPAddress := none
  heartbeatIntervalMs : UInt64 := defaultHeartbeatIntervalMs
  /-- A peer that is silent for longer is dropped. -/
  expirationMs : UInt64 := defaultExpirationMs
  /-- How many networks a heartbeat may cross. -/
  ttl : Option UInt32 := none
  /-- How long one wait for a heartbeat lasts; the heartbeat interval when not set. -/
  readTimeoutMs : Option UInt64 := none
  recoveryEnabled : Bool := true
  /-- How many socket errors in a row make the socket be rebuilt. -/
  recoveryThreshold : UInt32 := defaultRecoveryThreshold
  recoverySleepMs : UInt64 := defaultRecoverySleepMs
  /-- The most bytes of a heartbeat. -/
  maxPacketSize : UInt64 := defaultMaxPacketSize
  /-- Only peers of the same domain are known. -/
  domain : Option String := none
  /-- The host that heartbeats announce for the data channel. -/
  localHost : String := defaultLocalHost
  /-- The port that heartbeats announce for the data channel; the one in use when not set. -/
  localPort : Option UInt16 := none
  deriving DecidableEq, Repr

/-- How messages are delivered to one peer. -/
structure Delivery where
  sendBufferSize : Option UInt32 := none
  receiveBufferSize : Option UInt32 := none
  tcpNoDelay : Bool := true
  /-- How many seconds closing a connection may wait for unsent bytes. -/
  soLinger : Option UInt64 := none
  soKeepalive : Bool := false
  trafficClass : Option UInt32 := none
  /-- How many attempts may follow the first one, each on a fresh connection. -/
  maxRetryAttempts : UInt32 := defaultMaxRetryAttempts
  connectTimeoutMs : UInt64 := defaultTimeoutMs
  /-- How long one write, or the wait for one answer, may last. -/
  readTimeoutMs : UInt64 := defaultTimeoutMs
  /-- Whether the node asks for an answer to what it broadcasts. -/
  waitForAck : Bool := true
  /-- Whether a message that was not accepted counts as a failed delivery. -/
  throwOnFailedAck : Bool := true
  /-- After how many messages a connection is given up; zero for never. -/
  keepaliveMaxRequests : UInt64 := 0
  /-- After how long without a message a connection is given up. -/
  keepaliveIdleMs : Option UInt64 := none
  deriving DecidableEq, Repr

/-- How one message goes to many peers. -/
inductive FanOut where
  /-- One peer after the other. -/
  | sequential
  /-- All peers at once. -/
  | parallel
  deriving DecidableEq, Repr

instance : Inhabited FanOut where
  default := .sequential

/-- How messages are delivered to many peers. -/
structure Transmission where
  fanOut : FanOut := default
  /-- How often connections past their limits are given up. -/
  keepaliveIntervalMs : UInt64 := defaultKeepaliveIntervalMs
  deriving DecidableEq, Repr

/-- The backlog between those who send and the deliveries. -/
structure Queue where
  enabled : Bool := false
  /-- The most messages that may wait; zero for no limit. -/
  maxLength : UInt64 := 0
  removeTimeoutMs : UInt64 := defaultRemoveTimeoutMs
  deriving DecidableEq, Repr

/-- Where the data channel listens. -/
structure Listening where
  listen : SocketAddress := defaultListen
  deriving DecidableEq, Repr

end Settings

/-- Everything that a node can be told. -/
structure Settings where
  membership : Settings.Membership := {}
  delivery : Settings.Delivery := {}
  transmission : Settings.Transmission := {}
  queue : Settings.Queue := {}
  listening : Settings.Listening := {}
  deriving DecidableEq, Repr

namespace Settings

/-- How long one wait for a heartbeat lasts. -/
def Membership.readTimeout (m : Membership) : UInt64 :=
  m.readTimeoutMs.getD m.heartbeatIntervalMs

/-- The multicast group with its port. -/
def Membership.group (m : Membership) : SocketAddress :=
  .of m.address m.port

/-- The domain as heartbeats carry it; empty when not set. -/
def Membership.domainBytes (m : Membership) : List UInt8 :=
  match m.domain with
  | some d => d.toUTF8.toList
  | none => []

/-- How many attempts one delivery makes at most. -/
def Delivery.attempts (d : Delivery) : Nat :=
  min (d.maxRetryAttempts.toNat + 1) (UInt32.size - 1)

end Settings

end PeerCluster
