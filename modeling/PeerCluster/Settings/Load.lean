import PeerCluster.IoFault
import PeerCluster.Net.Printer
import PeerCluster.Settings.Reader

/-!
# Loading settings

Settings come from a JSON file. A file that does not exist stands for the defaults. What is read has
to make sense together: the checks stand in a fixed order and the first that fails is reported.
-/

namespace PeerCluster.Settings

/-- Why settings do not make sense. -/
inductive Unusable where
  | noHeartbeatInterval
  /-- A peer would be dropped between two of its heartbeats. -/
  | shortExpiration (expirationMs heartbeatIntervalMs : UInt64)
  | notMulticast (address : IPAddress)
  | noRecoveryThreshold
  | noDeliveryTimeout
  | noKeepaliveInterval
  deriving DecidableEq, Repr

/-- How a cause is described to a reader. -/
def Unusable.message : Unusable → String
  | noHeartbeatInterval => "membership.heartbeat_interval_ms must be > 0"
  | shortExpiration expiration interval =>
    s!"membership.expiration_ms ({expiration.toNat}) is shorter than the heartbeat interval " ++
      s!"({interval.toNat})"
  | notMulticast address => "membership.address " ++ address.render ++ " is not a multicast group"
  | noRecoveryThreshold => "membership.recovery_threshold must be > 0"
  | noDeliveryTimeout => "sender timeouts must be > 0"
  | noKeepaliveInterval => "transmitter.keepalive_interval_ms must be > 0"

/-- Whether settings make sense, and why not. -/
def check (s : Settings) : Except Unusable Unit :=
  let m := s.membership
  if m.heartbeatIntervalMs = 0 then .error .noHeartbeatInterval
  else if m.expirationMs < m.heartbeatIntervalMs then
    .error (.shortExpiration m.expirationMs m.heartbeatIntervalMs)
  else if !m.address.isMulticast then .error (.notMulticast m.address)
  else if m.recoveryThreshold = 0 then .error .noRecoveryThreshold
  else if s.delivery.connectTimeoutMs = 0 ∨ s.delivery.readTimeoutMs = 0 then
    .error .noDeliveryTimeout
  else if s.transmission.keepaliveIntervalMs = 0 then .error .noKeepaliveInterval
  else .ok ()

/-- What is found where a settings file is looked for. -/
inductive File where
  | missing
  /-- Something that cannot be read. -/
  | unreadable (fault : IoFault)
  | content (bs : List UInt8)

/-- Why settings cannot be loaded. -/
inductive LoadError where
  | unreadable (fault : IoFault)
  /-- The text gives no settings. -/
  | malformed
  | unusable (cause : Unusable)
  deriving DecidableEq, Repr

/-- How an error is described to a reader, for a file of the given name. -/
def LoadError.message (path : String) : LoadError → String
  | unreadable fault => "Failed to read config " ++ path ++ ": " ++ fault.message
  | malformed => "Failed to parse config " ++ path
  | unusable cause => "Invalid config: " ++ cause.message

/-- The settings that bytes give. -/
def ofBytes (bs : List UInt8) : Except LoadError Settings :=
  if (Utf8.fault bs).isSome then .error (.unreadable .notText)
  else match Json.parse? bs >>= ofJson? with
    | none => .error .malformed
    | some s =>
      match s.check with
      | .error cause => .error (.unusable cause)
      | .ok () => .ok s

/-- The settings in a file. -/
def load : File → Except LoadError Settings
  | .missing => .ok {}
  | .unreadable fault => .error (.unreadable fault)
  | .content bs => ofBytes bs

end PeerCluster.Settings
