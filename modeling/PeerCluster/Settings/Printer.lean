import PeerCluster.Json.Printer
import PeerCluster.Net.Printer
import PeerCluster.Settings.Basic

/-!
# The JSON text of settings

Every setting is written, in a fixed order; one that is not set is `null`.
-/

namespace PeerCluster.Settings

/-- A word of 16 bits that may be absent. -/
def optional16 : Option UInt16 → Json :=
  .optional fun n => .natural n.toNat

/-- A word of 32 bits that may be absent. -/
def optional32 : Option UInt32 → Json :=
  .optional fun n => .natural n.toNat

/-- A word of 64 bits that may be absent. -/
def optional64 : Option UInt64 → Json :=
  .optional fun n => .natural n.toNat

/-- The word for a way to fan out. -/
def FanOut.name : FanOut → String
  | .sequential => "sequential"
  | .parallel => "parallel"

/-- The fields of the membership section in JSON. -/
def Membership.fields (m : Membership) : List (String × Json) :=
  [("address", .text m.address.render),
    ("port", .natural m.port.toNat),
    ("bind", .optional (fun ip => .text ip.render) m.bind),
    ("heartbeat_interval_ms", .natural m.heartbeatIntervalMs.toNat),
    ("expiration_ms", .natural m.expirationMs.toNat),
    ("ttl", optional32 m.ttl),
    ("read_timeout_ms", optional64 m.readTimeoutMs),
    ("recovery_enabled", .bool m.recoveryEnabled),
    ("recovery_threshold", .natural m.recoveryThreshold.toNat),
    ("recovery_sleep_ms", .natural m.recoverySleepMs.toNat),
    ("max_packet_size", .natural m.maxPacketSize.toNat),
    ("domain", .optional .text m.domain),
    ("local_host", .text m.localHost),
    ("local_port", optional16 m.localPort)]

/-- The membership section in JSON. -/
def Membership.toJson (m : Membership) : Json :=
  .record m.fields

/-- The fields of the delivery section in JSON. -/
def Delivery.fields (d : Delivery) : List (String × Json) :=
  [("send_buffer_size", optional32 d.sendBufferSize),
    ("receive_buffer_size", optional32 d.receiveBufferSize),
    ("tcp_no_delay", .bool d.tcpNoDelay),
    ("so_linger", optional64 d.soLinger),
    ("so_keepalive", .bool d.soKeepalive),
    ("traffic_class", optional32 d.trafficClass),
    ("max_retry_attempts", .natural d.maxRetryAttempts.toNat),
    ("connect_timeout_ms", .natural d.connectTimeoutMs.toNat),
    ("read_timeout_ms", .natural d.readTimeoutMs.toNat),
    ("wait_for_ack", .bool d.waitForAck),
    ("throw_on_failed_ack", .bool d.throwOnFailedAck),
    ("keepalive_max_requests", .natural d.keepaliveMaxRequests.toNat),
    ("keepalive_idle_ms", optional64 d.keepaliveIdleMs)]

/-- The delivery section in JSON. -/
def Delivery.toJson (d : Delivery) : Json :=
  .record d.fields

/-- The fields of the transmission section in JSON. -/
def Transmission.fields (t : Transmission) : List (String × Json) :=
  [("fan_out", .text t.fanOut.name),
    ("keepalive_interval_ms", .natural t.keepaliveIntervalMs.toNat)]

/-- The transmission section in JSON. -/
def Transmission.toJson (t : Transmission) : Json :=
  .record t.fields

/-- The fields of the queue section in JSON. -/
def Queue.fields (q : Queue) : List (String × Json) :=
  [("enabled", .bool q.enabled),
    ("max_len", .natural q.maxLength.toNat),
    ("remove_timeout_ms", .natural q.removeTimeoutMs.toNat)]

/-- The queue section in JSON. -/
def Queue.toJson (q : Queue) : Json :=
  .record q.fields

/-- The fields of the listening section in JSON. -/
def Listening.fields (l : Listening) : List (String × Json) :=
  [("listen", .text l.listen.render)]

/-- The listening section in JSON. -/
def Listening.toJson (l : Listening) : Json :=
  .record l.fields

/-- The fields of all settings, given the values of the sections. -/
def sections (membership delivery transmission queue listening : Json) : List (String × Json) :=
  [("membership", membership),
    ("sender", delivery),
    ("transmitter", transmission),
    ("queue", queue),
    ("receiver", listening)]

/-- All settings in JSON. -/
def toJson (s : Settings) : Json :=
  .record (sections s.membership.toJson s.delivery.toJson s.transmission.toJson s.queue.toJson
    s.listening.toJson)

/-- The JSON text of settings. -/
def text (s : Settings) : String :=
  s.toJson.render

end PeerCluster.Settings
