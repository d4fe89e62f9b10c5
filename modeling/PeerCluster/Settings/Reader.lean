import PeerCluster.Json.Reader
import PeerCluster.Json.Record
import PeerCluster.Net.Reader
import PeerCluster.Settings.Basic

/-!
# Reading settings

Every section and every setting may be left out. A setting that is left out has the default that stands
beside its key here; a section that is left out is the section with its own defaults. A setting that is
given has to be right, and unknown settings are skipped.
-/

namespace PeerCluster.Settings

open Json (Given)

/-- The way to fan out that a word names. -/
def FanOut.ofName? : String → Option FanOut
  | "sequential" => some .sequential
  | "parallel" => some .parallel
  | _ => none

/-- A way to fan out is given by its word, alone or as the one key of an object that holds
nothing. -/
def FanOut.ofJson? : Json → Option FanOut
  | .text word => ofName? word
  | .object [(some word, .null)] => ofName? word
  | _ => none

/-- The membership section that a value gives. -/
def Membership.ofJson? (v : Json) : Option Membership := do
  let g ← Json.given? ["address", "port", "bind", "heartbeat_interval_ms", "expiration_ms", "ttl",
    "read_timeout_ms", "recovery_enabled", "recovery_threshold", "recovery_sleep_ms",
    "max_packet_size", "domain", "local_host", "local_port"] v
  return {
    address := ← g.withDefault "address" (Json.named? IPAddress.ofText?) defaultAddress
    port := ← g.withDefault "port" Json.word16? defaultPort
    bind := ← g.withDefault "bind" (Json.nullable? (Json.named? IPAddress.ofText?)) none
    heartbeatIntervalMs := ←
      g.withDefault "heartbeat_interval_ms" Json.word64? defaultHeartbeatIntervalMs
    expirationMs := ← g.withDefault "expiration_ms" Json.word64? defaultExpirationMs
    ttl := ← g.withDefault "ttl" (Json.nullable? Json.word32?) none
    readTimeoutMs := ← g.withDefault "read_timeout_ms" (Json.nullable? Json.word64?) none
    recoveryEnabled := ← g.withDefault "recovery_enabled" Json.bool? true
    recoveryThreshold := ← g.withDefault "recovery_threshold" Json.word32? defaultRecoveryThreshold
    recoverySleepMs := ← g.withDefault "recovery_sleep_ms" Json.word64? defaultRecoverySleepMs
    maxPacketSize := ← g.withDefault "max_packet_size" Json.word64? defaultMaxPacketSize
    domain := ← g.withDefault "domain" (Json.nullable? Json.text?) none
    localHost := ← g.withDefault "local_host" Json.text? defaultLocalHost
    localPort := ← g.withDefault "local_port" (Json.nullable? Json.word16?) none }

/-- The delivery section that a value gives. -/
def Delivery.ofJson? (v : Json) : Option Delivery := do
  let g ← Json.given? ["send_buffer_size", "receive_buffer_size", "tcp_no_delay", "so_linger",
    "so_keepalive", "traffic_class", "max_retry_attempts", "connect_timeout_ms", "read_timeout_ms",
    "wait_for_ack", "throw_on_failed_ack", "keepalive_max_requests", "keepalive_idle_ms"] v
  return {
    sendBufferSize := ← g.withDefault "send_buffer_size" (Json.nullable? Json.word32?) none
    receiveBufferSize := ← g.withDefault "receive_buffer_size" (Json.nullable? Json.word32?) none
    tcpNoDelay := ← g.withDefault "tcp_no_delay" Json.bool? true
    soLinger := ← g.withDefault "so_linger" (Json.nullable? Json.word64?) none
    soKeepalive := ← g.withDefault "so_keepalive" Json.bool? false
    trafficClass := ← g.withDefault "traffic_class" (Json.nullable? Json.word32?) none
    maxRetryAttempts := ← g.withDefault "max_retry_attempts" Json.word32? defaultMaxRetryAttempts
    connectTimeoutMs := ← g.withDefault "connect_timeout_ms" Json.word64? defaultTimeoutMs
    readTimeoutMs := ← g.withDefault "read_timeout_ms" Json.word64? defaultTimeoutMs
    waitForAck := ← g.withDefault "wait_for_ack" Json.bool? true
    throwOnFailedAck := ← g.withDefault "throw_on_failed_ack" Json.bool? true
    keepaliveMaxRequests := ← g.withDefault "keepalive_max_requests" Json.word64? 0
    keepaliveIdleMs := ← g.withDefault "keepalive_idle_ms" (Json.nullable? Json.word64?) none }

/-- The transmission section that a value gives. -/
def Transmission.ofJson? (v : Json) : Option Transmission := do
  let g ← Json.given? ["fan_out", "keepalive_interval_ms"] v
  return {
    fanOut := ← g.withDefault "fan_out" FanOut.ofJson? default
    keepaliveIntervalMs := ←
      g.withDefault "keepalive_interval_ms" Json.word64? defaultKeepaliveIntervalMs }

/-- The queue section that a value gives. -/
def Queue.ofJson? (v : Json) : Option Queue := do
  let g ← Json.given? ["enabled", "max_len", "remove_timeout_ms"] v
  return {
    enabled := ← g.withDefault "enabled" Json.bool? false
    maxLength := ← g.withDefault "max_len" Json.word64? 0
    removeTimeoutMs := ← g.withDefault "remove_timeout_ms" Json.word64? defaultRemoveTimeoutMs }

/-- The listening section that a value gives. -/
def Listening.ofJson? (v : Json) : Option Listening := do
  let g ← Json.given? ["listen"] v
  return { listen := ← g.withDefault "listen" (Json.named? SocketAddress.ofText?) defaultListen }

/-- The settings that a value gives. -/
def ofJson? (v : Json) : Option Settings := do
  let g ← Json.given? ["membership", "sender", "transmitter", "queue", "receiver"] v
  return {
    membership := ← g.withDefault "membership" Membership.ofJson? {}
    delivery := ← g.withDefault "sender" Delivery.ofJson? {}
    transmission := ← g.withDefault "transmitter" Transmission.ofJson? {}
    queue := ← g.withDefault "queue" Queue.ofJson? {}
    listening := ← g.withDefault "receiver" Listening.ofJson? {} }

end PeerCluster.Settings
