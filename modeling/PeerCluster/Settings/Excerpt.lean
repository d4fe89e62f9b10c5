import PeerCluster.Settings.Printer

/-!
# Settings that are written down in part

A settings file need not say everything. An excerpt of settings gives some sections, and of each some
settings, in any order. Other keys may stand among them, with any values.
-/

namespace PeerCluster

/-- An object with those of some fields whose keys are kept, in any order, and with fields of other
keys. -/
def Json.Excerpt (fields : List (String × Json)) (keep : String → Bool) (v : Json) : Prop :=
  ∃ entries others, v = .record entries ∧
    entries.Perm (fields.filter (fun f => keep f.1) ++ others) ∧
    ∀ f ∈ others, f.1 ∉ fields.map Prod.fst

namespace Settings

/-- What is kept: sections by their keys, and settings by the keys of the section and of the setting. -/
structure Selection where
  sections : String → Bool
  settings : String → String → Bool

/-- The kept settings of a section, and the section's own defaults for the others. -/
def Membership.restrict (m : Membership) (keep : String → Bool) : Membership :=
  let d : Membership := {}
  { address := if keep "address" then m.address else d.address
    port := if keep "port" then m.port else d.port
    bind := if keep "bind" then m.bind else d.bind
    heartbeatIntervalMs :=
      if keep "heartbeat_interval_ms" then m.heartbeatIntervalMs else d.heartbeatIntervalMs
    expirationMs := if keep "expiration_ms" then m.expirationMs else d.expirationMs
    ttl := if keep "ttl" then m.ttl else d.ttl
    readTimeoutMs := if keep "read_timeout_ms" then m.readTimeoutMs else d.readTimeoutMs
    recoveryEnabled := if keep "recovery_enabled" then m.recoveryEnabled else d.recoveryEnabled
    recoveryThreshold := if keep "recovery_threshold" then m.recoveryThreshold else d.recoveryThreshold
    recoverySleepMs := if keep "recovery_sleep_ms" then m.recoverySleepMs else d.recoverySleepMs
    maxPacketSize := if keep "max_packet_size" then m.maxPacketSize else d.maxPacketSize
    domain := if keep "domain" then m.domain else d.domain
    localHost := if keep "local_host" then m.localHost else d.localHost
    localPort := if keep "local_port" then m.localPort else d.localPort }

/-- The kept settings of a section, and the section's own defaults for the others. -/
def Delivery.restrict (s : Delivery) (keep : String → Bool) : Delivery :=
  let d : Delivery := {}
  { sendBufferSize := if keep "send_buffer_size" then s.sendBufferSize else d.sendBufferSize
    receiveBufferSize := if keep "receive_buffer_size" then s.receiveBufferSize else d.receiveBufferSize
    tcpNoDelay := if keep "tcp_no_delay" then s.tcpNoDelay else d.tcpNoDelay
    soLinger := if keep "so_linger" then s.soLinger else d.soLinger
    soKeepalive := if keep "so_keepalive" then s.soKeepalive else d.soKeepalive
    trafficClass := if keep "traffic_class" then s.trafficClass else d.trafficClass
    maxRetryAttempts := if keep "max_retry_attempts" then s.maxRetryAttempts else d.maxRetryAttempts
    connectTimeoutMs := if keep "connect_timeout_ms" then s.connectTimeoutMs else d.connectTimeoutMs
    readTimeoutMs := if keep "read_timeout_ms" then s.readTimeoutMs else d.readTimeoutMs
    waitForAck := if keep "wait_for_ack" then s.waitForAck else d.waitForAck
    throwOnFailedAck := if keep "throw_on_failed_ack" then s.throwOnFailedAck else d.throwOnFailedAck
    keepaliveMaxRequests :=
      if keep "keepalive_max_requests" then s.keepaliveMaxRequests else d.keepaliveMaxRequests
    keepaliveIdleMs := if keep "keepalive_idle_ms" then s.keepaliveIdleMs else d.keepaliveIdleMs }

/-- The kept settings of a section, and the section's own defaults for the others. -/
def Transmission.restrict (t : Transmission) (keep : String → Bool) : Transmission :=
  let d : Transmission := {}
  { fanOut := if keep "fan_out" then t.fanOut else d.fanOut
    keepaliveIntervalMs :=
      if keep "keepalive_interval_ms" then t.keepaliveIntervalMs else d.keepaliveIntervalMs }

/-- The kept settings of a section, and the section's own defaults for the others. -/
def Queue.restrict (q : Queue) (keep : String → Bool) : Queue :=
  let d : Queue := {}
  { enabled := if keep "enabled" then q.enabled else d.enabled
    maxLength := if keep "max_len" then q.maxLength else d.maxLength
    removeTimeoutMs := if keep "remove_timeout_ms" then q.removeTimeoutMs else d.removeTimeoutMs }

/-- The kept settings of a section, and the section's own defaults for the others. -/
def Listening.restrict (l : Listening) (keep : String → Bool) : Listening :=
  let d : Listening := {}
  { listen := if keep "listen" then l.listen else d.listen }

/-- The kept settings of the kept sections, and defaults for all others. -/
def restrict (s : Settings) (k : Selection) : Settings :=
  let d : Settings := {}
  { membership :=
      if k.sections "membership" then s.membership.restrict (k.settings "membership") else d.membership
    delivery := if k.sections "sender" then s.delivery.restrict (k.settings "sender") else d.delivery
    transmission :=
      if k.sections "transmitter" then s.transmission.restrict (k.settings "transmitter")
      else d.transmission
    queue := if k.sections "queue" then s.queue.restrict (k.settings "queue") else d.queue
    listening :=
      if k.sections "receiver" then s.listening.restrict (k.settings "receiver") else d.listening }

/-- A value that gives the kept settings of the kept sections. -/
def Excerpt (s : Settings) (k : Selection) (v : Json) : Prop :=
  ∃ membership delivery transmission queue listening,
    Json.Excerpt s.membership.fields (k.settings "membership") membership ∧
    Json.Excerpt s.delivery.fields (k.settings "sender") delivery ∧
    Json.Excerpt s.transmission.fields (k.settings "transmitter") transmission ∧
    Json.Excerpt s.queue.fields (k.settings "queue") queue ∧
    Json.Excerpt s.listening.fields (k.settings "receiver") listening ∧
    Json.Excerpt (sections membership delivery transmission queue listening) k.sections v

end Settings

end PeerCluster
