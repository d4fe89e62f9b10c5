import PeerCluster.Proofs.AddressText
import PeerCluster.Proofs.JsonRoundTrip
import PeerCluster.Proofs.RecordExcerpts
import PeerCluster.Proofs.WellFormedBytes
import PeerCluster.Settings.Load

/-!
# What a settings file says

**Theorem (`load_text`).** The text of settings that were loaded is loaded as those settings.

**Theorem (`load_excerpt`).** A text that gives some of the settings is loaded as settings that have these,
and defaults for all others, if they make sense. A text that gives none of them is as good as no file.

Both rest on what is read from an excerpt, section by section (`ofJson?_of_excerpt`). The default of a
setting is written twice, beside its key in the reader and in its section, and the two agree: what is
read has the one where the section is left in (`Gives.withDefault`) and is compared with the other
(`restrict`). All settings are an excerpt of themselves (`excerpt_toJson`).
-/

namespace PeerCluster.Settings

open Json (Gives exists_gives)

/-! ## Settings of each kind -/

theorem optional16_read (o : Option UInt16) : Json.nullable? Json.word16? (optional16 o) = some o :=
  Json.nullable?_optional Json.word16?_natural rfl o

theorem optional32_read (o : Option UInt32) : Json.nullable? Json.word32? (optional32 o) = some o :=
  Json.nullable?_optional Json.word32?_natural rfl o

theorem optional64_read (o : Option UInt64) : Json.nullable? Json.word64? (optional64 o) = some o :=
  Json.nullable?_optional Json.word64?_natural rfl o

theorem address_read (ip : IPAddress) : Json.named? IPAddress.ofText? (.text ip.render) = some ip :=
  Json.named?_text ip.ofText?_render

theorem listen_read (a : SocketAddress) : Json.named? SocketAddress.ofText? (.text a.render) = some a :=
  Json.named?_text a.ofText?_render

theorem fanOut_read (f : FanOut) : FanOut.ofJson? (.text f.name) = some f := by
  cases f <;> rfl

/-! ## Sections -/

theorem Membership.ofJson?_of_excerpt {m : Membership} {keep : String → Bool} {v : Json}
    (h : Json.Excerpt m.fields keep v) : Membership.ofJson? v = some (m.restrict keep) := by
  obtain ⟨g, hgiven, hg⟩ := exists_gives h (by simp [fields])
  have hkeys : m.fields.map Prod.fst = ["address", "port", "bind", "heartbeat_interval_ms",
    "expiration_ms", "ttl", "read_timeout_ms", "recovery_enabled", "recovery_threshold",
    "recovery_sleep_ms", "max_packet_size", "domain", "local_host", "local_port"] := rfl
  have hbind : Json.nullable? (Json.named? IPAddress.ofText?)
      (.optional (fun ip => .text ip.render) m.bind) = some m.bind :=
    Json.nullable?_optional address_read rfl m.bind
  have hdomain : Json.nullable? Json.text? (.optional .text m.domain) = some m.domain :=
    Json.nullable?_optional Json.text?_text rfl m.domain
  rw [ofJson?, ← hkeys, hgiven, Option.bind_eq_bind, Option.bind_some,
    hg.withDefault "address" (address_read m.address) (by simp [fields]),
    hg.withDefault "port" (Json.word16?_natural m.port) (by simp [fields]),
    hg.withDefault "bind" hbind (by simp [fields]),
    hg.withDefault "heartbeat_interval_ms" (Json.word64?_natural m.heartbeatIntervalMs) (by simp [fields]),
    hg.withDefault "expiration_ms" (Json.word64?_natural m.expirationMs) (by simp [fields]),
    hg.withDefault "ttl" (optional32_read m.ttl) (by simp [fields]),
    hg.withDefault "read_timeout_ms" (optional64_read m.readTimeoutMs) (by simp [fields]),
    hg.withDefault "recovery_enabled" (Json.bool?_bool m.recoveryEnabled) (by simp [fields]),
    hg.withDefault "recovery_threshold" (Json.word32?_natural m.recoveryThreshold) (by simp [fields]),
    hg.withDefault "recovery_sleep_ms" (Json.word64?_natural m.recoverySleepMs) (by simp [fields]),
    hg.withDefault "max_packet_size" (Json.word64?_natural m.maxPacketSize) (by simp [fields]),
    hg.withDefault "domain" hdomain (by simp [fields]),
    hg.withDefault "local_host" (Json.text?_text m.localHost) (by simp [fields]),
    hg.withDefault "local_port" (optional16_read m.localPort) (by simp [fields])]
  rfl

theorem Delivery.ofJson?_of_excerpt {d : Delivery} {keep : String → Bool} {v : Json}
    (h : Json.Excerpt d.fields keep v) : Delivery.ofJson? v = some (d.restrict keep) := by
  obtain ⟨g, hgiven, hg⟩ := exists_gives h (by simp [fields])
  have hkeys : d.fields.map Prod.fst = ["send_buffer_size", "receive_buffer_size", "tcp_no_delay",
    "so_linger", "so_keepalive", "traffic_class", "max_retry_attempts", "connect_timeout_ms",
    "read_timeout_ms", "wait_for_ack", "throw_on_failed_ack", "keepalive_max_requests",
    "keepalive_idle_ms"] := rfl
  rw [ofJson?, ← hkeys, hgiven, Option.bind_eq_bind, Option.bind_some,
    hg.withDefault "send_buffer_size" (optional32_read d.sendBufferSize) (by simp [fields]),
    hg.withDefault "receive_buffer_size" (optional32_read d.receiveBufferSize) (by simp [fields]),
    hg.withDefault "tcp_no_delay" (Json.bool?_bool d.tcpNoDelay) (by simp [fields]),
    hg.withDefault "so_linger" (optional64_read d.soLinger) (by simp [fields]),
    hg.withDefault "so_keepalive" (Json.bool?_bool d.soKeepalive) (by simp [fields]),
    hg.withDefault "traffic_class" (optional32_read d.trafficClass) (by simp [fields]),
    hg.withDefault "max_retry_attempts" (Json.word32?_natural d.maxRetryAttempts) (by simp [fields]),
    hg.withDefault "connect_timeout_ms" (Json.word64?_natural d.connectTimeoutMs) (by simp [fields]),
    hg.withDefault "read_timeout_ms" (Json.word64?_natural d.readTimeoutMs) (by simp [fields]),
    hg.withDefault "wait_for_ack" (Json.bool?_bool d.waitForAck) (by simp [fields]),
    hg.withDefault "throw_on_failed_ack" (Json.bool?_bool d.throwOnFailedAck) (by simp [fields]),
    hg.withDefault "keepalive_max_requests" (Json.word64?_natural d.keepaliveMaxRequests)
      (by simp [fields]),
    hg.withDefault "keepalive_idle_ms" (optional64_read d.keepaliveIdleMs) (by simp [fields])]
  rfl

theorem Transmission.ofJson?_of_excerpt {t : Transmission} {keep : String → Bool} {v : Json}
    (h : Json.Excerpt t.fields keep v) : Transmission.ofJson? v = some (t.restrict keep) := by
  obtain ⟨g, hgiven, hg⟩ := exists_gives h (by simp [fields])
  have hkeys : t.fields.map Prod.fst = ["fan_out", "keepalive_interval_ms"] := rfl
  rw [ofJson?, ← hkeys, hgiven, Option.bind_eq_bind, Option.bind_some,
    hg.withDefault "fan_out" (fanOut_read t.fanOut) (by simp [fields]),
    hg.withDefault "keepalive_interval_ms" (Json.word64?_natural t.keepaliveIntervalMs)
      (by simp [fields])]
  rfl

theorem Queue.ofJson?_of_excerpt {q : Queue} {keep : String → Bool} {v : Json}
    (h : Json.Excerpt q.fields keep v) : Queue.ofJson? v = some (q.restrict keep) := by
  obtain ⟨g, hgiven, hg⟩ := exists_gives h (by simp [fields])
  have hkeys : q.fields.map Prod.fst = ["enabled", "max_len", "remove_timeout_ms"] := rfl
  rw [ofJson?, ← hkeys, hgiven, Option.bind_eq_bind, Option.bind_some,
    hg.withDefault "enabled" (Json.bool?_bool q.enabled) (by simp [fields]),
    hg.withDefault "max_len" (Json.word64?_natural q.maxLength) (by simp [fields]),
    hg.withDefault "remove_timeout_ms" (Json.word64?_natural q.removeTimeoutMs) (by simp [fields])]
  rfl

theorem Listening.ofJson?_of_excerpt {l : Listening} {keep : String → Bool} {v : Json}
    (h : Json.Excerpt l.fields keep v) : Listening.ofJson? v = some (l.restrict keep) := by
  obtain ⟨g, hgiven, hg⟩ := exists_gives h (by simp [fields])
  have hkeys : l.fields.map Prod.fst = ["listen"] := rfl
  rw [ofJson?, ← hkeys, hgiven, Option.bind_eq_bind, Option.bind_some,
    hg.withDefault "listen" (listen_read l.listen) (by simp [fields])]
  rfl

/-- An excerpt is read as the settings that it keeps, with defaults for all others. -/
theorem ofJson?_of_excerpt {s : Settings} {k : Selection} {v : Json} (h : s.Excerpt k v) :
    ofJson? v = some (s.restrict k) := by
  obtain ⟨membership, delivery, transmission, queue, listening, hmembership, hdelivery, htransmission,
    hqueue, hlistening, h⟩ := h
  obtain ⟨g, hgiven, hg⟩ := exists_gives h (by simp [sections])
  have hkeys : (sections membership delivery transmission queue listening).map Prod.fst =
      ["membership", "sender", "transmitter", "queue", "receiver"] := rfl
  rw [ofJson?, ← hkeys, hgiven, Option.bind_eq_bind, Option.bind_some,
    hg.withDefault "membership" (Membership.ofJson?_of_excerpt hmembership) (by simp [sections]),
    hg.withDefault "sender" (Delivery.ofJson?_of_excerpt hdelivery) (by simp [sections]),
    hg.withDefault "transmitter" (Transmission.ofJson?_of_excerpt htransmission) (by simp [sections]),
    hg.withDefault "queue" (Queue.ofJson?_of_excerpt hqueue) (by simp [sections]),
    hg.withDefault "receiver" (Listening.ofJson?_of_excerpt hlistening) (by simp [sections])]
  rfl

/-- All of the settings. -/
def Selection.all : Selection :=
  ⟨fun _ => true, fun _ _ => true⟩

theorem restrict_all (s : Settings) : s.restrict .all = s :=
  rfl

theorem excerpt_toJson (s : Settings) : s.Excerpt .all s.toJson :=
  ⟨_, _, _, _, _, Json.excerpt_record _, Json.excerpt_record _, Json.excerpt_record _,
    Json.excerpt_record _, Json.excerpt_record _, Json.excerpt_record _⟩

/-- Whether its sections are left out or left empty, what keeps no setting has all the defaults. -/
theorem restrict_eq_default {k : Selection}
    (h : ∀ part key, k.sections part = true → k.settings part key = false) (s : Settings) :
    s.restrict k = {} := by
  have hpart : ∀ {α : Type} (part : String) (part' : (String → Bool) → α) (d : α),
      part' (fun _ => false) = d → (if k.sections part then part' (k.settings part) else d) = d := by
    intro α part part' d hnone
    split
    next hkept =>
      have hkeys : k.settings part = fun _ => false := funext fun key => h part key hkept
      rw [hkeys, hnone]
    next => rfl
  rw [restrict]
  dsimp only
  rw [hpart "membership" s.membership.restrict {} rfl, hpart "sender" s.delivery.restrict {} rfl,
    hpart "transmitter" s.transmission.restrict {} rfl, hpart "queue" s.queue.restrict {} rfl,
    hpart "receiver" s.listening.restrict {} rfl]

/-! ## Files -/

/-- What loading gives for settings that have been read. -/
def checked (s : Settings) : Except LoadError Settings :=
  match s.check with
  | .error cause => .error (.unusable cause)
  | .ok () => .ok s

theorem checked_eq_ok_iff {s s' : Settings} : s.checked = .ok s' ↔ s = s' ∧ s.check = .ok () := by
  rw [checked]
  split
  next cause hcheck =>
    rw [hcheck]
    exact iff_of_false nofun nofun
  next hcheck =>
    rw [hcheck]
    simp

theorem check_default : check {} = .ok () := by
  decide

/-- Loading gives only settings that make sense. -/
theorem check_of_load {file : File} {s : Settings} (h : load file = .ok s) : s.check = .ok () := by
  cases file with
  | missing =>
    cases h
    exact check_default
  | unreadable fault => cases h
  | content bs =>
    rw [load, ofBytes] at h
    split at h
    next => cases h
    next =>
      split at h
      next => cases h
      next s' _ =>
        obtain ⟨rfl, hcheck⟩ := checked_eq_ok_iff.1 h
        exact hcheck

/-- A text is loaded as the settings that its value gives, if they make sense. -/
theorem load_of_parse? {text : String} {v : Json} {s : Settings}
    (htext : Json.parse? (Utf8.encode text) = some v) (hv : ofJson? v = some s) :
    load (.content (Utf8.encode text)) = s.checked := by
  rw [load, ofBytes, Utf8.fault_encode, if_neg nofun, htext, Option.bind_eq_bind, Option.bind_some, hv]
  rfl

/-- **Theorem.** Settings that were loaded from any file can be written down and loaded again: loading their
text succeeds and gives the same settings, so that their text is the same again. -/
theorem load_text {file : File} {s : Settings} (h : load file = .ok s) :
    load (.content (Utf8.encode s.text)) = .ok s := by
  have hread := load_of_parse? (Json.parse?_render s.toJson) (ofJson?_of_excerpt (excerpt_toJson s))
  rw [restrict_all] at hread
  exact hread.trans (checked_eq_ok_iff.2 ⟨rfl, check_of_load h⟩)

/-- An address of version 6 with a scope, written at length. -/
def atLength : Json :=
  .record [("receiver", .record [("listen", .text "[FE80:0::0:0001%03]:04000")])]

/-- Written down again, it is the shortest text of the address. -/
theorem load_text_of_address :
    let s : Settings := { listening := ⟨.v6 ⟨#v[0xFE80, 0, 0, 0, 0, 0, 0, 1]⟩ 3 4000⟩ }
    load (.content (Utf8.encode atLength.render)) = .ok s ∧
      s.listening.listen.render = "[fe80::1%3]:4000" ∧
      load (.content (Utf8.encode s.text)) = .ok s := by
  intro s
  have hread : ofJson? atLength = some s := rfl
  have hload : load (.content (Utf8.encode atLength.render)) = .ok s :=
    load_of_parse? (Json.parse?_render atLength) hread
  exact ⟨hload, rfl, load_text hload⟩

/-- **Theorem.** Somebody may leave out of the text of settings any sections and any settings, put what is
left into any order, and leave notes under keys that mean nothing. Loading the text gives the settings
that have what is kept, and the defaults of its section for what is left out, or says why these settings
make no sense. If nothing is kept, whether the sections are empty or missing, that is what loading gives
without a file. -/
theorem load_excerpt {s : Settings} {k : Selection} {v : Json} {text : String} (hv : s.Excerpt k v)
    (htext : Json.parse? (Utf8.encode text) = some v) :
    load (.content (Utf8.encode text)) = (s.restrict k).checked ∧
      ((∀ part key, k.sections part = true → k.settings part key = false) →
        load (.content (Utf8.encode text)) = load .missing) := by
  have hload := load_of_parse? htext (ofJson?_of_excerpt hv)
  refine ⟨hload, fun hnone => ?_⟩
  rw [hload, restrict_eq_default hnone]
  exact checked_eq_ok_iff.2 ⟨rfl, check_default⟩

/-- The text of one timeout, with notes. -/
def annotated : String :=
  "\x7b \"note\": [1.5, null],\n \"sender\": \x7b\"x\": \x7b\x7d, \"read_timeout_ms\": 70\x7d\x7d"

/-- One timeout of two is kept. -/
theorem load_excerpt_of_timeout :
    load (.content (Utf8.encode annotated)) = .ok { delivery := { readTimeoutMs := 70 } } := by
  let s : Settings := { delivery := { readTimeoutMs := 70, connectTimeoutMs := 80 } }
  let k : Selection := ⟨(· == "sender"), fun part key => part == "sender" && key == "read_timeout_ms"⟩
  have hdelivery : Json.Excerpt s.delivery.fields (k.settings "sender")
      (.record [("x", .record []), ("read_timeout_ms", .natural 70)]) :=
    ⟨_, [("x", .record [])], rfl, List.Perm.swap .., by decide⟩
  have hnone : ∀ {fields : List (String × Json)} {keep : String → Bool},
      fields.filter (fun f => keep f.1) = [] → Json.Excerpt fields keep (.record []) :=
    fun h => ⟨[], [], rfl, by rw [h]; exact .refl _, nofun⟩
  have hv : s.Excerpt k (.record [("note", .array [.numeral, .null]),
      ("sender", .record [("x", .record []), ("read_timeout_ms", .natural 70)])]) :=
    ⟨.record [], _, .record [], .record [], .record [], hnone rfl, hdelivery, hnone rfl, hnone rfl,
      hnone rfl, _, [("note", .array [.numeral, .null])], rfl, List.Perm.swap .., by decide⟩
  have htext : Json.parse? (Utf8.encode annotated) = some (.record [("note", .array [.numeral, .null]),
      ("sender", .record [("x", .record []), ("read_timeout_ms", .natural 70)])]) := by
    rw [Utf8.encode_eq_flatMap]
    rfl
  exact (load_excerpt hv htext).1

end PeerCluster.Settings
