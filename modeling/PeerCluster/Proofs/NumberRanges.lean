import PeerCluster.Beacon.Buffer
import PeerCluster.Proofs.FrameCodec
import PeerCluster.Proofs.Hearing
import PeerCluster.Proofs.SettingsText
import PeerCluster.Proofs.SocketErrors

/-!
# Numbers that stay in their range

Limits are set in one place and used in others, where one is added to them or where they are compared
with a sum. With settings that make sense, every such sum is the number that it should be, but for one.

* *Counts* of errors stay below the threshold (`Scene.counted_run`), so that one more can be counted.
* *Attempts* are one more than the repetitions, as far as that number goes.
* *Sizes* are sums of something short and of something that is in memory, which is never long enough to
  matter (`toNat_ofNat_add_ofNat`).
* *The buffer* of the receive loop is the one that fails. It should have one byte more than a heartbeat
  may have, but no check of the settings limits the size of a heartbeat.

**What arrives** (`arrive_eq_receive`, `arrive_of_blind`). If a buffer of that length can be had, the
receive loop makes of every datagram what it would make of the whole one: what is cut off is cut off a
datagram that is too long anyhow. If not, the loop is blind. Either there is no buffer, and then no
round is made, or its length has become zero, and then nothing is received of any datagram.
-/

namespace PeerCluster

/-! ## Sums as words -/

theorem toNat_ofNat_add_ofNat {m n : Nat} (h : m + n < UInt64.size) :
    (UInt64.ofNat m + UInt64.ofNat n).toNat = m + n := by
  rw [UInt64.toNat_add, UInt64.toNat_ofNat_of_lt' (Nat.lt_of_le_of_lt (Nat.le_add_right m n) h),
    UInt64.toNat_ofNat_of_lt' (Nat.lt_of_le_of_lt (Nat.le_add_left n m) h)]
  exact Nat.mod_eq_of_lt h

/-- What stands before something in memory hardly makes it longer. -/
theorem add_lt_of_le_maxBufferSize {m n : Nat} (hm : m ≤ maxBufferSize) (hn : n ≤ maxBufferSize) :
    m + n < UInt64.size := by
  rw [maxBufferSize, UInt64.size] at hm hn
  rw [UInt64.size]
  omega

/-- The size of a heartbeat is compared with the limit as it is. -/
theorem Heartbeat.Packet.encode_by_words {p : Packet} {limit : UInt64}
    (h : p.body.length ≤ maxBufferSize) :
    let size := UInt64.ofNat headerSize + UInt64.ofNat p.body.length
    size.toNat = p.bytes.length ∧
      p.encode limit.toNat =
        if limit < size then .error (.tooLarge size.toNat limit.toNat) else .ok p.bytes := by
  intro size
  have hsize : size.toNat = p.bytes.length := by
    rw [toNat_ofNat_add_ofNat (add_lt_of_le_maxBufferSize (by decide) h), Packet.bytes,
      List.length_append, List.length_cons]
    simp only [magic, headerSize, List.length_cons, List.length_nil]
    omega
  refine ⟨hsize, ?_⟩
  simp only [encode, UInt64.lt_iff_toNat_lt, hsize]

/-- The size of a frame is computed as it is, and written as it is before a frame that may be sent. -/
theorem Frame.wireSize_by_words {f : Frame} (h : f.body.size ≤ maxBufferSize) :
    (UInt64.ofNat headerSize + UInt64.ofNat f.body.size).toNat = f.wireSize ∧
      (checkSize f.wireSize = .ok () →
        BigEndian.value (BigEndian.bytes lengthWidth f.wireSize) = f.wireSize) := by
  refine ⟨toNat_ofNat_add_ofNat (add_lt_of_le_maxBufferSize (by decide) h), fun hfits => ?_⟩
  exact BigEndian.value_bytes (Nat.lt_of_le_of_lt (checkSize_eq_ok_iff.1 hfits) (by decide))

namespace Settings

theorem Delivery.attempts_by_words (d : Delivery) :
    (UInt32.ofNat d.attempts).toNat = d.attempts ∧
      (d.maxRetryAttempts.toNat + 1 < UInt32.size → d.attempts = d.maxRetryAttempts.toNat + 1) := by
  have hlt : d.attempts < UInt32.size :=
    Nat.lt_of_le_of_lt (Nat.min_le_right _ _) (by decide)
  refine ⟨UInt32.toNat_ofNat_of_lt' hlt, fun hfits => ?_⟩
  exact Nat.min_eq_left (Nat.le_sub_one_of_lt hfits)

/-- Settings that make sense have a threshold for errors. -/
theorem recoveryThreshold_pos_of_check {s : Settings} (h : s.check = .ok ()) :
    0 < s.membership.recoveryThreshold := by
  refine UInt32.pos_iff_ne_zero.2 fun hzero => ?_
  rw [check] at h
  simp only [hzero, if_true] at h
  split at h
  · cases h
  · split at h
    · cases h
    · split at h <;> cases h

/-! ## The buffer -/

namespace Membership

variable {m : Membership}

theorem toNat_bufferSize_iff :
    m.bufferSize.toNat = m.maxPacketSize.toNat + 1 ↔ m.maxPacketSize.toNat + 1 < UInt64.size := by
  have hlt := m.maxPacketSize.toNat_lt
  rw [bufferSize, UInt64.toNat_add, UInt64.toNat_one, UInt64.size]
  omega

theorem toNat_bufferSize (h : m.maxPacketSize.toNat < maxBufferSize) :
    m.bufferSize.toNat = m.maxPacketSize.toNat + 1 := by
  refine toNat_bufferSize_iff.2 ?_
  rw [maxBufferSize, UInt64.size] at h
  rw [UInt64.size]
  omega

theorem hasBuffer_of_lt (h : m.maxPacketSize.toNat < maxBufferSize) : m.hasBuffer = true := by
  rw [hasBuffer, toNat_bufferSize h]
  exact decide_eq_true h

/-- A limit to which one cannot be added makes an empty buffer. -/
theorem received_of_blind (h : maxBufferSize ≤ m.maxPacketSize.toNat) (hbuffer : m.hasBuffer = true)
    (datagram : List UInt8) : m.received datagram = [] := by
  have hle : m.bufferSize.toNat ≤ maxBufferSize := of_decide_eq_true hbuffer
  have hempty : m.bufferSize.toNat = 0 := by
    have hlt := m.maxPacketSize.toNat_lt
    rw [bufferSize, UInt64.toNat_add, UInt64.toNat_one, maxBufferSize, UInt64.size] at hle
    rw [maxBufferSize, UInt64.size] at h
    rw [bufferSize, UInt64.toNat_add, UInt64.toNat_one]
    omega
  rw [received, hempty, List.take_zero]

theorem received_of_le {datagram : List UInt8} (h : m.maxPacketSize.toNat < maxBufferSize)
    (hle : datagram.length ≤ m.maxPacketSize.toNat) : m.received datagram = datagram := by
  rw [received, toNat_bufferSize h]
  exact List.take_of_length_le (Nat.le_succ_of_le hle)

/-- Of a datagram that is too long one byte too many is received. -/
theorem lt_length_received {datagram : List UInt8} (h : m.maxPacketSize.toNat < maxBufferSize)
    (hlt : m.maxPacketSize.toNat < datagram.length) :
    m.maxPacketSize.toNat < (m.received datagram).length := by
  rw [received, toNat_bufferSize h, List.length_take]
  omega

end Membership

end Settings

/-! ## What arrives -/

namespace Beacon

theorem receiveRound_of_tooLong {b : Beacon} {bs : List UInt8}
    (h : b.settings.maxPacketSize.toNat < bs.length) (heardAt sweptAt : Nat) :
    b.receiveRound (.datagram bs) heardAt sweptAt =
      (((b.withErrors .receive 0).expire sweptAt).1, false,
        ((b.withErrors .receive 0).expire sweptAt).2) := by
  have hlong : (b.withErrors .receive 0).settings.maxPacketSize.toNat < bs.length := h
  rw [receiveRound]
  simp only [hlong, if_true, List.nil_append]

theorem receiveRound_of_le {b : Beacon} {bs : List UInt8}
    (h : bs.length ≤ b.settings.maxPacketSize.toNat) (heardAt sweptAt : Nat) :
    b.receiveRound (.datagram bs) heardAt sweptAt =
      let (event, b) := (b.withErrors .receive 0).hear bs heardAt
      (event.toList ++ (b.expire sweptAt).1, false, (b.expire sweptAt).2) := by
  have hshort : ¬(b.withErrors .receive 0).settings.maxPacketSize.toNat < bs.length :=
    Nat.not_lt_of_le h
  rw [receiveRound]
  simp only [hshort, if_false]

namespace Scene

variable {s : Scene} {datagram : List UInt8} {heardAt sweptAt : Nat}

/-- With its buffer the loop makes of a datagram what it makes of the whole one. -/
theorem arrive_eq_receive (h : s.beacon.settings.maxPacketSize.toNat < maxBufferSize) :
    s.arrive datagram heardAt sweptAt = s.receive (.datagram datagram) heardAt sweptAt := by
  simp only [arrive, Settings.Membership.hasBuffer_of_lt h, if_true]
  by_cases hle : datagram.length ≤ s.beacon.settings.maxPacketSize.toNat
  · rw [Settings.Membership.received_of_le h hle]
  · have hlong := Settings.Membership.lt_length_received h (Nat.lt_of_not_le hle)
    rw [receive, receive, receiveRound_of_tooLong hlong,
      receiveRound_of_tooLong (Nat.lt_of_not_le hle)]

/-- A datagram that is not too long is looked at whole. -/
theorem arrive_whole (h : s.beacon.settings.maxPacketSize.toNat < maxBufferSize)
    (hhears : s.beacon.hearing.isSome)
    (hle : datagram.length ≤ s.beacon.settings.maxPacketSize.toNat) :
    s.arrive datagram heardAt sweptAt =
      let (event, b) := (s.beacon.withErrors .receive 0).hear datagram heardAt
      (event.toList ++ (b.expire sweptAt).1, { s with beacon := (b.expire sweptAt).2 }) := by
  have hnot : s.beacon.hearing.isNone = false := by
    rw [Option.isNone_eq_false_iff]
    exact hhears
  rw [arrive_eq_receive h, receive, hnot, receiveRound_of_le hle]
  rfl

/-- Without its buffer the loop is blind: all datagrams are the same to it. -/
theorem arrive_of_blind (h : maxBufferSize ≤ s.beacon.settings.maxPacketSize.toNat)
    (datagram' : List UInt8) :
    s.arrive datagram heardAt sweptAt = s.arrive datagram' heardAt sweptAt := by
  simp only [arrive]
  split
  · rename_i hbuffer
    have hnothing := Settings.Membership.received_of_blind h hbuffer
    rw [hnothing datagram, hnothing datagram']
  · rfl

/-- **Theorem.** Suppose that the settings make sense. After any run of a beacon,

* the buffer has one byte more than a heartbeat may have, as far as that number goes;
* if there can be a buffer of that length, a datagram does what it says when it arrives, and one that is
  not too long is looked at whole; if there cannot, all datagrams are the same when they arrive;
* one more error can be counted, and then there are at most as many as the threshold;
* the attempts of a delivery are one more than the repetitions, as far as that number goes; and
* the sizes of heartbeats and frames, whose bodies are in memory, are computed as they are. -/
theorem limits_stay_in_range {settings : Settings} (haccepted : settings.check = .ok ())
    (self : Member) (roster : Roster) (moves : List Move) :
    let m := settings.membership
    let s : Scene := Scene.run ⟨{ settings := m, self, roster }, []⟩ moves
    (m.bufferSize.toNat = m.maxPacketSize.toNat + 1 ↔ m.maxPacketSize.toNat + 1 < UInt64.size) ∧
    (m.maxPacketSize.toNat < maxBufferSize → ∀ datagram heardAt sweptAt,
      s.arrive datagram heardAt sweptAt = s.receive (.datagram datagram) heardAt sweptAt ∧
      (s.beacon.hearing.isSome → datagram.length ≤ m.maxPacketSize.toNat →
        s.arrive datagram heardAt sweptAt =
          let (event, b) := (s.beacon.withErrors .receive 0).hear datagram heardAt
          (event.toList ++ (b.expire sweptAt).1, { s with beacon := (b.expire sweptAt).2 }))) ∧
    (maxBufferSize ≤ m.maxPacketSize.toNat → ∀ datagram datagram' heardAt sweptAt,
      s.arrive datagram heardAt sweptAt = s.arrive datagram' heardAt sweptAt) ∧
    (∀ side, (s.beacon.errors side + 1).toNat = (s.beacon.errors side).toNat + 1 ∧
      (s.beacon.errors side + 1).toNat ≤ m.recoveryThreshold.toNat) ∧
    ((UInt32.ofNat settings.delivery.attempts).toNat = settings.delivery.attempts ∧
      (settings.delivery.maxRetryAttempts.toNat + 1 < UInt32.size →
        settings.delivery.attempts = settings.delivery.maxRetryAttempts.toNat + 1)) ∧
    (∀ p : Heartbeat.Packet, p.body.length ≤ maxBufferSize →
      let size := UInt64.ofNat Heartbeat.headerSize + UInt64.ofNat p.body.length
      size.toNat = p.bytes.length ∧
        p.encode m.maxPacketSize.toNat =
          if m.maxPacketSize < size then .error (.tooLarge size.toNat m.maxPacketSize.toNat)
          else .ok p.bytes) ∧
    ∀ f : Frame, f.body.size ≤ maxBufferSize →
      (UInt64.ofNat Frame.headerSize + UInt64.ofNat f.body.size).toNat = f.wireSize ∧
        (Frame.checkSize f.wireSize = .ok () →
          BigEndian.value (BigEndian.bytes Frame.lengthWidth f.wireSize) = f.wireSize) := by
  intro m s
  obtain ⟨-, hbelow, hsettings⟩ := counted_run
    (Settings.recoveryThreshold_pos_of_check haccepted) self roster moves
  have hm : s.beacon.settings = m := hsettings
  refine ⟨Settings.Membership.toNat_bufferSize_iff, fun hroom datagram heardAt sweptAt => ⟨?_, ?_⟩,
    fun hblind datagram datagram' heardAt sweptAt => ?_, fun side => ?_,
    settings.delivery.attempts_by_words, fun p => Heartbeat.Packet.encode_by_words,
    fun f => Frame.wireSize_by_words⟩
  · exact arrive_eq_receive (hm ▸ hroom)
  · exact fun hhears hle => arrive_whole (hm ▸ hroom) hhears (hm ▸ hle)
  · exact arrive_of_blind (hm ▸ hblind) datagram'
  · have hone := toNat_errors_add_one (hbelow side)
    have hlt := UInt32.lt_iff_toNat_lt.1 (hbelow side)
    refine ⟨hone, ?_⟩
    rw [hone, ← hm]
    exact hlt

/-- What a receive loop hears that a member begins to speak, after an error. -/
theorem limits_stay_in_range_of_defaults :
    let settings : Settings := {}
    let moves : List Move := [.start ⟨true, false⟩ (.ok ()) 0, .receive .failed 1 1]
    let fresh : Scene := ⟨{ settings := {}, self := novice.self, roster := novice.roster }, []⟩
    let s := fresh.run moves
    settings.check = .ok () ∧ s.beacon.errors .receive = 1 ∧
      (s.beacon.errors .receive + 1).toNat = 2 ∧
      (s.arrive (Beacon.beat .alive) 2 2).1 =
        [.joined { id := ⟨2⟩, host := "10.0.0.2", port := 4000 }] := by
  intro settings moves fresh s
  obtain ⟨-, hwhole, -, hcounts, -⟩ :=
    limits_stay_in_range Settings.check_default novice.self novice.roster moves
  have hone : s.beacon.errors .receive = 1 := by decide +kernel
  obtain ⟨-, hlooked⟩ := hwhole (by decide) (Beacon.beat .alive) 2 2
  refine ⟨Settings.check_default, hone, ?_, ?_⟩
  · exact (hcounts .receive).1.trans (congrArg (·.toNat + 1) hone)
  · exact (congrArg Prod.fst (hlooked (by decide +kernel) (by decide +kernel))).trans
      (by decide +kernel)

/-- Although there is a loop that listens, a heartbeat within the limit is lost on it. -/
def LosesHeartbeat (m : Settings.Membership) : Prop :=
  let s : Scene := Scene.run ⟨{ novice with settings := m }, []⟩ [.start ⟨true, false⟩ (.ok ()) 0]
  s.beacon.hearing.isSome ∧ (Beacon.beat .alive).length ≤ m.maxPacketSize.toNat ∧
    (s.receive (.datagram (Beacon.beat .alive)) 0 0).1 ≠ [] ∧
    (s.arrive (Beacon.beat .alive) 0 0).1 = []

/-- Two limits that make sense. To the one no byte can be added, and a buffer of the other length and a
byte cannot be had. -/
theorem accepted_limits_blind_the_loop :
    let m : Settings.Membership := { maxPacketSize := 18446744073709551615 }
    let m' : Settings.Membership := { maxPacketSize := 9223372036854775807 }
    (Settings.check { membership := m } = .ok () ∧
      m.bufferSize.toNat ≠ m.maxPacketSize.toNat + 1 ∧ LosesHeartbeat m) ∧
    Settings.check { membership := m' } = .ok () ∧ m'.hasBuffer = false ∧ LosesHeartbeat m' := by
  unfold LosesHeartbeat
  decide +kernel

end Scene

end Beacon

end PeerCluster
