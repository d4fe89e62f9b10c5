import PeerCluster.Proofs.HeartbeatCodec
import PeerCluster.Proofs.MemberEvents

/-!
# Foreign traffic does not interfere

Anybody may send anything to the group. A datagram concerns a beacon if it is, byte for byte, what some
other member of the local domain writes (`Concerns`), and is foreign otherwise (`IsForeign`).

**One datagram.** What a beacon heeds is what concerns it (`heeded?_eq_some_iff`), because a datagram that
can be read is the one written form of what is read from it. So a foreign datagram leaves the beacon as it
is (`hear_of_foreign`), and one that concerns it touches its sender and nobody else.

**Runs** (`foreign_traffic_is_ignored`). Whatever foreign datagrams come in between, and whenever they do,
a run ends in the same state and reports the same. The beacon that takes a datagram in may have changed
its roster since the run began, but which datagrams are foreign is settled by what it never changes.
-/

namespace PeerCluster.Beacon

open Heartbeat (Packet)

variable {b b' : Beacon} {datagram : List UInt8} {p : Packet} {now : Nat}

/-! ## One datagram -/

/-- A datagram is exactly what another member of the local domain writes, within the limit. -/
structure Concerns (b : Beacon) (datagram : List UInt8) (p : Packet) : Prop where
  encoded : p.encode b.settings.maxPacketSize.toNat = .ok datagram
  notOwn : p.member.id ≠ b.self.id
  domain : p.member.domain = b.self.domain

/-- A datagram is nothing that another member of the local domain writes: it is garbled, cut, padded or
too long, comes from another domain, or echoes the local member. -/
def IsForeign (b : Beacon) (datagram : List UInt8) : Prop :=
  ∀ p, ¬ b.Concerns datagram p

theorem heeded?_eq_some_iff : b.heeded? datagram = some p ↔ b.Concerns datagram p := by
  have hcodec := fun q =>
    (Packet.decode_eq_ok_iff_encode_eq_ok datagram q b.settings.maxPacketSize).1
  rw [heeded?]
  cases hdecode : Packet.decode datagram b.settings.maxPacketSize.toNat with
  | error e =>
    constructor
    · intro h
      cases h
    · intro h
      rw [(hcodec p).2 h.encoded] at hdecode
      cases hdecode
  | ok q =>
    have hencode := (hcodec q).1 hdecode
    dsimp only
    constructor
    · intro h
      split at h
      · rename_i hpass
        obtain rfl := Option.some.inj h
        exact ⟨hencode, hpass.1, hpass.2⟩
      · cases h
    · intro h
      obtain rfl : q = p := Except.ok.inj (hdecode.symm.trans ((hcodec p).2 h.encoded))
      rw [if_pos ⟨h.notOwn, h.domain⟩]

theorem heeded?_eq_none_iff : b.heeded? datagram = none ↔ b.IsForeign datagram := by
  rw [Option.eq_none_iff_forall_ne_some]
  exact forall_congr' fun p => not_congr heeded?_eq_some_iff

theorem hear_of_foreign (h : b.IsForeign datagram) (now : Nat) : b.hear datagram now = (none, b) := by
  rw [hear_eq, heeded?_eq_none_iff.2 h, Option.elim_none]

theorem hear_of_concerns (h : b.Concerns datagram p) (now : Nat) :
    b.hear datagram now = b.heed p now := by
  rw [hear_eq, heeded?_eq_some_iff.2 h, Option.elim_some]

/-- A datagram that changes or reports something concerns the beacon. -/
theorem exists_concerns_of_hear (h : b.hear datagram now ≠ (none, b)) :
    ∃ p, b.Concerns datagram p :=
  Classical.not_forall_not.1 fun hforeign => h (hear_of_foreign hforeign now)

/-- The entries of everybody else stay as they are. -/
theorem get?_peers_hear_of_ne (h : b.Concerns datagram p) {id : MemberId} (hid : id ≠ p.member.id) :
    (b.hear datagram now).2.roster.peers.get? id = b.roster.peers.get? id := by
  rw [get?_peers_hear, heeded?_eq_some_iff.2 h]
  simp [hid.symm, Option.filter]

/-- A report is about the sender. -/
theorem id_of_fst_heed (hkeyed : b.roster.Keyed) {e : MemberEvent}
    (h : (b.heed p now).1 = some e) : e.member.id = p.member.id := by
  rw [heed] at h
  split at h
  · obtain ⟨m, hm, rfl⟩ := Option.map_eq_some_iff.1 h
    obtain ⟨entry, hentry, rfl⟩ := Option.map_eq_some_iff.1 hm
    exact hkeyed _ _ hentry
  · dsimp only at h
    split at h
    · obtain rfl := Option.some.inj h
      rfl
    · cases h

/-! ## Runs -/

/-- Which datagrams are foreign is settled by the station. -/
theorem SameStation.isForeign (h : SameStation b b') (hforeign : b.IsForeign datagram) :
    b'.IsForeign datagram := by
  rw [← heeded?_eq_none_iff, h.heeded?, heeded?_eq_none_iff]
  exact hforeign

theorem sameStation_take (b : Beacon) (i : Intake) : SameStation b (b.take i).2 := by
  cases i with
  | datagram bs now => exact sameStation_hear b bs now
  | sweep now => exact ⟨rfl, rfl, rfl⟩

/-- The second run is the first one with foreign datagrams put in anywhere, at any times. -/
inductive Disturbed (b : Beacon) : List Intake → List Intake → Prop
  | ends : Disturbed b [] []
  | keeps (i : Intake) {rest rest' : List Intake} :
    Disturbed b rest rest' → Disturbed b (i :: rest) (i :: rest')
  | putsIn {bs : List UInt8} (now : Nat) {inputs rest' : List Intake} :
    b.IsForeign bs → Disturbed b inputs rest' → Disturbed b inputs (.datagram bs now :: rest')

theorem SameStation.disturbed {inputs inputs' : List Intake} (h : SameStation b b')
    (hdisturbed : Disturbed b inputs inputs') : Disturbed b' inputs inputs' := by
  induction hdisturbed with
  | ends => exact .ends
  | keeps i _ ih => exact .keeps i ih
  | putsIn now hforeign _ ih => exact .putsIn now (h.isForeign hforeign) ih

theorem takeAll_of_disturbed {inputs inputs' : List Intake} (h : Disturbed b inputs inputs') :
    b.takeAll inputs' = b.takeAll inputs := by
  induction inputs' generalizing b inputs with
  | nil =>
    cases h
    rfl
  | cons i' rest' ih =>
    cases h with
    | keeps i hrest =>
      have hafter := ih ((sameStation_take b i').disturbed hrest)
      rw [takeAll, takeAll, hafter]
    | @putsIn bs now _ _ hforeign hrest =>
      have htake : b.take (.datagram bs now) = ([], b) := by
        rw [take, hear_of_foreign hforeign]
        rfl
      rw [takeAll, htake, ih hrest]
      rfl

/-- **Theorem.** A datagram that changes a beacon or makes it report something is exactly the encoding,
within the limit, of a heartbeat of another member of the local domain, and then only the entry of that
member is touched and only that member is reported on. Every such heartbeat is taken in as what it says.
So a run into which any other datagrams are put, anywhere and at any times, reports the same and ends in
the same state. -/
theorem foreign_traffic_is_ignored (b : Beacon) :
    (∀ datagram now, b.hear datagram now ≠ (none, b) →
      ∃ p : Packet, p.encode b.settings.maxPacketSize.toNat = .ok datagram ∧
        datagram.length ≤ b.settings.maxPacketSize.toNat ∧
        p.member.id ≠ b.self.id ∧ p.member.domain = b.self.domain ∧
        (∀ id ≠ p.member.id,
          (b.hear datagram now).2.roster.peers.get? id = b.roster.peers.get? id) ∧
        (b.roster.Keyed → ∀ e, (b.hear datagram now).1 = some e → e.member.id = p.member.id)) ∧
    (∀ datagram p now, b.Concerns datagram p → b.hear datagram now = b.heed p now) ∧
    ∀ inputs inputs', Disturbed b inputs inputs' → b.takeAll inputs' = b.takeAll inputs := by
  refine ⟨fun datagram now h => ?_, fun _ _ now h => hear_of_concerns h now,
    fun _ _ => takeAll_of_disturbed⟩
  obtain ⟨p, hconcerns⟩ := exists_concerns_of_hear h
  refine ⟨p, hconcerns.encoded, (Packet.encode_eq_ok_iff.1 hconcerns.encoded).2, hconcerns.notOwn,
    hconcerns.domain, fun id hid => get?_peers_hear_of_ne hconcerns hid, fun hkeyed e he => ?_⟩
  rw [hear_of_concerns hconcerns] at he
  exact id_of_fst_heed hkeyed he

/-- A peer joins and leaves among a cut heartbeat of its own, one of another domain and an echo of the
local member. -/
theorem foreign_traffic_is_ignored_of_noise :
    let stray : Packet := ⟨.alive, { id := ⟨2⟩, host := "10.0.0.2", port := 4000, domain := [1] }⟩
    let echo : Packet := ⟨.alive, novice.self⟩
    let inputs : List Intake := [.datagram (beat .alive) 10, .datagram (beat .shutdown) 20]
    let noisy : List Intake := [.datagram ((beat .shutdown).take 60) 5, .datagram (beat .alive) 10,
      .datagram stray.bytes 11, .datagram echo.bytes 12, .datagram (beat .shutdown) 20,
      .datagram [] 21]
    novice.takeAll noisy = novice.takeAll inputs ∧
      reportsOn ⟨2⟩ (novice.takeAll noisy).1 = [.joined, .left] := by
  intro stray echo inputs noisy
  have hdisturbed : Disturbed novice inputs noisy := by
    have hforeign : ∀ bs, novice.heeded? bs = none → novice.IsForeign bs :=
      fun _ => heeded?_eq_none_iff.1
    exact .putsIn _ (hforeign _ (by decide +kernel)) <| .keeps _ <|
      .putsIn _ (hforeign _ (by decide +kernel)) <| .putsIn _ (hforeign _ (by decide +kernel)) <|
      .keeps _ <| .putsIn _ (hforeign _ (by decide +kernel)) .ends
  have hsame := (foreign_traffic_is_ignored novice).2.2 inputs noisy hdisturbed
  refine ⟨hsame, ?_⟩
  rw [hsame]
  decide +kernel

end PeerCluster.Beacon
