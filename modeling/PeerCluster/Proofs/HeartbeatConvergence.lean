import PeerCluster.Proofs.Announcements
import PeerCluster.Proofs.MemberEvents
import Mathlib.Data.List.Induction
import Mathlib.Data.List.Nodup

/-!
# Heartbeats converge

Heartbeats travel in datagrams, which the network may lose, repeat and reorder. A beacon numbers what
it announces, and whoever hears it keeps what the newest announcement said.

The listener takes in datagrams and looks at the clock in any order. While it keeps the speaker, each
intake brings no announcement and changes nothing in what is known of the speaker, or it brings one,
which counts if it is newer (`take_cases`). So what is known of the speaker is what the delivered
announcement with the highest number said (`Keeps.known`).

**Theorem (`heartbeats_converge`).** As long as a listener keeps a speaker, the number that it knows
never falls, and it knows the speaker exactly as the speaker was when it composed the announcement
with the highest number that has been delivered. The newest announcement alone is enough to be known
by.

A datagram longer than the listener takes counts as lost. That does not happen where the speaker's own
limit is no greater.
-/

namespace PeerCluster.Beacon

open Heartbeat (Packet)

/-! ## One intake of the listener -/

/-- A listener that belongs to the domain of a speaker and is not the speaker. -/
structure Audience (speaker b : Beacon) : Prop where
  domain : b.self.domain = speaker.self.domain
  id : b.self.id ≠ speaker.self.id
  localId : b.roster.localId = b.self.id

/-- What is taken in is a copy of an announcement, and not too long for the listener. -/
def Intake.Carries (b : Beacon) (i : Intake) (a : Announcement) : Prop :=
  ∃ bs now, i = .datagram bs now ∧ a.datagram = some bs ∧
    bs.length ≤ b.settings.maxPacketSize.toNat

/-- What is taken in as a heartbeat of the speaker while it lives is a copy of an announcement. -/
def Intake.Genuine (speaker b : Beacon) (said : List Announcement) (i : Intake) : Prop :=
  ∀ bs now p, i = .datagram bs now → b.heeded? bs = some p → p.member.id = speaker.self.id →
    p.isShutdown = false → ∃ a ∈ said, a.datagram = some bs

theorem isSome_get? (r : Roster) (id : MemberId) : (r.get? id).isSome = r.contains id :=
  Option.isSome_map

section Listener

variable {b b' speaker : Beacon} {said : List Announcement} {inputs : List Intake} {i : Intake}

/-- What a datagram does to what is known of a peer. -/
theorem get?_hear (b : Beacon) (bs : List UInt8) (now : Nat) (id : MemberId) :
    (b.hear bs now).2.roster.get? id =
      match (b.heeded? bs).filter fun p => p.member.id = id with
      | none => b.roster.get? id
      | some p =>
        if p.isShutdown then none
        else if id = b.roster.localId then b.roster.get? id
        else some ((b.roster.get? id).elim p.member fun known =>
          if known.sequence < p.member.sequence then p.member else known) := by
  unfold Roster.get?
  rw [get?_peers_hear]
  cases (b.heeded? bs).filter fun p => p.member.id = id with
  | none => rfl
  | some p =>
    dsimp only
    split
    · rfl
    · split
      · rfl
      · cases b.roster.peers.get? id <;> rfl

/-- What a living peer says counts if it is newer. -/
theorem get?_hear_of_alive {bs : List UInt8} {p : Packet} (hheeded : b.heeded? bs = some p)
    (halive : p.isShutdown = false) (hforeign : p.member.id ≠ b.roster.localId) (now : Nat) :
    (b.hear bs now).2.roster.get? p.member.id =
      some ((b.roster.get? p.member.id).elim p.member fun known =>
        if known.sequence < p.member.sequence then p.member else known) := by
  rw [get?_hear, hheeded, Option.filter_some_pos (by simp)]
  simp only [halive, Bool.false_eq_true, if_false, if_neg hforeign]

/-- A look at the clock changes nothing in what is known of a peer that it keeps. -/
theorem get?_expire (b : Beacon) (now : Nat) {id : MemberId}
    (h : (b.expire now).2.roster.contains id = true) :
    (b.expire now).2.roster.get? id = b.roster.get? id := by
  unfold Roster.get?
  rw [contains_eq, get?_peers_expire, Option.isSome_iff_exists] at h
  obtain ⟨e, he⟩ := h
  rw [get?_peers_expire, he, (Option.filter_eq_some_iff.1 he).1]

/-- A copy of an announcement that is not too long for the listener is heeded as it was meant. -/
theorem Announcement.Follows.heeded {a : Announcement} {bs : List UInt8} (h : a.Follows speaker)
    (hdatagram : a.datagram = some bs) (hdomain : b.self.domain = speaker.self.domain)
    (hid : b.self.id ≠ speaker.self.id) (hsize : bs.length ≤ b.settings.maxPacketSize.toNat) :
    b.heeded? bs = some ⟨.alive, a.member⟩ := by
  obtain ⟨rfl, -⟩ := Packet.encode_eq_ok_iff.1 (h.datagram bs hdatagram)
  have hfits : Packet.Fits ⟨.alive, a.member⟩ :=
    Packet.fits_of_length_bytes_lt (Nat.lt_of_le_of_lt hsize b.settings.maxPacketSize.toNat_lt)
  unfold heeded?
  rw [Packet.decode_eq_ok_iff.2 ⟨hsize, hfits, rfl⟩]
  exact if_pos ⟨by rw [h.id]; exact hid.symm, by rw [h.domain, hdomain]⟩

theorem Audience.foreign (h : Audience speaker b) : speaker.self.id ≠ b.roster.localId := by
  rw [h.localId]
  exact h.id.symm

/-- A copy of an announcement is heeded as a heartbeat of the speaker. -/
theorem Announcement.Follows.heeded_of_carries {a : Announcement} {bs : List UInt8} {now : Nat}
    (h : a.Follows speaker) (haudience : Audience speaker b)
    (hcarries : Intake.Carries b (.datagram bs now) a) :
    b.heeded? bs = some ⟨.alive, a.member⟩ := by
  obtain ⟨bs', now', hi, hdatagram, hsize⟩ := hcarries
  cases hi
  exact h.heeded hdatagram haudience.domain haudience.id hsize

theorem length_le_of_heeded {bs : List UInt8} {p : Packet} (h : b.heeded? bs = some p) :
    bs.length ≤ b.settings.maxPacketSize.toNat := by
  by_contra hlarge
  rw [heeded?_of_too_large (Nat.lt_of_not_le hlarge)] at h
  cases h

/-- An intake that leaves the speaker known either brings no announcement and changes nothing in what
is known of the speaker, or brings one, which counts if it is newer. -/
theorem take_cases (haudience : Audience speaker b) (hfollows : ∀ a ∈ said, a.Follows speaker)
    (hgenuine : i.Genuine speaker b said)
    (hkept : (b.take i).2.roster.contains speaker.self.id = true) :
    ((∀ a ∈ said, ¬ i.Carries b a) ∧
        (b.take i).2.roster.get? speaker.self.id = b.roster.get? speaker.self.id) ∨
      ∃ a ∈ said, i.Carries b a ∧ (∀ a' ∈ said, i.Carries b a' → a'.member = a.member) ∧
        (b.take i).2.roster.get? speaker.self.id =
          some ((b.roster.get? speaker.self.id).elim a.member fun known =>
            if known.sequence < a.member.sequence then a.member else known) := by
  cases i with
  | sweep now =>
    refine .inl ⟨fun a ha hcarries => ?_, get?_expire b now hkept⟩
    obtain ⟨bs, at_, hi, -⟩ := hcarries
    cases hi
  | datagram bs now =>
    cases hfrom : (b.heeded? bs).filter fun p => p.member.id = speaker.self.id with
    | none =>
      have hget := get?_hear b bs now speaker.self.id
      rw [hfrom] at hget
      refine .inl ⟨fun a ha hcarries => ?_, hget⟩
      rw [(hfollows a ha).heeded_of_carries haudience hcarries,
        Option.filter_some_pos (by simpa using (hfollows a ha).id)] at hfrom
      cases hfrom
    | some p =>
      obtain ⟨hheard, hid⟩ := Option.filter_eq_some_iff.1 hfrom
      have hid : p.member.id = speaker.self.id := by simpa using hid
      cases hdown : p.isShutdown with
      | true =>
        have hgone : (b.hear bs now).2.roster.get? speaker.self.id = none := by
          rw [get?_hear, hfrom]
          exact if_pos hdown
        have hkept : (b.hear bs now).2.roster.contains speaker.self.id = true := hkept
        rw [← isSome_get?, hgone] at hkept
        cases hkept
      | false =>
        obtain ⟨a, ha, hdatagram⟩ := hgenuine bs now p rfl hheard hid hdown
        have hcarries : Intake.Carries b (.datagram bs now) a :=
          ⟨bs, now, rfl, hdatagram, length_le_of_heeded hheard⟩
        -- Whatever announcement the datagram is a copy of, it says the same.
        have hcontent {a' : Announcement} (ha' : a' ∈ said)
            (hcarries' : Intake.Carries b (.datagram bs now) a') : a'.member = p.member := by
          have hsame := ((hfollows a' ha').heeded_of_carries haudience hcarries').symm.trans hheard
          exact congrArg Packet.member (Option.some.inj hsame)
        refine .inr ⟨a, ha, hcarries, fun a' ha' hcarries' => ?_, ?_⟩
        · rw [hcontent ha' hcarries', hcontent ha hcarries]
        · rw [hcontent ha hcarries, ← hid]
          exact get?_hear_of_alive hheard hdown (by rw [hid]; exact haudience.foreign) now

/-! ## A run of the listener -/

theorem takeAll_concat (b : Beacon) (inputs : List Intake) (i : Intake) :
    (b.takeAll (inputs ++ [i])).2 = ((b.takeAll inputs).2.take i).2 := by
  induction inputs generalizing b with
  | nil => rfl
  | cons j rest ih => exact ih (b.take j).2

theorem sameStation_takeAll (b : Beacon) (inputs : List Intake) :
    SameStation b (b.takeAll inputs).2 := by
  induction inputs using List.reverseRecOn with
  | nil => exact ⟨rfl, rfl, rfl⟩
  | append_singleton inputs i ih =>
    rw [takeAll_concat]
    refine ih.trans ?_
    cases i with
    | sweep now => exact ⟨rfl, rfl, rfl⟩
    | datagram bs now => exact sameStation_hear _ bs now

theorem Audience.of_same (h : Audience speaker b) (hsame : SameStation b b') :
    Audience speaker b' :=
  ⟨by rw [hsame.self]; exact h.domain, by rw [hsame.self]; exact h.id,
    by rw [hsame.localId, hsame.self]; exact h.localId⟩

theorem SameStation.genuine (h : SameStation b b') (hgenuine : i.Genuine speaker b said) :
    i.Genuine speaker b' said := by
  intro bs now p hi hheeded
  rw [h.heeded?] at hheeded
  exact hgenuine bs now p hi hheeded

theorem SameStation.carries_iff (h : SameStation b b') {a : Announcement} :
    i.Carries b' a ↔ i.Carries b a := by
  unfold Intake.Carries
  rw [h.settings]

/-- A copy of an announcement has been taken in. -/
def Delivered (b : Beacon) (inputs : List Intake) (a : Announcement) : Prop :=
  ∃ i ∈ inputs, i.Carries b a

theorem delivered_concat {a : Announcement} :
    Delivered b (inputs ++ [i]) a ↔ Delivered b inputs a ∨ i.Carries b a := by
  simp [Delivered, or_and_right, exists_or]

/-- What a listener hears of a speaker while it keeps it. -/
structure Keeps (speaker b : Beacon) (said : List Announcement) (inputs : List Intake) :
    Prop where
  genuine : ∀ i ∈ inputs, i.Genuine speaker b said
  absent : b.roster.contains speaker.self.id = false
  kept : ∀ early, early <+: inputs → early ≠ [] →
    (b.takeAll early).2.roster.contains speaker.self.id = true

theorem Keeps.of_prefix {heard : List Intake} (h : Keeps speaker b said inputs)
    (hheard : heard <+: inputs) : Keeps speaker b said heard :=
  ⟨fun j hj => h.genuine j (hheard.subset hj), h.absent,
    fun early hearly hne => h.kept early (hearly.trans hheard) hne⟩

/-- The last intake of a run, seen from the beacon before it. -/
theorem Keeps.last_cases (haudience : Audience speaker b)
    (hfollows : ∀ a ∈ said, a.Follows speaker) (h : Keeps speaker b said (inputs ++ [i])) :
    ((∀ a ∈ said, ¬ i.Carries b a) ∧
        (b.takeAll (inputs ++ [i])).2.roster.get? speaker.self.id =
          (b.takeAll inputs).2.roster.get? speaker.self.id) ∨
      ∃ a ∈ said, i.Carries b a ∧ (∀ a' ∈ said, i.Carries b a' → a'.member = a.member) ∧
        (b.takeAll (inputs ++ [i])).2.roster.get? speaker.self.id =
          some (((b.takeAll inputs).2.roster.get? speaker.self.id).elim a.member fun known =>
            if known.sequence < a.member.sequence then a.member else known) := by
  have hsame := sameStation_takeAll b inputs
  have hkept := h.kept _ (List.prefix_refl _) (by simp)
  rw [takeAll_concat] at hkept ⊢
  have hcases := take_cases (haudience.of_same hsame) hfollows
    (hsame.genuine (h.genuine i (by simp))) hkept
  simpa only [hsame.carries_iff] using hcases

theorem Keeps.get?_nil (h : Keeps speaker b said inputs) :
    b.roster.get? speaker.self.id = none := by
  have habsent := h.absent
  rw [← isSome_get?, Option.isSome_eq_false_iff, Option.isNone_iff_eq_none] at habsent
  exact habsent

/-- **A kept speaker is known as its latest announcement says.** -/
theorem Keeps.known (haudience : Audience speaker b) (hfollows : ∀ a ∈ said, a.Follows speaker)
    (h : Keeps speaker b said inputs) (hne : inputs ≠ []) :
    ∃ a ∈ said, Delivered b inputs a ∧
      (b.takeAll inputs).2.roster.get? speaker.self.id = some a.member ∧
      ∀ a' ∈ said, Delivered b inputs a' → a'.member.sequence ≤ a.member.sequence := by
  induction inputs using List.reverseRecOn with
  | nil => exact absurd rfl hne
  | append_singleton inputs i ih =>
    rcases eq_or_ne inputs [] with rfl | hearlier
    · -- The first intake brings the speaker in.
      have hbefore : (b.takeAll []).2.roster.get? speaker.self.id = none := h.get?_nil
      rcases h.last_cases haudience hfollows with ⟨-, hget⟩ | ⟨a, ha, hcarries, hsame, hget⟩
      · have hkept := h.kept _ (List.prefix_refl _) hne
        rw [← isSome_get?, hget, hbefore] at hkept
        cases hkept
      · rw [hbefore] at hget
        refine ⟨a, ha, delivered_concat.2 (.inr hcarries), hget, fun a' ha' hdelivered => ?_⟩
        rcases delivered_concat.1 hdelivered with ⟨j, hj, -⟩ | hcarries'
        · cases hj
        · exact Nat.le_of_eq (by rw [hsame a' ha' hcarries'])
    · obtain ⟨a, ha, hdelivered, hknown, hlatest⟩ := ih (h.of_prefix (List.prefix_append _ _)) hearlier
      rcases h.last_cases haudience hfollows with ⟨hnone, hget⟩ | ⟨a₁, ha₁, hcarries, hsame, hget⟩
      · refine ⟨a, ha, delivered_concat.2 (.inl hdelivered), hget.trans hknown, fun a' ha' h' => ?_⟩
        rcases delivered_concat.1 h' with h' | h'
        · exact hlatest a' ha' h'
        · exact absurd h' (hnone a' ha')
      · rw [hknown, Option.elim_some] at hget
        by_cases hnewer : a.member.sequence < a₁.member.sequence
        · rw [if_pos hnewer] at hget
          refine ⟨a₁, ha₁, delivered_concat.2 (.inr hcarries), hget, fun a' ha' h' => ?_⟩
          rcases delivered_concat.1 h' with h' | h'
          · exact UInt64.le_trans (hlatest a' ha' h') (UInt64.le_of_lt hnewer)
          · exact Nat.le_of_eq (by rw [hsame a' ha' h'])
        · rw [if_neg hnewer] at hget
          refine ⟨a, ha, delivered_concat.2 (.inl hdelivered), hget, fun a' ha' h' => ?_⟩
          rcases delivered_concat.1 h' with h' | h'
          · exact hlatest a' ha' h'
          · rw [hsame a' ha' h']
            exact UInt64.not_lt.1 hnewer

/-- A listener that hears an announcement knows the speaker from then on. -/
theorem Keeps.concat (haudience : Audience speaker b) (hfollows : ∀ a ∈ said, a.Follows speaker)
    (h : Keeps speaker b said inputs) {a : Announcement} (ha : a ∈ said)
    (hcarries : i.Carries b a) : Keeps speaker b said (inputs ++ [i]) := by
  obtain ⟨bs, now, rfl, hdatagram, hsize⟩ := hcarries
  have hsame := sameStation_takeAll b inputs
  refine ⟨fun j hj => ?_, h.absent, fun early hearly hne => ?_⟩
  · rcases List.mem_append.1 hj with hj | hj
    · exact h.genuine j hj
    · intro bs' now' p hi _ _ _
      cases (List.mem_singleton.1 hj).symm.trans hi
      exact ⟨a, ha, hdatagram⟩
  · rcases List.prefix_concat_iff.1 hearly with rfl | hearly
    · have hfollows := hfollows a ha
      have hheeded : (b.takeAll inputs).2.heeded? bs = some ⟨.alive, a.member⟩ := by
        rw [hsame.heeded?]
        exact hfollows.heeded hdatagram haudience.domain haudience.id hsize
      have hget := get?_hear_of_alive hheeded rfl
        (by rw [hfollows.id]; exact (haudience.of_same hsame).foreign) now
      rw [takeAll_concat, ← isSome_get?, ← hfollows.id]
      exact Option.isSome_of_eq_some hget
    · exact h.kept early hearly hne

/-- Nothing but announcements is heard, in any order and any number of times: the speaker is kept. -/
theorem keeps_of_carries (haudience : Audience speaker b)
    (hfollows : ∀ a ∈ said, a.Follows speaker)
    (habsent : b.roster.contains speaker.self.id = false)
    (h : ∀ i ∈ inputs, ∃ a ∈ said, i.Carries b a) : Keeps speaker b said inputs := by
  induction inputs using List.reverseRecOn with
  | nil => exact ⟨nofun, habsent, fun early hearly hne => absurd (List.prefix_nil.1 hearly) hne⟩
  | append_singleton inputs i ih =>
    obtain ⟨a, ha, hcarries⟩ := h i (by simp)
    exact (ih fun j hj => h j (List.mem_append_left _ hj)).concat haudience hfollows ha hcarries

/-- An announcement is not too long for a listener that takes as much as the speaker sends. -/
theorem Announcement.Follows.carries {a : Announcement} {bs : List UInt8} (h : a.Follows speaker)
    (hlimit : speaker.settings.maxPacketSize ≤ b.settings.maxPacketSize)
    (hdatagram : a.datagram = some bs) (now : Nat) : Intake.Carries b (.datagram bs now) a := by
  obtain ⟨rfl, hsize⟩ := Packet.encode_eq_ok_iff.1 (h.datagram bs hdatagram)
  exact ⟨_, now, rfl, hdatagram, Nat.le_trans hsize hlimit⟩

end Listener

/-! ## Speaker and listener -/

theorem sequence_le_getLast {said : List Announcement} {newest : Announcement}
    (hincrease : said.Pairwise fun a a' => a.member.sequence.toNat < a'.member.sequence.toNat)
    (hnewest : said.getLast? = some newest) {a : Announcement} (ha : a ∈ said) :
    a.member.sequence ≤ newest.member.sequence := by
  obtain ⟨older, rfl⟩ := List.getLast?_eq_some_iff.1 hnewest
  rcases List.mem_append.1 ha with ha | ha
  · exact Nat.le_of_lt ((List.pairwise_append.1 hincrease).2.2 a ha newest (List.mem_singleton.2 rfl))
  · rw [List.mem_singleton.1 ha]
    exact UInt64.le_refl _

/-- **Heartbeats converge, whatever the network does.** As long as a listener keeps a speaker, it knows
the speaker exactly as the speaker was when it composed the announcement with the highest number of
all that have been delivered, and the number that it knows has never been higher. Once the newest
announcement is delivered, early or late, the speaker is known by it. No announcement is too long for
a listener that takes as much as the speaker sends. -/
theorem heartbeats_converge {s : Scene} {moves : List Move} {b : Beacon} {inputs : List Intake}
    (hcount : s.beacon.self.sequence.toNat + (s.along Scene.announced moves).length < UInt64.size)
    (haudience : Audience s.beacon b)
    (hkeeps : Keeps s.beacon b (s.along Scene.announced moves) inputs) :
    (inputs ≠ [] → ∃ a ∈ s.along Scene.announced moves, Delivered b inputs a ∧
      (b.takeAll inputs).2.roster.get? s.beacon.self.id = some a.member ∧
      (∀ a' ∈ s.along Scene.announced moves, Delivered b inputs a' → a' ≠ a →
        a'.member.sequence < a.member.sequence) ∧
      ∀ early, early <+: inputs → early ≠ [] → ∃ known,
        (b.takeAll early).2.roster.get? s.beacon.self.id = some known ∧
          known.sequence ≤ a.member.sequence) ∧
    (∀ newest, (s.along Scene.announced moves).getLast? = some newest →
      (Delivered b inputs newest →
        (b.takeAll inputs).2.roster.get? s.beacon.self.id = some newest.member) ∧
      ∀ i, i.Carries b newest →
        (b.takeAll (inputs ++ [i])).2.roster.get? s.beacon.self.id = some newest.member) ∧
    (s.beacon.settings.maxPacketSize ≤ b.settings.maxPacketSize →
      ∀ a ∈ s.along Scene.announced moves, ∀ bs, a.datagram = some bs →
        ∀ now, Intake.Carries b (.datagram bs now) a) := by
  obtain ⟨hfollows, hincrease⟩ := along_announced hcount
  generalize s.along Scene.announced moves = said at *
  have hdistinct {a a' : Announcement} (ha : a ∈ said) (ha' : a' ∈ said)
      (heq : a.member.sequence.toNat = a'.member.sequence.toNat) : a = a' :=
    List.inj_on_of_nodup_map (List.pairwise_map.2 (hincrease.imp Nat.ne_of_lt)) ha ha' heq
  have hnewest {heard : List Intake} (hkeeps : Keeps s.beacon b said heard) {newest : Announcement}
      (hlast : said.getLast? = some newest) (hdelivered : Delivered b heard newest) :
      (b.takeAll heard).2.roster.get? s.beacon.self.id = some newest.member := by
    have hne : heard ≠ [] := by
      rintro rfl
      obtain ⟨i, hi, -⟩ := hdelivered
      cases hi
    obtain ⟨a, ha, -, hknown, hlatest⟩ := hkeeps.known haudience hfollows hne
    have hmem := List.mem_of_getLast? hlast
    rw [hknown, hdistinct ha hmem (Nat.le_antisymm (sequence_le_getLast hincrease hlast ha)
      (hlatest newest hmem hdelivered))]
  refine ⟨fun hne => ?_, fun newest hlast => ⟨hnewest hkeeps hlast, fun i hcarries => ?_⟩,
    fun hlimit a ha bs hdatagram now => (hfollows a ha).carries hlimit hdatagram now⟩
  · obtain ⟨a, ha, hdelivered, hknown, hlatest⟩ := hkeeps.known haudience hfollows hne
    refine ⟨a, ha, hdelivered, hknown, fun a' ha' hdelivered' hother => ?_,
      fun early hearly hearlyne => ?_⟩
    · exact Nat.lt_of_le_of_ne (hlatest a' ha' hdelivered') fun heq => hother (hdistinct ha' ha heq)
    · obtain ⟨known, hmem, ⟨i, hi, hcarries⟩, hget, -⟩ :=
        (hkeeps.of_prefix hearly).known haudience hfollows hearlyne
      exact ⟨known.member, hget, hlatest known hmem ⟨i, hearly.subset hi, hcarries⟩⟩
  · exact hnewest (hkeeps.concat haudience hfollows (List.mem_of_getLast? hlast) hcarries) hlast
      (delivered_concat.2 (.inr hcarries))

/-- Four heartbeats with two changes of the payload, the third of which could not be sent. The second
is delivered before the first and again after it, and the fourth last. -/
theorem heartbeats_converge_of_reordered :
    let speaker : Scene := ⟨novice, []⟩
    let said := speaker.along Scene.announced
      [.start .all (.ok ()) 0, .goOn 0 (.ok ()), .payload [7], .beat 500 true, .beat 1000 false,
        .payload [8], .beat 1500 true]
    let listener : Beacon :=
      { settings := {}
        self := { id := ⟨2⟩, host := "10.0.0.2", port := 4000 }
        roster := { localId := ⟨2⟩ } }
    let copy (n now : Nat) : Intake := .datagram ((said[n]?.bind Announcement.datagram).getD []) now
    let inputs := [copy 1 10, copy 0 20, copy 1 30]
    said.map (fun a => a.member.sequence) = [1, 2, 3, 4] ∧
      (∃ known, (listener.takeAll inputs).2.roster.get? ⟨1⟩ = some known ∧
        known.sequence = 2 ∧ known.payload = [7]) ∧
      ∃ known, (listener.takeAll (inputs ++ [copy 3 40])).2.roster.get? ⟨1⟩ = some known ∧
        known.sequence = 4 ∧ known.payload = [8] := by
  intro speaker said listener copy inputs
  have hnumbers : said.map (fun a => a.member.sequence) = [1, 2, 3, 4] := by decide +kernel
  have hcount : speaker.beacon.self.sequence.toNat + said.length < UInt64.size := by decide +kernel
  have haudience : Audience speaker.beacon listener := ⟨rfl, by decide, rfl⟩
  have hfollows := (along_announced hcount).1
  have hcarries (n : Nat) (hn : n < 4) (now : Nat) :
      ∃ a, said[n]? = some a ∧ (copy n now).Carries listener a := by
    have hsent : ∀ n < 4, (said[n]?.bind Announcement.datagram).isSome := by decide +kernel
    obtain ⟨bs, hbs⟩ := Option.isSome_iff_exists.1 (hsent n hn)
    obtain ⟨a, ha, hdatagram⟩ := Option.bind_eq_some_iff.1 hbs
    refine ⟨a, ha, ?_⟩
    show Intake.Carries listener (.datagram ((said[n]?.bind Announcement.datagram).getD []) now) a
    rw [hbs, Option.getD_some]
    exact (hfollows a (List.mem_of_getElem? ha)).carries (Nat.le_refl _) hdatagram now
  have hheard (n : Nat) (hn : n < 4) (now : Nat) : ∃ a ∈ said, (copy n now).Carries listener a :=
    (hcarries n hn now).imp fun a ha => ⟨List.mem_of_getElem? ha.1, ha.2⟩
  have hkeeps : Keeps speaker.beacon listener said inputs := by
    refine keeps_of_carries haudience hfollows rfl ?_
    simp only [inputs, List.forall_mem_cons]
    exact ⟨hheard 1 (by decide) 10, hheard 0 (by decide) 20, hheard 1 (by decide) 30, nofun⟩
  obtain ⟨hlatest, hnewest, -⟩ := heartbeats_converge hcount haudience hkeeps
  refine ⟨hnumbers, ?_, ?_⟩
  · obtain ⟨a, -, -, hknown, -⟩ := hlatest (by simp [inputs])
    have hcontent : ((listener.takeAll inputs).2.roster.get? ⟨1⟩).map
        (fun m => (m.sequence, m.payload)) = some (2, [7]) := by decide +kernel
    have hknown : (listener.takeAll inputs).2.roster.get? ⟨1⟩ = some a.member := hknown
    rw [hknown] at hcontent
    exact ⟨a.member, hknown, congrArg Prod.fst (Option.some.inj hcontent),
      congrArg Prod.snd (Option.some.inj hcontent)⟩
  · obtain ⟨newest, hlast, hcopy⟩ := hcarries 3 (by decide) 40
    have hcontent : (said[3]?).map (fun a => (a.member.sequence, a.member.payload)) =
        some (4, [8]) := by decide +kernel
    rw [hlast] at hcontent
    have hlast : said.getLast? = some newest := by
      have hlength : said.length = 4 := by
        rw [← List.length_map fun a => a.member.sequence, hnumbers]
        rfl
      rw [List.getLast?_eq_getElem?, hlength]
      exact hlast
    exact ⟨newest.member, (hnewest newest hlast).2 _ hcopy,
      congrArg Prod.fst (Option.some.inj hcontent), congrArg Prod.snd (Option.some.inj hcontent)⟩

end PeerCluster.Beacon
