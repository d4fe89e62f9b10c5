import PeerCluster.Beacon

/-!
# What a beacon heeds

A datagram passes three filters before it touches the roster: it has to be a heartbeat, it must not
be the local member's own, and it has to carry the local domain. `heeded?` is the heartbeat that
passes them. Everything that a beacon does with a datagram is a function of it (`hear_eq`), and what
it does to one peer is said here once for hearing (`get?_peers_hear`) and once for the look at the
clock (`get?_peers_expire`), so that no later proof opens either of them.
-/

namespace PeerCluster.Beacon

open Heartbeat (Packet)

/-- The heartbeat in a datagram, if the beacon heeds it: it can be read, it is not the local
member's own, and it carries the local domain. -/
def heeded? (b : Beacon) (datagram : List UInt8) : Option Packet :=
  match Packet.decode datagram b.settings.maxPacketSize.toNat with
  | .ok p => if p.member.id ≠ b.self.id ∧ p.member.domain = b.self.domain then some p else none
  | .error _ => none

theorem id_ne_of_heeded {b : Beacon} {datagram : List UInt8} {p : Packet}
    (h : b.heeded? datagram = some p) : p.member.id ≠ b.self.id := by
  rw [heeded?] at h
  split at h
  · split at h
    · rename_i hpass
      obtain rfl := Option.some.inj h
      exact hpass.1
    · cases h
  · cases h

/-- What a heeded heartbeat changes. -/
def heed (b : Beacon) (p : Packet) (now : Nat) : Option MemberEvent × Beacon :=
  if p.isShutdown then
    ((b.roster.get? p.member.id).map .left,
      { b with roster := (b.roster.remove p.member.id).2 })
  else
    (if (b.roster.hear p.member now).1 = .added then some (.joined p.member) else none,
      { b with roster := (b.roster.hear p.member now).2 })

theorem hear_eq (b : Beacon) (datagram : List UInt8) (now : Nat) :
    b.hear datagram now = (b.heeded? datagram).elim (none, b) fun p => b.heed p now := by
  rw [hear, heeded?]
  cases Packet.decode datagram b.settings.maxPacketSize.toNat with
  | error e => rfl
  | ok p =>
    by_cases hpass : p.member.id ≠ b.self.id ∧ p.member.domain = b.self.domain
    · have hnot : ¬ (p.member.id = b.self.id ∨ p.member.domain ≠ b.self.domain) := by
        intro h
        rcases h with hid | hdomain
        · exact hpass.1 hid
        · exact hdomain hpass.2
      simp only [if_pos hpass, if_neg hnot, Option.elim_some]
      rfl
    · have hor : p.member.id = b.self.id ∨ p.member.domain ≠ b.self.domain := by
        rcases Decidable.not_and_iff_or_not.1 hpass with hid | hdomain
        · exact .inl (Decidable.not_not.1 hid)
        · exact .inr hdomain
      simp only [if_neg hpass, if_pos hor, Option.elim_none]

/-! ## What stays as it is -/

/-- The second beacon differs from the first in its roster only. -/
structure SameStation (b b' : Beacon) : Prop where
  settings : b'.settings = b.settings
  self : b'.self = b.self
  localId : b'.roster.localId = b.roster.localId

theorem SameStation.trans {b b' b'' : Beacon} (h : SameStation b b') (h' : SameStation b' b'') :
    SameStation b b'' :=
  ⟨h'.settings.trans h.settings, h'.self.trans h.self, h'.localId.trans h.localId⟩

theorem sameStation_hear (b : Beacon) (datagram : List UInt8) (now : Nat) :
    SameStation b (b.hear datagram now).2 := by
  rw [hear_eq]
  cases b.heeded? datagram with
  | none => exact ⟨rfl, rfl, rfl⟩
  | some p =>
    simp only [Option.elim_some, heed]
    split
    · exact ⟨rfl, rfl, rfl⟩
    · exact ⟨rfl, rfl, Roster.localId_hear _ _ _⟩

/-- Which heartbeats are heeded is settled by the station. -/
theorem SameStation.heeded? {b b' : Beacon} (h : SameStation b b') (datagram : List UInt8) :
    b'.heeded? datagram = b.heeded? datagram := by
  rw [Beacon.heeded?, Beacon.heeded?, h.settings, h.self]

/-! ## One peer -/

/-- A datagram touches the entry of the peer that sent it, and no other. -/
theorem get?_peers_hear (b : Beacon) (datagram : List UInt8) (now : Nat) (id : MemberId) :
    (b.hear datagram now).2.roster.peers.get? id =
      match (b.heeded? datagram).filter fun p => p.member.id = id with
      | none => b.roster.peers.get? id
      | some p =>
        if p.isShutdown then none
        else if id = b.roster.localId then b.roster.peers.get? id
        else some ((b.roster.peers.get? id).elim ⟨p.member, now⟩ fun e => e.hear p.member now) := by
  rw [hear_eq]
  cases b.heeded? datagram with
  | none => rfl
  | some p =>
    simp only [Option.elim_some, heed]
    by_cases hid : p.member.id = id
    · subst hid
      by_cases hdown : p.isShutdown
      · simp [hdown, Roster.get?_peers_remove, Option.filter]
      · by_cases hlocal : p.member.id = b.roster.localId <;>
          simp [hdown, hlocal, Roster.get?_peers_hear, Option.filter]
    · by_cases hdown : p.isShutdown <;>
        simp [hdown, hid, Ne.symm hid, Roster.get?_peers_remove, Roster.get?_peers_hear,
          Option.filter]

theorem get?_peers_expire (b : Beacon) (now : Nat) (id : MemberId) :
    (b.expire now).2.roster.peers.get? id =
      (b.roster.peers.get? id).filter fun e =>
        !e.isOlder b.settings.expirationMs.toNat now :=
  Roster.get?_peers_expire _ _ _ id

/-! ## A beacon and a peer for examples -/

/-- A beacon that has heard nothing yet. -/
def novice : Beacon :=
  { settings := {}
    self := { id := ⟨1⟩, host := "10.0.0.1", port := 4000 }
    roster := { localId := ⟨1⟩ } }

/-- A datagram of a peer of the novice. -/
def beat (command : Heartbeat.Command) : List UInt8 :=
  (Packet.mk command { id := ⟨2⟩, host := "10.0.0.2", port := 4000 }).bytes

end PeerCluster.Beacon
