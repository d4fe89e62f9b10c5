import PeerCluster.Member
import PeerCluster.Member.Map

/-!
# The roster of live peers

Every peer that has been heard from, with the time of its latest heartbeat. The clock is passed in,
in milliseconds. The local member is never on its own roster.
-/

namespace PeerCluster

/-- What became of a heartbeat. -/
inductive Arrival where
  /-- The first heartbeat of a peer. -/
  | added
  /-- A further heartbeat of a known peer. -/
  | updated
  /-- The local member's own heartbeat. -/
  | ignored
  deriving DecidableEq, Repr

/-- A peer, and when it was last heard from. -/
structure Roster.Entry where
  member : Member
  lastSeen : Nat
  deriving DecidableEq, Repr

/-- The peers that are known to live. -/
structure Roster where
  localId : MemberId
  peers : MemberMap Roster.Entry := {}

namespace Roster

/-- A known peer is heard from again: the time always counts, but what the heartbeat says only when
it is newer than what is known. -/
def Entry.hear (e : Entry) (m : Member) (now : Nat) : Entry :=
  ⟨if e.member.sequence < m.sequence then m else e.member, now⟩

/-- Records a heartbeat. -/
def hear (r : Roster) (m : Member) (now : Nat) : Arrival × Roster :=
  if m.id = r.localId then (.ignored, r)
  else match r.peers.get? m.id with
    | some e => (.updated, { r with peers := r.peers.insert m.id (e.hear m now) })
    | none => (.added, { r with peers := r.peers.insert m.id ⟨m, now⟩ })

/-- Whether a peer has been silent for longer than the given age. A clock that went back makes no
peer old. -/
def Entry.isOlder (maxAge now : Nat) (e : Entry) : Bool :=
  maxAge < now - e.lastSeen

/-- Drops the peers that have been silent for longer than the given age. -/
def expire (r : Roster) (maxAge now : Nat) : List Member × Roster :=
  let dropped := r.peers.filter fun _ e => e.isOlder maxAge now
  let kept := r.peers.filter fun _ e => !e.isOlder maxAge now
  (dropped.values.map Entry.member, { r with peers := kept })

/-- The peer with the given id. -/
def get? (r : Roster) (id : MemberId) : Option Member :=
  (r.peers.get? id).map Entry.member

/-- When the peer with the given id was last heard from. -/
def lastSeen? (r : Roster) (id : MemberId) : Option Nat :=
  (r.peers.get? id).map Entry.lastSeen

/-- Whether the peer with the given id is known. -/
def contains (r : Roster) (id : MemberId) : Bool :=
  r.peers.contains id

/-- Drops the peer with the given id. -/
def remove (r : Roster) (id : MemberId) : Option Member × Roster :=
  (r.get? id, { r with peers := r.peers.erase id })

/-- All peers. -/
def members (r : Roster) : List Member :=
  r.peers.values.map Entry.member

/-- How many peers are known. -/
def size (r : Roster) : Nat :=
  r.peers.size

/-- Whether no peer is known. -/
def isEmpty (r : Roster) : Bool :=
  r.peers.isEmpty

theorem get?_peers_of_isEmpty {r : Roster} (h : r.isEmpty) (id : MemberId) :
    r.peers.get? id = none := by
  rw [MemberMap.get?, List.isEmpty_iff.1 h]
  rfl

theorem contains_iff_lastSeen? {r : Roster} {id : MemberId} :
    r.contains id ↔ ∃ at_, r.lastSeen? id = some at_ := by
  rw [contains, MemberMap.contains, lastSeen?]
  cases r.peers.get? id <;> simp

/-! ## What a change does to one peer -/

@[simp] theorem localId_hear (r : Roster) (m : Member) (now : Nat) :
    (r.hear m now).2.localId = r.localId := by
  rw [hear]
  split
  · rfl
  · split <;> rfl

@[simp] theorem localId_expire (r : Roster) (maxAge now : Nat) :
    (r.expire maxAge now).2.localId = r.localId := rfl

@[simp] theorem localId_remove (r : Roster) (id : MemberId) :
    (r.remove id).2.localId = r.localId := rfl

/-- A heartbeat changes the entry of its sender only, and none if the sender is the local member. -/
theorem get?_peers_hear (r : Roster) (m : Member) (now : Nat) (id : MemberId) :
    (r.hear m now).2.peers.get? id =
      if id = m.id ∧ m.id ≠ r.localId then
        some ((r.peers.get? id).elim ⟨m, now⟩ fun e => e.hear m now)
      else r.peers.get? id := by
  rw [hear]
  by_cases hlocal : m.id = r.localId
  · simp [hlocal]
  · by_cases hid : id = m.id
    · subst hid
      cases h : r.peers.get? m.id <;> simp [hlocal, MemberMap.get?_insert]
    · cases h : r.peers.get? m.id <;> simp [hlocal, hid, MemberMap.get?_insert]

theorem fst_hear (r : Roster) (m : Member) (now : Nat) :
    (r.hear m now).1 =
      if m.id = r.localId then .ignored else if r.contains m.id then .updated else .added := by
  rw [hear, contains, MemberMap.contains]
  by_cases hlocal : m.id = r.localId
  · simp [hlocal]
  · cases h : r.peers.get? m.id <;> simp [hlocal]

theorem get?_peers_expire (r : Roster) (maxAge now : Nat) (id : MemberId) :
    (r.expire maxAge now).2.peers.get? id =
      (r.peers.get? id).filter fun e => !e.isOlder maxAge now :=
  MemberMap.get?_filter _ _ id

theorem get?_peers_remove (r : Roster) (gone id : MemberId) :
    (r.remove gone).2.peers.get? id = if id = gone then none else r.peers.get? id :=
  MemberMap.get?_erase _ gone id

/-- Every entry stands under the id of its member. -/
def Keyed (r : Roster) : Prop :=
  ∀ id e, r.peers.get? id = some e → e.member.id = id

theorem Keyed.hear {r : Roster} (h : r.Keyed) (m : Member) (now : Nat) :
    (r.hear m now).2.Keyed := by
  intro id e he
  rw [get?_peers_hear] at he
  split at he
  · rename_i hid
    obtain rfl := Option.some.inj he
    cases hold : r.peers.get? id with
    | none => exact hid.1.symm
    | some old =>
      have hkey := h id old hold
      simp only [Option.elim_some, Entry.hear]
      split
      · exact hid.1.symm
      · exact hkey
  · exact h id e he

theorem Keyed.expire {r : Roster} (h : r.Keyed) (maxAge now : Nat) :
    (r.expire maxAge now).2.Keyed := by
  intro id e he
  rw [get?_peers_expire, Option.filter_eq_some_iff] at he
  exact h id e he.1

theorem Keyed.remove {r : Roster} (h : r.Keyed) (gone : MemberId) :
    (r.remove gone).2.Keyed := by
  intro id e he
  rw [get?_peers_remove] at he
  split at he
  · cases he
  · exact h id e he

/-- The silent peers that are dropped, seen at one id: the peer of that id, if it is silent. -/
theorem filter_fst_expire {r : Roster} (h : r.Keyed) (maxAge now : Nat) (id : MemberId) :
    (r.expire maxAge now).1.filter (fun m => m.id = id) =
      ((r.peers.get? id).filter fun e => e.isOlder maxAge now).toList.map Entry.member := by
  have hkeyed : ∀ k e, (r.peers.filter fun _ e => e.isOlder maxAge now).get? k = some e →
      e.member.id = k := by
    intro k e he
    rw [MemberMap.get?_filter, Option.filter_eq_some_iff] at he
    exact h k e he.1
  have hget := MemberMap.get?_filter r.peers (fun _ e => e.isOlder maxAge now) id
  rw [expire, List.filter_map, ← hget]
  exact congrArg _ (MemberMap.filter_values hkeyed id)

end Roster

end PeerCluster
