import PeerCluster.Roster
import Mathlib.Data.List.MinMax

/-!
# A roster is a fold of its history

A roster keeps one member and one time for each peer. What it keeps of a peer is a function of what
has been heard of that peer since it was last dropped, and of nothing else: `heard` folds a whole
history into that list, and `folding?` reads off it what the roster keeps.

**Theorem (`roster_folds_history`).** After any history of a roster,

* *the local member* is not on it, and every peer stands under its own id;
* *a peer* is known exactly if it has been heard from since it was last dropped; it was last seen
  when it was last heard from; and what is known of it is the first of the heartbeats with the
  highest number among those;
* *a look at the clock* drops, once each, exactly the peers whose silence is longer than allowed, and
  leaves the others as they were; and
* *a change* that names a peer touches no other.

The clock readings of a history are arbitrary. A clock that has gone back makes no peer old, since
times are subtracted as natural numbers.
-/

namespace PeerCluster.Roster

/-! ## Histories -/

/-- What may happen to a roster. -/
inductive Change where
  | hears (m : Member) (now : Nat)
  | expires (maxAge now : Nat)
  | removes (id : MemberId)

/-- The peer that a change names. -/
def Change.named? : Change → Option MemberId
  | .hears m _ => some m.id
  | .expires .. => none
  | .removes id => some id

/-- The roster after a change. -/
def change (r : Roster) : Change → Roster
  | .hears m now => (r.hear m now).2
  | .expires maxAge now => (r.expire maxAge now).2
  | .removes id => (r.remove id).2

/-- The roster after a history that began with an empty one. -/
def after (localId : MemberId) (history : List Change) : Roster :=
  history.foldl change { localId }

/-- Whether the latest of the heartbeats of a peer is older than allowed. -/
def isSilent (maxAge now : Nat) (heartbeats : List (Member × Nat)) : Bool :=
  heartbeats.getLast?.any fun latest => maxAge < now - latest.2

/-- The heartbeats of a peer after a change, given those before. -/
def note (id : MemberId) (heartbeats : List (Member × Nat)) : Change → List (Member × Nat)
  | .hears m now => if m.id = id then heartbeats ++ [(m, now)] else heartbeats
  | .expires maxAge now => if isSilent maxAge now heartbeats then [] else heartbeats
  | .removes gone => if gone = id then [] else heartbeats

/-- The heartbeats of a peer, and when each was heard, since the peer was last dropped. -/
def heard (id : MemberId) (history : List Change) : List (Member × Nat) :=
  history.foldl (note id) []

/-- The first of the heartbeats with the highest number. -/
def newest? (heartbeats : List (Member × Nat)) : Option Member :=
  (heartbeats.map Prod.fst).argmax fun m => m.sequence.toNat

/-- What is kept of a peer with the given heartbeats. -/
def folding? (heartbeats : List (Member × Nat)) : Option Entry :=
  (newest? heartbeats).bind fun m => heartbeats.getLast?.map fun latest => ⟨m, latest.2⟩

theorem after_concat (localId : MemberId) (history : List Change) (c : Change) :
    after localId (history ++ [c]) = (after localId history).change c := by
  simp [after]

theorem heard_concat (id : MemberId) (history : List Change) (c : Change) :
    heard id (history ++ [c]) = note id (heard id history) c := by
  simp [heard]

/-! ## What is kept of a peer -/

theorem newest?_concat (heartbeats : List (Member × Nat)) (m : Member) (now : Nat) :
    newest? (heartbeats ++ [(m, now)]) =
      some ((newest? heartbeats).elim m fun known =>
        if known.sequence < m.sequence then m else known) := by
  unfold newest?
  rw [List.map_append, List.map_cons, List.map_nil, List.argmax_concat]
  cases (heartbeats.map Prod.fst).argmax fun m => m.sequence.toNat with
  | none => rfl
  | some known =>
    by_cases hnewer : known.sequence < m.sequence
    · simp [hnewer, UInt64.lt_iff_toNat_lt.1 hnewer]
    · have hnot : ¬ known.sequence.toNat < m.sequence.toNat := fun h =>
        hnewer (UInt64.lt_iff_toNat_lt.2 h)
      simp [hnewer, hnot]

theorem newest?_eq_none_iff {heartbeats : List (Member × Nat)} :
    newest? heartbeats = none ↔ heartbeats = [] := by
  rw [newest?, List.argmax_eq_none, List.map_eq_nil_iff]

theorem folding?_eq_none_iff {heartbeats : List (Member × Nat)} :
    folding? heartbeats = none ↔ heartbeats = [] := by
  constructor
  · intro h
    by_contra hne
    obtain ⟨m, hm⟩ := Option.ne_none_iff_exists'.1 (mt newest?_eq_none_iff.1 hne)
    rw [folding?, hm, List.getLast?_eq_some_getLast hne] at h
    cases h
  · rintro rfl
    rfl

theorem member_folding? (heartbeats : List (Member × Nat)) :
    (folding? heartbeats).map Entry.member = newest? heartbeats := by
  unfold folding?
  cases hnewest : newest? heartbeats with
  | none => rfl
  | some m =>
    have hne : heartbeats ≠ [] := fun hnil => by
      rw [newest?_eq_none_iff.2 hnil] at hnewest
      cases hnewest
    rw [List.getLast?_eq_some_getLast hne]
    rfl

theorem lastSeen_folding? (heartbeats : List (Member × Nat)) :
    (folding? heartbeats).map Entry.lastSeen = heartbeats.getLast?.map Prod.snd := by
  unfold folding?
  cases hnewest : newest? heartbeats with
  | none =>
    rw [newest?_eq_none_iff.1 hnewest]
    rfl
  | some m => cases heartbeats.getLast? <;> rfl

theorem folding?_concat (heartbeats : List (Member × Nat)) (m : Member) (now : Nat) :
    folding? (heartbeats ++ [(m, now)]) =
      some ((folding? heartbeats).elim ⟨m, now⟩ fun e => e.hear m now) := by
  have hmember := member_folding? heartbeats
  rw [folding?, newest?_concat, List.getLast?_concat, ← hmember]
  cases folding? heartbeats <;> rfl

theorem isSilent_eq (maxAge now : Nat) (heartbeats : List (Member × Nat)) :
    isSilent maxAge now heartbeats = (folding? heartbeats).any fun e => e.isOlder maxAge now := by
  have hlastSeen := lastSeen_folding? heartbeats
  unfold isSilent
  cases hentry : folding? heartbeats with
  | none => rw [folding?_eq_none_iff.1 hentry]; rfl
  | some e =>
    rw [hentry] at hlastSeen
    cases hlatest : heartbeats.getLast? with
    | none => rw [hlatest] at hlastSeen; cases hlastSeen
    | some latest =>
      rw [hlatest] at hlastSeen
      have htime : e.lastSeen = latest.2 := Option.some.inj hlastSeen
      simp [Entry.isOlder, htime]

/-! ## One change -/

/-- A change does to the entry of a peer what it does to the heartbeats that are noted of it. -/
theorem get?_peers_change {r : Roster} {id : MemberId} {heartbeats : List (Member × Nat)}
    (hid : id ≠ r.localId) (h : r.peers.get? id = folding? heartbeats) (c : Change) :
    (r.change c).peers.get? id = folding? (note id heartbeats c) := by
  cases c with
  | hears m now =>
    rw [change, get?_peers_hear, note]
    by_cases hm : m.id = id
    · subst hm
      rw [if_pos ⟨rfl, hid⟩, if_pos rfl, folding?_concat, h]
    · rw [if_neg fun hboth => hm hboth.1.symm, if_neg hm, h]
  | expires maxAge now =>
    rw [change, get?_peers_expire, note, isSilent_eq, h]
    cases hentry : folding? heartbeats with
    | none => simp [hentry]
    | some e =>
      by_cases hold : e.isOlder maxAge now
      · simp only [Option.any_some, hold, if_true]
        exact Option.filter_some_neg (by simp [hold])
      · simp [hold, hentry, Option.filter]
  | removes gone =>
    rw [change, get?_peers_remove, note]
    by_cases hgone : gone = id
    · rw [if_pos hgone.symm, if_pos hgone]
      rfl
    · rw [if_neg (Ne.symm hgone), if_neg hgone, h]

theorem localId_change (r : Roster) (c : Change) : (r.change c).localId = r.localId := by
  cases c with
  | hears m now => exact localId_hear r m now
  | expires maxAge now => rfl
  | removes gone => rfl

/-- The local member never gets onto its own roster. -/
theorem get?_peers_owner_change {r : Roster} {owner : MemberId} (howner : r.localId = owner)
    (h : r.peers.get? owner = none) (c : Change) : (r.change c).peers.get? owner = none := by
  cases c with
  | hears m now =>
    rw [change, get?_peers_hear, if_neg, h]
    rintro ⟨hid, hne⟩
    exact hne (hid.symm.trans howner.symm)
  | expires maxAge now => rw [change, get?_peers_expire, h]; rfl
  | removes gone => rw [change, get?_peers_remove, h, ite_self]

theorem Keyed.change {r : Roster} (h : r.Keyed) (c : Change) : (r.change c).Keyed := by
  cases c with
  | hears m now => exact h.hear m now
  | expires maxAge now => exact h.expire maxAge now
  | removes gone => exact h.remove gone

/-- A change that names a peer touches no other. -/
theorem get?_peers_change_of_named {c : Change} {id named : MemberId} (r : Roster)
    (hnamed : c.named? = some named) (hid : id ≠ named) :
    (r.change c).peers.get? id = r.peers.get? id := by
  cases c with
  | hears m now =>
    obtain rfl := Option.some.inj hnamed
    rw [change, get?_peers_hear, if_neg fun hboth => hid hboth.1]
  | expires maxAge now => cases hnamed
  | removes gone =>
    obtain rfl := Option.some.inj hnamed
    rw [change, get?_peers_remove, if_neg hid]

/-! ## A look at the clock -/

/-- The peers that a look at the clock drops, by their ids. -/
theorem mem_fst_expire {r : Roster} (hkeyed : r.Keyed) {maxAge now : Nat} {m : Member} :
    m ∈ (r.expire maxAge now).1 ↔
      ∃ e, r.peers.get? m.id = some e ∧ e.member = m ∧ e.isOlder maxAge now = true := by
  have hfilter := filter_fst_expire hkeyed maxAge now m.id
  have hmem : m ∈ (r.expire maxAge now).1 ↔
      m ∈ (r.expire maxAge now).1.filter fun k => k.id = m.id := by simp
  rw [hmem, hfilter]
  cases r.peers.get? m.id with
  | none => simp [Option.filter]
  | some e =>
    by_cases hold : e.isOlder maxAge now
    · simp [hold, Option.filter, eq_comm (a := m)]
    · simp [hold, Option.filter]

/-- No peer is dropped twice. -/
theorem nodup_fst_expire {r : Roster} (hkeyed : r.Keyed) (maxAge now : Nat) :
    ((r.expire maxAge now).1.map Member.id).Nodup := by
  rw [List.nodup_iff_count]
  intro id
  have hfilter := filter_fst_expire hkeyed maxAge now id
  have hcount : ((r.expire maxAge now).1.map Member.id).count id =
      ((r.expire maxAge now).1.filter fun m => m.id = id).length := by
    rw [List.count, List.countP_map, List.countP_eq_length_filter]
    rfl
  rw [hcount, hfilter, List.length_map]
  cases (r.peers.get? id).filter fun e => e.isOlder maxAge now <;> simp

/-- A look at the clock takes out the peers that it gives back, and touches no other. -/
theorem get?_peers_expire_eq {r : Roster} (hkeyed : r.Keyed) (maxAge now : Nat) (id : MemberId) :
    (r.expire maxAge now).2.peers.get? id =
      if id ∈ (r.expire maxAge now).1.map Member.id then none else r.peers.get? id := by
  have hmem : id ∈ (r.expire maxAge now).1.map Member.id ↔
      ∃ e, r.peers.get? id = some e ∧ e.isOlder maxAge now = true := by
    rw [List.mem_map]
    constructor
    · rintro ⟨m, hm, rfl⟩
      obtain ⟨e, he, -, hold⟩ := (mem_fst_expire hkeyed).1 hm
      exact ⟨e, he, hold⟩
    · rintro ⟨e, he, hold⟩
      have hkey := hkeyed id e he
      exact ⟨e.member, (mem_fst_expire hkeyed).2 ⟨e, hkey ▸ he, rfl, hold⟩, hkey⟩
  rw [get?_peers_expire]
  cases hget : r.peers.get? id with
  | none => rw [ite_self]; rfl
  | some e =>
    by_cases hold : e.isOlder maxAge now
    · rw [if_pos (hmem.2 ⟨e, hget, hold⟩)]
      simp [hold, Option.filter]
    · rw [if_neg fun h => ?_]
      · simp [hold, Option.filter]
      · obtain ⟨e', he', hold'⟩ := hmem.1 h
        rw [hget] at he'
        obtain rfl := Option.some.inj he'
        exact hold hold'

/-! ## Whole histories -/

/-- What holds of a roster after any history. -/
structure Folded (owner : MemberId) (history : List Change) (r : Roster) : Prop where
  localId : r.localId = owner
  keyed : r.Keyed
  absent : r.peers.get? owner = none
  entry : ∀ id, id ≠ owner → r.peers.get? id = folding? (heard id history)

theorem folded_after (localId : MemberId) (history : List Change) :
    Folded localId history (after localId history) := by
  induction history using List.reverseRecOn with
  | nil => exact ⟨rfl, nofun, rfl, fun _ _ => rfl⟩
  | append_singleton history c ih =>
    rw [after_concat]
    have hlocal := ih.localId
    refine ⟨(localId_change _ c).trans hlocal, ih.keyed.change c, ?_, fun id hid => ?_⟩
    · exact get?_peers_owner_change hlocal ih.absent c
    · rw [heard_concat]
      exact get?_peers_change (by rwa [hlocal]) (ih.entry id hid) c

/-- **A roster is a fold of its history.** Whatever has happened to it, the local member is not on
it and every peer stands under its own id. A peer is known exactly if it has been heard from since it
was last dropped, was last seen when it was last heard from, and is known as the first of its
heartbeats with the highest number says. A look at the clock drops exactly the peers that have been
silent for too long, each once, and no other; and a change that names a peer touches no other. -/
theorem roster_folds_history (localId : MemberId) (history : List Change) :
    let r := after localId history
    (r.get? localId = none ∧ ∀ id m, r.get? id = some m → m.id = id) ∧
    (∀ id, id ≠ localId →
      (r.contains id = true ↔ heard id history ≠ []) ∧
      r.lastSeen? id = (heard id history).getLast?.map Prod.snd ∧
      r.get? id = newest? (heard id history)) ∧
    (∀ maxAge now,
      ((r.expire maxAge now).1.map Member.id).Nodup ∧
      (∀ m, m ∈ (r.expire maxAge now).1 ↔ r.get? m.id = some m ∧
        ∃ at_, r.lastSeen? m.id = some at_ ∧ maxAge < now - at_) ∧
      ∀ id, (r.change (.expires maxAge now)).peers.get? id =
        if id ∈ (r.expire maxAge now).1.map Member.id then none else r.peers.get? id) ∧
    ∀ c id named, c.named? = some named → id ≠ named →
      (r.change c).peers.get? id = r.peers.get? id := by
  intro r
  have hfolded := folded_after localId history
  refine ⟨⟨?_, ?_⟩, ?_, ?_, ?_⟩
  · exact congrArg (Option.map Entry.member) hfolded.absent
  · intro id m hm
    obtain ⟨e, he, rfl⟩ := Option.map_eq_some_iff.1 hm
    exact hfolded.keyed id e he
  · intro id hid
    have hentry : r.peers.get? id = folding? (heard id history) := hfolded.entry id hid
    refine ⟨?_, ?_, ?_⟩
    · rw [contains, MemberMap.contains, hentry, Option.isSome_iff_ne_none, Ne, folding?_eq_none_iff]
    · rw [lastSeen?, hentry, lastSeen_folding?]
    · rw [get?, hentry, member_folding?]
  · intro maxAge now
    refine ⟨nodup_fst_expire hfolded.keyed maxAge now, fun m => ?_, fun id => ?_⟩
    · rw [mem_fst_expire hfolded.keyed, get?, lastSeen?]
      cases r.peers.get? m.id <;> simp [Entry.isOlder]
    · exact get?_peers_expire_eq hfolded.keyed maxAge now id
  · intro c id named hnamed hid
    exact get?_peers_change_of_named r hnamed hid

end PeerCluster.Roster
